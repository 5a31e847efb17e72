/-
What `select` shows is a function of the record set.

The choice is a maximum of the eligible records by rank, update and id. The
ranks are the tiers of `preferences`, which say nothing of numbers. No two
records of a store have one id, so no two compare as equal, and the answer is
the same however the records are stored (`select_perm`).
-/
import TmuxAgents.Program.RecordMap

namespace TmuxAgents

/-- The record carries a result that is neither acknowledged nor superseded. -/
def StoredRecord.unseen (entry : StoredRecord) : Bool :=
  entry.result.any fun result => !result.acknowledged && !result.superseded

/-- The records a selection prefers, best first. -/
def preferences : List (StoredRecord → Bool) :=
  [fun entry => entry.record.status.isBlocked,
   fun entry => entry.record.status.isWorking,
   fun entry => entry.record.status == .error && entry.unseen,
   fun entry => entry.record.status == .done && entry.unseen,
   fun _ => true]

/-! ## The order of the records -/

theorem rank_blocked {e : StoredRecord} (h : e.record.status.isBlocked = true) : rank e = 4 := by
  unfold rank
  cases hs : e.record.status <;> simp_all [ProgramStatus.isBlocked]

theorem rank_working {e : StoredRecord} (h : e.record.status.isWorking = true) : rank e = 3 := by
  unfold rank
  cases hs : e.record.status <;> simp_all [ProgramStatus.isWorking]

theorem rank_error {e : StoredRecord} (h : e.record.status = .error) : rank e = if e.unseen then 2 else 0 := by
  unfold rank
  rw [h]
  rfl

theorem rank_done {e : StoredRecord} (h : e.record.status = .done) : rank e = if e.unseen then 1 else 0 := by
  unfold rank
  rw [h]
  rfl

theorem rank_idle {e : StoredRecord} (h : e.record.status = .idle) : rank e = 0 := by
  unfold rank
  rw [h]

/-- What a preference says of a record's rank. -/
theorem rank_of_preference {e : StoredRecord} :
    (e.record.status.isBlocked = true → rank e = 4) ∧ (e.record.status.isWorking = true → rank e = 3) ∧
      ((e.record.status == .error && e.unseen) = true → rank e = 2) ∧
      ((e.record.status == .done && e.unseen) = true → rank e = 1) := by
  refine ⟨rank_blocked, rank_working, fun h => ?_, fun h => ?_⟩
  · rw [Bool.and_eq_true, beq_iff_eq] at h
    rw [rank_error h.1, if_pos h.2]
  · rw [Bool.and_eq_true, beq_iff_eq] at h
    rw [rank_done h.1, if_pos h.2]

/-- **Ranks are tiers.** A record is of a preference whose records rank no lower, and records of an
earlier one rank higher. -/
theorem rank_tier (e : StoredRecord) : ∃ better tier worse, preferences = better ++ tier :: worse ∧ tier e = true ∧
    (∀ p ∈ better, ∀ e', p e' = true → rank e < rank e') ∧ ∀ e', tier e' = true → rank e ≤ rank e' := by
  have hr := fun e' : StoredRecord => rank_of_preference (e := e')
  by_cases hblocked : e.record.status.isBlocked = true
  · refine ⟨[], _, _, rfl, hblocked, fun _ hp => absurd hp List.not_mem_nil, fun e' h => ?_⟩
    rw [rank_blocked hblocked, (hr e').1 h]
  by_cases hworking : e.record.status.isWorking = true
  · refine ⟨preferences.take 1, _, _, rfl, hworking, fun p hp e' h => ?_, fun e' h => ?_⟩
    · rw [List.mem_singleton.mp hp] at h
      rw [rank_working hworking, (hr e').1 h]
      decide
    · rw [rank_working hworking, (hr e').2.1 h]
  by_cases herror : (e.record.status == .error && e.unseen) = true
  · have hrank := (hr e).2.2.1 herror
    refine ⟨preferences.take 2, _, _, rfl, herror, fun p hp e' h => ?_, fun e' h => ?_⟩
    · simp only [preferences, List.take_succ_cons, List.take_zero, List.mem_cons, List.not_mem_nil, or_false] at hp
      rcases hp with rfl | rfl
      · rw [hrank, (hr e').1 h]
        decide
      · rw [hrank, (hr e').2.1 h]
        decide
    · rw [hrank, (hr e').2.2.1 h]
  by_cases hdone : (e.record.status == .done && e.unseen) = true
  · have hrank := (hr e).2.2.2 hdone
    refine ⟨preferences.take 3, _, _, rfl, hdone, fun p hp e' h => ?_, fun e' h => ?_⟩
    · simp only [preferences, List.take_succ_cons, List.take_zero, List.mem_cons, List.not_mem_nil, or_false] at hp
      rcases hp with rfl | rfl | rfl
      · rw [hrank, (hr e').1 h]
        decide
      · rw [hrank, (hr e').2.1 h]
        decide
      · rw [hrank, (hr e').2.2.1 h]
        decide
    · rw [hrank, (hr e').2.2.2 h]
  -- What is left ranks lowest.
  have hrank : rank e = 0 := by
    cases hs : e.record.status with
    | idle => exact rank_idle hs
    | working _ => simp [hs, ProgramStatus.isWorking] at hworking
    | blocked _ _ => simp [hs, ProgramStatus.isBlocked] at hblocked
    | done =>
      rw [rank_done hs, if_neg fun hu => hdone (by rw [hs, hu]; rfl)]
    | error =>
      rw [rank_error hs, if_neg fun hu => herror (by rw [hs, hu]; rfl)]
  refine ⟨preferences.take 4, _, _, rfl, rfl, fun p hp e' h => ?_, fun e' _ => hrank ▸ Nat.zero_le _⟩
  simp only [preferences, List.take_succ_cons, List.take_zero, List.mem_cons, List.not_mem_nil, or_false] at hp
  rw [hrank]
  rcases hp with rfl | rfl | rfl | rfl
  · rw [(hr e').1 h]
    decide
  · rw [(hr e').2.1 h]
    decide
  · rw [(hr e').2.2.1 h]
    decide
  · rw [(hr e').2.2.2 h]
    decide

/-- The comparison is lexicographic. -/
theorem compareEntries_eq : compareEntries =
    compareLex (compareOn rank) (compareLex (compareOn fun entry => entry.updated)
      (compareOn fun entry : StoredRecord => entry.id.str)) := rfl

instance : Std.TransCmp compareEntries := by
  rw [compareEntries_eq]
  infer_instance

theorem id_eq_of_compareEntries {a b : StoredRecord} (h : compareEntries a b = .eq) : a.id = b.id := by
  have hid : compare a.id.str b.id.str = .eq := by
    unfold compareEntries at h
    rw [Ordering.then_eq_eq, Ordering.then_eq_eq] at h
    exact h.2.2
  exact RecordId.ext (Std.LawfulEqOrd.eq_of_compare hid)

/-- A record that compares no higher ranks no higher, and was updated no later at one rank. -/
theorem rank_le_of_compareEntries {a b : StoredRecord} (h : (compareEntries a b).isLE = true) :
    rank a ≤ rank b ∧ (rank a = rank b → a.updated ≤ b.updated) := by
  unfold compareEntries at h
  rw [Ordering.isLE_then_iff_or] at h
  rcases h with hlt | ⟨heq, hle⟩
  · have hlt := Nat.compare_eq_lt.mp hlt
    exact ⟨hlt.le, fun heq => absurd heq hlt.ne⟩
  · have heq := Nat.compare_eq_eq.mp heq
    refine ⟨heq.le, fun _ => ?_⟩
    rw [Ordering.isLE_then_iff_or] at hle
    rcases hle with hlt | ⟨heq, -⟩
    · exact (Nat.compare_eq_lt.mp hlt).le
    · exact (Nat.compare_eq_eq.mp heq).le

namespace RecordStore

/-! ## The order of storage does not matter -/

section Permuted

variable {s : RecordStore} {l : List StoredRecord} (hids : (s.records.map StoredRecord.id).Nodup)
  (hp : l.Perm s.records)

include hids hp

theorem effectiveApp_perm (id : RecordId) :
    ({ s with records := l } : RecordStore).effectiveApp id = s.effectiveApp id := by
  have hids' : (l.map StoredRecord.id).Nodup := (hp.map _).nodup_iff.mpr hids
  have hmem : ∀ report, report ∈ ({ s with records := l } : RecordStore).contents ↔ report ∈ s.contents :=
    fun report => (hp.map StoredRecord.report).mem_iff
  refine Option.ext fun app => ?_
  rw [effectiveApp_iff hids, effectiveApp_iff hids']
  simp only [hmem]

theorem eligible_perm (live : LiveEpisode) (e : StoredRecord) :
    ({ s with records := l } : RecordStore).eligible e live = s.eligible e live := by
  unfold eligible
  rw [effectiveApp_perm hids hp]

theorem hasActivity_perm (live : LiveEpisode) :
    ({ s with records := l } : RecordStore).hasActivity live = s.hasActivity live := by
  unfold hasActivity
  simp only [eligible_perm hids hp]
  exact hp.any_eq

/-- **Storage order does not matter**: permuting the records of a store with distinct ids changes
nothing that it selects, whatever their ordinals. -/
theorem select_perm (live : LiveEpisode) :
    ({ s with records := l } : RecordStore).select live = s.select live := by
  have hentry : ({ s with records := l } : RecordStore).selectEntry live = s.selectEntry live := by
    unfold selectEntry
    simp only [eligible_perm hids hp]
    refine Choose.maxBy_perm (hp.filter _) fun a ha b hb heq => ?_
    have ha := hp.mem_iff.mp (List.mem_of_mem_filter ha)
    have hb := hp.mem_iff.mp (List.mem_of_mem_filter hb)
    exact List.inj_on_of_nodup_map hids ha hb (id_eq_of_compareEntries heq)
  unfold select
  rw [hentry, hasActivity_perm hids hp]
  rfl

end Permuted

/-! ## What is selected -/

theorem select_isSome_iff {s : RecordStore} {live : LiveEpisode} :
    (s.select live).isSome = true ↔ ∃ e ∈ s.records, s.eligible e live = true := by
  rw [← Option.ne_none_iff_isSome, ne_eq, select_eq_none]
  simp

/-- The record a store selects for an episode: of the first preference any eligible record is of,
and the newest of it. -/
structure Preferred (s : RecordStore) (live : LiveEpisode) (e : StoredRecord) : Prop where
  mem : e ∈ s.records
  eligible : s.eligible e live = true
  tier : ∃ better tier worse, preferences = better ++ tier :: worse ∧ tier e = true ∧
    (∀ p ∈ better, ∀ e' ∈ s.records, s.eligible e' live = true → p e' = false) ∧
    ∀ e' ∈ s.records, s.eligible e' live = true → tier e' = true → e' ≠ e → e'.updated < e.updated

theorem preferred_of_selectEntry {s : RecordStore} (hstamps : s.records.Pairwise fun a b => a.updated < b.updated)
    {live : LiveEpisode} {e : StoredRecord} (h : s.selectEntry live = some e) : Preferred s live e := by
  obtain ⟨hmem, heligible⟩ := selectEntry_mem h
  have hmax : ∀ e' ∈ s.records, s.eligible e' live = true →
      rank e' ≤ rank e ∧ (rank e' = rank e → e'.updated ≤ e.updated) := fun e' he' hel =>
    rank_le_of_compareEntries (Choose.maxBy_isLE h e' (List.mem_filter.mpr ⟨he', hel⟩))
  have hnodup : (s.records.map StoredRecord.updated).Nodup := List.pairwise_map.mpr (hstamps.imp Nat.ne_of_lt)
  have hdistinct : ∀ e' ∈ s.records, e' ≠ e → e'.updated ≠ e.updated := fun e' he' hne heq =>
    hne (List.inj_on_of_nodup_map hnodup he' hmem heq)
  obtain ⟨better, tier, worse, hprefer, htier, hbetter, hsame⟩ := rank_tier e
  refine ⟨hmem, heligible, better, tier, worse, hprefer, htier, fun p hp e' he' hel => ?_, fun e' he' hel ht hne => ?_⟩
  · cases hpe : p e' with
    | false => rfl
    | true => exact absurd (hbetter p hp e' hpe) (Nat.not_lt.mpr (hmax e' he' hel).1)
  · have hrank : rank e' = rank e := Nat.le_antisymm (hmax e' he' hel).1 (hsame e' ht)
    exact Nat.lt_of_le_of_ne ((hmax e' he' hel).2 hrank) (hdistinct e' he' hne)

theorem hasActivity_eq_false {s : RecordStore} {live : LiveEpisode} : s.hasActivity live = false ↔
    ∀ e ∈ s.records, s.eligible e live = true → e.record.status.isActive = false := by
  simp [hasActivity]

/-- A result shows what its record carries. -/
theorem projectResult_kind {e : StoredRecord} {live : LiveEpisode} {r : ProgramResult}
    (h : projectResult e live = some r) : e.record.status = .error ∧ r.kind = .failure ∨
      e.record.status = .done ∧ r.kind = .completion := by
  simp only [projectResult, Option.map_eq_some_iff, Option.filter_eq_some_iff] at h
  obtain ⟨m, ⟨-, hterminal⟩, rfl⟩ := h
  cases hs : e.record.status <;> simp_all [ProgramStatus.isTerminal]

/-- **Selection is a function of the record set.** In every reachable store something is selected
exactly where a record is eligible: one of the first preference any eligible record is of, the
newest of it. No result is shown while an eligible record is working or blocked, and a result that
is shown is the selected record's. However the records are stored, the selection is the same. -/
theorem select_spec (ops : List StoreOp) (live : LiveEpisode) :
    (((new.run ops).select live).isSome = true ↔
      ∃ e ∈ (new.run ops).records, (new.run ops).eligible e live = true) ∧
    (∀ selection, (new.run ops).select live = some selection → ∃ e, Preferred (new.run ops) live e ∧
      selection.recordId = e.id ∧ selection.updated = e.updated ∧ selection.protocolState = e.record.status ∧
      ∀ r, selection.result = some r →
        (∀ e' ∈ (new.run ops).records, (new.run ops).eligible e' live = true → e'.record.status.isActive = false) ∧
        (e.record.status = .error ∧ r.kind = .failure ∨ e.record.status = .done ∧ r.kind = .completion) ∧
        e.owner = some r.identity.owner ∧ r.identity.record = e.id ∧
        ∃ m ∈ e.result, r.identity.generation = m.generation ∧ r.cycle = m.cycle) ∧
    ∀ l : List StoredRecord, l.Perm (new.run ops).records →
      ({ (new.run ops) with records := l } : RecordStore).select live = (new.run ops).select live := by
  have hstamps := (records_sorted ops)
  have hids := (wf_run ops).ids
  generalize new.run ops = s at hstamps hids ⊢
  refine ⟨select_isSome_iff, fun selection h => ?_, fun l hp => select_perm hids hp live⟩
  simp only [select, Option.map_eq_some_iff] at h
  obtain ⟨e, he, rfl⟩ := h
  have hpreferred := preferred_of_selectEntry hstamps he
  refine ⟨e, hpreferred, rfl, rfl, rfl, fun r hr => ?_⟩
  dsimp only at hr
  cases hactive : s.hasActivity live with
  | true => simp [hactive] at hr
  | false =>
    rw [hactive, if_neg Bool.false_ne_true] at hr
    obtain ⟨m, hm, -, -, hidentity, hcycle, -⟩ := projectResult_some hr
    rw [hidentity]
    exact ⟨hasActivity_eq_false.mp hactive, projectResult_kind hr, (eligible_iff.mp hpreferred.eligible).2.1, rfl,
      m, hm, rfl, hcycle⟩

end RecordStore

end TmuxAgents
