/-
Foreign reports cannot disturb the owner's work.

A `Replace` under an app that is not the episode's changes one entry. Inside
its subtree it can only revoke: an entry eligible after it was eligible
before. Outside, no entry has other ancestors than it had. So on a
reconciled store the ownership pass gives every entry outside the subtree
the owner it has, no activity starts, and the cycle stays. A `Clear` takes
whole subtrees, so what it leaves has the ancestors it had.
-/
import TmuxAgents.Program.Episode

namespace TmuxAgents

namespace RecordStore

/-! ## Room -/

theorem evictOldest_length (s : RecordStore) (h : s.records.length ≤ maxRecords) :
    s.evictOldest.records.length < maxRecords := by
  unfold evictOldest
  split
  · rename_i hfull
    split
    · rename_i e oldest hmin
      have hlt : oldest < s.records.length := by
        have := List.snd_lt_of_mem_zipIdx (Choose.minByKey_mem hmin)
        simpa using this
      rw [List.length_eraseIdx_of_lt hlt]
      have : 0 < maxRecords := by decide
      omega
    · rename_i hnone
      rw [Choose.minByKey_eq_none] at hnone
      have := congrArg List.length hnone
      simp only [List.length_zipIdx, List.length_nil] at this
      rw [hfull] at this
      exact absurd this (by decide)
  · omega

/-- A store never holds more than `maxRecords` records. -/
theorem length_step {s : RecordStore} (h : s.records.length ≤ maxRecords) (op : StoreOp) :
    (s.step op).records.length ≤ maxRecords := by
  have hpresent : ∀ (t : RecordStore) (op : StoreOp), op.isPresentation = true →
      t.records.length ≤ maxRecords → (t.step op).records.length ≤ maxRecords := by
    have hmark : ∀ (t : RecordStore) selection live, t.records.length ≤ maxRecords →
        (t.step (.markPresented selection live)).records.length ≤ maxRecords := by
      intro t selection live ht
      rcases markPresented_cases t selection live with hm | ⟨_, -, -, hm⟩ <;> simpa [step, hm] using ht
    have hack : ∀ (t : RecordStore) identity, t.records.length ≤ maxRecords →
        (t.step (.acknowledge identity)).records.length ≤ maxRecords := by
      intro t identity ht
      rcases acknowledge_cases t identity with ha | ⟨l₁, e, l₂, hl, -, -, ha⟩
      · simpa [step, ha] using ht
      · simpa [step, ha, hl] using ht
    intro t op hop ht
    cases op with
    | apply _ _ _ | lifecycle _ | invalidateEpisode => cases hop
    | markPresented selection live => exact hmark t selection live ht
    | acknowledge identity => exact hack t identity ht
    | reconcileResult selection live disposition =>
      exact reconcileResult_of (I := fun t => t.records.length ≤ maxRecords) hmark hack ht selection live disposition
  cases op with
  | markPresented selection live => exact hpresent s _ rfl h
  | acknowledge identity => exact hpresent s _ rfl h
  | reconcileResult selection live disposition => exact hpresent s _ rfl h
  | lifecycle event =>
    cases event with
    | fullReset => exact Nat.zero_le _
    | shellPrompt | attachedProcessExit =>
      simp only [step, lifecycle, List.length_map]
      exact (List.length_filter_le ..).trans h
  | invalidateEpisode => simpa [step, invalidateEpisode] using h
  | apply command at_ episode =>
    have hu : (s.unsettled command at_ episode).1.records.length ≤ maxRecords := by
      cases command with
      | query => exact h
      | clear id =>
        simp only [unsettled, applyClear_records]
        exact (List.length_filter_le ..).trans h
      | replace record =>
        simp only [unsettled, applyReplace_records, List.length_append, List.length_singleton]
        exact evictOldest_length _ (List.length_eraseP_le.trans h)
    cases episode with
    | none =>
      change (s.apply command at_ none).records.length ≤ _
      rw [apply_none]
      exact hu
    | some live =>
      by_cases hq : command = .query
      · subst hq
        exact h
      · change (s.apply command at_ (some live)).records.length ≤ _
        rw [apply_some hq]
        simpa [settle, reconcileOwnership] using hu

theorem length_run (ops : List StoreOp) : (new.run ops).records.length ≤ maxRecords :=
  Run.invariant RecordStore.step (fun s => s.records.length ≤ maxRecords) (fun _ op h => length_step h op)
    (Nat.zero_le _) ops

/-- With its id stored, or with room, a `Replace` displaces nothing but its id. -/
theorem displace_of_room {s : RecordStore} {id : RecordId} (h : s.records.length ≤ maxRecords)
    (hroom : (∃ e ∈ s.records, e.id = id) ∨ s.records.length < maxRecords) :
    (s.displace id).records = s.records.eraseP fun entry => entry.id == id := by
  have hlt : (s.records.eraseP fun entry => entry.id == id).length < maxRecords := by
    rcases hroom with ⟨e, he, hid⟩ | hlt
    · rw [List.length_eraseP_of_mem he (by simpa using hid)]
      have := List.length_pos_of_mem he
      omega
    · exact lt_of_le_of_lt List.length_eraseP_le hlt
  unfold displace evictOldest
  rw [if_neg (Nat.ne_of_lt hlt)]

/-! ## A pass that finds nothing to do -/

/-- On a store where the pass changes no owner and starts nothing, the episode half changes
no entry. -/
theorem settle_of_reconciled {s : RecordStore} {live : LiveEpisode} {wasActive : Bool} {reported : Reported}
    {e : StoredRecord} (hjoined : Joined e) (howner : s.reconciledOwner live e = e.owner)
    (hstarts : (s.reconcileOwnership live).startsCycle live wasActive reported = false) :
    StoredRecord.joinResult live ((s.reconcileOwnership live).startsCycle live wasActive reported)
      (s.settle live wasActive reported).cycle { e with owner := s.reconciledOwner live e } = e := by
  rw [hstarts, howner]
  cases hr : e.result with
  | none =>
    cases e
    simp only at hr
    simp [StoredRecord.joinResult, hr]
  | some m =>
    have hjoin : (m.owner == none && e.owner == some live.owner) = false := by
      cases ho : e.owner with
      | none => simp
      | some o => simp [hjoined m hr o ho]
    have hfalse : (m.owner == some live.owner && false) = false := Bool.and_false _
    cases e
    simp only at hr hjoin
    simp only [StoredRecord.joinResult, hr, Option.map_some, hfalse, hjoin, Bool.false_eq_true, if_false]

/-- So where a store has the ancestors of a reconciled one, it keeps the entries of it. -/
theorem mem_settle_of_sameAncestors {s t : RecordStore} {live : LiveEpisode} {wasActive : Bool}
    {reported : Reported} (hwf : WF s) (hrec : Reconciled s live)
    (hstarts : (t.reconcileOwnership live).startsCycle live wasActive reported = false) {e : StoredRecord}
    (h : SameAncestors s t e.id) : e ∈ (t.settle live wasActive reported).records ↔ e ∈ s.records := by
  have hkeep : ∀ e₀ : StoredRecord, e₀.id = e.id → e₀ ∈ s.records →
      StoredRecord.joinResult live ((t.reconcileOwnership live).startsCycle live wasActive reported)
        (t.settle live wasActive reported).cycle { e₀ with owner := t.reconciledOwner live e₀ } = e₀ := by
    intro e₀ hid he₀
    refine settle_of_reconciled (hwf.joined e₀ he₀) ?_ hstarts
    rw [reconciledOwner_of_sameAncestors hwf.ids (hid.symm ▸ h)]
    exact (hrec e₀ he₀).symm
  constructor
  · intro he
    obtain ⟨e₀, he₀, heq⟩ := mem_settle he
    have hid : e₀.id = e.id := congrArg StoredRecord.id heq |>.symm
    have hs : e₀ ∈ s.records := (h e₀ (by rw [hid]; exact RecordId.contains_refl _)).mp he₀
    rw [heq]
    exact (hkeep e₀ hid hs).symm ▸ hs
  · intro he
    have ht : e ∈ t.records := (h e (RecordId.contains_refl _)).mpr he
    rw [settle_records]
    exact List.mem_map.mpr ⟨_, List.mem_map_of_mem ht, hkeep e rfl he⟩

/-- Nothing starts when nothing was reported and nothing new is active. -/
theorem startsCycle_quiet {s : RecordStore} {live : LiveEpisode} {wasActive : Bool}
    (h : s.hasActivity live = true → wasActive = true) : s.startsCycle live wasActive {} = false := by
  cases ha : s.hasActivity live with
  | false => simp [startsCycle, ha]
  | true => simp [startsCycle, ha, h ha]

theorem hasActivity_iff {s : RecordStore} {live : LiveEpisode} :
    s.hasActivity live = true ↔ ∃ e ∈ s.records, s.eligible e live = true ∧ e.record.status.isActive = true := by
  simp [hasActivity]

/-- What the pass makes active was active in `s`, if the owners it gives are owners of `s`. -/
theorem hasActivity_of_reconcileOwnership {s t : RecordStore} {live : LiveEpisode}
    (h : ∀ e ∈ t.records, t.reconciledOwner live e = some live.owner → e ∈ s.records ∧ s.eligible e live = true)
    (ha : (t.reconcileOwnership live).hasActivity live = true) : s.hasActivity live = true := by
  obtain ⟨e', he', hel, hactive⟩ := hasActivity_iff.mp ha
  obtain ⟨e, he, rfl⟩ := List.mem_map.mp he'
  obtain ⟨hes, hel⟩ := h e he (eligible_iff.mp hel).2.1
  exact hasActivity_iff.mpr ⟨e, hes, hel, hactive⟩

/-- On a reconciled store the owner's entries are the eligible ones. -/
theorem eligible_of_reconciled {s : RecordStore} {live : LiveEpisode} (h : Reconciled s live) {e : StoredRecord}
    (he : e ∈ s.records) (hr : s.reconciledOwner live e = some live.owner) : s.eligible e live = true := by
  obtain ⟨hh, -, happ, -⟩ := reconciledOwner_iff.mp hr
  exact eligible_iff.mpr ⟨hh, (h e he).trans hr, happ⟩

/-! ## A foreign report -/

section Replace

variable {s : RecordStore} {live : LiveEpisode} {record : Record} {app : AppId} {at_ : Nat}

/-- The store a `Replace` leaves before its episode half. -/
theorem mem_replaced (hids : (s.records.map StoredRecord.id).Nodup)
    (hroom : (s.displace record.id).records = s.records.eraseP fun entry => entry.id == record.id)
    {e : StoredRecord} : e ∈ (s.applyReplace record at_ (some live)).1.records ↔
      e ∈ s.records ∧ e.id ≠ record.id ∨ e = s.pushed record at_ (some live) := by
  rw [applyReplace_records, hroom, List.mem_append, List.mem_singleton]
  refine or_congr_left ⟨fun he => ?_, fun he => ?_⟩
  · exact ⟨List.eraseP_subset he, Choose.key_ne_of_mem_eraseP hids e he⟩
  · exact (List.mem_eraseP_of_neg (by simpa using he.2)).mpr he.1

/-- A foreign report is not eligible. -/
theorem reports_foreign (happ : record.app = some app) (hforeign : live.matches app = false) :
    s.reports record (some live) = false := by
  simp [reports, reportEligible, happ, hforeign]

theorem reported_foreign (happ : record.app = some app) (hforeign : live.matches app = false) :
    s.reported record (some live) = {} := by
  simp [reported, reports_foreign happ hforeign]

/-- The entry a foreign report pushes owns nothing after the pass. -/
theorem reconciledOwner_pushed_foreign
    (hids : ((s.applyReplace record at_ (some live)).1.records.map StoredRecord.id).Nodup)
    (happ : record.app = some app) (hforeign : live.matches app = false) :
    (s.applyReplace record at_ (some live)).1.reconciledOwner live (s.pushed record at_ (some live)) = none := by
  have hmem : s.pushed record at_ (some live) ∈ (s.applyReplace record at_ (some live)).1.records := by simp
  have heff : (s.applyReplace record at_ (some live)).1.effectiveApp (s.pushed record at_ (some live)).id =
      some app := by
    refine effectiveApp_of_nearest hids hmem (RecordId.contains_refl _) happ fun e' _ hc _ => ?_
    exact RecordId.length_le_of_contains hc
  refine reconciledOwner_eq_none fun hr => ?_
  obtain ⟨-, -, happ', -⟩ := reconciledOwner_iff.mp hr
  rw [heff] at happ'
  simp [hforeign] at happ'

/-- Inside or outside its subtree, a foreign report only revokes. -/
theorem reconciledOwner_foreign (hwf : WF s) (hrec : Reconciled s live)
    (hids : ((s.applyReplace record at_ (some live)).1.records.map StoredRecord.id).Nodup)
    (hroom : (s.displace record.id).records = s.records.eraseP fun entry => entry.id == record.id)
    (happ : record.app = some app) (hforeign : live.matches app = false) {e : StoredRecord}
    (he : e ∈ (s.applyReplace record at_ (some live)).1.records)
    (hr : (s.applyReplace record at_ (some live)).1.reconciledOwner live e = some live.owner) :
    e ∈ s.records ∧ s.eligible e live = true := by
  rcases (mem_replaced hwf.ids hroom).mp he with ⟨hes, hne⟩ | rfl
  swap
  · rw [reconciledOwner_pushed_foreign hids happ hforeign] at hr
    cases hr
  refine ⟨hes, eligible_of_reconciled hrec hes ?_⟩
  obtain ⟨hh, hobs, happ', ha⟩ := reconciledOwner_iff.mp hr
  refine reconciledOwner_iff.mpr ⟨hh, hobs, ?_, ?_⟩
  · -- The nearest explicit app after the report is the owner's, so it was the nearest before.
    cases hx : s.effectiveApp e.id with
    | none => rfl
    | some app₀ =>
      obtain ⟨a₀, ha₀, hc₀, happ₀, -⟩ := effectiveApp_some hx
      have hexplicit : ∃ a ∈ (s.applyReplace record at_ (some live)).1.records,
          a.id.contains e.id = true ∧ a.record.app ≠ none ∧ a.id = a₀.id := by
        by_cases hid : a₀.id = record.id
        · exact ⟨s.pushed record at_ (some live), by simp, by rw [pushed_id, ← hid]; exact hc₀, by simp [happ], hid.symm⟩
        · exact ⟨a₀, (mem_replaced hwf.ids hroom).mpr (.inl ⟨ha₀, hid⟩), hc₀, by simp [happ₀], rfl⟩
      obtain ⟨a, hat, hca, hea, -⟩ := hexplicit
      cases hy : (s.applyReplace record at_ (some live)).1.effectiveApp e.id with
      | none => exact absurd (effectiveApp_none hy a hat hca) hea
      | some app₁ =>
        rw [hy] at happ'
        obtain ⟨n, hn, hcn, happn, hnear⟩ := effectiveApp_some hy
        rcases (mem_replaced hwf.ids hroom).mp hn with ⟨hns, -⟩ | rfl
        · have heq : s.effectiveApp e.id = some app₁ := by
            refine effectiveApp_of_nearest hwf.ids hns hcn happn fun e' he' hc' hx' => ?_
            by_cases hid : e'.id = record.id
            · have := hnear (s.pushed record at_ (some live)) (by simp) (by rw [pushed_id, ← hid]; exact hc')
                (by simp [happ])
              rw [hid]
              exact this
            · exact hnear e' ((mem_replaced hwf.ids hroom).mpr (.inl ⟨he', hid⟩)) hc' hx'
          rw [hx] at heq
          rw [heq]
          exact happ'
        · have : some app = some app₁ := happ.symm.trans happn
          rw [← this] at happ'
          simp [hforeign] at happ'
  · rcases ha with ha | ha
    · left
      obtain ⟨a, hat, hca, hanchor⟩ := hasAnchor_iff.mp ha
      rcases (mem_replaced hwf.ids hroom).mp hat with ⟨has, -⟩ | rfl
      · exact hasAnchor_iff.mpr ⟨a, has, hca, hanchor⟩
      · obtain ⟨-, -, howner | happ'⟩ := hanchor
        · rw [pushed_owner, Option.bind_eq_some_iff] at howner
          obtain ⟨old, hold, howner⟩ := howner
          obtain ⟨hmem, hid, hobs', hh'⟩ := mem_lineage hold
          exact hasAnchor_iff.mpr ⟨old, hmem, hid ▸ hca, hobs', hh', .inl howner⟩
        · simp [happ, hforeign] at happ'
    · exact .inr ha

/-- Outside its subtree a foreign report changes nobody's ancestors. -/
theorem sameAncestors_replaced (hids : (s.records.map StoredRecord.id).Nodup)
    (hroom : (s.displace record.id).records = s.records.eraseP fun entry => entry.id == record.id)
    {id : RecordId} (hout : record.id.contains id = false) :
    SameAncestors s (s.applyReplace record at_ (some live)).1 id := by
  intro x hx
  rw [mem_replaced hids hroom]
  have hne : x.id ≠ record.id := fun h => by
    rw [h, hout] at hx
    cases hx
  constructor
  · rintro (h | rfl)
    · exact h.1
    · exact absurd rfl hne
  · exact fun h => .inl ⟨h, hne⟩

end Replace

/-! ## A clear -/

theorem sameAncestors_cleared (s : RecordStore) {id other : RecordId} (hout : id.contains other = false) :
    SameAncestors s (s.applyClear id) other := by
  intro x hx
  rw [applyClear_records, List.mem_filter]
  refine ⟨fun h => h.1, fun h => ⟨h, ?_⟩⟩
  cases hc : id.contains x.id with
  | false => rfl
  | true =>
    rw [RecordId.contains_trans hc hx] at hout
    cases hout

/-! ## The frame -/

/-- What superseded results a foreign report leaves were superseded before it. -/
theorem superseded_of_replaced {s : RecordStore} {record : Record} {at_ : Nat} {episode : Option LiveEpisode}
    {e : StoredRecord} (he : e ∈ (s.applyReplace record at_ episode).1.records) {m : ResultMemory}
    (hm : m ∈ e.result) (hsup : m.superseded = true) : ∃ e₀ ∈ s.records, e₀.id = e.id ∧ m ∈ e₀.result := by
  rw [applyReplace_records, List.mem_append, List.mem_singleton] at he
  rcases he with he | rfl
  · exact ⟨e, (displace_sublist s record.id).subset he, rfl, hm⟩
  · rcases pushed_cases s record at_ episode with ⟨-, hr⟩ | ⟨old, hold, -, hr | ⟨-, hr⟩⟩
    · rw [hr m hm] at hsup
      cases hsup
    · obtain ⟨hmem, hid, -, -⟩ := mem_lineage hold
      exact ⟨old, hmem, hid, hr ▸ hm⟩
    · rw [hr m hm] at hsup
      cases hsup

/-- **Foreign commands.** In a one-episode run, a `Replace` under an app that is not the
episode's, and that evicts nothing, leaves the cycle, supersedes nothing and leaves every
entry outside its subtree as it was. A `Clear` makes nothing eligible and leaves the cycle. -/
theorem foreign_commands_frame {ops : List StoreOp} {cur : Option LiveEpisode} {live : LiveEpisode}
    (hrun : EpisodeRun none ops cur) (hcur : cur = none ∨ cur = some live) (at_ : Nat) :
    let s := new.run ops
    (∀ record app, record.app = some app → live.matches app = false →
      (∃ e ∈ s.records, e.id = record.id) ∨ s.records.length < maxRecords →
      let s' := s.apply (.replace record) at_ (some live)
      s'.workCycle = s.workCycle ∧
      (∀ e' ∈ s'.records, ∀ m' ∈ e'.result, m'.superseded = true → ∃ e ∈ s.records, e.id = e'.id ∧
        ∃ m ∈ e.result, m.generation = m'.generation ∧ m.superseded = true) ∧
      ∀ e, record.id.contains e.id = false → (e ∈ s'.records ↔ e ∈ s.records)) ∧
    ∀ id,
      let s' := s.apply (.clear id) at_ (some live)
      s'.workCycle = s.workCycle ∧
      ∀ e' ∈ s'.records, ∀ live', s'.eligible e' live' = true →
        ∃ e ∈ s.records, e.id = e'.id ∧ s.eligible e live' = true := by
  intro s
  have hone : OneEpisode cur s := oneEpisode_run hrun
  have hrec := hone.reconciled live hcur
  refine ⟨fun record app happ hforeign hroom => ?_, fun id => ?_⟩
  · intro s'
    have hdisplace := displace_of_room (length_run ops) hroom
    obtain ⟨hids, -⟩ := hone.wf.applyReplace record at_ (some live)
    have hs' : s' = (s.applyReplace record at_ (some live)).1.settle live (s.hasActivity live) {} := by
      rw [← reported_foreign happ hforeign, ← applyReplace_reported s record at_ (some live)]
      rfl
    have hstarts : ((s.applyReplace record at_ (some live)).1.reconcileOwnership live).startsCycle live
        (s.hasActivity live) {} = false :=
      startsCycle_quiet fun ha => hasActivity_of_reconcileOwnership
        (fun e he hr => reconciledOwner_foreign hone.wf hrec hids hdisplace happ hforeign he hr) ha
    refine ⟨?_, fun e' he' m' hm' hsup => ?_, fun e hout => ?_⟩
    · rw [hs', workCycle, settle_cycle, hstarts]
      exact applyReplace_cycle s record at_ (some live)
    · rw [hs'] at he'
      rw [settle_records, hstarts] at he'
      obtain ⟨e₁, he₁, rfl⟩ := List.mem_map.mp he'
      obtain ⟨e, he, rfl⟩ := List.mem_map.mp he₁
      obtain ⟨m, hm, ⟨-, hfalse, -⟩ | ⟨-, -, rfl⟩ | ⟨rfl, -⟩⟩ := joinResult_cases hm'
      · cases hfalse
      · obtain ⟨e₀, he₀, hid, hm₀⟩ := superseded_of_replaced he hm hsup
        exact ⟨e₀, he₀, hid, m, hm₀, rfl, hsup⟩
      · obtain ⟨e₀, he₀, hid, hm₀⟩ := superseded_of_replaced he hm hsup
        exact ⟨e₀, he₀, hid, m', hm₀, rfl, hsup⟩
    · rw [hs']
      exact mem_settle_of_sameAncestors hone.wf hrec hstarts (sameAncestors_replaced hone.wf.ids hdisplace hout)
  · intro s'
    have hs' : s' = (s.applyClear id).settle live (s.hasActivity live) {} := rfl
    have hcleared : ∀ e ∈ (s.applyClear id).records, e ∈ s.records ∧ id.contains e.id = false := fun e he => by
      rw [applyClear_records, List.mem_filter] at he
      exact ⟨he.1, by simpa using he.2⟩
    have hstarts : ((s.applyClear id).reconcileOwnership live).startsCycle live (s.hasActivity live) {} = false := by
      refine startsCycle_quiet fun ha => hasActivity_of_reconcileOwnership (fun e he hr => ?_) ha
      obtain ⟨hes, hout⟩ := hcleared e he
      rw [reconciledOwner_of_sameAncestors hone.wf.ids (sameAncestors_cleared s hout)] at hr
      exact ⟨hes, eligible_of_reconciled hrec hes hr⟩
    have hmem : ∀ e, id.contains e.id = false → (e ∈ s'.records ↔ e ∈ s.records) := fun e hout => by
      rw [hs']
      exact mem_settle_of_sameAncestors hone.wf hrec hstarts (sameAncestors_cleared s hout)
    refine ⟨?_, fun e' he' live' hel => ?_⟩
    · rw [hs', workCycle, settle_cycle, hstarts]
      exact applyClear_cycle s id
    · have hout : id.contains e'.id = false := by
        obtain ⟨e, he, rfl⟩ := mem_settle he'
        exact (hcleared e he).2
      refine ⟨e', (hmem e' hout).mp he', rfl, ?_⟩
      -- An ancestor of an entry outside the subtree is outside it.
      have hsame : SameAncestors s s' e'.id := fun x hx => hmem x (by
        cases hc : id.contains x.id with
        | false => rfl
        | true => exact (RecordId.contains_trans hc hx).symm.trans hout)
      rw [← eligible_of_sameAncestors hone.wf.ids hsame]
      exact hel

/-- A tool of another app reports under the sample agent's pane while it works. -/
theorem foreign_commands_frame_sample :
    let s := new.run [sampleReport (.working none)]
    let foreign : AppId := ⟨[0x62], by decide⟩
    let record := { Record.new ⟨[0x63], by decide⟩ .done with app := some foreign }
    (s.apply (.replace record) 1 (some sampleLive)).workCycle = s.workCycle :=
  ((foreign_commands_frame (.cons ⟨.inl rfl, by simp, rfl⟩ (.nil _) :
      EpisodeRun none [sampleReport (.working none)] (some sampleLive)) (.inr rfl) 1).1
    { Record.new ⟨[0x63], by decide⟩ .done with app := some ⟨[0x62], by decide⟩ } ⟨[0x62], by decide⟩ rfl
    (by decide) (.inr (by decide))).1

end RecordStore

end TmuxAgents
