/-
The ownership pass and the report test.

A pass over its own owners finds what it found before (`reconciled_reconcileOwnership`). A
report is tested on the store its record is to join. The record is the nearest of its own
ancestors there, so the pass finds of it what the test found.
-/
import TmuxAgents.Program.Episode

namespace TmuxAgents

namespace RecordStore

/-! ## The pass twice -/

theorem reconcileOwnership_of_reconciled {s : RecordStore} {live : LiveEpisode} (h : s.Reconciled live) :
    s.reconcileOwnership live = s := by
  have hrecords : s.records.map (fun e => { e with owner := s.reconciledOwner live e }) = s.records := by
    refine (List.map_congr_left fun e he => ?_).trans (List.map_id _)
    rw [← h e he]
    rfl
  rw [reconcileOwnership, hrecords]

theorem reconcileOwnership_idem (s : RecordStore) (live : LiveEpisode) :
    (s.reconcileOwnership live).reconcileOwnership live = s.reconcileOwnership live :=
  reconcileOwnership_of_reconciled reconciled_reconcileOwnership

/-! ## A record just pushed -/

section

variable {s t : RecordStore} {entry : StoredRecord}

/-- The nearest explicit app of the last record is its own, if it has one. -/
theorem effectiveApp_push (h : t.records = s.records ++ [entry]) :
    t.effectiveApp entry.id = (entry.record.app <|> s.effectiveApp entry.id) := by
  rw [effectiveApp, effectiveApp, h, List.filter_append, List.filterMap_append]
  cases happ : entry.record.app with
  | none => simp [happ]
  | some app =>
    have hself : ([entry].filter fun e => e.id.contains entry.id).filterMap
        (fun e => e.record.app.map fun app => (e.id.str.length, app)) = [(entry.id.str.length, app)] := by
      simp [happ]
    rw [hself, Choose.maxByKey_concat fun found hfound => ?_]
    · rfl
    · obtain ⟨e, -, hcontains, -, hlength⟩ := mem_explicit.mp hfound
      rw [← hlength]
      exact RecordId.length_le_of_contains hcontains

theorem hasAnchor_push (h : t.records = s.records ++ [entry]) (live : LiveEpisode) :
    t.hasAnchor entry.id live = true ↔ s.hasAnchor entry.id live = true ∨ IsAnchor live entry := by
  rw [hasAnchor_iff, hasAnchor_iff, h]
  constructor
  · rintro ⟨e, he, hcontains, hanchor⟩
    rcases List.mem_append.mp he with he | he
    · exact .inl ⟨e, he, hcontains, hanchor⟩
    · rw [List.mem_singleton.mp he] at hanchor
      exact .inr hanchor
  · rintro (⟨e, he, hcontains, hanchor⟩ | hanchor)
    · exact ⟨e, List.mem_append_left _ he, hcontains, hanchor⟩
    · exact ⟨entry, List.mem_append_right _ (List.mem_singleton_self entry), RecordId.contains_refl _, hanchor⟩

end

/-- The pass owns the pushed record where the report test succeeds. -/
theorem reconciledOwner_pushed (s : RecordStore) (record : Record) (at_ : Nat) (live : LiveEpisode) {t : RecordStore}
    (h : t.records = (s.displace record.id).records ++ [s.pushed record at_ (some live)]) :
    t.reconciledOwner live (s.pushed record at_ (some live)) = some live.owner ↔
      s.reports record (some live) = true := by
  have hlineage : (s.pushed record at_ (some live)).owner = some live.owner ↔
      (s.lineage record.id (some live.owner)).any (fun old => old.owner == some live.owner) = true := by
    rw [pushed_owner]
    cases hold : s.lineage record.id (some live.owner) with
    | none => simp [hold]
    | some old => simp [hold]
  have hanchor : IsAnchor live (s.pushed record at_ (some live)) ↔
      (s.pushed record at_ (some live)).owner = some live.owner ∨ record.app.any live.matches = true := by
    simp [IsAnchor]
  have hreports : s.reports record (some live) = true ↔
      (record.app <|> (s.displace record.id).effectiveApp record.id).all live.matches = true ∧
        ((record.app.any live.matches = true ∨
          (s.lineage record.id (some live.owner)).any (fun old => old.owner == some live.owner) = true) ∨
          (s.displace record.id).hasAnchor record.id live = true) := by
    simp only [reports, Option.any_some, reportEligible, Bool.and_eq_true, Bool.or_eq_true, Option.map_some]
  rw [reconciledOwner_iff, effectiveApp_push h, hasAnchor_push h, hanchor, hreports, hlineage]
  simp only [pushed_historical, pushed_observedOwner, pushed_record, pushed_id, Option.map_some, true_and]
  tauto

/-- **What a report is tested for is what the record becomes.** -/
theorem eligible_pushed (s : RecordStore) (record : Record) (at_ : Nat) (live : LiveEpisode) {t : RecordStore}
    (h : t.records = (s.displace record.id).records ++ [s.pushed record at_ (some live)]) :
    (t.reconcileOwnership live).eligible
        { s.pushed record at_ (some live) with owner := t.reconciledOwner live (s.pushed record at_ (some live)) } live =
      s.reports record (some live) := by
  have hiff := reconciledOwner_pushed s record at_ live h
  rw [Bool.eq_iff_iff, ← hiff]
  simp only [eligible, Bool.and_eq_true, beq_iff_eq]
  constructor
  · exact fun hE => hE.1.2
  · intro howner
    refine ⟨⟨rfl, howner⟩, ?_⟩
    rw [effectiveApp_reconcileOwnership]
    exact (reconciledOwner_iff.mp howner).2.2.1

/-- **The ownership pass settles, and the report test foretells it.** A second pass changes nothing. The last record
of a `Replace` is eligible after the pass, and stays so to the end of `apply`, exactly when the test said so before it
went in. So the tombstone is left, the idle and the dialog are restored and the activity is counted for the reports
that end up eligible. -/
theorem ownership_settles (s : RecordStore) (live : LiveEpisode) :
    (s.reconcileOwnership live).reconcileOwnership live = s.reconcileOwnership live ∧
    ∀ record at_,
      let lineage := sameLineage (s.records.find? fun entry => entry.id == record.id) (some live.owner)
      let hadResult := lineage.any fun old => old.result.isSome
      let pushed := s.applyReplace record at_ (some live)
      let after := s.apply (.replace record) at_ (some live)
      ∃ entry settled eligible,
        (pushed.1.reconcileOwnership live).records.getLast? = some entry ∧ entry.record = record ∧
        after.records.getLast? = some settled ∧ settled.record = record ∧
        (pushed.1.reconcileOwnership live).eligible entry live = eligible ∧ after.eligible settled live = eligible ∧
        (s.displace record.id).reportEligible record lineage live = eligible ∧
        let noted := if eligible && record.status.isIdle then (s.displace record.id).noteRecoveryReset record.id false
          else s.displace record.id
        let dialogRestore := eligible && record.status.isBlocked && hadResult
        pushed.1.recoveryResets = noted.recoveryResets ∧ pushed.1.recoveryResetAll = noted.recoveryResetAll ∧
        pushed.2 =
          { idleReset := eligible && record.status.isIdle && hadResult
            dialogRestore
            reportedActivity :=
              eligible && (record.status.isWorking || (record.status.isBlocked && !dialogRestore)) } := by
  refine ⟨reconcileOwnership_idem s live, fun record at_ => ?_⟩
  dsimp only
  have hpushed := applyReplace_records s record at_ (some live)
  have heligible := eligible_pushed s record at_ live hpushed
  obtain ⟨t, ht⟩ : ∃ t, t = (s.applyReplace record at_ (some live)).1 := ⟨_, rfl⟩
  rw [← ht] at hpushed heligible ⊢
  have hlast : (t.reconcileOwnership live).records.getLast? =
      some { s.pushed record at_ (some live) with owner := t.reconciledOwner live (s.pushed record at_ (some live)) } := by
    rw [reconcileOwnership, hpushed, List.map_append, List.map_singleton, List.getLast?_concat]
  obtain ⟨starts, cycle, hsettled⟩ : ∃ starts cycle, (s.apply (.replace record) at_ (some live)).records =
      (t.reconcileOwnership live).records.map (StoredRecord.joinResult live starts cycle) := by
    rw [ht]
    exact ⟨_, _, settle_records⟩
  have hstays := eligible_map hsettled (keepsOwner_joinResult live starts cycle) live
    { s.pushed record at_ (some live) with owner := t.reconciledOwner live (s.pushed record at_ (some live)) }
  refine ⟨_, _, _, hlast, rfl, ?_, rfl, heligible, hstays.trans heligible, rfl, ?_, ?_,
    applyReplace_reported s record at_ (some live)⟩
  · rw [hsettled, List.getLast?_map, hlast]
    rfl
  · rw [ht, applyReplace_eq]
  · rw [ht, applyReplace_eq]

end RecordStore

end TmuxAgents
