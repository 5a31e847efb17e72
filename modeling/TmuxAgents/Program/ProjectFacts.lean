/-
What a selection says about the entry it came from, and what an accepted
presentation says about the store it was accepted in.
-/
import TmuxAgents.Program.StoreInvariant

namespace TmuxAgents

/-- What `projectResult` shows of an entry. -/
theorem projectResult_some {e : StoredRecord} {live : LiveEpisode} {r : ProgramResult}
    (h : projectResult e live = some r) :
    ∃ m ∈ e.result, m.fresh = true ∧ e.record.status.isTerminal = true ∧
      r.identity = ⟨live.owner, e.id, m.generation⟩ ∧ r.cycle = m.cycle ∧ r.pending = !m.presented := by
  simp only [projectResult, Option.map_eq_some_iff, Option.filter_eq_some_iff] at h
  obtain ⟨m, ⟨⟨hm, hfresh⟩, hterminal⟩, rfl⟩ := h
  exact ⟨m, hm, hfresh, hterminal, rfl, rfl, rfl⟩

theorem ResultMemory.fresh_iff {m : ResultMemory} :
    m.fresh = true ↔ m.acknowledged = false ∧ m.superseded = false := by
  simp [ResultMemory.fresh]

theorem pendingResult_some {selection : ProgramSelection} {r : ProgramResult}
    (h : selection.pendingResult = some r) : selection.result = some r ∧ r.pending = true :=
  Option.filter_eq_some_iff.mp h

namespace RecordStore

theorem eligible_iff {s : RecordStore} {e : StoredRecord} {live : LiveEpisode} :
    s.eligible e live = true ↔
      e.historical = false ∧ e.owner = some live.owner ∧ (s.effectiveApp e.id).all live.matches = true := by
  simp [eligible, and_assoc]

theorem selectEntry_mem {s : RecordStore} {live : LiveEpisode} {e : StoredRecord}
    (h : s.selectEntry live = some e) : e ∈ s.records ∧ s.eligible e live = true :=
  List.mem_filter.mp (Choose.maxBy_mem h)

/-- A selection shows an eligible entry. -/
theorem select_some {s : RecordStore} {live : LiveEpisode} {selection : ProgramSelection}
    (h : s.select live = some selection) :
    ∃ e ∈ s.records, s.eligible e live = true ∧ s.selectEntry live = some e ∧
      selection.authority.owner = live.owner ∧ selection.recordId = e.id ∧ selection.updated = e.updated ∧
      selection.result = if s.hasActivity live then none else projectResult e live := by
  simp only [select, Option.map_eq_some_iff] at h
  obtain ⟨e, he, rfl⟩ := h
  obtain ⟨hm, hel⟩ := selectEntry_mem he
  exact ⟨e, hm, hel, he, rfl, rfl, rfl, rfl⟩

theorem select_eq_none {s : RecordStore} {live : LiveEpisode} :
    s.select live = none ↔ ∀ e ∈ s.records, s.eligible e live = false := by
  simp [select, selectEntry, List.filter_eq_nil_iff]

/-- A result a selection shows: whose it is, and the memory it shows. -/
theorem select_result {s : RecordStore} {live : LiveEpisode} {selection : ProgramSelection} {r : ProgramResult}
    (h : s.select live = some selection) (hr : selection.result = some r) :
    s.hasActivity live = false ∧ ∃ e ∈ s.records, s.eligible e live = true ∧
      selection.recordId = e.id ∧ selection.updated = e.updated ∧ ∃ m ∈ e.result, m.fresh = true ∧
        r.identity = ⟨live.owner, e.id, m.generation⟩ ∧ r.cycle = m.cycle ∧ r.pending = !m.presented := by
  obtain ⟨e, he, hel, -, -, hid, hupd, hres⟩ := select_some h
  rw [hr] at hres
  cases ha : s.hasActivity live with
  | true => simp [ha] at hres
  | false =>
    simp only [ha, Bool.false_eq_true, if_false] at hres
    obtain ⟨m, hm, hfresh, -, hi, hc, hp⟩ := projectResult_some hres.symm
    exact ⟨rfl, e, he, hel, hid, hupd, m, hm, hfresh, hi, hc, hp⟩

/-- What `mark_presented` accepts is pending in the store: an eligible entry's fresh result. -/
theorem presentable_some {s : RecordStore} {selection : ProgramSelection} {live : LiveEpisode}
    {effect : ProgramResult} (he : selection.pendingResult = some effect)
    (h : s.presentable selection live = true) :
    live.owner = selection.authority.owner ∧ s.hasActivity live = false ∧
      ∃ current, s.select live = some current ∧ current.recordId = selection.recordId ∧
        current.updated = selection.updated ∧ ∃ r, current.result = some r ∧ r.pending = true ∧
          r.identity = effect.identity := by
  simp only [presentable, Bool.and_eq_true, beq_iff_eq, Bool.not_eq_true', Option.any_eq_true,
    he, Option.map_some] at h
  obtain ⟨⟨howner, hactive⟩, current, hsel, ⟨hid, hupd⟩, hpend⟩ := h
  obtain ⟨r, hr, hri⟩ := Option.map_eq_some_iff.mp hpend
  obtain ⟨hr, hp⟩ := pendingResult_some hr
  exact ⟨howner, hactive, current, hsel, hid, hupd, r, hr, hp, hri⟩

/-- Entries of a well-formed store with one id are one entry. -/
theorem WF.eq_of_id {s : RecordStore} (h : WF s) {e e' : StoredRecord} (he : e ∈ s.records)
    (he' : e' ∈ s.records) (hid : e.id = e'.id) : e = e' :=
  List.inj_on_of_nodup_map h.ids he he' hid

end RecordStore

/-! ## A sample pane, for the runs on concrete inputs -/

def sampleApp : AppId := ⟨[0x61], by decide⟩

def sampleLive : LiveEpisode := ⟨1, [sampleApp]⟩

/-- The sample agent reports its root record. -/
def sampleReport (status : ProgramStatus) : StoreOp :=
  .apply (.replace { Record.new .root status with app := some sampleApp }) 0 (some sampleLive)

/-- What the store selects once the root record is done. -/
def sampleSelection (updated : Nat) (generation : ResultGeneration) (cycle : WorkCycle) : ProgramSelection :=
  { authority := ⟨1⟩, recordId := .root, updated, at_ := 0, protocolState := .done, state := .idle
    detail := none
    result := some { identity := ⟨1, .root, generation⟩, kind := .completion, cycle, pending := true }
    recoveryReset := false }

end TmuxAgents
