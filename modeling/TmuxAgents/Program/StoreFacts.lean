/-
Facts about the record store: the calls that mutate it as one step function,
what a call leaves of each entry, and the shape every reachable store has
(`WF`).

`step_origin` says once where the entries of a store come from: after any
call, an entry continues one that was there (same id, same generation, result
flags only raised), or its generation is the ordinal the call just took.
-/
import TmuxAgents.Lib.Run
import TmuxAgents.Program.Project

namespace TmuxAgents

/-- The calls that mutate a store. -/
inductive StoreOp
  | apply (command : ProgramCommand) (at_ : Nat) (episode : Option LiveEpisode)
  | lifecycle (event : TerminalLifecycle)
  | invalidateEpisode
  | markPresented (selection : ProgramSelection) (live : LiveEpisode)
  | acknowledge (identity : ResultIdentity)
  | reconcileResult (selection : ProgramSelection) (live : LiveEpisode) (disposition : ResultDisposition)

/-- A lifecycle event or an invalidation: nobody owns anything after it. -/
def StoreOp.isBoundary : StoreOp → Bool
  | .lifecycle _ | .invalidateEpisode => true
  | _ => false

/-- A call of the presentation half of the interface: it writes results only. -/
def StoreOp.isPresentation : StoreOp → Bool
  | .markPresented _ _ | .acknowledge _ | .reconcileResult _ _ _ => true
  | _ => false

/-! ## Results only rise -/

/-- The same result later: its flags are never taken back. -/
structure ResultMemory.Rises (m m' : ResultMemory) : Prop where
  generation : m'.generation = m.generation
  presented : m.presented = true → m'.presented = true
  acknowledged : m.acknowledged = true → m'.acknowledged = true
  superseded : m.superseded = true → m'.superseded = true

theorem ResultMemory.Rises.refl (m : ResultMemory) : m.Rises m := ⟨rfl, id, id, id⟩

theorem ResultMemory.Rises.trans {a b c : ResultMemory} (h₁ : a.Rises b) (h₂ : b.Rises c) : a.Rises c :=
  ⟨h₂.generation.trans h₁.generation, h₂.presented ∘ h₁.presented, h₂.acknowledged ∘ h₁.acknowledged,
    h₂.superseded ∘ h₁.superseded⟩

/-- `e'` is what became of `e`. -/
structure StoredRecord.Continues (e e' : StoredRecord) : Prop where
  id : e'.id = e.id
  generation : e'.generation = e.generation
  result : ∀ m ∈ e.result, ∃ m' ∈ e'.result, ResultMemory.Rises m m'

namespace StoredRecord

theorem Continues.refl (e : StoredRecord) : e.Continues e := ⟨rfl, rfl, fun m hm => ⟨m, hm, .refl m⟩⟩

theorem Continues.trans {a b c : StoredRecord} (h₁ : a.Continues b) (h₂ : b.Continues c) : a.Continues c := by
  refine ⟨h₂.id.trans h₁.id, h₂.generation.trans h₁.generation, fun m hm => ?_⟩
  obtain ⟨m₁, hm₁, hr₁⟩ := h₁.result m hm
  obtain ⟨m₂, hm₂, hr₂⟩ := h₂.result m₁ hm₁
  exact ⟨m₂, hm₂, hr₁.trans hr₂⟩

/-- Changing the owner and raising the result continues an entry. -/
theorem continues_of_map {e e' : StoredRecord} (f : ResultMemory → ResultMemory) (hid : e'.id = e.id)
    (hg : e'.generation = e.generation) (hr : e'.result = e.result.map f) (hf : ∀ m, ResultMemory.Rises m (f m)) :
    e.Continues e' := by
  refine ⟨hid, hg, fun m hm => ⟨f m, ?_, hf m⟩⟩
  rw [hr]
  exact Option.mem_map_of_mem f hm

theorem continues_setOwner (e : StoredRecord) (o : Option EpisodeId) : e.Continues { e with owner := o } :=
  ⟨rfl, rfl, fun m hm => ⟨m, hm, .refl m⟩⟩

theorem continues_joinResult (live : LiveEpisode) (starts : Bool) (cycle : WorkCycle) (e : StoredRecord) :
    e.Continues (e.joinResult live starts cycle) := by
  refine continues_of_map _ rfl rfl rfl fun m => ?_
  split
  · exact ⟨rfl, fun h => h, fun h => h, fun _ => rfl⟩
  · split
    · exact ⟨rfl, fun h => h, fun h => h, fun h => h⟩
    · exact .refl m

theorem continues_disown (e : StoredRecord) : e.Continues e.disown :=
  continues_of_map _ rfl rfl rfl fun _ => ⟨rfl, fun h => h, fun h => h, fun h => h⟩

theorem continues_present (effect : ProgramResult) (e : StoredRecord) : e.Continues (e.present effect) := by
  refine continues_of_map _ rfl rfl rfl fun m => ?_
  split
  · split
    · exact ⟨rfl, fun _ => rfl, fun h => h, fun h => h⟩
    · split
      · exact ⟨rfl, fun h => h, fun h => h, fun _ => rfl⟩
      · exact .refl m
  · exact .refl m

theorem continues_acknowledge (e : StoredRecord) : e.Continues e.acknowledge :=
  continues_of_map _ rfl rfl rfl fun _ => ⟨rfl, fun h => h, fun _ => rfl, fun h => h⟩

end StoredRecord

/-- What a presentation leaves of an entry. -/
def StoredRecord.withoutResult (entry : StoredRecord) : StoredRecord := { entry with result := none }

namespace RecordStore

/-- A call, by its effect on the store. -/
def step (s : RecordStore) : StoreOp → RecordStore
  | .apply command at_ episode => s.apply command at_ episode
  | .lifecycle event => s.lifecycle event
  | .invalidateEpisode => s.invalidateEpisode
  | .markPresented selection live => (s.markPresented selection live).2
  | .acknowledge identity => (s.acknowledge identity).2
  | .reconcileResult selection live disposition => (s.reconcileResult selection live disposition).2

/-- The store a sequence of calls leaves. -/
abbrev run (s : RecordStore) (ops : List StoreOp) : RecordStore := Run.run step s ops

/-! ## The pieces of `apply` -/

/-- A tombstone touches the tombstones only. -/
theorem noteRecoveryReset_eq (s : RecordStore) (id : RecordId) (subtree : Bool) :
    ∃ resets all, s.noteRecoveryReset id subtree =
      { s with recoveryResets := resets, recoveryResetAll := all } := by
  simp only [noteRecoveryReset]
  repeat' split
  all_goals exact ⟨_, _, rfl⟩

@[simp] theorem noteRecoveryReset_records (s : RecordStore) (id : RecordId) (subtree : Bool) :
    (s.noteRecoveryReset id subtree).records = s.records := by
  obtain ⟨_, _, h⟩ := noteRecoveryReset_eq s id subtree
  rw [h]

@[simp] theorem noteRecoveryReset_ordinal (s : RecordStore) (id : RecordId) (subtree : Bool) :
    (s.noteRecoveryReset id subtree).ordinal = s.ordinal := by
  obtain ⟨_, _, h⟩ := noteRecoveryReset_eq s id subtree
  rw [h]

@[simp] theorem noteRecoveryReset_cycle (s : RecordStore) (id : RecordId) (subtree : Bool) :
    (s.noteRecoveryReset id subtree).cycle = s.cycle := by
  obtain ⟨_, _, h⟩ := noteRecoveryReset_eq s id subtree
  rw [h]

@[simp] theorem noteRecoveryReset_activeOwner (s : RecordStore) (id : RecordId) (subtree : Bool) :
    (s.noteRecoveryReset id subtree).activeOwner = s.activeOwner := by
  obtain ⟨_, _, h⟩ := noteRecoveryReset_eq s id subtree
  rw [h]

/-- Eviction touches the record list only. -/
theorem evictOldest_eq (s : RecordStore) :
    ∃ l, l.Sublist s.records ∧ s.evictOldest = { s with records := l } := by
  unfold evictOldest
  split
  · split
    · exact ⟨_, List.eraseIdx_sublist .., rfl⟩
    · exact ⟨_, List.Sublist.refl _, rfl⟩
  · exact ⟨_, List.Sublist.refl _, rfl⟩

theorem displace_eq (s : RecordStore) (id : RecordId) :
    ∃ l, l.Sublist (s.records.eraseP fun entry => entry.id == id) ∧
      s.displace id = { s with ordinal := s.ordinal + 1, records := l } := by
  obtain ⟨l, hl, h⟩ := evictOldest_eq { s with
    ordinal := s.ordinal + 1, records := s.records.eraseP fun entry => entry.id == id }
  exact ⟨l, hl, h⟩

theorem displace_sublist (s : RecordStore) (id : RecordId) : (s.displace id).records.Sublist s.records := by
  obtain ⟨l, hl, h⟩ := displace_eq s id
  rw [h]
  exact hl.trans List.eraseP_sublist

@[simp] theorem displace_ordinal (s : RecordStore) (id : RecordId) :
    (s.displace id).ordinal = s.ordinal + 1 := by
  obtain ⟨l, -, h⟩ := displace_eq s id
  rw [h]

@[simp] theorem displace_cycle (s : RecordStore) (id : RecordId) : (s.displace id).cycle = s.cycle := by
  obtain ⟨l, -, h⟩ := displace_eq s id
  rw [h]

@[simp] theorem displace_activeOwner (s : RecordStore) (id : RecordId) :
    (s.displace id).activeOwner = s.activeOwner := by
  obtain ⟨l, -, h⟩ := displace_eq s id
  rw [h]

/-- The lineage a report of `id` continues in `s`. -/
def lineage (s : RecordStore) (id : RecordId) (observedOwner : Option EpisodeId) : Option StoredRecord :=
  sameLineage (s.records.find? fun entry => entry.id == id) observedOwner

theorem mem_lineage {s : RecordStore} {id : RecordId} {observedOwner : Option EpisodeId} {old : StoredRecord}
    (h : old ∈ s.lineage id observedOwner) :
    old ∈ s.records ∧ old.id = id ∧ old.observedOwner = observedOwner ∧ old.historical = false := by
  simp only [lineage, sameLineage, Option.mem_def, Option.filter_eq_some_iff, Bool.and_eq_true, beq_iff_eq,
    Bool.not_eq_true'] at h
  obtain ⟨hf, ho, hh⟩ := h
  exact ⟨List.mem_of_find?_eq_some hf, by simpa using List.find?_some hf, ho, hh⟩

/-- Whether a `Replace` finds its report eligible. -/
def reports (s : RecordStore) (record : Record) (episode : Option LiveEpisode) : Bool :=
  episode.any fun live =>
    (s.displace record.id).reportEligible record (s.lineage record.id (episode.map (·.owner))) live

/-- Whether a `Replace` drops the result it finds. -/
def resets (s : RecordStore) (record : Record) (episode : Option LiveEpisode) : Bool :=
  (s.lineage record.id (episode.map (·.owner))).all fun old =>
    s.reports record episode && retires record.status old

/-- The entry a `Replace` pushes. -/
def pushed (s : RecordStore) (record : Record) (at_ : Nat) (episode : Option LiveEpisode) : StoredRecord :=
  (s.displace record.id).replacement record at_ (episode.map (·.owner))
    (s.lineage record.id (episode.map (·.owner))) (s.resets record episode)

/-- What a `Replace` asks of the work cycle. -/
def reported (s : RecordStore) (record : Record) (episode : Option LiveEpisode) : Reported :=
  let eligible := s.reports record episode
  let hadResult := (s.lineage record.id (episode.map (·.owner))).any fun old => old.result.isSome
  let dialogRestore := eligible && record.status.isBlocked && hadResult
  { idleReset := eligible && record.status.isIdle && hadResult
    dialogRestore
    reportedActivity :=
      eligible && (record.status.isWorking || (record.status.isBlocked && !dialogRestore)) }

theorem applyReplace_eq (s : RecordStore) (record : Record) (at_ : Nat) (episode : Option LiveEpisode) :
    s.applyReplace record at_ episode =
      ({ (if s.reports record episode && record.status.isIdle then
            (s.displace record.id).noteRecoveryReset record.id false else s.displace record.id) with
          records := (s.displace record.id).records ++ [s.pushed record at_ episode] },
        s.reported record episode) := by
  have h : s.applyReplace record at_ episode =
      ({ (if s.reports record episode && record.status.isIdle then
            (s.displace record.id).noteRecoveryReset record.id false else s.displace record.id) with
          records := (if s.reports record episode && record.status.isIdle then
            (s.displace record.id).noteRecoveryReset record.id false else s.displace record.id).records ++
              [s.pushed record at_ episode] },
        s.reported record episode) := rfl
  rw [h]
  split <;> simp only [noteRecoveryReset_records]

section Replace

variable (s : RecordStore) (record : Record) (at_ : Nat) (episode : Option LiveEpisode)

@[simp] theorem applyReplace_records : (s.applyReplace record at_ episode).1.records =
    (s.displace record.id).records ++ [s.pushed record at_ episode] := by rw [applyReplace_eq]

@[simp] theorem applyReplace_reported : (s.applyReplace record at_ episode).2 = s.reported record episode := by
  rw [applyReplace_eq]

@[simp] theorem applyReplace_ordinal : (s.applyReplace record at_ episode).1.ordinal = s.ordinal + 1 := by
  rw [applyReplace_eq]
  split <;> simp

@[simp] theorem applyReplace_cycle : (s.applyReplace record at_ episode).1.cycle = s.cycle := by
  rw [applyReplace_eq]
  split <;> simp

@[simp] theorem applyReplace_activeOwner :
    (s.applyReplace record at_ episode).1.activeOwner = s.activeOwner := by
  rw [applyReplace_eq]
  split <;> simp

@[simp] theorem pushed_record : (s.pushed record at_ episode).record = record := rfl
@[simp] theorem pushed_id : (s.pushed record at_ episode).id = record.id := rfl
@[simp] theorem pushed_historical : (s.pushed record at_ episode).historical = false := rfl
@[simp] theorem pushed_observedOwner :
    (s.pushed record at_ episode).observedOwner = episode.map (·.owner) := rfl
@[simp] theorem pushed_updated : (s.pushed record at_ episode).updated = s.ordinal + 1 := by
  simp [pushed, replacement]
theorem pushed_owner : (s.pushed record at_ episode).owner =
    (s.lineage record.id (episode.map (·.owner))).bind (·.owner) := rfl

/-- The result a terminal report creates, and the only one `apply` creates. -/
def newResult (generation : ResultGeneration) (cycle : WorkCycle) : ResultMemory :=
  { owner := none, generation, cycle, presented := false, acknowledged := false, superseded := false }

/-- A pushed entry starts a generation of its own, or keeps its lineage's with its result. -/
theorem pushed_cases :
    ((s.pushed record at_ episode).generation = s.ordinal + 1 ∧
      ∀ m ∈ (s.pushed record at_ episode).result, m = newResult (s.ordinal + 1) s.cycle) ∨
    ∃ old ∈ s.lineage record.id (episode.map (·.owner)),
      (s.pushed record at_ episode).generation = old.generation ∧
      ((s.pushed record at_ episode).result = old.result ∨
        old.result = none ∧ ∀ m ∈ (s.pushed record at_ episode).result, m = newResult old.generation s.cycle) := by
  cases hr : s.resets record episode with
  | true =>
    left
    simp only [pushed, replacement, hr, if_true, displace_ordinal, displace_cycle, true_and]
    intro m hm
    split at hm
    · simpa [newResult, eq_comm] using hm
    · simp at hm
  | false =>
    right
    obtain ⟨old, hl⟩ : ∃ old, s.lineage record.id (episode.map (·.owner)) = some old := by
      cases hl : s.lineage record.id (episode.map (·.owner)) with
      | none => simp [resets, hl] at hr
      | some old => exact ⟨old, rfl⟩
    refine ⟨old, hl, ?_⟩
    simp only [pushed, replacement, hr, hl, displace_ordinal, displace_cycle, Bool.false_eq_true, if_false,
      Option.elim_some, Option.bind_some, true_and]
    cases hres : old.result with
    | none =>
      right
      refine ⟨rfl, fun m hm => ?_⟩
      simp only [Option.isNone_none, Bool.and_true] at hm
      split at hm
      · simpa [newResult, eq_comm] using hm
      · simp at hm
    | some m => simp

end Replace

@[simp] theorem applyClear_records (s : RecordStore) (id : RecordId) :
    (s.applyClear id).records = s.records.filter fun entry => !id.contains entry.id := by
  simp [applyClear]

@[simp] theorem applyClear_ordinal (s : RecordStore) (id : RecordId) :
    (s.applyClear id).ordinal = s.ordinal := by simp [applyClear]

@[simp] theorem applyClear_cycle (s : RecordStore) (id : RecordId) :
    (s.applyClear id).cycle = s.cycle := by simp [applyClear]

@[simp] theorem applyClear_activeOwner (s : RecordStore) (id : RecordId) :
    (s.applyClear id).activeOwner = s.activeOwner := by simp [applyClear]

@[simp] theorem reconcileOwnership_ordinal (s : RecordStore) (live : LiveEpisode) :
    (s.reconcileOwnership live).ordinal = s.ordinal := rfl
@[simp] theorem reconcileOwnership_cycle (s : RecordStore) (live : LiveEpisode) :
    (s.reconcileOwnership live).cycle = s.cycle := rfl
@[simp] theorem reconcileOwnership_activeOwner (s : RecordStore) (live : LiveEpisode) :
    (s.reconcileOwnership live).activeOwner = s.activeOwner := rfl

@[simp] theorem settle_ordinal (s : RecordStore) (live : LiveEpisode) (wasActive : Bool) (reported : Reported) :
    (s.settle live wasActive reported).ordinal = s.ordinal := rfl

/-- The store a command leaves before its episode half. -/
def unsettled (s : RecordStore) (command : ProgramCommand) (at_ : Nat) (episode : Option LiveEpisode) :
    RecordStore × Reported :=
  match command with
  | .query => (s, {})
  | .replace record => s.applyReplace record at_ episode
  | .clear id => (s.applyClear id, {})

/-- A command other than a query, in an episode and in none. -/
theorem apply_some {s : RecordStore} {command : ProgramCommand} (h : command ≠ .query) (at_ : Nat)
    (live : LiveEpisode) : s.apply command at_ (some live) =
      (s.unsettled command at_ (some live)).1.settle live (s.hasActivity live)
        (s.unsettled command at_ (some live)).2 := by
  cases command with
  | query => exact absurd rfl h
  | replace record => rfl
  | clear id => rfl

theorem apply_none (s : RecordStore) (command : ProgramCommand) (at_ : Nat) :
    s.apply command at_ none = (s.unsettled command at_ none).1 := by
  cases command <;> rfl

/-- Where the entries come from before the episode half. -/
theorem mem_unsettled {s : RecordStore} {command : ProgramCommand} {at_ : Nat} {episode : Option LiveEpisode}
    {e : StoredRecord} (h : e ∈ (s.unsettled command at_ episode).1.records) :
    e ∈ s.records ∨ ∃ record, command = .replace record ∧ e = s.pushed record at_ episode := by
  cases command with
  | query => exact .inl h
  | clear id =>
    simp only [unsettled, applyClear_records] at h
    exact .inl (List.mem_of_mem_filter h)
  | replace record =>
    simp only [unsettled, applyReplace_records, List.mem_append, List.mem_singleton] at h
    rcases h with h | h
    · exact .inl ((displace_sublist s record.id).subset h)
    · exact .inr ⟨record, rfl, h⟩

/-- What the ownership pass and the cycle loop make of an entry. -/
theorem mem_settle {s : RecordStore} {live : LiveEpisode} {wasActive : Bool} {reported : Reported}
    {e' : StoredRecord} (h : e' ∈ (s.settle live wasActive reported).records) :
    ∃ e ∈ s.records, e' = StoredRecord.joinResult live
      ((s.reconcileOwnership live).startsCycle live wasActive reported)
      (s.settle live wasActive reported).cycle { e with owner := s.reconciledOwner live e } := by
  simp only [settle, reconcileOwnership, List.map_map, List.mem_map, Function.comp_apply] at h
  obtain ⟨e, he, rfl⟩ := h
  exact ⟨e, he, rfl⟩

/-! ## The presentation calls -/

theorem markPresented_cases (s : RecordStore) (selection : ProgramSelection) (live : LiveEpisode) :
    s.markPresented selection live = (false, s) ∨
      ∃ effect, selection.pendingResult = some effect ∧ s.presentable selection live = true ∧
        s.markPresented selection live =
          (true, { s with records := s.records.map (StoredRecord.present effect) }) := by
  unfold markPresented
  cases selection.pendingResult with
  | none => exact .inl rfl
  | some effect =>
    cases hp : s.presentable selection live with
    | false => exact .inl (by simp)
    | true => exact .inr ⟨effect, rfl, rfl, by simp⟩

theorem acknowledge_cases (s : RecordStore) (identity : ResultIdentity) :
    s.acknowledge identity = (false, s) ∨
      ∃ l₁ entry l₂, s.records = l₁ ++ entry :: l₂ ∧
        (entry.owner = some identity.owner ∧ entry.id = identity.record) ∧
        (∃ m ∈ entry.result, m.generation = identity.generation ∧ m.presented = true) ∧
        s.acknowledge identity = (true, { s with records := l₁ ++ entry.acknowledge :: l₂ }) := by
  simp only [acknowledge]
  split
  · exact .inl rfl
  · rename_i entry hf
    split
    · rename_i hr
      obtain ⟨l₁, l₂, hl, hm⟩ := Choose.modifyFirst_of_find? (f := StoredRecord.acknowledge) hf
      refine .inr ⟨l₁, entry, l₂, hl, by simpa using List.find?_some hf, ?_, by rw [hm]⟩
      simpa [Option.any_eq_true] using hr
    · exact .inl rfl

/-- Reconciling is presenting, then possibly acknowledging. -/
theorem step_reconcileResult (s : RecordStore) (selection : ProgramSelection) (live : LiveEpisode)
    (disposition : ResultDisposition) :
    s.step (.reconcileResult selection live disposition) = s.step (.markPresented selection live) ∨
      ∃ identity, s.step (.reconcileResult selection live disposition) =
        (s.step (.markPresented selection live)).step (.acknowledge identity) := by
  simp only [step, reconcileResult]
  rcases s.markPresented selection live with ⟨_ | _, t⟩
  · exact .inl rfl
  · cases disposition with
    | presented => exact .inl rfl
    | acknowledged =>
      cases selection.result with
      | none => exact .inl rfl
      | some result => exact .inr ⟨result.identity, rfl⟩

/-- What `mark_presented` and `acknowledge` preserve, `reconcile_result` preserves. -/
theorem reconcileResult_of {I : RecordStore → Prop}
    (hm : ∀ s selection live, I s → I (s.step (.markPresented selection live)))
    (ha : ∀ s identity, I s → I (s.step (.acknowledge identity))) {s : RecordStore} (hs : I s)
    (selection : ProgramSelection) (live : LiveEpisode) (disposition : ResultDisposition) :
    I (s.step (.reconcileResult selection live disposition)) := by
  rcases step_reconcileResult s selection live disposition with h | ⟨identity, h⟩
  · rw [h]; exact hm s selection live hs
  · rw [h]; exact ha _ identity (hm s selection live hs)

@[simp] theorem step_markPresented_ordinal (s : RecordStore) (selection : ProgramSelection)
    (live : LiveEpisode) : (s.step (.markPresented selection live)).ordinal = s.ordinal := by
  rcases markPresented_cases s selection live with h | ⟨_, -, -, h⟩ <;> simp [step, h]

@[simp] theorem step_acknowledge_ordinal (s : RecordStore) (identity : ResultIdentity) :
    (s.step (.acknowledge identity)).ordinal = s.ordinal := by
  rcases acknowledge_cases s identity with h | ⟨_, _, _, -, -, -, h⟩ <;> simp [step, h]

@[simp] theorem step_reconcileResult_ordinal (s : RecordStore) (selection : ProgramSelection)
    (live : LiveEpisode) (disposition : ResultDisposition) :
    (s.step (.reconcileResult selection live disposition)).ordinal = s.ordinal := by
  rcases step_reconcileResult s selection live disposition with h | ⟨_, h⟩ <;> simp [h]

/-- **The presentation half writes results only.** -/
theorem step_presentation (s : RecordStore) {op : StoreOp} (h : op.isPresentation = true) :
    ∃ l, s.step op = { s with records := l } ∧
      l.map StoredRecord.withoutResult = s.records.map StoredRecord.withoutResult := by
  let Kept (t : RecordStore) : Prop := ∃ l, t = { s with records := l } ∧
    l.map StoredRecord.withoutResult = s.records.map StoredRecord.withoutResult
  have hmark : ∀ (t : RecordStore) selection live, Kept t → Kept (t.step (.markPresented selection live)) := by
    rintro t selection live ⟨l, rfl, hl⟩
    rcases markPresented_cases { s with records := l } selection live with hm | ⟨effect, -, -, hm⟩
    · rw [step, hm]
      exact ⟨l, rfl, hl⟩
    · rw [step, hm]
      refine ⟨_, rfl, ?_⟩
      rw [List.map_map, ← hl]
      exact List.map_congr_left fun e _ => rfl
  have hack : ∀ (t : RecordStore) identity, Kept t → Kept (t.step (.acknowledge identity)) := by
    rintro t identity ⟨l, rfl, hl⟩
    rcases acknowledge_cases { s with records := l } identity with ha | ⟨l₁, entry, l₂, hl', -, -, ha⟩
    · rw [step, ha]
      exact ⟨l, rfl, hl⟩
    · rw [step, ha]
      refine ⟨_, rfl, ?_⟩
      have hl' : l = l₁ ++ entry :: l₂ := hl'
      rw [← hl, hl', List.map_append, List.map_append]
      rfl
  have hs : Kept s := ⟨s.records, rfl, rfl⟩
  cases op with
  | apply command at_ episode => exact absurd h Bool.false_ne_true
  | lifecycle event => exact absurd h Bool.false_ne_true
  | invalidateEpisode => exact absurd h Bool.false_ne_true
  | markPresented selection live => exact hmark s selection live hs
  | acknowledge identity => exact hack s identity hs
  | reconcileResult selection live disposition =>
    exact reconcileResult_of hmark hack hs selection live disposition

/-! ## Where entries come from -/

/-- What holds of the entries before the episode half holds, continued, after it. -/
theorem mem_apply {s : RecordStore} {command : ProgramCommand} {at_ : Nat} {episode : Option LiveEpisode}
    {e' : StoredRecord} (h : e' ∈ (s.apply command at_ episode).records) :
    ∃ e, e.Continues e' ∧
      (e ∈ s.records ∨ ∃ record, command = .replace record ∧ e = s.pushed record at_ episode) := by
  by_cases hq : command = .query
  · subst hq
    exact ⟨e', .refl _, .inl h⟩
  cases episode with
  | none =>
    rw [apply_none] at h
    exact ⟨e', .refl _, mem_unsettled h⟩
  | some live =>
    rw [apply_some hq] at h
    obtain ⟨e, he, rfl⟩ := mem_settle h
    exact ⟨e, (e.continues_setOwner _).trans (StoredRecord.continues_joinResult ..), mem_unsettled he⟩

theorem mem_markPresented {s : RecordStore} {selection : ProgramSelection} {live : LiveEpisode}
    {e' : StoredRecord} (h : e' ∈ (s.markPresented selection live).2.records) :
    ∃ e ∈ s.records, e.Continues e' := by
  rcases markPresented_cases s selection live with hm | ⟨effect, -, -, hm⟩
  · rw [hm] at h
    exact ⟨e', h, .refl _⟩
  · rw [hm] at h
    obtain ⟨e, he, rfl⟩ := List.mem_map.mp h
    exact ⟨e, he, e.continues_present _⟩

theorem mem_acknowledge {s : RecordStore} {identity : ResultIdentity} {e' : StoredRecord}
    (h : e' ∈ (s.acknowledge identity).2.records) : ∃ e ∈ s.records, e.Continues e' := by
  rcases acknowledge_cases s identity with ha | ⟨l₁, entry, l₂, hl, -, -, ha⟩
  · rw [ha] at h
    exact ⟨e', h, .refl _⟩
  · simp only [ha, List.mem_append, List.mem_cons] at h
    rcases h with h | rfl | h
    · exact ⟨e', by simp [hl, h], .refl _⟩
    · exact ⟨entry, by simp [hl], entry.continues_acknowledge⟩
    · exact ⟨e', by simp [hl, h], .refl _⟩

theorem mem_lifecycle {s : RecordStore} {event : TerminalLifecycle} {e' : StoredRecord}
    (h : e' ∈ (s.lifecycle event).records) : ∃ e ∈ s.records, e.Continues e' := by
  cases event with
  | fullReset => simp [lifecycle] at h
  | shellPrompt | attachedProcessExit =>
    obtain ⟨e, he, rfl⟩ := List.mem_map.mp h
    exact ⟨e, List.mem_of_mem_filter he, e.continues_disown⟩

theorem mem_invalidateEpisode {s : RecordStore} {e' : StoredRecord} (h : e' ∈ s.invalidateEpisode.records) :
    ∃ e ∈ s.records, e.Continues e' := by
  obtain ⟨e, he, rfl⟩ := List.mem_map.mp h
  exact ⟨e, he, (e.continues_disown).trans ⟨rfl, rfl, fun m hm => ⟨m, hm, .refl m⟩⟩⟩

/-- No call takes an ordinal back. -/
theorem ordinal_le_step (s : RecordStore) (op : StoreOp) : s.ordinal ≤ (s.step op).ordinal := by
  cases op with
  | apply command at_ episode => cases command <;> cases episode <;> simp [step, apply]
  | lifecycle event => cases event <;> simp [step, lifecycle]
  | invalidateEpisode => simp [step, invalidateEpisode]
  | markPresented selection live => simp
  | acknowledge identity => simp
  | reconcileResult selection live disposition => simp

/-- **Where the entries of a store come from.** After any call an entry continues one
that was there, or its generation is the ordinal the call took. -/
theorem step_origin {s : RecordStore} {op : StoreOp} {e' : StoredRecord} (h : e' ∈ (s.step op).records) :
    (∃ e ∈ s.records, e.Continues e') ∨ s.ordinal < e'.generation := by
  cases op with
  | apply command at_ episode =>
    obtain ⟨e, hc, he | ⟨record, -, rfl⟩⟩ := mem_apply h
    · exact .inl ⟨e, he, hc⟩
    · rcases pushed_cases s record at_ episode with ⟨hg, -⟩ | ⟨old, hold, hg, hr⟩
      · right
        rw [hc.generation, hg]
        omega
      · left
        obtain ⟨hmem, hid, -, -⟩ := mem_lineage hold
        refine ⟨old, hmem, StoredRecord.Continues.trans ⟨hid.symm, hg, fun m hm => ?_⟩ hc⟩
        rcases hr with hr | ⟨hnone, -⟩
        · exact ⟨m, by rw [hr]; exact hm, .refl m⟩
        · simp [hnone] at hm
  | lifecycle event => exact .inl (mem_lifecycle h)
  | invalidateEpisode => exact .inl (mem_invalidateEpisode h)
  | markPresented selection live => exact .inl (mem_markPresented h)
  | acknowledge identity => exact .inl (mem_acknowledge h)
  | reconcileResult selection live disposition =>
    left
    rcases step_reconcileResult s selection live disposition with hr | ⟨identity, hr⟩
    · rw [hr] at h
      exact mem_markPresented h
    · rw [hr] at h
      obtain ⟨e₁, he₁, hc₁⟩ := mem_acknowledge h
      obtain ⟨e₀, he₀, hc₀⟩ := mem_markPresented he₁
      exact ⟨e₀, he₀, hc₀.trans hc₁⟩

end RecordStore

end TmuxAgents
