/-
What a store shows (`program_status/project.rs`), and the presentation calls
of `store.rs` that write back what was shown: `markPresented`, `acknowledge`
and `reconcileResult`. Each answers whether it was accepted, with the store
after it.
-/
import TmuxAgents.Program.Store

namespace TmuxAgents

inductive AgentState
  | idle
  | working
  | blocked
  | unknown
deriving DecidableEq

/-- A detail token, an open vocabulary. -/
structure Detail where
  token : String
deriving DecidableEq

inductive ResultKind
  | completion
  | failure
deriving DecidableEq

/-- Runtime has independently matched an existing persisted result. -/
inductive ResultDisposition
  | presented
  | acknowledged
deriving DecidableEq

structure ResultIdentity where
  owner : EpisodeId
  record : RecordId
  generation : ResultGeneration
deriving DecidableEq

structure ProgramResult where
  identity : ResultIdentity
  kind : ResultKind
  cycle : WorkCycle
  /-- Needs guarded presentation and a turn-marker advance, even for idle -> idle. -/
  pending : Bool
deriving DecidableEq

structure ProgramAuthority where
  owner : EpisodeId
deriving DecidableEq

structure ProgramSelection where
  authority : ProgramAuthority
  recordId : RecordId
  updated : Nat
  at_ : Nat
  protocolState : ProgramStatus
  state : AgentState
  detail : Option Detail
  result : Option ProgramResult
  recoveryReset : Bool
deriving DecidableEq

/-- Neither acknowledged nor superseded. -/
def ResultMemory.fresh (result : ResultMemory) : Bool := !result.acknowledged && !result.superseded

def rank (entry : StoredRecord) : Nat :=
  match entry.record.status with
  | .blocked _ _ => 4
  | .working _ => 3
  | .error => if entry.result.any ResultMemory.fresh then 2 else 0
  | .done => if entry.result.any ResultMemory.fresh then 1 else 0
  | .idle => 0

/-- By rank, then by update ordinal, then by record id. -/
def compareEntries (left right : StoredRecord) : Ordering :=
  (compare (rank left) (rank right)).then
    ((compare left.updated right.updated).then (compare left.id right.id))

def BlockedKind.detail : BlockedKind → Detail
  | .permission => ⟨"permission"⟩
  | .question => ⟨"question"⟩
  | .auth => ⟨"auth"⟩

/-- The agent state and detail a selected entry shows. -/
def projectState (entry : StoredRecord) : AgentState × Option Detail :=
  match entry.record.status with
  | .idle | .done => (.idle, none)
  | .working _ => (.working, none)
  | .blocked kind _ => (.blocked, kind.map BlockedKind.detail)
  | .error => (.idle, (entry.result.filter ResultMemory.fresh).map fun _ => ⟨"error"⟩)

/-- The result a selected entry shows while nothing of the owner is active. -/
def projectResult (entry : StoredRecord) (live : LiveEpisode) : Option ProgramResult :=
  ((entry.result.filter ResultMemory.fresh).filter fun _ => entry.record.status.isTerminal).map fun result =>
    { identity := { owner := live.owner, record := entry.id, generation := result.generation }
      kind := match entry.record.status with
        | .error => .failure
        | _ => .completion
      cycle := result.cycle
      pending := !result.presented }

/-- The result of a selection that still needs presentation. -/
def ProgramSelection.pendingResult (selection : ProgramSelection) : Option ProgramResult :=
  selection.result.filter fun result => result.pending

/-- The named result is presented; the aggregate's others are superseded. -/
def StoredRecord.present (effect : ProgramResult) (entry : StoredRecord) : StoredRecord :=
  { entry with result := entry.result.map fun result =>
      if result.owner == some effect.identity.owner then
        if entry.id == effect.identity.record && result.generation == effect.identity.generation then
          { result with presented := true }
        else if result.cycle ≤ effect.cycle then { result with superseded := true }
        else result
      else result }

def StoredRecord.acknowledge (entry : StoredRecord) : StoredRecord :=
  { entry with result := entry.result.map fun result => { result with acknowledged := true } }

namespace RecordStore

def selectEntry (s : RecordStore) (live : LiveEpisode) : Option StoredRecord :=
  Choose.maxBy compareEntries (s.records.filter fun entry => s.eligible entry live)

def select (s : RecordStore) (live : LiveEpisode) : Option ProgramSelection :=
  (s.selectEntry live).map fun entry =>
    { authority := ⟨live.owner⟩
      recordId := entry.id
      updated := entry.updated
      at_ := entry.at_
      protocolState := entry.record.status
      state := (projectState entry).1
      detail := (projectState entry).2
      result := if s.hasActivity live then none else projectResult entry live
      recoveryReset := s.recoveryResetFor entry.id }

/-! ## Presentation -/

/-- Whether `selection` is what the settled store selects right now. -/
def presentable (s : RecordStore) (selection : ProgramSelection) (live : LiveEpisode) : Bool :=
  live.owner == selection.authority.owner && !s.hasActivity live &&
    (s.select live).any fun current =>
      current.recordId == selection.recordId && current.updated == selection.updated &&
        current.pendingResult.map (·.identity) == selection.pendingResult.map (·.identity)

/-- Call only after guarded publication succeeds. Returns false for stale projections.
Other results in this settled aggregate become superseded, never acknowledged. -/
def markPresented (s : RecordStore) (selection : ProgramSelection) (live : LiveEpisode) : Bool × RecordStore :=
  match selection.pendingResult with
  | none => (false, s)
  | some effect =>
    if s.presentable selection live then
      (true, { s with records := s.records.map (StoredRecord.present effect) })
    else (false, s)

/-- An absent attention flag is not acknowledgement. Only a presented, exact result
identity can be acknowledged, including when a new report arrived in the same wake. -/
def acknowledge (s : RecordStore) (identity : ResultIdentity) : Bool × RecordStore :=
  let named := fun entry : StoredRecord => entry.owner == some identity.owner && entry.id == identity.record
  match s.records.find? named with
  | none => (false, s)
  | some entry =>
    if entry.result.any fun result => result.generation == identity.generation && result.presented then
      (true, { s with records := Choose.modifyFirst named StoredRecord.acknowledge s.records })
    else (false, s)

/-- Reconcile a fresh selected result against independently validated persisted
markers after recovery. -/
def reconcileResult (s : RecordStore) (selection : ProgramSelection) (live : LiveEpisode)
    (disposition : ResultDisposition) : Bool × RecordStore :=
  match s.markPresented selection live with
  | (false, s) => (false, s)
  | (true, s) =>
    match disposition with
    | .presented => (true, s)
    | .acknowledged =>
      -- `mark_presented` accepted, so the selection has a result: the `unwrap` is of `some`.
      selection.result.elim (false, s) fun result => s.acknowledge result.identity

end RecordStore

end TmuxAgents
