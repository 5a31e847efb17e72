/-
The record store (`program_status/store.rs`): the records one pane reported,
who may own each of them, the results they carry and the work cycle.

`apply` is written as its two halves. The first touches the record list: a
`Replace` takes the old record of the id out, evicts the least recently
replaced record when the store is full and pushes the new one; a `Clear`
drops a subtree. The second, `settle`, runs when the command arrived in a
live episode: it recomputes every owner, decides whether a work cycle starts,
supersedes or joins results and updates the active owner.
-/
import TmuxAgents.Lib.Choose
import TmuxAgents.Program.Record

namespace TmuxAgents

abbrev EpisodeId := Nat
abbrev ResultGeneration := Nat
abbrev WorkCycle := Nat

/-- A validated episode: its owner and the app aliases of its agent. -/
structure LiveEpisode where
  owner : EpisodeId
  apps : List AppId

def LiveEpisode.matches (live : LiveEpisode) (app : AppId) : Bool := live.apps.any (· == app)

structure ResultMemory where
  owner : Option EpisodeId
  generation : ResultGeneration
  cycle : WorkCycle
  presented : Bool
  acknowledged : Bool
  superseded : Bool
deriving DecidableEq

structure StoredRecord where
  record : Record
  updated : Nat
  at_ : Nat
  observedOwner : Option EpisodeId
  owner : Option EpisodeId
  historical : Bool
  generation : ResultGeneration
  result : Option ResultMemory
deriving DecidableEq

namespace StoredRecord

abbrev id (entry : StoredRecord) : RecordId := entry.record.id

/-- What a boundary leaves of an entry: history, owned by nobody. -/
def disown (entry : StoredRecord) : StoredRecord :=
  { entry with
    historical := true
    owner := none
    result := entry.result.map fun result => { result with owner := none } }

/-- A started cycle supersedes the owner's results. An anonymous result that became
eligible joins the aggregate instead of being retired unseen. -/
def joinResult (live : LiveEpisode) (starts : Bool) (cycle : WorkCycle) (entry : StoredRecord) : StoredRecord :=
  { entry with result := entry.result.map fun result =>
      if result.owner == some live.owner && starts then { result with superseded := true }
      else if result.owner == none && entry.owner == some live.owner then
        { result with owner := some live.owner, cycle }
      else result }

end StoredRecord

structure RecordStore where
  records : List StoredRecord := []
  ordinal : Nat := 0
  cycle : WorkCycle := 0
  activeOwner : Option EpisodeId := none
  /-- Recovery tombstones: a record id, and whether its whole subtree was reset. -/
  recoveryResets : List (RecordId × Bool) := []
  recoveryResetAll : Bool := false
deriving DecidableEq

namespace RecordStore

def new : RecordStore := {}

def workCycle (s : RecordStore) : WorkCycle := s.cycle

/-! ## Ownership -/

/-- Nearest explicit app, computed from the current records, never copied into a child. -/
def effectiveApp (s : RecordStore) (id : RecordId) : Option AppId :=
  (Choose.maxByKey (fun found : Nat × AppId => found.1)
    ((s.records.filter fun entry => entry.id.contains id).filterMap fun entry =>
      entry.record.app.map fun app => (entry.id.str.length, app))).map (·.2)

def hasAnchor (s : RecordStore) (id : RecordId) (live : LiveEpisode) : Bool :=
  s.records.any fun ancestor =>
    ancestor.observedOwner == some live.owner && !ancestor.historical && ancestor.id.contains id &&
      (ancestor.owner == some live.owner || ancestor.record.app.any live.matches)

/-- A matching explicit record is an independent lineage anchor. Anonymous reports
may follow an established same-record/ancestor lineage; a foreign ancestor revokes it. -/
def reconciledOwner (s : RecordStore) (live : LiveEpisode) (entry : StoredRecord) : Option EpisodeId :=
  if entry.historical || entry.observedOwner != some live.owner then none
  else if (s.effectiveApp entry.id).any fun app => !live.matches app then none
  else if s.hasAnchor entry.id live || entry.owner == some live.owner then some live.owner
  else none

/-- Every owner is computed from the records as they were. -/
def reconcileOwnership (s : RecordStore) (live : LiveEpisode) : RecordStore :=
  { s with records := s.records.map fun entry => { entry with owner := s.reconciledOwner live entry } }

def eligible (s : RecordStore) (entry : StoredRecord) (live : LiveEpisode) : Bool :=
  !entry.historical && entry.owner == some live.owner && (s.effectiveApp entry.id).all live.matches

def hasActivity (s : RecordStore) (live : LiveEpisode) : Bool :=
  s.records.any fun entry => s.eligible entry live && entry.record.status.isActive

/-! ## Recovery tombstones -/

def noteRecoveryReset (s : RecordStore) (id : RecordId) (subtree : Bool) : RecordStore :=
  if s.recoveryResetAll || s.recoveryResets.any fun (reset, wide) =>
      if wide then reset.contains id else !subtree && reset == id then s
  else
    let resets := if subtree then s.recoveryResets.filter fun (reset, _) => !id.contains reset
      else s.recoveryResets
    if resets.length = maxRecords ∨ (subtree = true ∧ id.isRoot = true) then
      { s with recoveryResets := [], recoveryResetAll := true }
    else { s with recoveryResets := resets ++ [(id, subtree)] }

def recoveryRetainedBytes (s : RecordStore) : Nat :=
  (s.recoveryResets.map fun (id, _) => id.str.length).sum

/-- Conservative pre-mutation reservation. Eligibility may discard an idle reset, and a
subtree reset may remove older tombstones, so actual retention can only be smaller. -/
def recoveryReservation (s : RecordStore) (command : ProgramCommand) : Nat :=
  s.recoveryRetainedBytes +
    match command with
    | .replace record => if record.status.isIdle then record.id.str.length else 0
    | .clear id => id.str.length
    | .query => 0

def recoveryResetFor (s : RecordStore) (id : RecordId) : Bool :=
  s.recoveryResetAll || s.recoveryResets.any fun (reset, wide) =>
    if wide then reset.contains id else reset == id

/-- Payload bytes retained by the store, excluding allocation overhead. -/
def retainedBytes (s : RecordStore) : Nat :=
  (s.records.map fun entry => recordBytes entry.record).sum + s.recoveryRetainedBytes

/-! ## Applying a command -/

/-- What a report asks of the work cycle. -/
structure Reported where
  idleReset : Bool := false
  dialogRestore : Bool := false
  reportedActivity : Bool := false

/-- At capacity, the least recently replaced record leaves. -/
def evictOldest (s : RecordStore) : RecordStore :=
  if s.records.length = maxRecords then
    match Choose.minByKey (fun found : StoredRecord × Nat => found.1.updated) s.records.zipIdx with
    | some (_, oldest) => { s with records := s.records.eraseIdx oldest }
    | none => s
  else s

/-- The record a `Replace` continues: one of the same episode that is not history. -/
def sameLineage (previous : Option StoredRecord) (observedOwner : Option EpisodeId) : Option StoredRecord :=
  previous.filter fun old => old.observedOwner == observedOwner && !old.historical

/-- A foreign replacement changes protocol data, not this owner's work generation. -/
def reportEligible (s : RecordStore) (record : Record) (lineage : Option StoredRecord)
    (live : LiveEpisode) : Bool :=
  (record.app <|> s.effectiveApp record.id).all live.matches &&
    (record.app.any live.matches || lineage.any (fun old => old.owner == some live.owner) ||
      s.hasAnchor record.id live)

/-- Whether an eligible report of `status` retires what `old` carried. -/
def retires (status : ProgramStatus) (old : StoredRecord) : Bool :=
  match status, old.record.status with
  | .working _, .working _ | .idle, .idle => old.result.isSome
  | .working _, _ | .idle, _ => true
  | _, _ => false

/-- The entry a `Replace` pushes. `s` is the store after the old record left. -/
def replacement (s : RecordStore) (record : Record) (at_ : Nat) (observedOwner : Option EpisodeId)
    (lineage : Option StoredRecord) (reset : Bool) : StoredRecord :=
  let generation := if reset then s.ordinal else lineage.elim s.ordinal (·.generation)
  let kept := if reset then none else lineage.bind (·.result)
  let result :=
    if record.status.isTerminal && kept.isNone then
      some { owner := none, generation, cycle := s.cycle, presented := false, acknowledged := false,
             superseded := false }
    else kept
  { record, updated := s.ordinal, at_, observedOwner, owner := lineage.bind (·.owner),
    historical := false, generation, result }

/-- The store a `Replace` pushes to: the next ordinal taken, the id's old record
gone, room made. -/
def displace (s : RecordStore) (id : RecordId) : RecordStore :=
  evictOldest { s with
    ordinal := s.ordinal + 1
    records := s.records.eraseP fun entry => entry.id == id }

/-- `Replace`, up to the ownership pass: the store with the new entry last. -/
def applyReplace (s : RecordStore) (record : Record) (at_ : Nat) (episode : Option LiveEpisode) :
    RecordStore × Reported :=
  let previous := s.records.find? fun entry => entry.id == record.id
  let s := s.displace record.id
  let observedOwner := episode.map (·.owner)
  let lineage := sameLineage previous observedOwner
  let reported := episode.any fun live => s.reportEligible record lineage live
  let reset := lineage.all fun old => reported && retires record.status old
  let hadResult := lineage.any fun old => old.result.isSome
  let dialogRestore := reported && record.status.isBlocked && hadResult
  let entry := s.replacement record at_ observedOwner lineage reset
  let s := if reported && record.status.isIdle then s.noteRecoveryReset record.id false else s
  ({ s with records := s.records ++ [entry] },
   { idleReset := reported && record.status.isIdle && hadResult
     dialogRestore
     reportedActivity :=
       reported && (record.status.isWorking || (record.status.isBlocked && !dialogRestore)) })

/-- `Clear`, up to the ownership pass. -/
def applyClear (s : RecordStore) (id : RecordId) : RecordStore :=
  let s := s.noteRecoveryReset id true
  { s with records := s.records.filter fun entry => !id.contains entry.id }

/-- On owners already recomputed: whether this command opens a work cycle. -/
def startsCycle (s : RecordStore) (live : LiveEpisode) (wasActive : Bool) (reported : Reported) : Bool :=
  let changedEligible := s.records.getLast?.any fun entry => s.eligible entry live
  (s.hasActivity live &&
      ((!wasActive && !reported.dialogRestore) ||
        (s.activeOwner != some live.owner && reported.reportedActivity && changedEligible))) ||
    (reported.idleReset && !wasActive && changedEligible)

/-- The episode half of `apply`. -/
def settle (s : RecordStore) (live : LiveEpisode) (wasActive : Bool) (reported : Reported) : RecordStore :=
  let s := s.reconcileOwnership live
  let starts := s.startsCycle live wasActive reported
  let cycle := if starts then s.cycle + 1 else s.cycle
  { s with
    cycle
    records := s.records.map (StoredRecord.joinResult live starts cycle)
    -- A restored result dialog is active for selection, but does not itself
    -- open a work cycle. Actual new work during that dialog still can.
    activeOwner := if !s.hasActivity live then none else if starts then some live.owner else s.activeOwner }

def apply (s : RecordStore) (command : ProgramCommand) (at_ : Nat) (episode : Option LiveEpisode) :
    RecordStore :=
  let wasActive := episode.any s.hasActivity
  match command with
  | .query => s
  | .replace record =>
    let (s, reported) := s.applyReplace record at_ episode
    episode.elim s fun live => s.settle live wasActive reported
  | .clear id =>
    let s := s.applyClear id
    episode.elim s fun live => s.settle live wasActive {}

/-! ## Boundaries -/

def lifecycle (s : RecordStore) (event : TerminalLifecycle) : RecordStore :=
  match event with
  | .fullReset =>
    { s with records := [], recoveryResets := [], recoveryResetAll := true, activeOwner := none }
  | .shellPrompt | .attachedProcessExit =>
    { s with
      records := (s.records.filter fun entry => entry.record.status.isTerminal).map StoredRecord.disown
      recoveryResets := []
      recoveryResetAll := false
      activeOwner := none }

/-- Departure/gap retains terminal history, but cannot lend it to another episode.
This is deliberately separate from terminal reset. -/
def invalidateEpisode (s : RecordStore) : RecordStore :=
  { s with
    records := s.records.map fun entry => { entry.disown with observedOwner := none }
    recoveryResets := []
    recoveryResetAll := false
    activeOwner := none }

end RecordStore

end TmuxAgents
