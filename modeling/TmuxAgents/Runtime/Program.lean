/-
Daemon-owned episodes and coverage (the runtime's `program_status.rs`): per
pane a record store, what the pane is bound to and whether its selection may
be shown, with the payload bytes of every store in one count.

Here are the methods that touch no collector. A method that pushes releases
to the caller's batch answers them in order; one that can panic answers
`none` there. `u64` owners are natural: a counter that would overflow one ends
the program.
-/
import TmuxAgents.Control.Protocol
import TmuxAgents.Program.Project
import TmuxAgents.Runtime.Recognize

namespace TmuxAgents

open Checked

def maxProgramBytes : Nat := 32 * 1024 * 1024

inductive CoverageState
  | unobserved
  | recovering (reason : RecoveryReason)
  | active
deriving DecidableEq

/-- The persisted results a release invalidates. -/
inductive HistoryInvalidation
  | all
  | subtree (id : RecordId)
deriving DecidableEq

/-- Releases ownership of an episode and schedules fallback. -/
structure ProgramRelease where
  pane : PaneId
  owner : Option EpisodeId
  reason : RecoveryReason
  historyInvalidation : Option HistoryInvalidation := none
deriving DecidableEq

structure Binding where
  identity : Recognized
  owner : EpisodeId
  boundary : ObservationBoundary
  sequence : ObservationSequence
  cycleFloor : WorkCycle
deriving DecidableEq

/-- The validated episode of a binding. -/
def Binding.live (binding : Binding) : LiveEpisode := { owner := binding.owner, apps := binding.identity.apps }

/-- Retained across a gap only for the exact same process ancestry. -/
structure PresentedProgramResult where
  process : ProcessIdentity
  selection : ProgramSelection
  acknowledged : Bool
deriving DecidableEq

structure PaneProgram where
  store : RecordStore := .new
  binding : Option Binding := none
  coverage : CoverageState := .unobserved
  lastReport : Option Nat := none
  presented : Option PresentedProgramResult := none
  presentedChain : List ProcessIdentity := []

/-- Immutable publication input: process, stream and result identities, so that a later
writer can reject stale work and reconcile persisted result markers. -/
structure ProgramDecision where
  pane : PaneId
  manifest : String
  processChain : List ProcessIdentity
  boundary : ObservationBoundary
  selection : ProgramSelection
  previousPresentation : Option PresentedProgramResult
  observedWorkCycle : Bool
deriving DecidableEq

structure ProgramRuntime where
  panes : SortedMap PaneId PaneProgram := .empty
  nextOwner : EpisodeId := 0
  retainedBytes : Nat := 0
  /-- History only, read by no method: the owners given to bindings, oldest first. -/
  owners : List (PaneId × EpisodeId) := []

def streamLoss (collector : Collector) (pane : PaneId) (connection : ConnectionEpoch) : Option RecoveryReason :=
  match collector.stream pane with
  | some current =>
    if current.connection = connection then none
    else some (.observation (current.pendingGap.getD .ownerChanged))
  | none => some .noStream

/-- The bytes a store may hold after a command, estimated before it is applied. -/
def replacementBytes (store : RecordStore) (command : ProgramCommand) : Option Nat :=
  match command with
  | .replace record => do
    let replaced := (store.records.find? fun entry => entry.id == record.id) <|>
      if store.records.length = maxRecords then
        -- Never `none`: the `unwrap` is on a full store.
        Choose.minByKey (fun entry : StoredRecord => entry.updated) store.records
      else none
    let rest ← usub store.retainedBytes (replaced.elim 0 fun entry => recordBytes entry.record)
    usub (rest + recordBytes record + store.recoveryReservation command) store.recoveryRetainedBytes
  | .clear id =>
    some (((store.records.filter fun entry => !id.contains entry.id).map fun entry => recordBytes entry.record).sum +
      store.recoveryReservation command)
  | .query => some store.retainedBytes

/-- Whether a pane is still recognized as what it was bound to. -/
def Binding.agrees (binding : Binding) (pane : ProgramPane) (snapshot : ProcessSnapshot) (manifests : Manifests) : Bool :=
  match recognize pane snapshot manifests (some binding.identity) with
  | .ok identity => identity == binding.identity
  | .error _ => false

/-- Coverage after an applied event: a selection is active, and losing it releases the
owner without ending its episode. -/
def PaneProgram.cover (entry : PaneProgram) (pane : PaneId) (historyInvalidation : Option HistoryInvalidation) :
    PaneProgram × List ProgramRelease :=
  match entry.binding with
  | none => (entry, [])
  | some binding =>
    if (entry.store.select binding.live).isSome then ({ entry with coverage := .active }, [])
    else if entry.coverage = .active then
      ({ entry with coverage := .recovering .bindingBoundary },
        [{ pane, owner := some binding.owner, reason := .bindingBoundary, historyInvalidation }])
    else (entry, [])

def RecoveryReason.ofLifecycle : TerminalLifecycle → RecoveryReason
  | .fullReset => .fullReset
  | .shellPrompt => .shellPrompt
  | .attachedProcessExit => .attachedProcessExit

namespace ProgramRuntime

def entry (r : ProgramRuntime) (pane : PaneId) : PaneProgram := (r.panes.get? pane).getD {}

def binding (r : ProgramRuntime) (pane : PaneId) : Option Binding := (r.panes.get? pane).bind (·.binding)

/-- A pane's entry put back; its store held `old` bytes before. -/
def update (r : ProgramRuntime) (pane : PaneId) (old : Nat) (entry : PaneProgram) : Option ProgramRuntime := do
  let rest ← usub r.retainedBytes old
  return { r with panes := r.panes.insert pane entry, retainedBytes := rest + entry.store.retainedBytes }

/-- `next_owner`: the counter, and with it the owner a binding of the pane takes. -/
def advanceOwner (r : ProgramRuntime) (pane : PaneId) : ProgramRuntime :=
  { r with nextOwner := r.nextOwner + 1, owners := r.owners ++ [(pane, r.nextOwner + 1)] }

def revoke (r : ProgramRuntime) (pane : PaneId) (reason : RecoveryReason) (departure : Bool) :
    Option (List ProgramRelease × ProgramRuntime) := do
  let entry := r.entry pane
  let store :=
    if reason = .observation .budgetExceeded then .new
    else if departure then entry.store.lifecycle .attachedProcessExit
    else entry.store.invalidateEpisode
  let r ← r.update pane entry.store.retainedBytes { entry with
    store, binding := none, coverage := .recovering reason }
  return (entry.binding.toList.map fun binding => { pane, owner := some binding.owner, reason }, r)

/-- A budget loss evicts the store, bound or not: a boundary may already account for the
epoch, but not for these bytes. -/
def evictStore (r : ProgramRuntime) (pane : PaneId) (entry : PaneProgram) (reason : ObservationGap) :
    Option (PaneProgram × ProgramRuntime) :=
  if reason = .budgetExceeded then
    (r.update pane entry.store.retainedBytes { entry with store := .new }).map fun r =>
      ({ entry with store := .new }, r)
  else some (entry, r)

def applyGap (r : ProgramRuntime) (observed : ObservedEvent) : Option (List ProgramRelease × ProgramRuntime) :=
  match observed.event with
  | .gap reason =>
    match r.panes.get? observed.pane with
    | none => some ([], r)
    | some entry => do
      let (entry, r) ← r.evictStore observed.pane entry reason
      match entry.binding with
      | none => return ([], r)
      | some binding =>
        let boundary := { connection := observed.connection, sequenceFloor := observed.sequence }
        -- The boundary itself supplies this baseline gap. It is already a fresh episode.
        if binding.boundary = boundary then return ([], r)
        else
          let store := entry.store.invalidateEpisode
          let r := r.advanceOwner observed.pane
          let r ← r.update observed.pane entry.store.retainedBytes { entry with
            store
            binding := some { binding with
              owner := r.nextOwner, cycleFloor := store.workCycle, boundary, sequence := observed.sequence }
            coverage := .recovering (.observation reason) }
          return ([{ pane := observed.pane, owner := some binding.owner, reason := .observation reason }], r)
  | _ => some ([], r)

/-- A pane bound to what it was recognized as, from a boundary on; without one it is
unbound. The presented result survives for the same ancestry only. -/
def bind (r : ProgramRuntime) (pane : PaneId) (identity : Recognized) (boundary : Option ObservationBoundary) :
    Option ProgramRuntime :=
  let entry := r.entry pane
  let store := entry.store.invalidateEpisode
  let same := entry.presentedChain = identity.chain
  let presented := if same then entry.presented else none
  let presentedChain := if same then entry.presentedChain else []
  match boundary with
  | some boundary =>
    let r := r.advanceOwner pane
    r.update pane entry.store.retainedBytes { entry with
      store, presented, presentedChain
      binding := some
        { identity, owner := r.nextOwner, boundary, sequence := boundary.sequenceFloor, cycleFloor := store.workCycle }
      coverage := .recovering .bindingBoundary }
  | none =>
    r.update pane entry.store.retainedBytes { entry with
      store, presented, presentedChain, binding := none, coverage := .recovering .noStream }

/-- The observations of a drain a batch may apply: bound, and above the boundary. -/
def accepts (r : ProgramRuntime) (observed : ObservedEvent) : Bool :=
  (r.binding observed.pane).any fun binding =>
    observed.connection == binding.boundary.connection && decide (observed.sequence > binding.boundary.sequenceFloor)

def decision (r : ProgramRuntime) (pane : PaneId) : Option ProgramDecision := do
  let entry ← r.panes.get? pane
  guard (entry.coverage = .active)
  let binding ← entry.binding
  let selection ← entry.store.select binding.live
  return {
    pane
    manifest := binding.identity.manifest
    processChain := binding.identity.chain
    boundary := binding.boundary
    selection
    previousPresentation := entry.presented
    observedWorkCycle := decide (entry.store.workCycle > binding.cycleFloor) }

/-- A pane forgotten; it releases what it was bound to. -/
def removePane (r : ProgramRuntime) (pane : PaneId) (entry : PaneProgram) :
    Option (List ProgramRelease × ProgramRuntime) := do
  let retainedBytes ← usub r.retainedBytes entry.store.retainedBytes
  return ([{ pane, owner := entry.binding.map (·.owner), reason := .paneRemoved }],
    { r with panes := r.panes.erase pane, retainedBytes })

/-- The store call behind a presentation. -/
def present (store : RecordStore) (selection : ProgramSelection) (live : LiveEpisode) :
    Option ResultDisposition → Bool × RecordStore
  | some disposition => store.reconcileResult selection live disposition
  | none => store.markPresented selection live

def recordPresentation (r : ProgramRuntime) (decision : ProgramDecision) (disposition : Option ResultDisposition) :
    Option (Bool × ProgramRuntime) :=
  match r.panes.get? decision.pane with
  | none => some (false, r)
  | some entry =>
    match entry.binding with
    | none => some (false, r)
    | some binding =>
      if decision.boundary ≠ binding.boundary ∨ decision.processChain ≠ binding.identity.chain then some (false, r)
      else
        match present entry.store decision.selection binding.live disposition with
        | (false, store) => some (false, { r with panes := r.panes.insert decision.pane { entry with store } })
        | (true, store) => do
          let process ← binding.identity.chain.getLast?
          return (true, { r with panes := r.panes.insert decision.pane { entry with
            store
            presented := some
              { process, selection := decision.selection, acknowledged := disposition == some .acknowledged }
            presentedChain := binding.identity.chain } })

/-- Only call after guarded publication wins. -/
def markPresented (r : ProgramRuntime) (decision : ProgramDecision) : Option (Bool × ProgramRuntime) :=
  r.recordPresentation decision none

/-- Supplied with an independently matched persisted result disposition. -/
def reconcileResult (r : ProgramRuntime) (decision : ProgramDecision) (disposition : ResultDisposition) :
    Option (Bool × ProgramRuntime) :=
  r.recordPresentation decision (some disposition)

def acknowledge (r : ProgramRuntime) (pane : PaneId) (result : ResultIdentity) : Bool × ProgramRuntime :=
  match r.panes.get? pane with
  | none => (false, r)
  | some entry =>
    match entry.store.acknowledge result with
    | (false, store) => (false, { r with panes := r.panes.insert pane { entry with store } })
    | (true, store) =>
      (true, { r with panes := r.panes.insert pane { entry with
        store
        presented := entry.presented.map fun presented =>
          if presented.selection.result.map (·.identity) = some result then { presented with acknowledged := true }
          else presented } })

end ProgramRuntime

end TmuxAgents
