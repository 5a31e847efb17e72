/-
The runtime over its collector (`program_status.rs`): the calls of the daemon,
and a batch with its callback.

A `Fleet` is the runtime with the collector it drives and the batch the running
call fills. What a call hands out, and what it applies, is kept beside it in
order (`history`), for the statements about whole runs; no method reads it.

A callback is what it does to the fleet; one batch is given a list of them, as
many as it will call. Control clients are read between calls only.
-/
import TmuxAgents.Control.ProtocolFacts
import TmuxAgents.Runtime.Program

namespace TmuxAgents

open Checked

/-- What a batch is given: fresh facts, the manifests, the two process samples, the clock,
and which decoders stand inside a notification of a pane. -/
structure BatchInput where
  panes : List ProgramPane
  manifests : Manifests
  before : Except ProcessUnavailable ProcessSnapshot
  after : Except ProcessUnavailable ProcessSnapshot
  at_ : Nat
  inPayload : SessionId → Nat → PaneId → Bool

inductive ProgramStepKind
  | replace
  | clear
  | query
  | lifecycle (event : TerminalLifecycle)
  | release
deriving DecidableEq

def ProgramStepKind.ofEvent : ProgramEvent → ProgramStepKind
  | .command (.replace _) => .replace
  | .command (.clear _) => .clear
  | .command .query => .query
  | .lifecycle event => .lifecycle event
  | .gap _ => .release

/-- A synchronous view after one ordered effect. -/
structure ProgramStep where
  pane : PaneId
  kind : ProgramStepKind
  decision : Option ProgramDecision
  releases : List ProgramRelease
  historyInvalidation : Option HistoryInvalidation
  checkedProcesses : ProcessSnapshot

structure ProgramBatch where
  releases : List ProgramRelease := []
  appliedEvents : Nat := 0
  callbackReleases : Nat := 0
  /-- The steps passed to the callback so far. -/
  steps : List ProgramStep := []

/-- The releases not delivered synchronously. -/
def ProgramBatch.unstreamedReleases (batch : ProgramBatch) : List ProgramRelease :=
  batch.releases.drop batch.callbackReleases

inductive ProgramRecheckError
  | staleDecision
  | revoked (release : ProgramRelease)
deriving DecidableEq

/-- An observation applied to a store: the binding and the stream it was checked against,
and what its batch was given. -/
structure AppliedObservation where
  observed : ObservedEvent
  binding : Binding
  stream : Option ProgramStreamState
  input : BatchInput

/-- What a run shows, in order. -/
inductive RuntimeEvent
  /-- The end of a `prepare_collection`: the bytes retained, and those pending. -/
  | prepared (retained pending : Nat)
  | drained (drain : ProgramDrain)
  | accepted (observations : List ObservedEvent)
  | applied (observation : AppliedObservation)
  | released (release : ProgramRelease)
  /-- A callback's call, with the runtime it was given. -/
  | stepped (runtime : ProgramRuntime) (step : ProgramStep)
  | decided (decision : ProgramDecision)
  | returned (batch : ProgramBatch)
  /-- The end of a call, with the runtime it left. -/
  | answered (runtime : ProgramRuntime)

structure Fleet where
  runtime : ProgramRuntime := {}
  collector : Collector := {}
  batch : ProgramBatch := {}
  /-- History only, read by no method. -/
  history : List RuntimeEvent := []

/-- The history a lost selection takes along. -/
def ProgramEvent.clearedSubtree : ProgramEvent → Option HistoryInvalidation
  | .command (.clear id) => some (.subtree id)
  | _ => none

def ProgramEvent.historyInvalidation : ProgramEvent → Option HistoryInvalidation
  | .command (.clear id) => some (.subtree id)
  | .lifecycle .fullReset => some .all
  | _ => none

/-- The boundary of the control pool: a decoder inside a notification of the pane makes the
collector quarantine it. -/
def Collector.programBoundary (c : Collector) (inPayload : SessionId → Nat → PaneId → Bool) (pane : PaneId) :
    Option (Option ObservationBoundary × Collector) :=
  match c.owner pane with
  | none => some (none, c)
  | some (owner, serial) => c.boundary pane (inPayload owner serial pane)

namespace Fleet

/-- Releases pushed to the running call's batch. -/
def push (f : Fleet) (releases : List ProgramRelease) : Fleet :=
  { f with
    batch := { f.batch with releases := f.batch.releases ++ releases }
    history := f.history ++ releases.map .released }

def note (f : Fleet) (events : List RuntimeEvent) : Fleet := { f with history := f.history ++ events }

/-- `collector.invalidate`, the out-of-band loss seam of the control pool. -/
def invalidateStream (f : Fleet) (pane : PaneId) (reason : ObservationGap) : Option Fleet := do
  let collector ← f.collector.invalidate pane reason false
  return { f with collector }

/-- Must precede every control read. -/
def prepareCollection (f : Fleet) : Option Fleet := do
  let available ← usub maxProgramBytes f.runtime.retainedBytes
  let collector ← f.collector.setPayloadBudget available
  return { f with collector }.note [.prepared f.runtime.retainedBytes collector.pendingBytes]

def drainCollector (f : Fleet) : Fleet :=
  { f with collector := f.collector.drain.2 }.note [.drained f.collector.drain.1]

def revoke (f : Fleet) (pane : PaneId) (reason : RecoveryReason) (departure : Bool) : Option Fleet := do
  let (releases, runtime) ← f.runtime.revoke pane reason departure
  return { f with runtime }.push releases

/-- A revocation with the loss of the pane's stream. -/
def revokeStream (f : Fleet) (pane : PaneId) (reason : RecoveryReason) (departure : Bool) (gap : ObservationGap) :
    Option Fleet := do
  let f ← f.revoke pane reason departure
  f.invalidateStream pane gap

def applyGap (f : Fleet) (observed : ObservedEvent) : Option Fleet := do
  let (releases, runtime) ← f.runtime.applyGap observed
  return { f with runtime }.push releases

def removePane (f : Fleet) (pane : PaneId) : Option Fleet :=
  match f.runtime.panes.get? pane with
  | none => some f
  | some entry => do
    let (releases, runtime) ← f.runtime.removePane pane entry
    ({ f with runtime }.push releases).invalidateStream pane .ownerChanged

/-! ## Observations -/

/-- The end of an applied event. -/
def conclude (f : Fleet) (input : BatchInput) (observed : ObservedEvent) (binding : Binding) (old : Nat)
    (entry : PaneProgram) : Option Fleet := do
  let (entry, releases) := entry.cover observed.pane observed.event.clearedSubtree
  let runtime ← f.runtime.update observed.pane old entry
  let f := { f with runtime }.push releases
  let f := f.note [.applied { observed, binding, stream := f.collector.stream observed.pane, input }]
  return { f with batch := { f.batch with appliedEvents := f.batch.appliedEvents + 1 } }

/-- A store that would exceed the fleet's budget is given up, with its stream. -/
def exceedBudget (f : Fleet) (pane : PaneId) (binding : Binding) (entry : PaneProgram) : Option Fleet := do
  let runtime ← f.runtime.update pane entry.store.retainedBytes { entry with
    store := .new, binding := none, coverage := .recovering (.observation .budgetExceeded) }
  ({ f with runtime }.push
    [{ pane, owner := some binding.owner, reason := .observation .budgetExceeded }]).invalidateStream pane
      .budgetExceeded

/-- A command of the bound owner, `remaining` payload bytes of the batch still to come. -/
def applyCommand (f : Fleet) (input : BatchInput) (observed : ObservedEvent) (binding : Binding)
    (entry : PaneProgram) (command : ProgramCommand) (remaining : Nat) : Option Fleet := do
  let old := entry.store.retainedBytes
  let new ← replacementBytes entry.store command
  let rest ← usub f.runtime.retainedBytes old
  if rest + new + remaining + f.collector.pendingBytes > maxProgramBytes then
    f.exceedBudget observed.pane binding entry
  else
    f.conclude input observed binding old { entry with
      store := entry.store.apply command input.at_ (some binding.live)
      lastReport := if command = .query then entry.lastReport else some input.at_ }

/-- A terminal lifecycle ends the owner's episode and starts the next at this observation. -/
def applyLifecycle (f : Fleet) (input : BatchInput) (observed : ObservedEvent) (binding : Binding)
    (entry : PaneProgram) (event : TerminalLifecycle) : Option Fleet := do
  let store := entry.store.lifecycle event
  let f := f.push [{
    pane := observed.pane
    owner := some binding.owner
    reason := .ofLifecycle event
    historyInvalidation := if event = TerminalLifecycle.fullReset then some .all else none }]
  let runtime := f.runtime.advanceOwner observed.pane
  let next := { binding with
    owner := runtime.nextOwner
    cycleFloor := store.workCycle
    boundary := { binding.boundary with sequenceFloor := observed.sequence }
    sequence := observed.sequence }
  let f ← { f with runtime }.conclude input observed binding entry.store.retainedBytes { entry with
    store
    binding := if event = TerminalLifecycle.attachedProcessExit then none else some next
    coverage := .recovering (.ofLifecycle event)
    presented := if event = TerminalLifecycle.fullReset then none else entry.presented
    presentedChain := if event = TerminalLifecycle.fullReset then [] else entry.presentedChain }
  if event = TerminalLifecycle.attachedProcessExit then f.invalidateStream observed.pane .ownerChanged else return f

def applyObservation (f : Fleet) (input : BatchInput) (observed : ObservedEvent) (remaining : Nat) : Option Fleet :=
  match f.runtime.panes.get? observed.pane with
  | none => some f
  | some entry =>
    match entry.binding with
    | none => some f
    | some binding =>
      match streamLoss f.collector observed.pane binding.boundary.connection with
      | some reason => f.revoke observed.pane reason false
      | none =>
        if observed.connection ≠ binding.boundary.connection ∨ observed.sequence ≤ binding.sequence then some f
        else
          let entry := { entry with binding := some { binding with sequence := observed.sequence } }
          match observed.event with
          | .command command => f.applyCommand input observed binding entry command remaining
          | .lifecycle event => f.applyLifecycle input observed binding entry event
          | .gap _ => some { f with runtime := { f.runtime with panes := f.runtime.panes.insert observed.pane entry } }

/-! ## A batch -/

/-- A pane of the batch, recognized in the first sample. -/
def bindPane (input : BatchInput) (before : ProcessSnapshot) (f : Fleet) (pane : ProgramPane) : Option Fleet :=
  let prior := f.runtime.binding pane.pane
  match recognize pane before input.manifests (prior.map (·.identity)) with
  | .ok identity =>
    if prior.any fun binding => binding.identity == identity then some f
    else do
      let f := f.push (prior.toList.map fun binding =>
        { pane := pane.pane, owner := some binding.owner, reason := .identityChanged })
      let (boundary, collector) ← f.collector.programBoundary input.inPayload pane.pane
      let runtime ← f.runtime.bind pane.pane identity boundary
      return { f with runtime, collector }
  | .error reason => f.revokeStream pane.pane reason true .ownerChanged

/-- A bound pane must be recognized as the same in the second sample. -/
def confirmPane (input : BatchInput) (f : Fleet) (pane : ProgramPane) : Option Fleet :=
  match f.runtime.binding pane.pane with
  | none => some f
  | some binding =>
    if (match input.after with
        | .ok snapshot => binding.agrees pane snapshot input.manifests
        | .error _ => false) then some f
    else f.revokeStream pane.pane .processChangedDuringBatch true .ownerChanged

/-- No process can be sampled. -/
def loseSample (f : Fleet) (input : BatchInput) (reason : ProcessUnavailable) : Option Fleet := do
  let f ← input.panes.foldlM (fun f pane =>
    f.revokeStream pane.pane (.processUnavailable reason) false .ownerChanged) f
  -- A pending budget eviction must still release history before this loss is consumed.
  let f ← f.collector.drain.1.invalidations.foldlM applyGap f.drainCollector
  f.prepareCollection

/-- Every pane lost its stream at once. -/
def loseScope (f : Fleet) (input : BatchInput) (allInvalidated : Bool) : Option Fleet :=
  if allInvalidated then
    input.panes.foldlM (fun f pane => f.revokeStream pane.pane .scopeLost false .queueOverflow) f
  else some f

/-- The callback is called, with a batch of its own to fill. -/
def onStep (callbacks : List (Fleet → Option Fleet)) (f : Fleet) (step : ProgramStep) : Option Fleet := do
  let callback := callbacks.getD f.batch.steps.length some
  let after ← callback (f.note [.stepped f.runtime step])
  return { after with batch := { f.batch with
    steps := f.batch.steps ++ [step]
    callbackReleases := f.batch.callbackReleases + step.releases.length } }

def deliverRelease (callbacks : List (Fleet → Option Fleet)) (checkedProcesses : ProcessSnapshot) (f : Fleet)
    (release : ProgramRelease) : Option Fleet :=
  f.onStep callbacks
    { pane := release.pane, kind := .release, decision := none, releases := [release]
      historyInvalidation := none, checkedProcesses }

/-- The callback's view of an observation, if it did anything to the batch. -/
def deliverObservation (callbacks : List (Fleet → Option Fleet)) (checkedProcesses : ProcessSnapshot)
    (before : ProgramBatch) (observed : ObservedEvent) (f : Fleet) : Option Fleet :=
  if before.appliedEvents ≠ f.batch.appliedEvents ∨ before.releases.length ≠ f.batch.releases.length then
    f.onStep callbacks
      { pane := observed.pane
        kind := if before.appliedEvents = f.batch.appliedEvents then .release else .ofEvent observed.event
        decision := f.runtime.decision observed.pane
        releases := f.batch.releases.drop before.releases.length
        historyInvalidation := observed.event.historyInvalidation
        checkedProcesses }
  else some f

def applyAccepted (callbacks : List (Fleet → Option Fleet)) (input : BatchInput) (checkedProcesses : ProcessSnapshot) :
    List ObservedEvent → Nat → Fleet → Option Fleet
  | [], _, f => some f
  | observed :: accepted, remaining, f => do
    let remaining ← usub remaining (payloadBytes observed.event)
    let after ← f.applyObservation input observed remaining
    let after ← after.deliverObservation callbacks checkedProcesses f.batch observed
    applyAccepted callbacks input checkedProcesses accepted remaining after

/-- The second half of a batch: the drain's gaps and observations, in order. -/
def processDrain (callbacks : List (Fleet → Option Fleet)) (f : Fleet) (input : BatchInput) (drain : ProgramDrain) :
    Option Fleet := do
  let f ← f.loseScope input drain.allInvalidated
  let f ← drain.invalidations.foldlM applyGap f
  -- Validate the ordered bounded handoff before the second sample.
  let accepted := drain.observations.filter f.runtime.accepts
  let f := f.note [.accepted accepted]
  let f ← input.panes.foldlM (confirmPane input) f
  match input.after with
  | .error _ => f.prepareCollection
  | .ok after => do
    -- Boundary and gap releases precede every later event.
    let f ← f.batch.releases.foldlM (deliverRelease callbacks after) f
    let total := (accepted.map fun observed => payloadBytes observed.event).sum
    let f ← applyAccepted callbacks input after accepted total f
    f.prepareCollection

/-- The part of a batch that needs panes. -/
def processPanes (callbacks : List (Fleet → Option Fleet)) (f : Fleet) (input : BatchInput) : Option Fleet :=
  match input.panes with
  | [] => f.prepareCollection
  | _ :: _ =>
    match input.before with
    | .error reason => f.loseSample input reason
    | .ok before => do
      let f ← input.panes.foldlM (bindPane input before) f
      let f ← f.prepareCollection
      f.drainCollector.processDrain callbacks input f.collector.drain.1

def processBatchWith (callbacks : List (Fleet → Option Fleet)) (f : Fleet) (input : BatchInput) : Option Fleet := do
  let live := input.panes.map (·.pane)
  let removed := f.runtime.panes.keys.filter fun pane => !live.contains pane
  let f ← removed.foldlM removePane { f with batch := {} }
  let f ← f.processPanes callbacks input
  return f.note [.returned f.batch]

/-- Every release is returned. -/
def processBatch (f : Fleet) (input : BatchInput) : Option Fleet := do
  let f ← f.processBatchWith [] input
  return { f with batch := { f.batch with callbackReleases := 0 } }

/-! ## The other calls -/

/-- Revoke a scheduler-discovered loss through the same process/stream fence. -/
def invalidate (f : Fleet) (pane : PaneId) (reason : RecoveryReason) : Option Fleet := do
  let f ← { f with batch := {} }.revokeStream pane reason false
    (if reason = RecoveryReason.workBudgetExceeded then .workBudgetExceeded else .ownerChanged)
  f.prepareCollection

/-- A failed recheck whose stream was intact loses it. -/
def dropStream (f : Fleet) (pane : PaneId) (intact : Bool) : Option Fleet :=
  if intact then f.invalidateStream pane .ownerChanged else some f

/-- Fresh process and pane facts are required immediately before delayed publication. -/
def recheck (f : Fleet) (decision : ProgramDecision) (pane : ProgramPane) (manifests : Manifests)
    (snapshot : ProcessSnapshot) : Option (Except ProgramRecheckError Unit × Fleet) :=
  if f.runtime.decision decision.pane ≠ some decision then some (.error .staleDecision, f)
  else
    let loss := streamLoss f.collector decision.pane decision.boundary.connection
    if loss = none ∧ pane.pane = decision.pane ∧
        (f.runtime.binding pane.pane).any (fun binding => binding.agrees pane snapshot manifests) = true then
      some (.ok (), f)
    else do
      let release := {
        pane := decision.pane
        owner := some decision.selection.authority.owner
        reason := loss.getD .identityChanged }
      -- The revocation's own batch is dropped; this release is answered.
      let (_, runtime) ← f.runtime.revoke decision.pane release.reason loss.isNone
      let f ← ({ f with runtime }.note [.released release]).dropStream decision.pane loss.isNone
      let f ← f.prepareCollection
      return (.error (.revoked release), f)

/-- Call before disabling or replacing collection. -/
def reset (f : Fleet) : Option Fleet := do
  let releases := f.runtime.panes.entries.map fun (pane, entry) =>
    ({ pane, owner := entry.binding.map (·.owner), reason := .disabled } : ProgramRelease)
  let collector ← f.runtime.panes.keys.foldlM (fun c pane => c.invalidate pane .ownerChanged false) f.collector
  let runtime := { f.runtime with panes := .empty, retainedBytes := 0 }
  (({ f with runtime, collector, batch := {} }.push releases).drainCollector).prepareCollection

/-- A call that is not a batch. -/
inductive Request
  | recheck (decision : ProgramDecision) (pane : ProgramPane) (manifests : Manifests) (snapshot : ProcessSnapshot)
  | invalidate (pane : PaneId) (reason : RecoveryReason)
  | removePane (pane : PaneId)
  | reset
  | markPresented (decision : ProgramDecision)
  | reconcileResult (decision : ProgramDecision) (disposition : ResultDisposition)
  | acknowledge (pane : PaneId) (result : ResultIdentity)
  | decision (pane : PaneId)

def request (f : Fleet) : Request → Option Fleet
  | .recheck decision pane manifests snapshot => (f.recheck decision pane manifests snapshot).map Prod.snd
  | .invalidate pane reason => f.invalidate pane reason
  | .removePane pane => { f with batch := {} }.removePane pane
  | .reset => f.reset
  | .markPresented decision => (f.runtime.markPresented decision).map fun result => { f with runtime := result.2 }
  | .reconcileResult decision disposition =>
    (f.runtime.reconcileResult decision disposition).map fun result => { f with runtime := result.2 }
  | .acknowledge pane result => some { f with runtime := (f.runtime.acknowledge pane result).2 }
  | .decision pane => some (f.note ((f.runtime.decision pane).toList.map .decided))

def answer (f : Fleet) : Fleet := f.note [.answered f.runtime]

end Fleet

/-- A call of the daemon. A batch names what its callback does at each step: it may call
again. -/
inductive RuntimeCall
  | request (request : Fleet.Request)
  | processBatch (input : BatchInput)
  | processBatchWith (input : BatchInput) (callbacks : List (List RuntimeCall))

mutual

def RuntimeCall.run : RuntimeCall → Fleet → Option Fleet
  | .request r, f => (f.request r).map Fleet.answer
  | .processBatch input, f => (f.processBatch input).map Fleet.answer
  | .processBatchWith input callbacks, f =>
    (f.processBatchWith (RuntimeCall.callbacks callbacks) input).map Fleet.answer

/-- What the callback does, step by step. -/
def RuntimeCall.callbacks : List (List RuntimeCall) → List (Fleet → Option Fleet)
  | [] => []
  | calls :: rest => RuntimeCall.runAll calls :: RuntimeCall.callbacks rest

def RuntimeCall.runAll : List RuntimeCall → Fleet → Option Fleet
  | [], f => some f
  | call :: calls, f => (call.run f).bind (RuntimeCall.runAll calls)

end

/-- What happens to a fleet: control clients are read, or the runtime is called. -/
inductive FleetOp
  | control (ops : List CollectorOp)
  | call (call : RuntimeCall)

namespace Fleet

def withEpoch (epoch : Nat) : Fleet := { collector := .withEpoch epoch }

variable [Base64]

def step (f : Fleet) : FleetOp → Option Fleet
  | .control ops => (f.collector.exec ops).map fun (drains, collector) =>
    { f with collector }.note (drains.map .drained)
  | .call call => call.run f

def run (f : Fleet) (ops : List FleetOp) : Option Fleet := ops.foldlM step f

end Fleet

end TmuxAgents
