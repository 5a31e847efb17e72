/-
Guarded publication (the runtime's `program_status/publication.rs`): a decision
is rechecked, its selected result is reconciled with the markers its pane
carries, and what the store then selects is published.

What the surroundings answer is an input (`PublishInput`): the pane's options,
the two clocks, whether the schedule still holds, and the fresh tokens. The
function is followed up to the transaction it submits.
-/
import TmuxAgents.Persist.Publication
import TmuxAgents.Runtime.Batch

namespace TmuxAgents

open Checked

/-- Whether the result is still held, in its cycle and not superseded. -/
def RecordStore.retainsResult (s : RecordStore) (identity : ResultIdentity) (cycle : WorkCycle) : Bool :=
  s.records.any fun entry =>
    entry.id == identity.record && entry.result.any fun result =>
      result.owner == some identity.owner && result.generation == identity.generation && result.cycle == cycle &&
        !result.superseded

structure PublishInput where
  pane : ProgramPane
  manifests : Manifests
  processes : ProcessSnapshot
  collectorToken : Token
  session : SessionId
  /-- The pane as it was read after the first recheck. -/
  observed : PaneRead
  /-- Whether the schedule held after the read, and before the submission. -/
  completed : Bool × Bool
  now : Nat
  submittedAt : Nat
  fresh : FreshTokens

inductive ProgramPublishError
  | recheck (error : ProgramRecheckError)
  | persistence (error : PersistenceError)
  | scheduleLost
deriving DecidableEq

/-- The owner a decision is published under. -/
def ProgramDecision.paneOwner (decision : ProgramDecision) (collector : Token) : Option PaneOwner :=
  (ProcessChain.new decision.processChain).map fun processes =>
    { collector, episode := decision.selection.authority.owner, processes, streamEpoch := decision.boundary.connection }

/-! ## Recovery -/

/-- The persisted result a selected one was matched with: what it is now, and how far it was
consumed. -/
structure RecoveredHistory where
  result : PersistedResult
  acknowledged : Bool
  notified : Bool
  exactMatch : Bool

/-- History alone never grants current authority; the fresh report and recheck supply it. -/
def recoveredHistory (observed : PaneRead) (decision : ProgramDecision) (owner : PaneOwner) (exact : PersistedResult) :
    Option RecoveredHistory :=
  let persisted := observed.program.result
  let acknowledgedBy := fun result => observed.program.acknowledged == some result
  let notifiedBy := fun result => observed.program.notified.any fun claim => claim.result == result
  let exactMatch := persisted == some exact && observed.program.invalidated != some exact
  let recovered := persisted.any fun persisted =>
    observed.program.invalidated != some persisted && persisted.owner.processes == owner.processes &&
      persisted.identity.record == exact.identity.record && persisted.kind == exact.kind &&
      !decision.selection.recoveryReset && !decision.observedWorkCycle &&
      (acknowledgedBy persisted || notifiedBy persisted ||
        ((observed.options Opt.turnAt).bind (Text.parseUnsigned (2 ^ 64))).any fun turn => turn != 0)
  if exactMatch || recovered then
    some { result := exact, acknowledged := persisted.any acknowledgedBy, notified := persisted.any notifiedBy, exactMatch }
  else none

/-- The store's side of a recovery. -/
def ProgramRuntime.reconcileRecovered (r : ProgramRuntime) (decision : ProgramDecision) (result : ProgramResult)
    (recovered : RecoveredHistory) : Option (Bool × ProgramRuntime) :=
  if recovered.exactMatch && recovered.acknowledged && !result.pending then
    some (r.acknowledge decision.pane result.identity)
  else r.reconcileResult decision (if recovered.acknowledged then .acknowledged else .presented)

/-! ## The publication -/

/-- What is published of a current decision. -/
structure PublicationPlan where
  result : Option PersistedResult
  history : ResultHistory
  pending : Bool
  attention : Bool
  /-- The turn marker to advance to. -/
  turn : Option Nat
  publish : Publish

def PublicationPlan.companions (plan : PublicationPlan) : List OptionEdit :=
  (if plan.attention then .set Opt.attention ['1'] else .unset Opt.attention) ::
    plan.turn.toList.map fun turn => .set Opt.turnAt (Text.decimal turn)

/-- The target of a pane, `$session:.%pane`. -/
def publicationTarget (session : SessionId) (pane : PaneId) : String :=
  "$" ++ toString session ++ ":.%" ++ toString pane

/-- The plan of a current decision, against the pane as it was read; `records` is its store. -/
def planPublication (records : Option RecordStore) (observed : PaneRead) (owner : PaneOwner) (current : ProgramDecision)
    (recovered : Option RecoveredHistory) (target : String) (now : Nat) : PublicationPlan :=
  let blocked := current.selection.state == .blocked
  let continuity := if blocked then sameBlocked observed owner.processes else none
  let previous := readStamp (currentStamp observed.options now) <|>
    if recovered.isSome || continuity.isSome then readStamp (StampedState.fromOptions observed.options) else none
  let result := current.selection.result.bind (PersistedResult.new owner) <|> recovered.map RecoveredHistory.result
  -- Generation and cycle counters are comparable only within the exact same owner epoch.
  let recordedCurrent := observed.program.result.any fun history =>
    history.owner == owner && records.any fun s => s.retainsResult history.identity history.cycle
  let history := match recovered with
    | some recovered => .rebind recovered.acknowledged recovered.notified
    | none =>
      if !recordedCurrent && (current.observedWorkCycle || observed.program.result.any fun history =>
          records.any fun s => s.recoveryResetFor history.identity.record) then .reset
      else .retain
  let pending := current.selection.result.any ProgramResult.pending
  let exactAck := result.any fun result => observed.program.acknowledged == some result
  let sameResult := result.any fun result => observed.program.result == some result
  let sameBlocked := blocked && (observed.program.owner == some owner || continuity.isSome) &&
    previous.any fun stamp => stamp.state == .blocked
  let attention :=
    if blocked then
      match continuity with
      | some history => !history.acknowledged
      | none => !sameBlocked || previous.any StampedState.attention
    else
      !exactAck && (pending || (recovered.any fun recovered => !recovered.acknowledged) ||
        sameResult && previous.any fun stamp => stamp.state == .idle && stamp.attention)
  -- The public floor is exclusive: equal wall clocks must still expose a new selected result.
  let turn :=
    if pending && !sameResult && !exactAck then
      some (max now (previous.elim 0 fun stamp => saturatingAdd stamp.episodeAt 1))
    else none
  { result, history, pending, attention, turn
    publish :=
      { paneId := target
        state := current.selection.state
        detail := current.selection.detail
        source := .hook
        evidenceAt := current.selection.at_
        since := current.selection.at_
        stampedAt := now
        hash := previous.bind StampedState.hash
        pid := owner.processes.agent.pid
        name := current.manifest.toList
        setAttention := false
        episodeReset := observed.program.owner.any fun previous => previous.processes != owner.processes
        guard := .unconditional } }

/-- What is submitted, for the decision that was current. -/
structure Publication where
  current : ProgramDecision
  pending : Bool
  request : Request

namespace Fleet

/-- The current decision, rechecked and planned. -/
def submitCurrent (f : Fleet) (input : PublishInput) (owner : PaneOwner) (current : ProgramDecision)
    (recovered : Option RecoveredHistory) : Option (Except ProgramPublishError Publication × Fleet) := do
  let (checked, f) ← f.recheck current input.pane input.manifests input.processes
  match checked with
  | .error error => return (.error (.recheck error), f)
  | .ok () =>
    let records := (f.runtime.panes.get? current.pane).map PaneProgram.store
    let plan := planPublication records input.observed owner current recovered
      (publicationTarget input.session current.pane) input.now
    if !input.completed.2 then return (.error .scheduleLost, f)
    else
      match publishProgramWithHistory input.observed owner plan.publish plan.result plan.companions plan.history
          (some current.selection.recordId) input.fresh input.submittedAt with
      | .error error => return (.error (.persistence error), f)
      | .ok request => return (.ok { current, pending := plan.pending, request }, f)

/-- `publish_checked_with_completion`, up to the transaction. -/
def publishChecked (f : Fleet) (decision : ProgramDecision) (input : PublishInput) :
    Option (Except ProgramPublishError Publication × Fleet) := do
  let (checked, f) ← f.recheck decision input.pane input.manifests input.processes
  match checked with
  | .error error => return (.error (.recheck error), f)
  | .ok () =>
    if !input.completed.1 then return (.error .scheduleLost, f)
    else
      match decision.paneOwner input.collectorToken with
      | none => return (.error (.persistence (.invalid "invalid publication ancestry")), f)
      | some owner =>
        match decision.selection.result with
        | none => f.submitCurrent input owner decision none
        | some result =>
          match PersistedResult.new owner result with
          | none => return (.error (.persistence (.invalid "invalid selected result")), f)
          | some exact =>
            match recoveredHistory input.observed decision owner exact with
            | none => f.submitCurrent input owner decision none
            | some recovered => do
              let (reconciled, runtime) ← f.runtime.reconcileRecovered decision result recovered
              let f := { f with runtime }
              if reconciled then
                match runtime.decision decision.pane with
                | none => return (.error (.recheck .staleDecision), f)
                | some current => f.submitCurrent input owner current (some recovered)
              else f.submitCurrent input owner decision (some recovered)

end Fleet

end TmuxAgents
