/-
The hook reply lane (`hook_lane.rs`, `hold_for_reply` of `event.rs` and the hook arm of
`broker.rs`): prompts held open in hooks, dispatches that answer them, and the request and
verdict files between the two, both named by a request id that the same call mints again.

Every file operation is one step, and the steps of any number of holds and dispatches
interleave as they like. A request file is known here by the hold that wrote it and a
verdict by the dispatch that linked it; neither decides anything in the code.
-/
import Mathlib.Logic.Function.Basic
import TmuxAgents.Dispatch.Broker
import TmuxAgents.Lib.Run

namespace TmuxAgents.HookLane

open Act

abbrev HoldId := Nat
abbrev DispatchId := Nat

/-- Whether an id is safe as a filename: ASCII alphanumerics, `-` and `_`, capped. -/
def validRequestId (id : Text) : Bool :=
  !id.isEmpty && id.length ≤ 128 && id.all fun c => (c.isAlphanum || c == '_' || c == '-')

/-! ## Files -/

structure Verdict where
  decision : HookVerdict
  dispatch : DispatchId
deriving DecidableEq

structure Files where
  requests : Text → Option HoldId := fun _ => none
  verdicts : Text → Option Verdict := fun _ => none

namespace Files

/-- Replaces any record left by an earlier prompt with the same minted id. -/
def writeRequest (files : Files) (id : Text) (hold : HoldId) : Files :=
  { files with requests := Function.update files.requests id (some hold) }

def removeRequest (files : Files) (id : Text) : Files :=
  { files with requests := Function.update files.requests id none }

def requestPending (files : Files) (id : Text) : Bool := validRequestId id && (files.requests id).isSome

/-- Creates the verdict exclusively: a link onto a name that exists fails. The id stands in the
message unescaped. -/
def writeVerdict (files : Files) (id : Text) (verdict : Verdict) : Files × VerdictWrite :=
  if validRequestId id = false then (files, .error ("refusing an unsafe request id \"".toList ++ id ++ ['"']))
  else
    match files.verdicts id with
    | some _ => (files, .alreadyThere)
    | none => ({ files with verdicts := Function.update files.verdicts id (some verdict) }, .written)

def removeVerdict (files : Files) (id : Text) : Files :=
  { files with verdicts := Function.update files.verdicts id none }

@[simp] theorem writeRequest_requests (files : Files) (id other : Text) (hold : HoldId) :
    (files.writeRequest id hold).requests other = if other = id then some hold else files.requests other :=
  Function.update_apply ..

@[simp] theorem writeRequest_verdicts (files : Files) (id : Text) (hold : HoldId) :
    (files.writeRequest id hold).verdicts = files.verdicts :=
  rfl

@[simp] theorem removeRequest_requests (files : Files) (id other : Text) :
    (files.removeRequest id).requests other = if other = id then none else files.requests other :=
  Function.update_apply ..

@[simp] theorem removeRequest_verdicts (files : Files) (id : Text) :
    (files.removeRequest id).verdicts = files.verdicts :=
  rfl

@[simp] theorem removeVerdict_requests (files : Files) (id : Text) :
    (files.removeVerdict id).requests = files.requests :=
  rfl

@[simp] theorem removeVerdict_verdicts (files : Files) (id other : Text) :
    (files.removeVerdict id).verdicts other = if other = id then none else files.verdicts other :=
  Function.update_apply ..

end Files

/-! ## Holds and dispatches -/

/-- Where a hook is in `hold_for_reply`. -/
inductive Hold
  | fresh
  /-- The request is parked, and the pane option not yet written. -/
  | parked (id : Text)
  | polling (id : Text)
  /-- A poll has found no verdict, and the deadline comes next. -/
  | missed (id : Text)
  | answered (id : Text) (verdict : Verdict)
  | ended
deriving DecidableEq

/-- The request of a hold that has parked one and has not ended. -/
def Hold.request : Hold → Option Text
  | parked id | polling id | missed id => some id
  | _ => none

/-- The verdict that answered a hold, under its request. -/
def Hold.answer : Hold → Option (Text × Verdict)
  | answered id verdict => some (id, verdict)
  | _ => none

theorem Hold.answer_eq_some {state : Hold} {id : Text} {verdict : Verdict} :
    state.answer = some (id, verdict) ↔ state = .answered id verdict := by
  cases state with
  | answered => simp [answer]
  | _ => exact ⟨nofun, nofun⟩

/-- Where a dispatch is in the hook arm. -/
inductive Dispatch
  | fresh
  /-- A request was pending, that of a hold. -/
  | checked (id : Text) (decision : HookVerdict) (hold : HoldId)
  /-- None was: the keys are sent. -/
  | keys
  | wrote (id : Text) (hold : HoldId) (result : VerdictWrite)
deriving DecidableEq

structure Lane where
  files : Files := {}
  holds : HoldId → Hold := fun _ => .fresh
  dispatches : DispatchId → Dispatch := fun _ => .fresh
  /-- What the hooks have printed. -/
  printed : List (HoldId × HookVerdict) := []

inductive Step
  /-- `write_request` for a prompt whose call has this id. -/
  | park (hold : HoldId) (id : Text)
  /-- The option that publishes the id to the pane, which a replaced session refuses. -/
  | publish (hold : HoldId) (bound : Bool)
  | poll (hold : HoldId)
  /-- The deadline after a poll: late, or a sleep. -/
  | deadline (hold : HoldId) (late : Bool)
  | check (dispatch : DispatchId) (id : Text) (decision : HookVerdict)
  | link (dispatch : DispatchId)
deriving DecidableEq

namespace Lane

def setHold (lane : Lane) (hold : HoldId) (state : Hold) : Lane :=
  { lane with holds := Function.update lane.holds hold state }

def setDispatch (lane : Lane) (dispatch : DispatchId) (state : Dispatch) : Lane :=
  { lane with dispatches := Function.update lane.dispatches dispatch state }

@[simp] theorem setHold_holds (lane : Lane) (hold other : HoldId) (state : Hold) :
    (lane.setHold hold state).holds other = if other = hold then state else lane.holds other :=
  Function.update_apply ..

@[simp] theorem setHold_files (lane : Lane) (hold : HoldId) (state : Hold) :
    (lane.setHold hold state).files = lane.files :=
  rfl

@[simp] theorem setHold_dispatches (lane : Lane) (hold : HoldId) (state : Hold) :
    (lane.setHold hold state).dispatches = lane.dispatches :=
  rfl

@[simp] theorem setHold_printed (lane : Lane) (hold : HoldId) (state : Hold) :
    (lane.setHold hold state).printed = lane.printed :=
  rfl

@[simp] theorem setDispatch_dispatches (lane : Lane) (dispatch other : DispatchId) (state : Dispatch) :
    (lane.setDispatch dispatch state).dispatches other = if other = dispatch then state else lane.dispatches other :=
  Function.update_apply ..

@[simp] theorem setDispatch_files (lane : Lane) (dispatch : DispatchId) (state : Dispatch) :
    (lane.setDispatch dispatch state).files = lane.files :=
  rfl

@[simp] theorem setDispatch_holds (lane : Lane) (dispatch : DispatchId) (state : Dispatch) :
    (lane.setDispatch dispatch state).holds = lane.holds :=
  rfl

@[simp] theorem setDispatch_printed (lane : Lane) (dispatch : DispatchId) (state : Dispatch) :
    (lane.setDispatch dispatch state).printed = lane.printed :=
  rfl

/-- One step. A step that its hold or dispatch has not come to does nothing. -/
def step (lane : Lane) : Step → Lane
  | .park hold id =>
    match lane.holds hold with
    | .fresh =>
      if validRequestId id then
        { lane.setHold hold (.parked id) with files := lane.files.writeRequest id hold }
      else lane.setHold hold .ended
    | _ => lane
  | .publish hold bound =>
    match lane.holds hold with
    -- A hook that lost its pane leaves without a word, and leaves its request.
    | .parked id => lane.setHold hold (if bound then .polling id else .ended)
    | _ => lane
  | .poll hold =>
    match lane.holds hold with
    | .polling id =>
      match lane.files.verdicts id with
      | some verdict =>
        { lane.setHold hold (.answered id verdict) with
          files := (lane.files.removeVerdict id).removeRequest id
          printed := lane.printed ++ [(hold, verdict.decision)] }
      | none => lane.setHold hold (.missed id)
    | _ => lane
  | .deadline hold late =>
    match lane.holds hold with
    | .missed id =>
      if late then { lane.setHold hold .ended with files := lane.files.removeRequest id }
      else lane.setHold hold (.polling id)
    | _ => lane
  | .check dispatch id decision =>
    match lane.dispatches dispatch with
    | .fresh =>
      if lane.files.requestPending id then
        match lane.files.requests id with
        | some hold => lane.setDispatch dispatch (.checked id decision hold)
        | none => lane
      else lane.setDispatch dispatch .keys
    | _ => lane
  | .link dispatch =>
    match lane.dispatches dispatch with
    | .checked id decision hold =>
      { lane.setDispatch dispatch (.wrote id hold (lane.files.writeVerdict id ⟨decision, dispatch⟩).2) with
        files := (lane.files.writeVerdict id ⟨decision, dispatch⟩).1 }
    | _ => lane

/-- The lane after some steps, from no files and no processes. -/
def run (steps : List Step) : Lane := Run.run step {} steps

/-- What a hook has printed. -/
def prints (lane : Lane) (hold : HoldId) : List HookVerdict :=
  (lane.printed.filter fun line => line.1 == hold).map Prod.snd

/-- A hold has parked its request and has not ended. -/
def Holding (lane : Lane) (hold : HoldId) (id : Text) : Prop := (lane.holds hold).request = some id

instance (lane : Lane) (hold : HoldId) (id : Text) : Decidable (lane.Holding hold id) :=
  inferInstanceAs (Decidable (_ = _))

/-- A dispatch has found a request pending and has not come to its link. -/
def InFlight (lane : Lane) (id : Text) : Prop :=
  ∃ dispatch decision hold, lane.dispatches dispatch = .checked id decision hold

/-- A step of the kind that goes right. A hook publishes its option, and does not wait on a request
that another waits on. It ends while no dispatch is between its check and its link, and gives up
while there is no verdict. -/
def Undisturbed (lane : Lane) : Step → Prop
  | .park _ id => ∀ other, ¬ lane.Holding other id
  | .publish _ bound => bound = true
  | .poll hold => ∀ id, lane.holds hold = .polling id → lane.files.verdicts id ≠ none → ¬ lane.InFlight id
  | .deadline hold late =>
    ∀ id, lane.holds hold = .missed id → late = true → lane.files.verdicts id = none ∧ ¬ lane.InFlight id
  | .check _ _ _ | .link _ => True

end Lane

/-! ## What a verdict answers -/

/-- A verdict was linked in a run while this hold's request was parked. -/
def WrittenWhileParked (steps : List Step) (dispatch : DispatchId) (hold : HoldId) (id : Text) : Prop :=
  ∃ before after, steps = before ++ .link dispatch :: after ∧ (Lane.run before).Holding hold id ∧
    (Lane.run before).files.requests id = some hold

theorem WrittenWhileParked.concat {steps : List Step} {dispatch : DispatchId} {hold : HoldId} {id : Text}
    (h : WrittenWhileParked steps dispatch hold id) (next : Step) :
    WrittenWhileParked (steps ++ [next]) dispatch hold id := by
  obtain ⟨before, after, rfl, hwhile⟩ := h
  exact ⟨before, after ++ [next], by simp, hwhile⟩

/-- Every verdict answers the prompt it was written for. -/
structure AnswersItsPrompt (steps : List Step) : Prop where
  parked : ∀ hold id verdict, (Lane.run steps).holds hold = .answered id verdict →
    WrittenWhileParked steps verdict.dispatch hold id
  consumed : ∀ hold hold' id id' verdict verdict', (Lane.run steps).holds hold = .answered id verdict →
    (Lane.run steps).holds hold' = .answered id' verdict' → verdict.dispatch = verdict'.dispatch → hold = hold'
  printed : ∀ hold, ((Lane.run steps).prints hold).length ≤ 1
  written : ∀ before after dispatch id decision hold, steps = before ++ .link dispatch :: after →
    (Lane.run before).dispatches dispatch = .checked id decision hold →
      (Lane.run (before ++ [.link dispatch])).dispatches dispatch = .wrote id hold .written →
        (Lane.run before).Holding hold id

/-- A hook that expires between a dispatch's check and its link leaves the verdict to the next
prompt of the same call. -/
def lateVerdict : List Step :=
  [.park 0 ['a'], .publish 0 true, .check 0 ['a'] .allow, .poll 0, .deadline 0 true, .link 0,
    .park 1 ['a'], .publish 1 true, .poll 1]

/-- **A verdict can answer a prompt it was not written for.** -/
theorem late_verdict_answers_the_next_prompt :
    (Lane.run lateVerdict).holds 1 = .answered ['a'] ⟨.allow, 0⟩ ∧ ¬ AnswersItsPrompt lateVerdict := by
  have hchecked : (Lane.run (lateVerdict.take 5)).dispatches 0 = .checked ['a'] .allow 0 := by decide +kernel
  have hwrote : (Lane.run (lateVerdict.take 5 ++ [.link 0])).dispatches 0 = .wrote ['a'] 0 .written := by
    decide +kernel
  have hended : ¬ (Lane.run (lateVerdict.take 5)).Holding 0 ['a'] := by decide +kernel
  refine ⟨by decide +kernel, fun h => hended ?_⟩
  exact h.written (lateVerdict.take 5) (lateVerdict.drop 6) 0 ['a'] .allow 0 rfl hchecked hwrote

end TmuxAgents.HookLane
