/-
What a hook event comes to (`event/mapping.rs`, `event.rs`): the plan decided from
the pane's stored stamp, and the edits the plan carries out.

A turn end is known to the hook alone. An idle edge the fold cannot see raises the
mark only when no mark stands, so the two channels that report one turn end raise
one mark between them.
-/
import TmuxAgents.Lib.Run
import TmuxAgents.Persist.Advisory

namespace TmuxAgents.Hook

/-- `Mapped`: what the agent's manifest makes of the event. -/
inductive Mapped
  | state (state : AgentState) (detail : Option Detail) (turnEnd : Bool)
  | register
  | deregister
  | subagentStart
  | subagentStop
  | unmapped
deriving DecidableEq

/-- `NotifyTrigger` -/
inductive NotifyTrigger
  | blocked
  | done
deriving DecidableEq

/-- `EventPlan` -/
inductive EventPlan
  | unmapped
  | ignore
  | deregister
  | subagents (ids : List Text)
  | stamp (state : AgentState) (detail : Option Detail) (setAttention : Bool) (registerSession : Option Text)
      (recordTurn notify : Bool)
deriving DecidableEq

/-- `notify::trigger_for` -/
def triggerFor (state : AgentState) (noteworthy : Bool) : Option NotifyTrigger :=
  match state with
  | .blocked => if noteworthy then some .blocked else none
  | .idle => if noteworthy then some .done else none
  | _ => none

/-- `config::trigger_enabled` -/
def triggerEnabled (on : List NotifyTrigger) (trigger : NotifyTrigger) : Bool := on.contains trigger

/-! ## The decision -/

/-- While subagents are live, only the recorded owner may touch the state. -/
def foreign (owner : Option Text) (subagents : List Text) (eventSession : Option Text) : Bool :=
  !subagents.isEmpty &&
    match owner, eventSession with
    | some owner, some session => session != owner
    | _, _ => true

/-- The plan of a state claim. -/
def planState (state : AgentState) (detail : Option Detail) (turnEnd : Bool) (eventSession : Option Text)
    (stored : Option StampedState) (notifyOptIn : Bool) (notifyOn : List NotifyTrigger) (now : Nat) : EventPlan :=
  let prev := stored.map StampedState.state
  -- a standing mark has not been acknowledged: a turn end has nothing to add
  let standing := stored.any StampedState.attention
  let setAttention := match state with
    | .blocked => prev != some .blocked
    | .idle => prev == some .working || (turnEnd && !standing)
    | _ => false
  let recordTurn := turnEnd && state == .idle && setAttention
  let trigger := triggerFor state setAttention
  let alreadyNotified := (stored.bind StampedState.notifiedAt).any fun notified => now ≤ notified
  let notify := notifyOptIn && trigger.any (triggerEnabled notifyOn) && !alreadyNotified
  let registerSession := match stored.bind StampedState.session, eventSession with
    | none, some session => some session
    | _, _ => none
  .stamp state detail setAttention registerSession recordTurn notify

/-- `decide` -/
def EventPlan.decide (mapped : Mapped) (eventSession : Option Text) (stored : Option StampedState) (notifyOptIn : Bool)
    (notifyOn : List NotifyTrigger) (now : Nat) : EventPlan :=
  let owner := stored.bind StampedState.session
  let subagents := (stored.map StampedState.subagents).getD []
  match mapped with
  -- the bookkeeping is whoever's: what it tracks is foreign sessions
  | .subagentStart =>
    .subagents (match eventSession with
      | some session => if subagents.contains session then subagents else subagents ++ [session]
      | none => subagents)
  | .subagentStop =>
    .subagents (match eventSession with
      | some session => subagents.filter fun id => id != session
      | none => subagents)
  | .unmapped => .unmapped
  | .deregister => if foreign owner subagents eventSession then .ignore else .deregister
  | .register =>
    if foreign owner subagents eventSession then .ignore else .stamp .idle none false eventSession false false
  | .state state detail turnEnd =>
    if foreign owner subagents eventSession then .ignore
    else planState state detail turnEnd eventSession stored notifyOptIn notifyOn now

/-! ## The edits -/

/-- The options that go with the agent, the session's metadata apart. -/
def removable : List OptionKey :=
  [Opt.state, Opt.detail, Opt.source, Opt.evidenceAt, Opt.since, Opt.stampedAt, Opt.attention, Opt.notifiedAt,
    Opt.turnAt, Opt.hash, Opt.pid, Opt.name, Opt.contextNotifiedAt, Opt.stallNotifiedAt, Opt.titleMatchPid,
    Opt.regDeadSince]

/-- The session's own options besides its id and its subagents. -/
def isCompanion (key : OptionKey) : Bool := metadataKeys.contains key && key != Opt.session && key != Opt.subagents

/-- A hook event, as it reaches a pane. -/
structure Event where
  mapped : Mapped
  session : Option Text
  now : Nat
  notifyOptIn : Bool
  notifyOn : List NotifyTrigger
  pane : String
  name : Text
  /-- The agent's process outlives its session. -/
  running : Bool
  /-- What the payload stamps beside: the transcript, the model, the requests. -/
  companions : List OptionEdit
  companion : ∀ edit ∈ companions, isCompanion edit.key = true
  inWord : now < 2 ^ 64
  /-- An id is one word. -/
  word : ∀ id ∈ session, id ≠ [] ∧ ∀ c ∈ id, isWhitespace c = false

/-- The stamp a hook event decides on: of a pane that no protocol writes. -/
def stored (options : Options) : Option StampedState :=
  readStamp (StampedState.fromOptions (options.read paneOptionKeys))

def Event.plan (event : Event) (options : Options) : EventPlan :=
  .decide event.mapped event.session (stored options) event.notifyOptIn event.notifyOn event.now

/-- What `apply_event` and `execute` write for a plan. -/
def Event.edits (event : Event) (options : Options) : List OptionEdit :=
  match event.plan options with
  | .ignore => []
  | .unmapped => event.companions
  | .deregister =>
    metadataKeys.map OptionEdit.unset ++ if event.running then [] else removable.map OptionEdit.unset
  | .subagents ids =>
    (if ids.isEmpty then OptionEdit.unset Opt.subagents
      else .set Opt.subagents (List.intercalate [' '] ids)) :: event.companions
  | .stamp state detail setAttention registerSession recordTurn _ =>
    registerSession.toList.map (OptionEdit.set Opt.session) ++ event.companions ++
      advisoryEdits (hookPublish event.pane (stored options) state detail setAttention event.name event.now)
        (stored options) ++
      if recordTurn then [.set Opt.turnAt (Text.decimal event.now)] else []

/-! ## The pane -/

/-- What happens to a pane's stamp. -/
inductive Step
  | hook (event : Event)
  /-- The user has seen the mark. -/
  | clear
  /-- A state read off the screen. -/
  | screen (publish : Publish) (inWords : publish.InWords)

def Step.apply (options : Options) : Step → Options
  | .hook event => applyEdits (event.edits options) options
  | .clear => applyEdits [.unset Opt.attention] options
  | .screen publish _ => applyEdits (advisoryEdits publish (stored options)) options

/-- The pane after so many steps. -/
def run (options : Options) (steps : List Step) : Options := Run.run Step.apply options steps

end TmuxAgents.Hook
