/-
The action broker (`broker.rs`, with `broker/exec.rs` and `broker/audit.rs`): the guarded path
from an invoked action to keystrokes on the pane or a spawned process.

`BrokerIo` and `run_exec` are the calls of a program (`Call`). Every answer is the surroundings'
own, so the pane's options may change between any two calls.
-/
import TmuxAgents.Dispatch.Gate
import TmuxAgents.Dispatch.Lock
import TmuxAgents.Lib.Interaction

namespace TmuxAgents.Act

open Interaction PaneLock

def freshnessMs : Nat := 3000
def slackMs : Nat := 5000

/-- One pane's facts, read at once. Every read of the pane under the broker is one of these. -/
structure PaneFacts where
  agent : Option Text
  state : AgentState
  detail : Option Text
  session : Option Text
  cwd : Text
  pid : Option Text
  title : Text
  locator : Text
  stampedAt : Nat
  contextPct : Option UInt8
  contextCovered : Bool
  permissionRequest : Option Text
  questionRequest : Option Text
  apiEndpoint : Option Text
  episodeMs : Nat
  pendingTool : Option Text
  pendingCall : Option Text
  actRepeat : Option Text
deriving DecidableEq

/-- The per-invocation inputs beyond the action. -/
structure FireArgs where
  force : Bool
  args : List Text
  text : Option Text
  answers : Option (List (List Text))
  expectEpisodeMs : Option Nat
  expectPermissionRequest : Option Text
deriving DecidableEq

/-- What the audit line records of the pane. -/
structure ActObserved where
  agent : Option Text
  episodeMs : Option Nat
  pendingTool : Option Text
  pendingCall : Option Text
  repeats : Nat
  tookHookLane : Bool
deriving DecidableEq

structure SupervisorSpec where
  paneId : Text
  nonce : Text
  expiryMs : UInt64
  action : Text
  agent : Text
  command : Text
  detachTimeoutMs : Nat
  env : List (Text × Text)
deriving DecidableEq

/-! ## Outcomes -/

inductive Gone
  | pane
  | request
deriving DecidableEq

inductive Refusal
  | gate (reason : RefusalReason)
  | locked
  | episodeChanged
  | requestGone
  | payload (reason : TextRefusal)
deriving DecidableEq

inductive Outcome
  | sent
  | replied
  | exited (code : Int)
  | spawned
  | timeout
  | refused (refusal : Refusal)
  | vanished (gone : Gone)
  | error (message : Text)
deriving DecidableEq

def Gone.token : Gone → String
  | .pane => "pane-gone"
  | .request => "request-gone"

def Refusal.token : Refusal → String
  | .gate reason => reason.token
  | .locked => "locked"
  | .episodeChanged => "episode-changed"
  | .requestGone => "request-gone"
  | .payload reason => reason.token

def Outcome.token : Outcome → String
  | .sent => "sent"
  | .replied => "replied"
  | .exited _ => "exited"
  | .spawned => "spawned"
  | .timeout => "timeout"
  | .refused _ => "refused"
  | .vanished _ => "vanished"
  | .error _ => "error"

/-- Which gate refused, or which target vanished. -/
def Outcome.reason : Outcome → Option String
  | .refused refusal => some refusal.token
  | .vanished gone => some gone.token
  | _ => none

def Outcome.exitCode : Outcome → Int
  | .sent | .replied | .spawned => 0
  | .exited code => code
  | .timeout => 124
  | .refused .locked => 5
  | .refused _ => 4
  | .vanished _ => 3
  | .error _ => 1

/-- A tmux failure, by what the broker reads of it: which it is, a failed command's stderr, and how it prints. -/
inductive TmuxError
  | paneGone (message : Text)
  | failed (stderr message : Text)
  | other (message : Text)
deriving DecidableEq

def TmuxError.message : TmuxError → Text
  | .paneGone message => message
  | .failed _ message => message
  | .other message => message

/-- What tmux's stderr says where the target pane no longer exists. -/
def paneGoneIn (stderr : Text) : Bool :=
  ["can't find pane".toList, "no such pane".toList, "pane not found".toList].any fun needle =>
    decide (needle <:+: stderr.map Char.toLower)

def ioError (e : TmuxError) : Outcome :=
  match e with
  | .paneGone _ => .vanished .pane
  | .failed stderr message => if paneGoneIn stderr then .vanished .pane else .error message
  | .other message => .error message

inductive LockError
  | tmux (e : TmuxError)
  /-- No nonce could be drawn. -/
  | rng (message : Text)
deriving DecidableEq

inductive HttpOutcome
  | ok
  | notFound
  | error (message : Text)
deriving DecidableEq

inductive VerdictWrite
  | written
  | alreadyThere
  | error (message : Text)
deriving DecidableEq

inductive ExecOutcome
  | exited (code : Int)
  | timeout
  | spawnError (message : Text)
deriving DecidableEq

/-! ## The calls -/

inductive Call
  | nowMs
  | readPane (pane : Text)
  | reverify (pane : Text)
  | sendKeys (pane : Text) (keys : List Text)
  | sendText (pane : Text) (before : List Text) (text : Text) (after : List Text)
  | apiCall (endpoint path body : Text) (timeoutMs : Nat)
  | hookRequestPending (request : Text)
  | writeHookVerdict (request : Text) (verdict : HookVerdict)
  | setActRepeat (pane : Text) (facts : PaneFacts) (value : Text)
  | clearPermissionRequest (pane : Text) (facts : PaneFacts)
  | clearQuestionRequest (pane : Text) (facts : PaneFacts)
  | acquire (pane : Text) (nowMs expiryMs : Nat) (name : Text)
  | clear (pane nonce : Text)
  | spawnSupervisor (spec : SupervisorSpec)
  | runExec (command : Text) (env : List (Text × Text)) (timeoutMs : Nat)
deriving DecidableEq

def Call.Answer : Call → Type
  | .nowMs => Nat
  | .readPane _ => Except TmuxError (Option PaneFacts)
  | .reverify _ => Except TmuxError Unit
  | .sendKeys _ _ => Except TmuxError Unit
  | .sendText _ _ _ _ => Except TmuxError Unit
  | .apiCall _ _ _ _ => HttpOutcome
  | .hookRequestPending _ => Bool
  | .writeHookVerdict _ _ => VerdictWrite
  | .setActRepeat _ _ _ => Unit
  | .clearPermissionRequest _ _ => Unit
  | .clearQuestionRequest _ _ => Unit
  | .acquire _ _ _ _ => Except LockError Acquire
  | .clear _ _ => Except LockError Unit
  | .spawnSupervisor _ => Except Text Unit
  | .runExec _ _ _ => ExecOutcome

abbrev Script := Program Call.Answer (Outcome × ActObserved)

/-! ## What is sent -/

/-- `JsonWriter`: what is written, and for each open scope, the innermost first, whether a comma is due. -/
structure JsonWriter where
  buf : Text
  needsComma : List Bool
deriving DecidableEq

namespace JsonWriter

def new : JsonWriter := { buf := [], needsComma := [] }

def push (w : JsonWriter) (text : Text) : JsonWriter := { w with buf := w.buf ++ text }

def sep (w : JsonWriter) : JsonWriter :=
  match w.needsComma with
  | [] => w
  | last :: rest => { buf := if last then w.buf ++ [','] else w.buf, needsComma := true :: rest }

def beginObject (w : JsonWriter) : JsonWriter :=
  let w := w.sep.push ['\x7b']
  { w with needsComma := false :: w.needsComma }

def endObject (w : JsonWriter) : JsonWriter :=
  let w := w.push ['\x7d']
  { w with needsComma := w.needsComma.tail }

def beginArray (w : JsonWriter) : JsonWriter :=
  let w := w.sep.push ['[']
  { w with needsComma := false :: w.needsComma }

def endArray (w : JsonWriter) : JsonWriter :=
  let w := w.push [']']
  { w with needsComma := w.needsComma.tail }

def escape (c : Char) : Text :=
  if c = '"' then "\\\"".toList
  else if c = '\\' then "\\\\".toList
  else if c = '\n' then "\\n".toList
  else if c = '\r' then "\\r".toList
  else if c = '\t' then "\\t".toList
  else if c.toNat < 0x20 then "\\u00".toList ++ hexByte (.ofNat c.toNat)
  else [c]

def jsonString (text : Text) : Text := '"' :: (text.flatMap escape ++ ['"'])

def key (w : JsonWriter) (k : Text) : JsonWriter :=
  let w := (w.sep.push (jsonString k)).push [':']
  { w with needsComma := match w.needsComma with
      | [] => []
      | _ :: rest => false :: rest }

def rawString (w : JsonWriter) (v : Text) : JsonWriter := w.sep.push (jsonString v)

def finish (w : JsonWriter) : Text := w.buf

end JsonWriter

/-- One list per question. -/
def answersBody (answers : List (List Text)) : Text :=
  let j := ((JsonWriter.new.beginObject).key "answers".toList).beginArray
  let j := answers.foldl (fun j picked => (picked.foldl JsonWriter.rawString j.beginArray).endArray) j
  j.endArray.endObject.finish

/-- A stamped value that is there. -/
def nonempty (value : Option Text) : Option Text := value.filter fun s => !s.isEmpty

/-- The path behind the endpoint, and the body; nothing where a precondition is missing. -/
def apiRequest (transport : ApiTransport) (facts : PaneFacts) (answers : Option (List (List Text))) :
    Option (Text × Text) :=
  match transport.op with
  | .permissionReply => do
    let id ← nonempty facts.permissionRequest
    let reply ← transport.reply
    some ("/permission/".toList ++ id ++ "/reply".toList, "\x7b\"reply\":\"".toList ++ reply.token ++ "\"\x7d".toList)
  | .questionReply => do
    let id ← nonempty facts.questionRequest
    let answers ← answers.filter fun a => !a.isEmpty
    some ("/question/".toList ++ id ++ "/reply".toList, answersBody answers)
  | .questionReject => do
    let id ← nonempty facts.questionRequest
    some ("/question/".toList ++ id ++ "/reject".toList, [])
  | .interrupt => do
    let session ← nonempty facts.session
    some ("/session/".toList ++ session ++ "/abort".toList, [])

/-- The context a child inherits. -/
def assembleEnv (action : ActionManifest) (facts : PaneFacts) (pane agent : Text) (args : List Text) :
    List (Text × Text) :=
  [("TMA_PANE".toList, pane), ("TMA_AGENT".toList, agent), ("TMA_STATE".toList, facts.state.token),
    ("TMA_DETAIL".toList, facts.detail.getD []), ("TMA_SESSION_ID".toList, facts.session.getD []),
    ("TMA_CWD".toList, facts.cwd), ("TMA_PID".toList, facts.pid.getD []), ("TMA_LOCATOR".toList, facts.locator),
    ("TMA_TITLE".toList, facts.title), ("TMA_ACTION".toList, action.name)] ++
  match args with
  | [] => []
  | first :: _ =>
    ("TMA_ARG".toList, first) :: ("TMA_ARG_COUNT".toList, Text.decimal args.length) ::
      args.mapIdx fun i value => ("TMA_ARG_".toList ++ Text.decimal (i + 1), value)

/-- The stored count, when it belongs to this episode and this action. -/
def parseRepeat (stored : Text) (episodeMs : Nat) (action : Text) : Option Nat := do
  let (episode, rest) ← splitOnce ':' stored
  let (name, count) ← splitOnce ':' rest
  let episode ← Text.parseUnsigned (2 ^ 64) episode
  if episode ≠ episodeMs ∨ name ≠ action then none
  else Text.parseUnsigned (2 ^ 32) count

def nextRepeat (stored : Option Text) (episodeMs : Nat) (action : Text) : Text × Nat :=
  let prior := (stored.bind fun s => parseRepeat s episodeMs action).getD 0
  let count := min (prior + 1) (2 ^ 32 - 1)
  (Text.decimal episodeMs ++ ':' :: (action ++ ':' :: Text.decimal count), count)

/-! ## The gates -/

namespace PaneFacts

variable (facts : PaneFacts)

def contextKeys : ContextKeys :=
  { session := facts.session.isSome, cwd := !facts.cwd.isEmpty, pid := facts.pid.isSome, title := !facts.title.isEmpty }

def requiresMet (action : ActionManifest) : Bool := action.requires.all facts.contextKeys.has

def gateInput (agent : Text) : GateInput :=
  { agent, state := facts.state, detail := facts.detail, contextPct := facts.contextPct,
    contextCovered := facts.contextCovered, contextKeys := facts.contextKeys }

end PaneFacts

/-- The caller's binder against one pane read. -/
def binderRefusal (facts : PaneFacts) (fireArgs : FireArgs) : Option Refusal :=
  if fireArgs.expectEpisodeMs.any (fun want => want != facts.episodeMs) then some .episodeChanged
  else if fireArgs.expectPermissionRequest.any (fun want => facts.permissionRequest != some want) then some .requestGone
  else none

/-- The endpoint and the id that an api op's path is built from, never skipped by `--force`. -/
def apiRequiresRefusal (action : ActionManifest) (facts : PaneFacts) (agent : Text) : Option Refusal :=
  match action.apiFor agent with
  | none => none
  | some transport =>
    let hasEndpoint := (nonempty facts.apiEndpoint).isSome
    let hasTarget := match transport.op with
      | .permissionReply => (nonempty facts.permissionRequest).isSome
      | .questionReply | .questionReject => (nonempty facts.questionRequest).isSome
      | .interrupt => (nonempty facts.session).isSome
    if !(hasEndpoint && hasTarget) then some (.gate .requiresUnmet) else none

/-- Under `--force` the `when` gate is skipped, and `requires` is not. -/
def gateRefusal (action : ActionManifest) (facts : PaneFacts) (agent : Text) (force : Bool) : Option Refusal :=
  let base :=
    if force then if !facts.requiresMet action then some (.gate .requiresUnmet) else none
    else match action.evaluateGate (facts.gateInput agent) with
      | .fireable => none
      | .refused reason => some (.gate reason)
  base.or (apiRequiresRefusal action facts agent)

def needsAnswers (action : ActionManifest) (answers : Option (List (List Text))) : Bool :=
  action.api.values.any fun t => t.op.takesAnswers && answers.all List.isEmpty

def isStale (now stampedAt : Nat) : Bool :=
  decide (stampedAt = 0) || decide (now < stampedAt) || decide (freshnessMs ≤ now - stampedAt)

/-! ## The sequence -/

def observe (observed : ActObserved) (facts : PaneFacts) : ActObserved :=
  { observed with
    agent := facts.agent
    episodeMs := some facts.episodeMs
    pendingTool := facts.pendingTool
    pendingCall := facts.pendingCall }

/-- A read of the pane, and how it goes on where the pane is there. -/
def readingPane (pane : Text) (observed : ActObserved) (next : PaneFacts → Script) : Script :=
  .ask (.readPane pane) fun answer =>
    match answer with
    | .ok (some facts) => next facts
    | .ok none => .done (.vanished .pane, observed)
    | .error e => .done (ioError e, observed)

/-- What `spawn_detached_under_lock` and `act_under_lock` begin with: re-read, re-assert, and count the repeat. -/
def reasserting (action : ActionManifest) (pane : Text) (fireArgs : FireArgs) (agent : Text) (observed : ActObserved)
    (fire : PaneFacts → ActObserved → Script) : Script :=
  readingPane pane observed fun facts =>
    let observed := observe observed facts
    if facts.agent ≠ some agent ∨ action.appliesTo agent = false then .done (.refused (.gate .wrongAgent), observed)
    else match gateRefusal action facts agent fireArgs.force with
      | some refusal => .done (.refused refusal, observed)
      | none =>
        match binderRefusal facts fireArgs with
        | some refusal => .done (.refused refusal, observed)
        | none =>
          let (value, count) := nextRepeat facts.actRepeat facts.episodeMs action.name
          .ask (.setActRepeat pane facts value) fun _ => fire facts { observed with repeats := count }

def supervisorSpec (action : ActionManifest) (pane : Text) (fireArgs : FireArgs) (agent : Text) (lock : LockValue)
    (facts : PaneFacts) : SupervisorSpec :=
  { paneId := pane
    nonce := lock.nonce
    expiryMs := lock.expiryMs
    action := action.name
    agent
    command := action.command.getD []
    detachTimeoutMs := action.detachTimeoutMs
    env := assembleEnv action facts pane agent fireArgs.args }

def spawnDetachedUnderLock (action : ActionManifest) (pane : Text) (fireArgs : FireArgs) (agent : Text)
    (lock : LockValue) (observed : ActObserved) : Script :=
  reasserting action pane fireArgs agent observed fun facts observed =>
    .ask (.spawnSupervisor (supervisorSpec action pane fireArgs agent lock facts)) fun answer =>
      match answer with
      | .ok _ => .done (.spawned, observed)
      | .error message => .done (.error message, observed)

/-- The `api` arm. -/
def replyOverApi (action : ActionManifest) (pane : Text) (fireArgs : FireArgs) (transport : ApiTransport)
    (facts : PaneFacts) (observed : ActObserved) : Script :=
  match apiRequest transport facts fireArgs.answers with
  | none => .done (.refused (.gate .requiresUnmet), observed)
  | some (path, body) =>
    .ask (.apiCall (facts.apiEndpoint.getD []) path body action.timeoutMs) fun answer =>
      match answer with
      | .ok =>
        let outcome : Outcome := if transport.op.answersARequest then .replied else .sent
        match transport.op with
        | .permissionReply => .ask (.clearPermissionRequest pane facts) fun _ => .done (outcome, observed)
        | .questionReply | .questionReject => .ask (.clearQuestionRequest pane facts) fun _ => .done (outcome, observed)
        | .interrupt => .done (outcome, observed)
      | .notFound => .done (.vanished .request, observed)
      | .error message => .done (.error message, observed)

/-- The `keys` floor: an empty sequence is a no-op send. -/
def sendKeySequence (action : ActionManifest) (pane agent : Text) (observed : ActObserved) : Script :=
  .ask (.sendKeys pane ((action.keysFor agent).getD [])) fun answer =>
    match answer with
    | .ok _ => .done (.sent, observed)
    | .error e => .done (ioError e, observed)

/-- The `hook` arm: taken only where a hook is parked on the request. -/
def replyOverHook (action : ActionManifest) (pane agent : Text) (transport : HookTransport) (facts : PaneFacts)
    (observed : ActObserved) : Script :=
  let request := facts.permissionRequest.getD []
  .ask (.hookRequestPending request) fun (pending : Bool) =>
    if pending then
      .ask (.writeHookVerdict request transport.verdict) fun answer =>
        match answer with
        | .written =>
          .ask (.clearPermissionRequest pane facts) fun _ => .done (.replied, { observed with tookHookLane := true })
        | .alreadyThere => .done (.vanished .request, observed)
        | .error message => .done (.error message, observed)
    else sendKeySequence action pane agent observed

def actUnderLock (action : ActionManifest) (pane : Text) (fireArgs : FireArgs) (agent : Text) (observed : ActObserved) :
    Script :=
  reasserting action pane fireArgs agent observed fun facts observed =>
    match action.kind with
    | .keys =>
      match action.apiFor agent with
      | some transport => replyOverApi action pane fireArgs transport facts observed
      | none =>
        match action.hookFor agent with
        | some transport => replyOverHook action pane agent transport facts observed
        | none => sendKeySequence action pane agent observed
    | .text =>
      match action.textFor agent with
      | none => .done (.refused (.gate .wrongAgent), observed)
      | some transport =>
        .ask (.sendText pane transport.before (fireArgs.text.getD []) transport.after) fun answer =>
          match answer with
          | .ok _ => .done (.sent, observed)
          | .error e => .done (ioError e, observed)
    | .exec =>
      .ask (.runExec (action.command.getD []) (assembleEnv action facts pane agent fireArgs.args) action.timeoutMs)
        fun answer => match answer with
          | .exited code => .done (.exited code, observed)
          | .timeout => .done (.timeout, observed)
          | .spawnError message => .done (.error message, observed)

/-- Under the acquired lock: a detached child takes the lock over, and every other path clears it. -/
def holding (action : ActionManifest) (pane : Text) (fireArgs : FireArgs) (agent : Text) (lock : LockValue)
    (observed : ActObserved) : Script :=
  if action.detach then
    (spawnDetachedUnderLock action pane fireArgs agent lock observed).bind fun result =>
      if result.1 = .spawned then .done result else .ask (.clear pane lock.nonce) fun _ => .done result
  else
    (actUnderLock action pane fireArgs agent observed).bind fun result =>
      .ask (.clear pane lock.nonce) fun _ => .done result

/-- The gate, and then the lock. -/
def gating (action : ActionManifest) (pane : Text) (fireArgs : FireArgs) (now : Nat) (agent : Text) (facts : PaneFacts)
    (observed : ActObserved) : Script :=
  match gateRefusal action facts agent fireArgs.force with
  | some refusal => .done (.refused refusal, observed)
  | none =>
    let bound := if action.detach then action.detachTimeoutMs else action.timeoutMs
    .ask (.acquire pane now (saturatingAdd (saturatingAdd now bound) slackMs) action.name) fun answer =>
      match answer with
      | .ok (.acquired lock) => holding action pane fireArgs agent lock observed
      | .ok .contended => .done (.refused .locked, observed)
      | .error (.tmux e) => .done (ioError e, observed)
      | .error (.rng message) => .done (.error message, observed)

/-- The payload rules come before the first call: then identity, gate, lock, act, release. -/
def actSequence (action : ActionManifest) (pane : Text) (fireArgs : FireArgs) (observed : ActObserved) : Script :=
  match if action.kind = .text then action.checkText (fireArgs.text.getD []) else .ok () with
  | .error reason => .done (.refused (.payload reason), observed)
  | .ok _ =>
    if needsAnswers action fireArgs.answers then .done (.refused (.payload .empty), observed)
    else
      .ask .nowMs fun now =>
        readingPane pane observed fun facts =>
          let observed := observe observed facts
          match facts.agent.filter action.appliesTo with
          | none => .done (.refused (.gate .wrongAgent), observed)
          | some agent =>
            if action.kind.sendsKeystrokes && !fireArgs.force && isStale now facts.stampedAt then
              .ask (.reverify pane) fun answer =>
                match answer with
                | .error e => .done (ioError e, observed)
                | .ok _ =>
                  readingPane pane observed fun facts =>
                    gating action pane fireArgs now agent facts (observe observed facts)
            else gating action pane fireArgs now agent facts observed

end TmuxAgents.Act
