/-
One remote connection (`serve.rs`): `tma serve --stdio` from its start to the end of its
request loop.

What it asks of the host and of its caller are the calls of a program, `broker::fire` and the
next request line among them. Every answer is the surroundings' own: the lines may be any, and
the device store may change between any two calls. A subscription is a thread of its own, and
what it streams is no response.
-/
import TmuxAgents.Dispatch.Broker
import TmuxAgents.Dispatch.Slots
import TmuxAgents.Serve.Protocol
import TmuxAgents.Serve.Store

namespace TmuxAgents.Serve.Session

open Interaction

/-! ## The calls -/

/-- What one read of the request stream produced. -/
inductive Incoming
  | line (text : Text)
  | tooLong
  | notUtf8
  | eof

/-- What `Ledger::claim` found. -/
inductive Claim
  | hit (receipt : Slots.Receipt)
  | claimed (guard : Slots.SlotGuard)

/-- What `Connection::open` returned. -/
inductive Opened
  | ok
  | full (max : Nat)
  | io (message : Text)

inductive Call
  | openStore
  | stat
  | load
  | openConnection (device : Text) (max : Nat)
  | loadManifests
  | loadActions
  | openLedger
  | resolveOrigin
  | nextLine
  | read (request : ReadRequest)
  | spawnStream (id : Text) (subscribe : Subscribe)
  | nowMs
  | claim (slot pane action : Text) (device : Option Text) (nowMs : Nat)
  | fire (action : Act.ActionManifest) (pane : Text) (fireArgs : Act.FireArgs)
  | release (guard : Slots.SlotGuard)
  | write (guard : Slots.SlotGuard) (receipt : Slots.Receipt)
  | receipts (slot : Text)
  | send (id : Text) (response : Response)

/-- An error is what it prints. -/
def Call.Answer : Call → Type
  | .openStore => Except Text Unit
  | .stat => Except Text (Option FileMemo)
  | .load => Except Text (List Device)
  | .openConnection _ _ => Opened
  | .loadManifests => Except Nat Unit
  | .loadActions => Except Text (List Act.ActionManifest)
  | .openLedger => Except Text Unit
  | .resolveOrigin => Text
  | .nextLine => Except Text Incoming
  | .read _ => Response
  | .spawnStream _ _ => Unit
  | .nowMs => Nat
  | .claim _ _ _ _ _ => Except Text Claim
  | .fire _ _ _ => Act.Outcome
  | .release _ => Except Text Unit
  | .write _ _ => Except Text Unit
  | .receipts _ => Except Text (List Slots.Entry)
  | .send _ _ => Except Text Unit

abbrev Script := Program Call.Answer

/-! ## The session -/

/-- What the CLI and the config say. -/
structure ServeOpts where
  stdio : Bool
  device : Text
  maxConnections : Nat
  reconcileIntervalMs : Nat
  tmaVersion : Text

/-- One connection's state. `scopes` are those of the newest read of the store. -/
structure State where
  deviceId : Text
  scopes : List Scope
  cache : Cache
  host : Text
  actionSet : List Act.ActionManifest
  reconcileIntervalMs : Nat
  tmaVersion : Text
  greeted : Bool := false
  streaming : Bool := false

inductive Flow
  | continue
  | stop (code : Nat)

/-- An exit code, or a loop that waits for its next line. -/
inductive Exit
  | code (code : Nat)
  | serving

def error (code : ErrorCode) (message : Text) : Response := .error { code, message }

/-- `Cache::get` -/
def cacheGet (cache : Cache) (id : Text) : Script (Except Text (Option Device) × Cache) :=
  .ask .stat fun answer =>
    let cache := { cache with statCalls := cache.statCalls + 1 }
    match answer with
    | .error message => .done (.error message, cache)
    | .ok memo =>
      if cache.current memo then .done (.ok (recordOf cache.devices id), cache)
      else .ask .load fun answer =>
        match answer with
        | .error message => .done (.error message, cache)
        | .ok devices =>
          .done (.ok (recordOf devices id),
            { cache with devices, memo, loaded := true, parseCalls := cache.parseCalls + 1 })

/-! ## Dispatch -/

/-- The closed vocabulary a device may dispatch. -/
def requiredScope (action : Text) : Option Scope :=
  if action ∈ ["approve".toList, "deny".toList, "question_reply".toList, "question_reject".toList] then some .actAnswer
  else if action = "approve_always".toList then some .actAlways
  else if action ∈ ["steer".toList, "steer_now".toList, "interrupt".toList, "deny_with_message".toList] then
    some .actSteer
  else none

/-- The payload rule for the action's kind. -/
def payloadError (action : Act.ActionManifest) (req : Dispatch) : Option Text :=
  match action.kind, req.text.isSome with
  | .text, false => some "that action delivers a caller's string and needs one".toList
  | .keys, true => some "that action's sequence comes from the manifest and takes no text payload".toList
  | _, _ => none

/-- An error may have sent its keystrokes. -/
def fromActResult (outcome : Act.Outcome) : Slots.Receipt where
  outcome := outcome.token
  reason := match outcome with
    | .error _ => some "fired-unknown"
    | _ => outcome.reason
  exitCode := outcome.exitCode

def receiptFrame (req : Dispatch) (receipt : Slots.Receipt) (device : Text) (atMs : Nat) (cached : Bool) : Receipt where
  slot := req.slot
  pane := req.pane
  action := req.action
  outcome := receipt.outcome
  reason := receipt.reason
  exitCode := receipt.exitCode
  cached := cached
  device := if device.isEmpty then none else some device
  atMs := atMs

/-- A scope refusal: a receipt, and no ledger entry. -/
def refused (s : State) (req : Dispatch) : Script Response :=
  .ask .nowMs fun now =>
    .done (.receipt
      { slot := req.slot
        pane := req.pane
        action := req.action
        outcome := "refused"
        reason := some "scope-denied"
        exitCode := 4
        cached := false
        device := some s.deviceId
        atMs := now })

/-- A replayed receipt, dated by the claim that earned it. -/
def cached (s : State) (req : Dispatch) (receipt : Slots.Receipt) : Script Response :=
  .ask (.receipts req.slot) fun answer =>
    match answer with
    | .ok (entry :: _) =>
      .done (.receipt { receiptFrame req receipt [] entry.atMs true with device := entry.device.map String.toList })
    | _ => .ask .nowMs fun now =>
      .done (.receipt { receiptFrame req receipt [] now true with device := some s.deviceId })

/-- A device never skips the `when` gate. -/
def fireArgs (req : Dispatch) : Act.FireArgs where
  force := false
  args := []
  text := req.text
  answers := req.answers
  expectEpisodeMs := (some req.binder.expectEpisodeMs).filter fun ms => ms != 0
  expectPermissionRequest := req.binder.expectPermissionRequest

/-- The fire, and what becomes of its claim: only `locked` has changed nothing. -/
def fired (s : State) (req : Dispatch) (action : Act.ActionManifest) (now : Nat) (guard : Slots.SlotGuard) :
    Script Response :=
  .ask (.fire action req.pane (fireArgs req)) fun (outcome : Act.Outcome) =>
    let stored := fromActResult outcome
    let response : Response := .receipt (receiptFrame req stored s.deviceId now false)
    if outcome = .refused .locked then .ask (.release guard) fun _ => .done response
    else .ask (.write guard stored) fun _ => .done response

def onDispatch (s : State) (req : Dispatch) : Script Response :=
  if !req.host.isEmpty && !s.host.isEmpty && req.host != s.host then
    .done (error .notFound "that dispatch names another host; this one is not it".toList)
  else match s.actionSet.find? fun action => action.name == req.action with
    | none => .done (error .notFound "no action by that name on this host".toList)
    | some action =>
      if !action.kind.sendsKeystrokes then
        .done (error .scopeDenied
          "that action runs a command rather than answering a pane; no device scope reaches it".toList)
      else match payloadError action req with
        | some usage => .done (error .badRequest usage)
        | none =>
          if req.answers.isSome then
            .done (error .unsupported ("this build has no question action to answer; ".toList ++
              "the opencode question ops are unimplemented here".toList))
          else match requiredScope action.name with
            | none => refused s req
            | some needed =>
              if !s.scopes.contains needed then refused s req
              else .ask .nowMs fun now =>
                .ask (.claim req.slot req.pane action.name (some s.deviceId) now) fun answer =>
                  match answer with
                  | .ok (.hit receipt) => cached s req receipt
                  | .ok (.claimed guard) => fired s req action now guard
                  | .error message => .done (error .internal message)

/-! ## A request line -/

def answer (s : State) (frame : RequestFrame) : Script (State × Response) :=
  match frame.body with
  | .hello _ => .done (s, error .badRequest "the handshake happens once".toList)
  | .subscribe req =>
    if s.streaming then
      .done (s, error .badRequest
        "this connection already has a subscription; open a second connection instead".toList)
    else .ask (.spawnStream frame.id req) fun _ => .done ({ s with streaming := true }, .ack)
  | .dispatch req => (onDispatch s req).bind fun response => .done (s, response)
  | .read request => .ask (.read request) fun response => .done (s, response)

/-- The one response to a request. -/
def respond (id : Text) (response : Response) (s : State) (flow : Flow) : Script (State × Flow) :=
  .ask (.send id response) fun _ => .done (s, flow)

def helloOk (s : State) : HelloOk where
  host := s.host
  tmaVersion := s.tmaVersion
  reconcileIntervalMs := Nat.max s.reconcileIntervalMs 250
  scopes := s.scopes

/-- A request of a device that has its record. -/
def onFrame (s : State) (frame : RequestFrame) : Script (State × Flow) :=
  if !s.greeted then
    match frame.acceptHello with
    | .ok _ => respond frame.id (.hello (helloOk s)) { s with greeted := true } .continue
    | .error refusal => respond frame.id (.error refusal) s .continue
  else if frame.schema ≠ schema then
    respond frame.id (error .unsupportedSchema ("this host speaks protocol schema ".toList ++ Text.decimal schema ++
      "; the frame claims ".toList ++ Text.decimal frame.schema)) s .continue
  else (answer s frame).bind fun result => respond frame.id result.2 result.1 .continue

section

variable (decode : Text → Option RequestFrame)

def onLine (s : State) (line : Text) : Script (State × Flow) :=
  match decode line with
  | none => respond ['0'] (error .badRequest "this frame could not be read".toList) s .continue
  | some frame =>
    (cacheGet s.cache s.deviceId).bind fun get =>
      let s := { s with cache := get.2 }
      match get.1 with
      | .ok (some device) => onFrame { s with scopes := device.scopes } frame
      | .ok none => respond frame.id (error .scopeDenied "this device was revoked".toList) s (.stop 2)
      | .error message => respond frame.id (error .internal message) s .continue

/-! ## The connection -/

/-- The request loop, for so many lines. -/
def requests : Nat → State → Script Exit
  | 0, _ => .done .serving
  | lines + 1, s => .ask .nextLine fun answer =>
    match answer with
    | .ok .eof => .done (.code 0)
    | .ok (.line line) => (onLine decode s line).bind fun result =>
      match result.2 with
      | .continue => requests lines result.1
      | .stop code => .done (.code code)
    | .ok .tooLong =>
      .ask (.send ['0'] (error .badRequest "a request line may not exceed 65536 bytes".toList)) fun _ =>
        requests lines s
    | .ok .notUtf8 =>
      .ask (.send ['0'] (error .badRequest "a request line must be UTF-8".toList)) fun _ => requests lines s
    | .error _ => .done (.code 0)

/-- One typed refusal, before any request was read. -/
def refuse (code : ErrorCode) (message : Text) (exit : Nat) : Script Exit :=
  .ask (.send ['0'] (error code message)) fun _ => .done (.code exit)

/-- What a connection needs besides its device's record. -/
def loaded (opts : ServeOpts) (device : Device) (cache : Cache) (lines : Nat) : Script Exit :=
  .ask .loadManifests fun answer =>
    match answer with
    | .error code => .done (.code code)
    | .ok _ => .ask .loadActions fun answer =>
      match answer with
      | .error message => refuse .internal message 1
      | .ok actionSet => .ask .openLedger fun answer =>
        match answer with
        | .error message => refuse .internal message 1
        | .ok _ => .ask .resolveOrigin fun host =>
          requests decode lines
            { deviceId := opts.device
              scopes := device.scopes
              cache
              host
              actionSet
              reconcileIntervalMs := opts.reconcileIntervalMs
              tmaVersion := opts.tmaVersion }

def run (opts : ServeOpts) (lines : Nat) : Script Exit :=
  if !opts.stdio then .done (.code 2)
  else .ask .openStore fun answer =>
    match answer with
    | .error message => refuse .internal message 1
    | .ok _ => (cacheGet {} opts.device).bind fun get =>
      match get.1 with
      | .error message => refuse .internal message 1
      | .ok none =>
        refuse .scopeDenied
          "this device is not paired with this host; run `tma device pair` on the host".toList 2
      | .ok (some device) => .ask (.openConnection opts.device opts.maxConnections) fun answer =>
        match answer with
        | .full max =>
          refuse .tooManyConnections ("this host already has ".toList ++ Text.decimal max ++
            " serve connections open".toList) 2
        | .io message => refuse .internal message 1
        | .ok => loaded decode opts device get.2 lines

end

end TmuxAgents.Serve.Session
