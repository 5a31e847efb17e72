/-
A guarded state publish as the commands it sends (`render.rs`), what the server
makes of them, and what the poll row is told they leave (`project_publish`).

A `set-option -F` value is expanded when its own command runs, so a guard is
evaluated once for each field, on options the fields before it have written.
-/
import TmuxAgents.Fold.HookClaims
import TmuxAgents.Lib.Format

namespace TmuxAgents

/-! ## Commands -/

inductive StampCommand
  | setFmt (pane : String) (key : OptionKey) (value : Format OptionKey)
  | setPlain (pane : String) (key : OptionKey) (value : Text)
  | unsetPane (pane : String) (key : OptionKey)

namespace StampCommand

/-- The argument vector. -/
def argv : StampCommand → List Text
  | .setFmt pane key value =>
    ["set-option", "-p", "-F", "-t", pane, key].map String.toList ++ [value.render String.toList]
  | .setPlain pane key value => ["set-option", "-p", "-t", pane, key].map String.toList ++ [value]
  | .unsetPane pane key => ["set-option", "-p", "-u", "-t", pane, key].map String.toList

/-- The mutation the server carries out. -/
def edit (numbers : Format.Numbers) (options : Options) : StampCommand → OptionEdit
  | .setFmt _ key value => .set key (value.expand numbers options.value)
  | .setPlain _ key value => .set key value
  | .unsetPane _ key => .unset key

def exec (numbers : Format.Numbers) (options : Options) (command : StampCommand) : Options :=
  (command.edit numbers options).apply options

end StampCommand

/-- The commands in order. -/
def execAll (numbers : Format.Numbers) (commands : List StampCommand) (options : Options) : Options :=
  commands.foldl (StampCommand.exec numbers) options

/-! ## Guards -/

namespace Guard

/-- `#{==:#{@agent_source},hook}`. -/
def sourceIsHook : Format OptionKey := .equal (.option Opt.source) (.literal StampProvenance.hook.token)

/-- `suppress_expr`. -/
def suppressFormat : Guard → Format OptionKey
  | .unconditional => .literal ['0']
  | .protectHook => sourceIsHook
  | .carveOut captureAt =>
    .both sourceIsHook (.numLe (.literal (Text.decimal captureAt)) (.option Opt.evidenceAt))
  | .refreshClaim state =>
    .choose (.equal (.option Opt.state) (.literal state.token)) (.literal ['0']) (.literal ['1'])
  | .hookArbitrate evidenceAt =>
    .both sourceIsHook (.numLt (.literal (Text.decimal evidenceAt)) (.option Opt.evidenceAt))

/-- The producer's mirror of `suppress_expr`. -/
def suppresses (prev : Option StampedState) : Guard → Bool
  | .unconditional => false
  | .protectHook => prev.any fun p => p.source = .hook
  | .carveOut captureAt => prev.any fun p => p.source = .hook && decide (captureAt ≤ p.evidenceAt)
  | .refreshClaim state => prev.all fun p => p.state ≠ state
  | .hookArbitrate evidenceAt => prev.any fun p => p.source = .hook && decide (evidenceAt < p.evidenceAt)

end Guard

/-! ## The publish -/

/-- `u8::is_ascii_whitespace`, `u8::is_ascii_control`. -/
def asciiBlank (c : Char) : Bool := c.toNat ≤ 32 || c.toNat == 127

/-- A detail that would break the chain is dropped. -/
def safeDetail (detail : Text) : Text :=
  if detail.any fun c => ['#', '\x7b', '\x7d', ','].contains c || asciiBlank c then [] else detail

/-- The latest `since` that is not stranded in the future. -/
def sinceLimit (p : Publish) : Nat := saturatingAdd p.stampedAt clockStepSkewMs

/-- Write-once: the stored `since` while the state is unchanged, unless it is stranded. -/
def onceSince (p : Publish) : Format OptionKey :=
  .choose
    (.both (.equal (.option Opt.state) (.literal p.state.token))
      (.numLe (.option Opt.since) (.literal (Text.decimal (sinceLimit p)))))
    (.option Opt.since) (.literal (Text.decimal p.since))

/-- The guarded fields, in write order. -/
def guardedFields (p : Publish) : List (OptionKey × Format OptionKey) :=
  [(Opt.since, onceSince p), (Opt.state, .literal p.state.token),
      (Opt.detail, .literal (safeDetail ((p.detail.map fun d => d.token.toList).getD []))),
      (Opt.source, .literal p.source.token), (Opt.evidenceAt, .literal (Text.decimal p.evidenceAt))] ++
    (if p.setAttention then [(Opt.attention, .literal ['1'])] else [])

def renderPublish (p : Publish) : List StampCommand :=
  let pane := p.paneId
  let tuple :=
    if p.episodeReset then
      [.setPlain pane Opt.since (Text.decimal p.since), .setPlain pane Opt.state p.state.token,
        match p.detail with
        | some d => .setPlain pane Opt.detail d.token.toList
        | none => .unsetPane pane Opt.detail,
        .setPlain pane Opt.source p.source.token, .setPlain pane Opt.evidenceAt (Text.decimal p.evidenceAt),
        if p.setAttention then .setPlain pane Opt.attention ['1'] else .unsetPane pane Opt.attention,
        .unsetPane pane Opt.notifiedAt, .unsetPane pane Opt.turnAt]
    else
      (Format.guarded p.guard.suppressFormat (guardedFields p)).map fun field => .setFmt pane field.1 field.2
  tuple ++ p.hash.toList.map (fun hash => .setPlain pane Opt.hash (Text.decimal hash)) ++
    [.setPlain pane Opt.pid (Text.decimal p.pid)] ++
    (if p.name.isEmpty then [] else [.setPlain pane Opt.name p.name]) ++
    [.setPlain pane Opt.stampedAt (Text.decimal p.stampedAt)]

/-! ## The row -/

/-- What a guarded publish leaves in the store. -/
structure RowProjection where
  state : AgentState
  since : Nat
  attention : Bool
deriving DecidableEq

/-- A suppressed publish keeps a stored tuple; with none stored the row reflects the cycle's own
verdict. -/
def projectPublish (prev : Option StampedState) (p : Publish) : RowProjection :=
  if !p.episodeReset && p.guard.suppresses prev then
    match prev with
    | some held => { state := held.state, since := held.since, attention := held.attention }
    | none => { state := p.state, since := p.since, attention := p.setAttention }
  else
    let since := match prev with
      | some prev =>
        if !p.episodeReset && decide (prev.state = p.state) && !sinceClockStepped prev.since p.stampedAt then
          prev.since
        else p.since
      | none => p.since
    { state := p.state
      since
      attention := p.setAttention || (!p.episodeReset && prev.any StampedState.attention) }

/-! ## Producers -/

/-- The publish a fresh hook event carries (`execute`). -/
def hookPublish (pane : String) (stored : Option StampedState) (state : AgentState) (detail : Option Detail)
    (setAttention : Bool) (name : Text) (now : Nat) : Publish :=
  { paneId := pane
    state
    detail
    source := .hook
    evidenceAt := now
    since := now
    stampedAt := now
    hash := stored.bind StampedState.hash
    pid := (stored.map StampedState.pid).getD 0
    name
    setAttention
    episodeReset := false
    guard := .hookArbitrate now }

/-- A publish with the guard its producer chooses for it: the poll cycle's, or a hook event's. -/
inductive Produced : Publish → Prop
  | poll {paneId : String} {v : Verdict} {pid : Nat} {name : Text} {hash now : Nat} {p : Publish}
      (h : planFromVerdict paneId v pid name hash now = .publish p) : Produced p
  | hook (pane : String) (stored : Option StampedState) (state : AgentState) (detail : Option Detail)
      (setAttention : Bool) (name : Text) (now : Nat) :
      Produced (hookPublish pane stored state detail setAttention name now)

end TmuxAgents
