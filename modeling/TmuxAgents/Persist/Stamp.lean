/-
The pane-option tuple (`stamp.rs`): its keys, its token grammar, and its
decoded form with the read-consistency verdict.
-/
import Mathlib.Data.List.TakeWhile
import TmuxAgents.Lib.Text
import TmuxAgents.Program.Project

namespace TmuxAgents

/-- A tmux option by its name. -/
abbrev OptionKey := String

/-- A pane's options; an option that is not set has no value. -/
abbrev Options := OptionKey → Option Text

/-- An option's text, empty where it is not set. -/
def Options.value (options : Options) (key : OptionKey) : Text := (options key).getD []

/-- No option is set to the empty text: what a reader of the pane gets. -/
def Options.NoEmpty (options : Options) : Prop := ∀ key, options key ≠ some []

/-! ## Keys -/

namespace Opt

def name : OptionKey := "@agent_name"
def state : OptionKey := "@agent_state"
def detail : OptionKey := "@agent_detail"
def source : OptionKey := "@agent_source"
def evidenceAt : OptionKey := "@agent_evidence_at"
def since : OptionKey := "@agent_since"
def stampedAt : OptionKey := "@agent_stamped_at"
def attention : OptionKey := "@agent_attention"
def notifiedAt : OptionKey := "@agent_notified_at"
def turnAt : OptionKey := "@agent_turn_at"
def hash : OptionKey := "@agent_hash"
def pid : OptionKey := "@agent_pid"
def session : OptionKey := "@agent_session"
def subagents : OptionKey := "@agent_subagents"
def lastPoll : OptionKey := "@tma_last_poll"
def titleMatchPid : OptionKey := "@tma_title_match_pid"
def regDeadSince : OptionKey := "@tma_reg_dead_since"
def ignore : OptionKey := "@agent_ignore"
def muteUntil : OptionKey := "@agent_mute_until"
def contextPct : OptionKey := "@agent_context_pct"
def contextAt : OptionKey := "@agent_context_at"
def tokens : OptionKey := "@agent_tokens"
def tokensAt : OptionKey := "@agent_tokens_at"
def contextNotifiedAt : OptionKey := "@agent_context_notified_at"
def stallNotifiedAt : OptionKey := "@agent_stall_notified_at"
def quotaPct : OptionKey := "@agent_quota_pct"
def quotaWindow : OptionKey := "@agent_quota_window"
def quotaResetsAt : OptionKey := "@agent_quota_resets_at"
def quotaAt : OptionKey := "@agent_quota_at"
def costUsd : OptionKey := "@agent_cost_usd"
def model : OptionKey := "@agent_model"
def permissionRequest : OptionKey := "@agent_permission_request"
def questionRequest : OptionKey := "@agent_question_request"
def apiEndpoint : OptionKey := "@agent_api_endpoint"
def pendingTool : OptionKey := "@agent_pending_tool"
def pendingCall : OptionKey := "@agent_pending_call"
def pendingSummary : OptionKey := "@agent_pending_summary"
def actRepeat : OptionKey := "@agent_act_repeat"
def transcript : OptionKey := "@agent_transcript"

end Opt

/-! ## Tokens -/

inductive GrammarError
  | unknownState (value : Text)
  | unknownProvenance (value : Text)
  | badInteger (option : OptionKey) (value : Text)
deriving DecidableEq

def AgentState.token : AgentState → Text
  | .idle => "idle".toList
  | .working => "working".toList
  | .blocked => "blocked".toList
  | .unknown => "unknown".toList

def AgentState.parse (value : Text) : Except GrammarError AgentState :=
  if value = "idle".toList then .ok .idle
  else if value = "working".toList then .ok .working
  else if value = "blocked".toList then .ok .blocked
  else if value = "unknown".toList then .ok .unknown
  else .error (.unknownState value)

/-- `Provenance`: what `@agent_source` persists of where a claim came from. -/
inductive StampProvenance
  | hook
  | capture
  | activity
  | process
deriving DecidableEq

namespace StampProvenance

def token : StampProvenance → Text
  | .hook => "hook".toList
  | .capture => "capture".toList
  | .activity => "activity".toList
  | .process => "process".toList

def parse (value : Text) : Except GrammarError StampProvenance :=
  if value = "hook".toList then .ok .hook
  else if value = "capture".toList then .ok .capture
  else if value = "activity".toList then .ok .activity
  else if value = "process".toList then .ok .process
  else .error (.unknownProvenance value)

end StampProvenance

/-! ## The tuple -/

structure StampedState where
  state : AgentState
  detail : Option Detail
  source : StampProvenance
  evidenceAt : Nat
  since : Nat
  stampedAt : Nat
  attention : Bool
  notifiedAt : Option Nat
  turnAt : Nat
  hash : Option Nat
  pid : Nat
  session : Option Text
  subagents : List Text
deriving DecidableEq

/-- A read of the tuple, and whether it may have caught a write in progress. -/
inductive ReadResult
  | settled (stamp : StampedState)
  | inProgress (stamp : StampedState)
deriving DecidableEq

def ReadResult.intoInner : ReadResult → StampedState
  | .settled stamp => stamp
  | .inProgress stamp => stamp

/-- `u64::MAX`. -/
def u64Max : Nat := 2 ^ 64 - 1

/-- `u64::saturating_add`. -/
def saturatingAdd (a b : Nat) : Nat := min (a + b) u64Max

/-- `u64::saturating_mul`. -/
def saturatingMul (a b : Nat) : Nat := min (a * b) u64Max

def clockStepSkewMs : Nat := 2000

/-- A backward clock step left `since` in the future. -/
def sinceClockStepped (since stampedAt : Nat) : Bool := decide (saturatingAdd stampedAt clockStepSkewMs < since)

def millisFloor : Nat := 1000000000000

/-- A nonzero value below the floor is legacy seconds. -/
def toMillis (v : Nat) : Nat := if v ≠ 0 ∧ v < millisFloor then saturatingMul v 1000 else v

def parseInt (opts : Options) (key : OptionKey) : Except GrammarError Nat :=
  match opts key with
  | none => .ok 0
  | some v =>
    match Text.parseUnsigned (2 ^ 64) v with
    | some n => .ok n
    | none => .error (.badInteger key v)

def parseOptInt (opts : Options) (key : OptionKey) : Except GrammarError (Option Nat) :=
  match opts key with
  | none => .ok none
  | some v =>
    match Text.parseUnsigned (2 ^ 64) v with
    | some n => .ok (some n)
    | none => .error (.badInteger key v)

/-- An absent source is an overridable capture. -/
def parseSource (opts : Options) : Except GrammarError StampProvenance :=
  match opts Opt.source with
  | none => .ok .capture
  | some v => StampProvenance.parse v

/-- The pid is a `u32`. -/
def parsePid (opts : Options) : Except GrammarError Nat :=
  match parseInt opts Opt.pid with
  | .error e => .error e
  | .ok pid => if pid < 2 ^ 32 then .ok pid else .error (.badInteger Opt.pid (opts.value Opt.pid))

/-- `char::is_whitespace`. -/
def isWhitespace (c : Char) : Bool :=
  (9 ≤ c.toNat && c.toNat ≤ 13) || (0x2000 ≤ c.toNat && c.toNat ≤ 0x200a) ||
    [0x20, 0x85, 0xa0, 0x1680, 0x2028, 0x2029, 0x202f, 0x205f, 0x3000].contains c.toNat

def trimStart (text : Text) : Text := text.dropWhile isWhitespace

def trimEnd (text : Text) : Text := (text.reverse.dropWhile isWhitespace).reverse

theorem trimStart_eq_nil {text : Text} : trimStart text = [] ↔ ∀ c ∈ text, isWhitespace c = true := by
  rw [trimStart, List.dropWhile_eq_nil_iff]

theorem trimEnd_eq_nil {text : Text} : trimEnd text = [] ↔ ∀ c ∈ text, isWhitespace c = true := by
  rw [trimEnd, List.reverse_eq_nil_iff, List.dropWhile_eq_nil_iff]
  simp only [List.mem_reverse]

/-- A text is blanks, and then its first character that is none. -/
theorem trimStart_eq_cons {text : Text} {c : Char} {rest : Text} :
    trimStart text = c :: rest ↔
      ∃ before, text = before ++ c :: rest ∧ (∀ b ∈ before, isWhitespace b = true) ∧ isWhitespace c = false := by
  constructor
  · intro h
    refine ⟨text.takeWhile isWhitespace, ?_, fun b hb => List.mem_takeWhile_imp hb, ?_⟩
    · rw [← h, trimStart, List.takeWhile_append_dropWhile]
    · have hdrop : text.dropWhile isWhitespace = c :: rest := h
      have hhead := List.head?_dropWhile_not isWhitespace text
      rw [hdrop] at hhead
      exact hhead
  · intro h
    obtain ⟨before, rfl, hbefore, hc⟩ := h
    rw [trimStart, List.dropWhile_append_of_pos hbefore, List.dropWhile_cons_of_neg (by rw [hc]; decide)]

def splitWhitespace (text : Text) : List Text := (text.splitOnP isWhitespace).filter fun field => !field.isEmpty

namespace StampedState

/-- The instant the current episode last became noteworthy. -/
def episodeAt (stamp : StampedState) : Nat := max stamp.since stamp.turnAt

/-- `stamped_at` is written last: a value it is older than was caught mid-write. -/
def midWrite (stamp : StampedState) : Bool :=
  !sinceClockStepped stamp.since stamp.stampedAt &&
    (decide (stamp.stampedAt < stamp.since) || decide (stamp.stampedAt < stamp.evidenceAt))

def fromOptions (opts : Options) : Except GrammarError (Option ReadResult) :=
  match opts Opt.state with
  | none => .ok none
  | some v => do
    let state ← AgentState.parse v
    let detail := ((opts Opt.detail).filter fun v => !v.isEmpty).map fun v => Detail.mk (String.ofList v)
    let source ← parseSource opts
    let evidenceAt ← parseInt opts Opt.evidenceAt
    let since ← parseInt opts Opt.since
    let stampedAt ← parseInt opts Opt.stampedAt
    let pid ← parsePid opts
    let notifiedAt ← parseOptInt opts Opt.notifiedAt
    let turnAt ← parseInt opts Opt.turnAt
    let hash ← parseOptInt opts Opt.hash
    let stamp : StampedState :=
      { state, detail, source, pid, hash
        evidenceAt := toMillis evidenceAt
        since := toMillis since
        stampedAt := toMillis stampedAt
        notifiedAt := notifiedAt.map toMillis
        turnAt := toMillis turnAt
        attention := opts Opt.attention = some ['1']
        session := (opts Opt.session).filter fun v => !v.isEmpty
        subagents := ((opts Opt.subagents).map splitWhitespace).getD [] }
    .ok (some (if stamp.midWrite then .inProgress stamp else .settled stamp))

end StampedState

end TmuxAgents
