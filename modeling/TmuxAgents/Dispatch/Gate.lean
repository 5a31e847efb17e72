/-
The action manifest and its gate (`action.rs`, `action/gate.rs`): which agents an action applies
to, which pane states it was declared for, which context it requires, and which texts it sends.

`evaluateGate` is the gate as the code computes it, reason by reason; `evaluateGate_iff` says
what it lets through.
-/
import TmuxAgents.Lib.SortedMap
import TmuxAgents.Persist.Stamp
import TmuxAgents.Persist.Metadata
import Mathlib.Data.Char
import Mathlib.Data.List.Lex
import Mathlib.Data.List.TakeWhile

namespace TmuxAgents.Act

/-! ## The manifest -/

inductive ActionKind
  | keys
  | exec
  | text
deriving DecidableEq

def ActionKind.sendsKeystrokes : ActionKind → Bool
  | .keys | .text => true
  | .exec => false

inductive ApiOp
  | permissionReply
  | questionReply
  | questionReject
  | interrupt
deriving DecidableEq

def ApiOp.answersARequest : ApiOp → Bool
  | .permissionReply | .questionReply | .questionReject => true
  | .interrupt => false

def ApiOp.takesAnswers : ApiOp → Bool
  | .questionReply => true
  | _ => false

inductive ApiReply
  | once
  | always
  | reject
deriving DecidableEq

def ApiReply.token : ApiReply → Text
  | .once => "once".toList
  | .always => "always".toList
  | .reject => "reject".toList

structure ApiTransport where
  op : ApiOp
  reply : Option ApiReply
deriving DecidableEq

/-- The keys around the caller's string, and whether the agent takes text while it works. -/
structure TextTransport where
  before : List Text
  after : List Text
  steerNow : Bool
deriving DecidableEq

inductive HookVerdict
  | allow
  | deny
deriving DecidableEq

structure HookTransport where
  verdict : HookVerdict
deriving DecidableEq

inductive Requirement
  | session
  | cwd
  | pid
  | title
deriving DecidableEq

/-- All present keys are ANDed; an empty list gates nothing. -/
structure When where
  state : List AgentState
  detail : List Text
  contextPctMin : Option UInt8
  contextPctMax : Option UInt8
deriving DecidableEq

def When.hasContextBound (w : When) : Bool := w.contextPctMin.isSome || w.contextPctMax.isSome

structure ActionManifest where
  name : Text
  kind : ActionKind
  when : Option When
  agents : List Text
  requires : List Requirement
  detach : Bool
  timeoutMs : Nat
  detachTimeoutMs : Nat
  command : Option Text
  keys : SortedMap Text (List Text)
  api : SortedMap Text ApiTransport
  text : SortedMap Text TextTransport
  sigils : List Char
  hook : SortedMap Text HookTransport

namespace ActionManifest

variable (action : ActionManifest)

def keysFor (agent : Text) : Option (List Text) := action.keys.get? agent

def apiFor (agent : Text) : Option ApiTransport := action.api.get? agent

def textFor (agent : Text) : Option TextTransport := action.text.get? agent

def hookFor (agent : Text) : Option HookTransport := action.hook.get? agent

/-- The union of the transport tables, or the list of agents. -/
def appliesTo (agent : Text) : Bool :=
  match action.kind with
  | .keys => action.keys.contains agent || action.api.contains agent || action.hook.contains agent
  | .exec => action.agents.isEmpty || action.agents.contains agent
  | .text => action.text.contains agent

end ActionManifest

/-! ## The text payload -/

def textMaxBytes : Nat := 4096

inductive TextRefusal
  | empty
  | tooLong
  | controlBytes
  | sigil
deriving DecidableEq

def TextRefusal.token : TextRefusal → String
  | .empty => "empty"
  | .tooLong => "too-long"
  | .controlBytes => "control-bytes"
  | .sigil => "sigil"

/-- The host-side rules, in reporting order. -/
def ActionManifest.checkText (action : ActionManifest) (text : Text) : Except TextRefusal Unit :=
  let trimmed := trimStart text
  if (trimEnd trimmed).isEmpty then .error .empty
  else if textMaxBytes < Text.len text then .error .tooLong
  else if text.any isControl then .error .controlBytes
  else if trimmed.head?.any action.sigils.contains then .error .sigil
  else .ok ()

/-- One line, short, not blank, and not one of the agent's own commands. -/
structure ActionManifest.Sendable (action : ActionManifest) (text : Text) : Prop where
  nonblank : ∃ c ∈ text, isWhitespace c = false
  short : Text.len text ≤ textMaxBytes
  oneLine : ∀ c ∈ text, isControl c = false
  noSigil : ∀ before c after, text = before ++ c :: after → (∀ b ∈ before, isWhitespace b = true) →
    isWhitespace c = false → c ∉ action.sigils

theorem checkText_iff {action : ActionManifest} {text : Text} :
    action.checkText text = .ok () ↔ action.Sendable text := by
  rw [ActionManifest.checkText]
  cases htrim : trimStart text with
  | nil =>
    have hblank := trimStart_eq_nil.mp htrim
    rw [if_pos (by decide)]
    refine ⟨fun h => absurd h (by simp), fun h => ?_⟩
    obtain ⟨c, hc, hnot⟩ := h.nonblank
    rw [hblank c hc] at hnot
    cases hnot
  | cons c rest =>
    obtain ⟨before, rfl, hbefore, hc⟩ := trimStart_eq_cons.mp htrim
    have hnonblank : (trimEnd (c :: rest)).isEmpty = false := by
      rw [List.isEmpty_eq_false_iff, ne_eq, trimEnd_eq_nil]
      intro hall
      rw [hall c List.mem_cons_self] at hc
      cases hc
    simp only [hnonblank, Bool.false_eq_true, if_false, List.head?_cons, Option.any_some, List.contains_iff_mem]
    constructor
    · intro h
      split at h
      · cases h
      · rename_i hshort
        split at h
        · cases h
        · rename_i hcontrol
          split at h
          · cases h
          · rename_i hsigil
            refine ⟨⟨c, by simp, hc⟩, Nat.not_lt.mp hshort, ?_, ?_⟩
            · intro d hd
              rw [← Bool.not_eq_true]
              exact fun hbad => hcontrol (List.any_eq_true.mpr ⟨d, hd, hbad⟩)
            · intro before' d after heq hbefore' hd
              -- The first character that is not blank is the same in both.
              have hfirst : trimStart (before ++ c :: rest) = d :: after :=
                trimStart_eq_cons.mpr ⟨before', heq, hbefore', hd⟩
              rw [htrim, List.cons.injEq] at hfirst
              rw [← hfirst.1]
              exact hsigil
    · intro h
      rw [if_neg (Nat.not_lt.mpr h.short), if_neg, if_neg (h.noSigil before c rest rfl hbefore hc)]
      intro hbad
      obtain ⟨d, hd, hcontrol⟩ := List.any_eq_true.mp hbad
      rw [h.oneLine d hd] at hcontrol
      cases hcontrol

/-! ## The gate -/

inductive RefusalReason
  | wrongAgent
  /-- A context bound on an agent that has no telemetry: permanent. -/
  | noCoverage
  | requiresUnmet
  | gated
deriving DecidableEq

def RefusalReason.token : RefusalReason → String
  | .wrongAgent => "wrong-agent"
  | .noCoverage => "no-coverage"
  | .requiresUnmet => "requires-unmet"
  | .gated => "gated"

inductive GateOutcome
  | fireable
  | refused (reason : RefusalReason)
deriving DecidableEq

/-- Which of the `requires` keys are not empty. -/
structure ContextKeys where
  session : Bool
  cwd : Bool
  pid : Bool
  title : Bool
deriving DecidableEq

def ContextKeys.has (keys : ContextKeys) : Requirement → Bool
  | .session => keys.session
  | .cwd => keys.cwd
  | .pid => keys.pid
  | .title => keys.title

structure GateInput where
  agent : Text
  state : AgentState
  detail : Option Text
  contextPct : Option UInt8
  contextCovered : Bool
  contextKeys : ContextKeys
deriving DecidableEq

namespace ActionManifest

variable (action : ActionManifest) (input : GateInput)

def checkRequires : GateOutcome :=
  if action.requires.all input.contextKeys.has then .fireable else .refused .requiresUnmet

/-- The `when` and `requires` half, most permanent reason first. -/
def whenGate : GateOutcome :=
  if !action.appliesTo input.agent then .refused .wrongAgent
  else match action.when with
    | none => action.checkRequires input
    | some w =>
      if w.hasContextBound && !input.contextCovered then .refused .noCoverage
      else match action.checkRequires input with
        | .refused reason => .refused reason
        | .fireable =>
          if !w.state.isEmpty && !w.state.contains input.state then .refused .gated
          else if !w.detail.isEmpty && !input.detail.any w.detail.contains then .refused .gated
          else if w.hasContextBound then
            match input.contextPct with
            | none => .refused .gated
            | some pct =>
              if w.contextPctMin.any (fun bound => decide (pct < bound)) ||
                  w.contextPctMax.any (fun bound => decide (bound < pct)) then .refused .gated
              else .fireable
          else .fireable

/-- Text into a working pane whose transport does not declare `steer_now`. -/
def steerNowRefused : Bool :=
  input.state == .working && (action.textFor input.agent).any fun transport => !transport.steerNow

def evaluateGate : GateOutcome :=
  match action.whenGate input with
  | .fireable => if action.steerNowRefused input then .refused .gated else .fireable
  | outcome => outcome

end ActionManifest

/-- The pane is in a state the action was declared for. -/
structure When.Holds (w : When) (input : GateInput) : Prop where
  state : w.state ≠ [] → input.state ∈ w.state
  detail : w.detail ≠ [] → ∃ d ∈ w.detail, input.detail = some d
  min : ∀ bound, w.contextPctMin = some bound →
    input.contextCovered = true ∧ ∃ pct, input.contextPct = some pct ∧ bound ≤ pct
  max : ∀ bound, w.contextPctMax = some bound →
    input.contextCovered = true ∧ ∃ pct, input.contextPct = some pct ∧ pct ≤ bound

/-- What `--force` skips: the `when` gate, and text into a working pane. -/
structure ActionManifest.StateHolds (action : ActionManifest) (input : GateInput) : Prop where
  gate : ∀ w, action.when = some w → w.Holds input
  steerNow : input.state = .working → ∀ transport, action.textFor input.agent = some transport →
    transport.steerNow = true

theorem checkRequires_iff {action : ActionManifest} {input : GateInput} :
    action.checkRequires input = .fireable ↔ ∀ r ∈ action.requires, input.contextKeys.has r = true := by
  rw [ActionManifest.checkRequires, ← List.all_eq_true]
  split <;> simp [*]

/-- The context bounds alone. -/
theorem bounds_iff {w : When} {input : GateInput} (hcovered : w.hasContextBound = true → input.contextCovered = true) :
    (w.hasContextBound = true → ∃ pct, input.contextPct = some pct ∧
        (w.contextPctMin.any fun bound => decide (pct < bound)) = false ∧
        (w.contextPctMax.any fun bound => decide (bound < pct)) = false) ↔
      (∀ bound, w.contextPctMin = some bound →
        input.contextCovered = true ∧ ∃ pct, input.contextPct = some pct ∧ bound ≤ pct) ∧
      ∀ bound, w.contextPctMax = some bound →
        input.contextCovered = true ∧ ∃ pct, input.contextPct = some pct ∧ pct ≤ bound := by
  constructor
  · intro h
    constructor
    · intro bound hbound
      have hhas : w.hasContextBound = true := by simp [When.hasContextBound, hbound]
      obtain ⟨pct, hpct, hmin, -⟩ := h hhas
      rw [hbound, Option.any_some, decide_eq_false_iff_not] at hmin
      exact ⟨hcovered hhas, pct, hpct, UInt8.not_lt.mp hmin⟩
    · intro bound hbound
      have hhas : w.hasContextBound = true := by simp [When.hasContextBound, hbound]
      obtain ⟨pct, hpct, -, hmax⟩ := h hhas
      rw [hbound, Option.any_some, decide_eq_false_iff_not] at hmax
      exact ⟨hcovered hhas, pct, hpct, UInt8.not_lt.mp hmax⟩
  · rintro ⟨hmin, hmax⟩ hhas
    have hpct : ∃ pct, input.contextPct = some pct := by
      cases hlow : w.contextPctMin with
      | some bound =>
        obtain ⟨-, pct, hpct, -⟩ := hmin bound hlow
        exact ⟨pct, hpct⟩
      | none =>
        cases hhigh : w.contextPctMax with
        | some bound =>
          obtain ⟨-, pct, hpct, -⟩ := hmax bound hhigh
          exact ⟨pct, hpct⟩
        | none => simp [When.hasContextBound, hlow, hhigh] at hhas
    obtain ⟨pct, hpct⟩ := hpct
    refine ⟨pct, hpct, ?_, ?_⟩
    · cases hlow : w.contextPctMin with
      | none => rfl
      | some bound =>
        obtain ⟨-, pct', hpct', hle⟩ := hmin bound hlow
        rw [hpct, Option.some.injEq] at hpct'
        rw [Option.any_some, decide_eq_false_iff_not, hpct']
        exact UInt8.not_lt.mpr hle
    · cases hhigh : w.contextPctMax with
      | none => rfl
      | some bound =>
        obtain ⟨-, pct', hpct', hle⟩ := hmax bound hhigh
        rw [hpct, Option.some.injEq] at hpct'
        rw [Option.any_some, decide_eq_false_iff_not, hpct']
        exact UInt8.not_lt.mpr hle

/-- The `when` gate, check by check. -/
theorem holds_iff {w : When} {input : GateInput} :
    w.Holds input ↔ (w.hasContextBound && !input.contextCovered) = false ∧
      (!w.state.isEmpty && !w.state.contains input.state) = false ∧
      (!w.detail.isEmpty && !input.detail.any w.detail.contains) = false ∧
      (w.hasContextBound = true → ∃ pct, input.contextPct = some pct ∧
        (w.contextPctMin.any fun bound => decide (pct < bound)) = false ∧
        (w.contextPctMax.any fun bound => decide (bound < pct)) = false) := by
  have hcovered : (w.hasContextBound && !input.contextCovered) = false ↔
      (w.hasContextBound = true → input.contextCovered = true) := by
    cases w.hasContextBound <;> cases input.contextCovered <;> simp
  have hstate : (!w.state.isEmpty && !w.state.contains input.state) = false ↔
      (w.state ≠ [] → input.state ∈ w.state) := by
    rw [Bool.and_eq_false_iff, Bool.not_eq_false', Bool.not_eq_false', List.isEmpty_iff, List.contains_iff_mem]
    exact or_iff_not_imp_left
  have hdetail : (!w.detail.isEmpty && !input.detail.any w.detail.contains) = false ↔
      (w.detail ≠ [] → ∃ d ∈ w.detail, input.detail = some d) := by
    rw [Bool.and_eq_false_iff, Bool.not_eq_false', Bool.not_eq_false', List.isEmpty_iff, or_iff_not_imp_left]
    cases input.detail <;> simp
  rw [hcovered, hstate, hdetail]
  constructor
  · intro h
    have hhas : w.hasContextBound = true → input.contextCovered = true := by
      intro hhas
      simp only [When.hasContextBound, Bool.or_eq_true, Option.isSome_iff_exists] at hhas
      rcases hhas with ⟨bound, hbound⟩ | ⟨bound, hbound⟩
      · exact (h.min bound hbound).1
      · exact (h.max bound hbound).1
    exact ⟨hhas, h.state, h.detail, (bounds_iff hhas).mpr ⟨h.min, h.max⟩⟩
  · intro h
    obtain ⟨hhas, hs, hd, hbounds⟩ := h
    obtain ⟨hmin, hmax⟩ := (bounds_iff hhas).mp hbounds
    exact ⟨hs, hd, hmin, hmax⟩

theorem whenGate_iff {action : ActionManifest} {input : GateInput} :
    action.whenGate input = .fireable ↔ action.appliesTo input.agent = true ∧
      (∀ r ∈ action.requires, input.contextKeys.has r = true) ∧ ∀ w, action.when = some w → w.Holds input := by
  rw [← checkRequires_iff]
  unfold ActionManifest.whenGate
  by_cases happlies : action.appliesTo input.agent = true
  · cases hwhen : action.when with
    | none => simp [happlies]
    | some w =>
      simp only [happlies, Bool.not_true, Bool.false_eq_true, if_false, true_and, Option.some.injEq, forall_eq',
        holds_iff]
      cases hcovered : w.hasContextBound && !input.contextCovered
      · cases hrequires : action.checkRequires input with
        | refused reason => simp
        | fireable =>
          cases hstate : !w.state.isEmpty && !w.state.contains input.state
          · cases hdetail : !w.detail.isEmpty && !input.detail.any w.detail.contains
            · cases hhas : w.hasContextBound
              · simp
              · cases hpct : input.contextPct <;> simp
            · simp
          · simp
      · simp
  · simp [happlies]

/-- **The gate lets through** an action that applies, whose required context is there, and that was declared for the
state the pane is in. -/
theorem evaluateGate_iff {action : ActionManifest} {input : GateInput} :
    action.evaluateGate input = .fireable ↔ action.appliesTo input.agent = true ∧
      (∀ r ∈ action.requires, input.contextKeys.has r = true) ∧ action.StateHolds input := by
  have hsteer : action.steerNowRefused input = false ↔
      (input.state = .working → ∀ transport, action.textFor input.agent = some transport →
        transport.steerNow = true) := by
    rw [ActionManifest.steerNowRefused]
    cases action.textFor input.agent <;> simp
  have hholds : action.StateHolds input ↔
      (∀ w, action.when = some w → w.Holds input) ∧ action.steerNowRefused input = false := by
    rw [hsteer]
    exact ⟨fun h => ⟨h.gate, h.steerNow⟩, fun h => ⟨h.1, h.2⟩⟩
  have hboth : action.evaluateGate input = .fireable ↔
      action.whenGate input = .fireable ∧ action.steerNowRefused input = false := by
    rw [ActionManifest.evaluateGate]
    cases action.whenGate input with
    | refused reason => simp
    | fireable => cases action.steerNowRefused input <;> simp
  rw [hboth, whenGate_iff, hholds, and_assoc, and_assoc]

end TmuxAgents.Act
