/-
The guarded transaction (`persistence.rs`): a predicate built from an earlier
read, evaluated by the server when the group runs, and the readback that alone
reports a win.
-/
import TmuxAgents.Persist.Footprint

namespace TmuxAgents

/-! ## Reads -/

/-- A pane on the server: its options, and what `#{after-set-option}` expands to. -/
structure Pane where
  options : Options
  afterSetOption : Text

/-- `AGENT_OPTIONS`. -/
def agentOptions : List OptionKey :=
  [Opt.name, Opt.state, Opt.detail, Opt.source, Opt.evidenceAt, Opt.since, Opt.stampedAt, Opt.attention,
    Opt.notifiedAt, Opt.turnAt, Opt.hash, Opt.pid, Opt.session, Opt.subagents]

/-- `EXTRA_PANE_OPTIONS`. -/
def extraPaneOptions : List OptionKey :=
  [ProgramOpt.collector, ProgramOpt.origin, ProgramOpt.owner, ProgramOpt.commit, ProgramOpt.result,
    ProgramOpt.invalidated, ProgramOpt.blockedHistory, ProgramOpt.ack, ProgramOpt.notified, ProgramOpt.receipt,
    ProgramOpt.metadataOwner, ProgramOpt.attentionEpisode, ProgramOpt.episodeNotified, ProgramOpt.markerClaim,
    ProgramOpt.metadataUpdate, Opt.titleMatchPid, Opt.regDeadSince, Opt.ignore, Opt.muteUntil, Opt.contextPct,
    Opt.contextAt, Opt.tokens, Opt.tokensAt, Opt.contextNotifiedAt, Opt.stallNotifiedAt, Opt.quotaPct,
    Opt.quotaWindow, Opt.quotaResetsAt, Opt.quotaAt, Opt.costUsd, Opt.model, Opt.permissionRequest,
    Opt.questionRequest, Opt.apiEndpoint, Opt.pendingTool, Opt.pendingCall, Opt.pendingSummary, Opt.actRepeat,
    Opt.transcript]

def paneOptionKeys : List OptionKey := agentOptions ++ extraPaneOptions

/-- The options under these keys that are set and not empty. -/
def Options.read (options : Options) (keys : List OptionKey) : Options := fun key =>
  if key ∈ keys then (options key).filter fun v => !v.isEmpty else none

theorem Options.read_noEmpty (options : Options) (keys : List OptionKey) : (options.read keys).NoEmpty := by
  intro key h
  simp only [Options.read] at h
  split at h
  · have hne := (Option.filter_eq_some_iff.mp h).2
    simp at hne
  · cases h

/-- A read shows what the pane shows. -/
theorem Options.value_read {options : Options} {keys : List OptionKey} {key : OptionKey} (h : key ∈ keys) :
    (options.read keys).value key = options.value key := by
  simp only [Options.value, Options.read, if_pos h]
  cases hv : options key with
  | none => rfl
  | some v =>
    cases v with
    | nil => rfl
    | cons c v => rfl

/-- One coherent read of a pane's options. -/
structure PaneRead where
  options : Options
  optionHooks : Bool
  nonempty : options.NoEmpty

namespace PaneRead

def program (read : PaneRead) : ProgramMetadata := ProgramMetadata.fromOptions read.options

def projection (read : PaneRead) (now : Nat) : Except GrammarError ProjectionRead :=
  read.program.projection read.options now

def value (read : PaneRead) (key : OptionKey) : Text := read.options.value key

end PaneRead

inductive PersistenceError
  | invalid (reason : String)
  | unsupported
deriving DecidableEq

/-! ## Edits -/

/-- A literal option mutation. -/
structure OptionEdit where
  key : OptionKey
  value : Option Text
deriving DecidableEq

namespace OptionEdit

def set (key : OptionKey) (value : Text) : OptionEdit := { key, value := some value }

def unset (key : OptionKey) : OptionEdit := { key, value := none }

/-- The option as the command leaves it. -/
def apply (edit : OptionEdit) (options : Options) : Options := fun key =>
  if key = edit.key then edit.value else options key

end OptionEdit

/-- A complete body, in order. -/
def applyEdits (edits : List OptionEdit) (options : Options) : Options :=
  edits.foldl (fun options edit => edit.apply options) options

/-- What the last edit of the key leaves, the empty text where it unsets it. -/
def expectedValue (edits : List OptionEdit) (key : OptionKey) : Text :=
  ((edits.reverse.find? fun edit => edit.key = key).bind OptionEdit.value).getD []

def validKey (key : OptionKey) : Bool :=
  match key.toList with
  | '@' :: rest => rest.all fun c => c.isAlphanum || c == '_'
  | _ => false

def validateEdits (edits : List OptionEdit) : Except PersistenceError Unit :=
  if edits.any fun edit => !validKey edit.key || edit.value.any fun v => v.contains (Char.ofNat 0) then
    .error (.invalid "invalid option key/value")
  else .ok ()

/-- `read_pane_with`: the registered keys and the edited ones. A separator in a value is refused. -/
def readPaneWith (pane : Pane) (edits : List OptionEdit) : Except PersistenceError PaneRead :=
  let keys := paneOptionKeys ++ edits.map OptionEdit.key
  if pane.afterSetOption.contains (Char.ofNat 31) || keys.any fun key => (pane.options.value key).contains (Char.ofNat 31) then
    .error (.invalid "ambiguous options readback")
  else
    .ok
      { options := pane.options.read keys
        optionHooks := !pane.afterSetOption.isEmpty
        nonempty := pane.options.read_noEmpty keys }

/-! ## Predicates -/

/-- A tmux format, by what it evaluates to when the server runs it. -/
abbrev Predicate := Pane → Bool

namespace Predicate

def always : Predicate := fun _ => true

def never : Predicate := fun _ => false

def noHooks : Predicate := fun pane => pane.afterSetOption.isEmpty

def equal (key : OptionKey) (value : Text) : Predicate := fun pane => pane.options.value key = value

def and (a b : Predicate) : Predicate := fun pane => a pane && b pane

def not (a : Predicate) : Predicate := fun pane => !a pane

def conjunction (checks : List Predicate) : Predicate := checks.foldr and always

theorem conjunction_iff {checks : List Predicate} {pane : Pane} :
    conjunction checks pane = true ↔ ∀ check ∈ checks, check pane = true := by
  induction checks with
  | nil => simp [conjunction, always]
  | cons check checks ih =>
    simp only [conjunction, List.foldr_cons, and, Bool.and_eq_true, List.mem_cons, forall_eq_or_imp] at ih ⊢
    rw [ih]

end Predicate

open Predicate

def projectionUnchanged (observed : PaneRead) : Predicate :=
  conjunction (projectionKeys.map fun key => equal key (observed.value key))

theorem projectionUnchanged_iff {observed : PaneRead} {pane : Pane} :
    projectionUnchanged observed pane = true ↔ pane.options.Agree projectionKeys observed.options := by
  simp only [projectionUnchanged, conjunction_iff, List.mem_map, forall_exists_index, and_imp,
    forall_apply_eq_imp_iff₂, equal, decide_eq_true_eq, Options.Agree, PaneRead.value]

/-- Options that agree on the compared keys read as one kind. -/
theorem projectionKind_agree {a b : Options} (ha : a.NoEmpty) (hb : b.NoEmpty) (h : a.Agree projectionKeys b)
    (now : Nat) : projectionKind a now = projectionKind b now :=
  projectionKind_congr (fun _ hk => h.get ha hb hk) now

/-- Every compared key is read. -/
theorem projectionKeys_read {key : OptionKey} (h : key ∈ projectionKeys) : key ∈ paneOptionKeys := by
  revert key
  decide

/-- Where nothing compared has changed, the pane's current options read as those observed. -/
theorem projectionUnchanged_kind {observed : PaneRead} {pane : Pane} (h : projectionUnchanged observed pane = true)
    (now : Nat) : projectionKind (pane.options.read paneOptionKeys) now = projectionKind observed.options now := by
  refine projectionKind_agree (pane.options.read_noEmpty _) observed.nonempty ?_ now
  intro key hk
  rw [Options.value_read (projectionKeys_read hk)]
  exact projectionUnchanged_iff.mp h key hk

/-- **Projection footprint.** Two panes that agree on the compared keys read as the same
kind at every clock, whatever else they carry; and where the server finds those keys as
they were observed, the writer's classification of the pane still holds. -/
theorem projection_footprint :
    (∀ a b : Options, a.NoEmpty → b.NoEmpty → a.Agree projectionKeys b →
      ∀ now, projectionKind a now = projectionKind b now) ∧
    (∀ (observed : PaneRead) (pane : Pane), projectionUnchanged observed pane = true →
      ∀ now, projectionKind (pane.options.read paneOptionKeys) now = projectionKind observed.options now) :=
  ⟨fun _ _ ha hb h now => projectionKind_agree ha hb h now, fun _ _ h now => projectionUnchanged_kind h now⟩

theorem projection_footprint_announced :
    projectionKind ((applyEdits [.set Opt.state "idle".toList] fun _ => none).read paneOptionKeys) 7 = .settled ∧
      projectionKind ((applyEdits [.set Opt.state "idle".toList] fun _ => none).read paneOptionKeys) 7 =
        projectionKind ((applyEdits [.set Opt.state "idle".toList, .set Opt.attention ['1']]
          fun _ => none).read paneOptionKeys) 7 :=
  ⟨by decide, projection_footprint.1 _ _ (Options.read_noEmpty _ _) (Options.read_noEmpty _ _)
    (by unfold Options.Agree; decide) 7⟩

/-- The read is live at this clock. -/
def PaneRead.isLive (observed : PaneRead) (now : Nat) : Bool :=
  match observed.projection now with
  | .ok (.live _ _ _) => true
  | _ => false

/-! ## Guards -/

/-- tmux's numeric comparisons of a number with an option's text, `e|<=` and `e|<`. -/
structure Comparison where
  le : Nat → Text → Bool
  lt : Nat → Text → Bool

/-- The suppression guard shared by every field of a write. -/
inductive Guard
  | unconditional
  | protectHook
  | carveOut (captureAt : Nat)
  | refreshClaim (state : AgentState)
  | hookArbitrate (evidenceAt : Nat)
deriving DecidableEq

/-- True where the write must be suppressed. -/
def Guard.suppressExpr (compare : Comparison) : Guard → Predicate
  | .unconditional => never
  | .protectHook => equal Opt.source StampProvenance.hook.token
  | .carveOut captureAt =>
    and (equal Opt.source StampProvenance.hook.token) fun pane =>
      compare.le captureAt (pane.options.value Opt.evidenceAt)
  | .refreshClaim state => not (equal Opt.state state.token)
  | .hookArbitrate evidenceAt =>
    and (equal Opt.source StampProvenance.hook.token) fun pane =>
      compare.lt evidenceAt (pane.options.value Opt.evidenceAt)

/-! ## Ownership -/

inductive Ownership
  /-- May replace only absent, expired or incomplete protocol authority. -/
  | fallback (now : Nat)
  | program (owner : PaneOwner) (now : Nat)
  | exactOwner (owner : PaneOwner)
  | exactResult (result : PersistedResult)
  | metadata (expected : Option MetadataOwner)
deriving DecidableEq

def ownershipPredicate (ownership : Ownership) (observed : PaneRead) : Except PersistenceError Predicate :=
  match ownership with
  | .fallback now => .ok (if observed.isLive now then never else projectionUnchanged observed)
  | .program owner now =>
    if PaneOwner.parse owner.encode ≠ some owner then .error (.invalid "invalid program owner")
    else
      match observed.program.lease with
      | some lease =>
        if lease.token = owner.collector ∧ lease.liveAt now then
          .ok (and (equal ProgramOpt.collector lease.encode) (projectionUnchanged observed))
        else .ok never
      | none => .ok never
  | .exactOwner owner =>
    if PaneOwner.parse owner.encode ≠ some owner then .error (.invalid "invalid exact owner")
    else .ok (equal ProgramOpt.owner owner.encode)
  | .exactResult result =>
    if PersistedResult.parse result.encode ≠ some result then .error (.invalid "invalid exact result")
    else .ok (and (equal ProgramOpt.owner result.owner.encode) (equal ProgramOpt.result result.encode))
  | .metadata expected => .ok (equal ProgramOpt.metadataOwner ((expected.map MetadataOwner.encode).getD []))

/-- An expired protocol projection's hook token is stale evidence, which suppresses nothing. -/
def effectiveGuard (compare : Comparison) (guard : Guard) (ownership : Ownership) : Predicate :=
  let suppress := guard.suppressExpr compare
  let suppress := match ownership, guard with
    | .fallback _, .refreshClaim _ => suppress
    | .fallback _, _ =>
      and (and (equal ProgramOpt.origin []) (and (equal ProgramOpt.owner []) (equal ProgramOpt.commit []))) suppress
    | _, _ => suppress
  not suppress

/-! ## The transaction -/

/-- What a caller asks `transaction_with_hint` for. -/
structure Request where
  observed : PaneRead
  ownership : Ownership
  guard : Guard
  extra : Predicate
  edits : List OptionEdit
  hint : Option Nat

namespace Request

variable (compare : Comparison)

/-- The receipt the request was built from. -/
def receipt (request : Request) : Text := request.observed.value ProgramOpt.receipt

def predicate (request : Request) : Except PersistenceError Predicate := do
  let ownership ← ownershipPredicate request.ownership request.observed
  .ok (and noHooks (and ownership (and (effectiveGuard compare request.guard request.ownership)
    (and request.extra (equal ProgramOpt.receipt request.receipt)))))

end Request

/-- `conditional_group`: the body runs whole, or not at all. -/
def conditionalGroup (predicate : Predicate) (body : List OptionEdit) (pane : Pane) : Pane :=
  if predicate pane then { pane with options := applyEdits body pane.options } else pane

/-- A request the server was sent, with its unique receipt. -/
structure Submission (compare : Comparison) where
  request : Request
  write : Token
  predicate : Predicate
  checked : validateEdits request.edits = .ok ()
  prepared : request.predicate compare = .ok predicate

namespace Submission

variable {compare : Comparison}

def body (submission : Submission compare) : List OptionEdit :=
  submission.request.edits ++ [.set ProgramOpt.receipt submission.write.text]

/-- The group that carries the edits. -/
def group (submission : Submission compare) : Pane → Pane :=
  conditionalGroup submission.predicate submission.body

/-- The optional poll hint: it certifies the group's complete execution. -/
def hintGroup (submission : Submission compare) (pane : Pane) : Pane :=
  match submission.request.hint with
  | none => pane
  | some at' =>
    conditionalGroup (and noHooks (equal ProgramOpt.receipt submission.write.text))
      [.set Opt.lastPoll (Text.decimal at')] pane

end Submission

inductive CommitOutcome
  | won (read : PaneRead)
  | lost (read : PaneRead)

/-- What the caller is told, from the pane as it stands at the readback. -/
def Submission.readback {compare : Comparison} (submission : Submission compare) (pane : Pane) :
    Except PersistenceError CommitOutcome :=
  match readPaneWith pane submission.request.edits with
  | .error e => .error e
  | .ok persisted =>
    if persisted.optionHooks then .error .unsupported
    else if persisted.value ProgramOpt.receipt = submission.write.text ∧
        submission.request.edits.all fun edit =>
          persisted.value edit.key = expectedValue submission.request.edits edit.key then
      .ok (.won persisted)
    else .ok (.lost persisted)

end TmuxAgents
