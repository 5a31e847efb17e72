/-
The two alerts that have a marker of their own (`notify.rs`, `persistence.rs`): a context gauge that
is high, and a run that has stalled. A set marker means the alert has fired; what clears it is a gauge
well below the threshold, or the end of the run.

A decision is made on one read and the marker is moved by a transaction that compares what it was made
on, so the decision is the one the pane as it stands would lead to (`Alert.Fires.agree`).
-/
import TmuxAgents.Persist.Codecs
import TmuxAgents.Persist.Publication
import TmuxAgents.Persist.TransactionRuns

namespace TmuxAgents.Notify

/-! ## Decisions -/

inductive ContextNotify
  /-- Armed, and the gauge is at the threshold. -/
  | fire
  /-- Fired, and the gauge is well below it. -/
  | rearm
  | idle
deriving DecidableEq

/-- A gauge without its instant is a write caught midway, and one that is not there holds the flag. -/
def decideContextHigh (pct at' marker : Option Nat) (threshold : Nat) : ContextNotify :=
  if pct.isSome && at'.isNone then .idle
  else match pct with
    | none => .idle
    | some pct => match marker with
      | none => if threshold ≤ pct then .fire else .idle
      | some _ => if pct < threshold - 10 then .rearm else .idle

inductive StallNotify
  /-- Armed, and the run has lasted for the threshold. -/
  | fire (since : Nat)
  /-- Fired, and the run it fired for is over. -/
  | rearm
  | idle
deriving DecidableEq

/-- A marker from before the run began belongs to another run. -/
def decideStall (state : Option AgentState) (since marker : Option Nat) (thresholdMs now : Nat) : StallNotify :=
  if state ≠ some .working then
    match marker with
    | some _ => .rearm
    | none => .idle
  else match since with
    | none => .idle
    | some since => match marker with
      | some at' => if at' < since then .rearm else .idle
      | none => if thresholdMs ≤ now - since then .fire since else .idle

/-! ## The marker -/

def metadataOwner (read : PaneRead) : Option MetadataOwner :=
  (read.options ProgramOpt.metadataOwner).bind MetadataOwner.parse

/-- What `update_notify_marker` submits: the marker is set where it was not, or cleared, while the gauge, the
metadata's owner and all that the projection reads are as observed. -/
def updateNotifyMarker (observed : PaneRead) (key : OptionKey) (armAt : Option Nat) (claim : Token) :
    Except PersistenceError Request :=
  if key ≠ Opt.contextNotifiedAt ∧ key ≠ Opt.stallNotifiedAt then .error (.invalid "invalid notification marker")
  else
    let fields := [key, Opt.contextPct, Opt.contextAt, ProgramOpt.metadataOwner]
    let checks := fields.map fun field => Predicate.equal field (observed.value field)
    let checks := if armAt.isSome then checks ++ [Predicate.equal key []] else checks
    .ok {
      observed
      ownership := .metadata (metadataOwner observed)
      guard := .unconditional
      extra := .and (.conjunction checks) (projectionUnchanged observed)
      edits := [armAt.elim (.unset key) fun at' => .set key (Text.decimal at'), .set ProgramOpt.markerClaim claim.text]
      hint := none }

/-- The option as a number. -/
def num (options : Options) (key : OptionKey) : Option Nat := (options key).bind (Text.parseUnsigned (2 ^ 64))

/-- The two alerts, by their thresholds. -/
inductive Alert
  | contextHigh (threshold : Nat)
  | stall (thresholdMs : Nat)
deriving DecidableEq

namespace Alert

def key : Alert → OptionKey
  | .contextHigh _ => Opt.contextNotifiedAt
  | .stall _ => Opt.stallNotifiedAt

def context (threshold : Nat) (options : Options) : ContextNotify :=
  decideContextHigh ((options Opt.contextPct).bind (Text.parseUnsigned (2 ^ 8))) (num options Opt.contextAt)
    (num options Opt.contextNotifiedAt) threshold

def stalled (thresholdMs : Nat) (options : Options) (now : Nat) : StallNotify :=
  decideStall ((readStamp (currentStamp options now)).map StampedState.state) (num options Opt.since)
    (num options Opt.stallNotifiedAt) thresholdMs now

/-- The alert fires on these options. -/
def Fires (alert : Alert) (options : Options) (now : Nat) : Prop :=
  match alert with
  | .contextHigh threshold => context threshold options = .fire
  | .stall thresholdMs => ∃ since, stalled thresholdMs options now = .fire since

/-- It clears its marker on them. -/
def Rearms (alert : Alert) (options : Options) (now : Nat) : Prop :=
  match alert with
  | .contextHigh threshold => context threshold options = .rearm
  | .stall thresholdMs => stalled thresholdMs options now = .rearm

end Alert

/-- What `evaluate_context_high` submits. -/
def evaluateContextHigh (observed : PaneRead) (threshold now : Nat) (claim : Token) :
    Option (Except PersistenceError Request) :=
  match Alert.context threshold observed.options with
  | .fire => some (updateNotifyMarker observed Opt.contextNotifiedAt (some now) claim)
  | .rearm => some (updateNotifyMarker observed Opt.contextNotifiedAt none claim)
  | .idle => none

/-- What `evaluate_stall` submits. -/
def evaluateStall (observed : PaneRead) (thresholdMs now : Nat) (claim : Token) :
    Option (Except PersistenceError Request) :=
  match Alert.stalled thresholdMs observed.options now with
  | .fire _ => some (updateNotifyMarker observed Opt.stallNotifiedAt (some now) claim)
  | .rearm => some (updateNotifyMarker observed Opt.stallNotifiedAt none claim)
  | .idle => none

def Alert.evaluate (alert : Alert) (observed : PaneRead) (now : Nat) (claim : Token) :
    Option (Except PersistenceError Request) :=
  match alert with
  | .contextHigh threshold => evaluateContextHigh observed threshold now claim
  | .stall thresholdMs => evaluateStall observed thresholdMs now claim

/-- Every request an alert submits arms its marker, or clears it. -/
theorem Alert.evaluate_cases {alert : Alert} {observed : PaneRead} {now : Nat} {claim : Token} {request : Request}
    (h : alert.evaluate observed now claim = some (.ok request)) :
    (alert.Fires observed.options now ∧ updateNotifyMarker observed alert.key (some now) claim = .ok request) ∨
      (alert.Rearms observed.options now ∧ updateNotifyMarker observed alert.key none claim = .ok request) := by
  cases alert with
  | contextHigh threshold =>
    simp only [evaluate, evaluateContextHigh] at h
    cases hdecide : Alert.context threshold observed.options with
    | fire =>
      rw [hdecide] at h
      exact .inl ⟨hdecide, Option.some.inj h⟩
    | rearm =>
      rw [hdecide] at h
      exact .inr ⟨hdecide, Option.some.inj h⟩
    | idle =>
      rw [hdecide] at h
      cases h
  | stall thresholdMs =>
    simp only [evaluate, evaluateStall] at h
    cases hdecide : Alert.stalled thresholdMs observed.options now with
    | fire since =>
      rw [hdecide] at h
      exact .inl ⟨⟨since, hdecide⟩, Option.some.inj h⟩
    | rearm =>
      rw [hdecide] at h
      exact .inr ⟨hdecide, Option.some.inj h⟩
    | idle =>
      rw [hdecide] at h
      cases h

/-! ## What the options say -/

theorem context_fire {pct at' marker : Option Nat} {threshold : Nat} (h : decideContextHigh pct at' marker threshold = .fire) :
    marker = none ∧ ∃ n, pct = some n ∧ threshold ≤ n := by
  unfold decideContextHigh at h
  split at h
  · cases h
  · cases pct with
    | none => cases h
    | some n =>
      cases marker with
      | some fired =>
        dsimp only at h
        split at h
        · cases h
        · cases h
      | none =>
        dsimp only at h
        split at h
        next hle => exact ⟨rfl, n, rfl, hle⟩
        · cases h

theorem context_rearm {pct at' marker : Option Nat} {threshold : Nat}
    (h : decideContextHigh pct at' marker threshold = .rearm) :
    marker.isSome = true ∧ ∃ n, pct = some n ∧ n < threshold - 10 := by
  unfold decideContextHigh at h
  split at h
  · cases h
  · cases pct with
    | none => cases h
    | some n =>
      cases marker with
      | some fired =>
        dsimp only at h
        split at h
        next hlt => exact ⟨rfl, n, rfl, hlt⟩
        · cases h
      | none =>
        dsimp only at h
        split at h
        · cases h
        · cases h

theorem stall_fire {state : Option AgentState} {since marker : Option Nat} {thresholdMs now start : Nat}
    (h : decideStall state since marker thresholdMs now = .fire start) :
    marker = none ∧ state = some .working ∧ since = some start ∧ thresholdMs ≤ now - start := by
  unfold decideStall at h
  split at h
  · cases marker <;> cases h
  next hworking =>
    cases since with
    | none => cases h
    | some n =>
      cases marker with
      | some fired =>
        dsimp only at h
        split at h
        · cases h
        · cases h
      | none =>
        dsimp only at h
        split at h
        next hle =>
          cases h
          exact ⟨rfl, not_not.mp hworking, rfl, hle⟩
        · cases h

theorem stall_rearm {state : Option AgentState} {since marker : Option Nat} {thresholdMs now : Nat}
    (h : decideStall state since marker thresholdMs now = .rearm) :
    ∃ fired, marker = some fired ∧ (state ≠ some .working ∨ ∃ start, since = some start ∧ fired < start) := by
  unfold decideStall at h
  split at h
  next hover =>
    cases marker with
    | none => cases h
    | some fired => exact ⟨fired, rfl, .inl hover⟩
  next =>
    cases since with
    | none => cases h
    | some n =>
      cases marker with
      | some fired =>
        dsimp only at h
        split at h
        next hlt => exact ⟨fired, rfl, .inr ⟨n, rfl, hlt⟩⟩
        · cases h
      | none =>
        dsimp only at h
        split at h
        · cases h
        · cases h

/-- An armed marker is not set where an alert fires. -/
theorem Alert.Fires.marker {alert : Alert} {options : Options} {now : Nat} (h : alert.Fires options now) :
    num options alert.key = none := by
  cases alert with
  | contextHigh threshold => exact (context_fire h).1
  | stall thresholdMs =>
    obtain ⟨since, h⟩ := h
    exact (stall_fire h).1

theorem Alert.Rearms.marker {alert : Alert} {options : Options} {now : Nat} (h : alert.Rearms options now) :
    ∃ fired, num options alert.key = some fired := by
  cases alert with
  | contextHigh threshold => exact Option.isSome_iff_exists.mp (context_rearm h).1
  | stall thresholdMs =>
    obtain ⟨fired, hfired, -⟩ := stall_rearm h
    exact ⟨fired, hfired⟩

/-! ## What a decision is made on -/

/-- The options an alert reads. -/
def Alert.reads (alert : Alert) : List OptionKey := [alert.key, Opt.contextPct, Opt.contextAt] ++ projectionKeys

/-- The state a projection shows. -/
def shownState (read : Except GrammarError ProjectionRead) : Option AgentState :=
  match read with
  | .ok (.legacy (some found)) => some found.intoInner.state
  | .ok (.live stamp _ _) => some stamp.state
  | _ => none

theorem shownState_eq (options : Options) (now : Nat) :
    (readStamp (currentStamp options now)).map StampedState.state = shownState (readProjection options now) := by
  unfold currentStamp
  cases readProjection options now with
  | error e => rfl
  | ok read =>
    cases read with
    | legacy read => cases read <;> rfl
    | live stamp owner commit => rfl
    | stale => rfl

/-- What the stamp says of the state is read from the compared keys. -/
theorem shownState_congr {a b : Options} (h : ∀ key ∈ projectionKeys, a key = b key) (now : Nat) :
    shownState (readProjection a now) = shownState (readProjection b now) := by
  obtain ⟨horigin, hcomplete, howner, hcommit, hlease⟩ := fromOptions_markers h
  simp only [readProjection, ProgramMetadata.projection, horigin, hcomplete, howner, hcommit, hlease]
  generalize ProgramMetadata.fromOptions b = program
  rcases bareRead_cases (fromOptions_bare h) with ⟨e, hx, hy⟩ | ⟨hx, hy⟩ | ⟨s, t, hx, hy, hst⟩ | ⟨s, t, hx, hy, hst⟩
  · rw [hx, hy]
  · rw [hx, hy]
  · -- the live test reads the pid and the source, which are bare
    have hstate : s.state = t.state := (congrArg StampedState.state hst : s.bare.state = t.bare.state)
    have hpid : s.pid = t.pid := (congrArg StampedState.pid hst : s.bare.pid = t.bare.pid)
    have hsource : s.source = t.source := (congrArg StampedState.source hst : s.bare.source = t.bare.source)
    rw [hx, hy]
    split
    · exact congrArg some hstate
    · split
      next owner commit lease _ _ _ =>
        split
        · rfl
        · simp only [hpid, hsource]
          split
          · exact congrArg some hstate
          · rfl
      · rfl
  · have hstate : s.state = t.state := (congrArg StampedState.state hst : s.bare.state = t.bare.state)
    rw [hx, hy]
    split
    · exact congrArg some hstate
    · split
      · split <;> rfl
      · rfl

/-- An alert decides alike on options that agree on what it reads. -/
theorem Alert.agree {alert : Alert} {a b : Options} (h : ∀ key ∈ alert.reads, a key = b key) (now : Nat) :
    (alert.Fires a now ↔ alert.Fires b now) ∧ (alert.Rearms a now ↔ alert.Rearms b now) := by
  cases alert with
  | contextHigh threshold =>
    have hmarker : a Opt.contextNotifiedAt = b Opt.contextNotifiedAt := h _ (by simp [reads, key])
    have hpct : a Opt.contextPct = b Opt.contextPct := h _ (by simp [reads])
    have hat : a Opt.contextAt = b Opt.contextAt := h _ (by simp [reads])
    simp only [Fires, Rearms, context, num, hmarker, hpct, hat, and_self]
  | stall thresholdMs =>
    have hmarker : a Opt.stallNotifiedAt = b Opt.stallNotifiedAt := h _ (by simp [reads, key])
    have hsince : a Opt.since = b Opt.since := h _ (by simp [reads, projectionKeys])
    have hstate := shownState_congr (fun key hkey => h key (List.mem_append_right _ hkey)) now
    simp only [Fires, Rearms, stalled, num, shownState_eq, hmarker, hsince, hstate, and_self]

end TmuxAgents.Notify
