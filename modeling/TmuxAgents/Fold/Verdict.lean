/-
The verdict fold (`fold.rs`): the prior stamp and a cycle's evidence, folded into
a verdict and a write plan. Timestamps are injected milliseconds.
-/
import TmuxAgents.Fold.Evidence

namespace TmuxAgents

/-! ## Tuning -/

/-- The windows, in seconds. -/
structure FoldConfig where
  dwellSecs : Nat := 3
  hookDecaySecs : Nat := 60
  blockedDecaySecs : Nat := 300
  freshnessSecs : Nat := 3
deriving DecidableEq

namespace FoldConfig

def dwellMs (cfg : FoldConfig) : Nat := saturatingMul cfg.dwellSecs 1000

def hookDecayMs (cfg : FoldConfig) : Nat := saturatingMul cfg.hookDecaySecs 1000

def blockedDecayMs (cfg : FoldConfig) : Nat := saturatingMul cfg.blockedDecaySecs 1000

/-- The decay window of a stored hook claim of this state. -/
def decayMsFor (cfg : FoldConfig) : AgentState → Nat
  | .blocked => cfg.blockedDecayMs
  | _ => cfg.hookDecayMs

def freshnessMs (cfg : FoldConfig) : Nat := saturatingMul cfg.freshnessSecs 1000

end FoldConfig

/-- `manifest.capture`: the states whose absence from the screen is evidence. -/
structure CaptureManifest where
  visible : List AgentState
deriving DecidableEq

/-- Process and screen facts that gate the fold. -/
structure SnapshotFacts where
  /-- The agent's pid, 0 when no agent process is walkable. -/
  pid : Nat
  foregroundIsAgent : Bool
  scrolled : Bool
  historyView : Bool
deriving DecidableEq

/-! ## Verdicts -/

inductive WriteAction
  | publish
  | hold
deriving DecidableEq

structure WritePlan where
  action : WriteAction
  mayOverride : Bool
  setAttention : Bool
  episodeReset : Bool
deriving DecidableEq

/-- The evidence that decided a verdict. -/
structure WinningEvidence where
  origin : Option Source
  source : StampProvenance
  at_ : Nat
  label : String
deriving DecidableEq

structure ProgramVerdict where
  authority : ProgramAuthority
  result : Option ProgramResult
deriving DecidableEq

structure Verdict where
  state : AgentState
  detail : Option Detail
  winningEvidence : WinningEvidence
  writes : WritePlan
  program : Option ProgramVerdict
deriving DecidableEq

/-- A pending publish, before the fields that depend on the transition. -/
structure PendingPublish where
  state : AgentState
  detail : Option Detail
  source : StampProvenance
  origin : Option Source
  at_ : Nat
  mayOverride : Bool
  label : String

def publishFrom (e : Evidence) (state : AgentState) : PendingPublish :=
  { state
    detail := e.claimDetail
    source := e.source.provenance
    origin := some e.source
    at_ := e.at_
    mayOverride := false
    label := e.source.name ++ " evidence (" ++ e.meta_ ++ ")" }

/-- Attention is set by a transition: into blocked, or from working to idle. -/
def finishPublish (p : PendingPublish) (prev : Option StampedState) (episodeReset : Bool) : Verdict :=
  let prevState := prev.map StampedState.state
  { state := p.state
    detail := p.detail
    winningEvidence := { origin := p.origin, source := p.source, at_ := p.at_, label := p.label }
    writes :=
      { action := .publish
        mayOverride := p.mayOverride
        setAttention := match p.state with
          | .blocked => prevState ≠ some .blocked
          | .idle => prevState = some .working
          | _ => false
        episodeReset }
    program := none }

/-- Refresh freshness only. With no prior to hold, a first-sight `unknown`. -/
def hold (prev : Option StampedState) (label : String) (episodeReset : Bool) (now : Nat) : Verdict :=
  match prev with
  | some p =>
    { state := p.state
      detail := p.detail
      winningEvidence := { origin := none, source := p.source, at_ := p.evidenceAt, label }
      writes := { action := .hold, mayOverride := false, setAttention := false, episodeReset }
      program := none }
  | none =>
    { state := .unknown
      detail := none
      winningEvidence :=
        { origin := none, source := .capture, at_ := now, label := label ++ " (no prior; unknown)" }
      writes := { action := .publish, mayOverride := false, setAttention := false, episodeReset }
      program := none }

/-- A stored hook claim of a real state. -/
def StampedState.protected (p : StampedState) : Bool := p.source == .hook && p.state != .unknown

/-- `protected_hook`. -/
def protectedHook (prev : Option StampedState) : Option StampedState := prev.filter StampedState.protected

/-- Fresh evidence consistent with a stored hook claim. -/
def corroborate (p : StampedState) (e : Evidence) (episodeReset : Bool) : Verdict :=
  { state := p.state
    detail := p.detail
    winningEvidence :=
      { origin := none, source := .hook, at_ := e.at_,
        label := "hook " ++ String.ofList p.state.token ++ " corroborated by " ++ e.source.name }
    writes := { action := .publish, mayOverride := false, setAttention := false, episodeReset }
    program := none }

/-! ## Screen claims -/

/-- The freshest screen or title claim in each slot. -/
structure ScreenClaims where
  blocker : Option Evidence
  working : Option Evidence
  idle : Option Evidence

def screenClaims (evidence : List Evidence) : ScreenClaims where
  blocker := latest evidence (Evidence.shows .blocked)
  working := latest evidence (Evidence.shows .working)
  idle := latest evidence (Evidence.shows .idle)

/-- The best claim where nothing blocks: working outranks idle. -/
def ScreenClaims.candidate (claims : ScreenClaims) : Option Evidence := claims.working.or claims.idle

/-- Screen evidence against a protected hook claim. -/
def foldAgainstHook (p : StampedState) (claims : ScreenClaims) (capture : CaptureManifest) (cfg : FoldConfig)
    (now : Nat) (episodeReset : Bool) : Verdict :=
  match claims.blocker with
  | some b =>
    if p.state = .blocked then corroborate p b episodeReset
    else if p.evidenceAt < b.at_ then finishPublish (publishFrom b .blocked) (some p) episodeReset
    else
      hold (some p) "hook claim newer than blocker chrome: carve-out suppressed (answered-prompt race)"
        episodeReset now
  | none =>
    match claims.candidate with
    | none => hold (some p) "hook held: no fresh screen evidence" episodeReset now
    | some c =>
      let cState := c.claimState.getD .unknown
      if cState = p.state then corroborate p c episodeReset
      else if ¬ (cfg.decayMsFor p.state < now - p.evidenceAt ∧ p.state ∈ capture.visible) then
        hold (some p) "hook not decayed: contradicting screen evidence suppressed" episodeReset now
      else if p.state = .working ∧ cState = .idle ∧ now - p.evidenceAt ≤ cfg.dwellMs then
        hold (some p) "dwell suppresses working→idle" episodeReset now
      else
        finishPublish
          { publishFrom c cState with mayOverride := true, label := "hook decayed; " ++ c.source.name ++ " wins" }
          (some p) episodeReset

/-! ## The fold -/

/-- A pid change between cycles replaces the agent. -/
def episodeReset (prev : Option StampedState) (facts : SnapshotFacts) : Bool :=
  prev.any fun p => p.pid ≠ 0 && facts.pid ≠ 0 && p.pid ≠ facts.pid

/-- A separately validated program selection. -/
def programVerdict (program : ProgramSelection) (prev : Option StampedState) (episodeReset : Bool) : Verdict :=
  let decision := finishPublish
    { state := program.state
      detail := program.detail
      source := .hook
      origin := some .programStatus
      at_ := program.at_
      mayOverride := true
      label := "program status" } prev episodeReset
  { decision with
    writes :=
      { decision.writes with
        setAttention :=
          if program.state = .blocked then prev.all fun previous => previous.state ≠ .blocked
          else program.result.any ProgramResult.pending }
    program := some { authority := program.authority, result := program.result } }

/-- The foreground is not the agent: what it reported stands while its process lives. -/
def capForeground (prev : Option StampedState) (facts : SnapshotFacts) (episodeReset : Bool) (now : Nat) : Verdict :=
  match (protectedHook prev).filter fun _ => facts.pid ≠ 0 with
  | some p => hold (some p) "foreground is not the agent; hook claim held (agent alive)" episodeReset now
  | none =>
    finishPublish
      { state := .unknown
        detail := none
        source := .process
        origin := none
        at_ := now
        mayOverride := true
        label := "foreground is not the agent" } prev episodeReset

/-- The plain ladder, for a prior that is not a protected hook claim. -/
def foldScreen (prev : Option StampedState) (claims : ScreenClaims) (cfg : FoldConfig) (now : Nat)
    (episodeReset : Bool) : Verdict :=
  match claims.blocker, claims.working, claims.idle with
  | some b, _, _ => finishPublish (publishFrom b .blocked) prev episodeReset
  | none, some w, _ => finishPublish (publishFrom w .working) prev episodeReset
  | none, none, some i =>
    if prev.map StampedState.state = some .working ∧
        now - (prev.map StampedState.evidenceAt).getD 0 ≤ cfg.dwellMs then
      hold prev "dwell suppresses working→idle" episodeReset now
    else finishPublish (publishFrom i .idle) prev episodeReset
  | none, none, none => hold prev "hold previous (no fresh evidence)" episodeReset now

/-- `verdict_with_program`. -/
def verdictWithProgram (prev : Option StampedState) (facts : SnapshotFacts) (evidence : List Evidence)
    (capture : CaptureManifest) (cfg : FoldConfig) (now : Nat) (program : Option ProgramSelection) : Verdict :=
  let reset := episodeReset prev facts
  let prev := if reset then none else prev
  match program with
  | some program => programVerdict program prev reset
  | none =>
    match latest evidence Evidence.freshHook with
    | some hook =>
      finishPublish
        { state := hook.claimState.getD .unknown
          detail := hook.claimDetail
          source := .hook
          origin := some .hookEvent
          at_ := hook.at_
          mayOverride := true
          label := "fresh hook event (" ++ hook.meta_ ++ ")" } prev reset
    | none =>
      if !facts.foregroundIsAgent then capForeground prev facts reset now
      else if facts.scrolled || facts.historyView then
        hold prev (if facts.scrolled then "frozen: pane scrolled" else "frozen: history view") reset now
      else
        match protectedHook prev with
        | some p => foldAgainstHook p (screenClaims evidence) capture cfg now reset
        | none => foldScreen prev (screenClaims evidence) cfg now reset

/-- Fold the prior stamp and this cycle's evidence into a verdict. -/
def verdict (prev : Option StampedState) (facts : SnapshotFacts) (evidence : List Evidence)
    (capture : CaptureManifest) (cfg : FoldConfig) (now : Nat) : Verdict :=
  verdictWithProgram prev facts evidence capture cfg now none

end TmuxAgents
