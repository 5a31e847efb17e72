/-
The quiet-pane shortcut (`can_reuse_stamp` of `cycle.rs`) beside the capture and
fold it skips: `quiet_agrees_iff` says on which screens the two agree.
-/
import TmuxAgents.Fold.Engine
import TmuxAgents.Fold.HookClaims

namespace TmuxAgents

open RuleEngine

/-- May this cycle reuse the stamp instead of capturing the pane? -/
def canReuseStamp (p : StampedState) (windowActivity : Nat) (foregroundIsAgent : Bool) (cfg : FoldConfig)
    (now : Nat) : Bool :=
  if cfg.freshnessMs = 0 then false
  else if p.hash.isNone then false
  else if now < p.stampedAt then false
  else if p.state = .working then false
  else if p.source = .process ∧ foregroundIsAgent = true then false
  else if (p.source = .capture ∨ p.source = .activity) ∧ foregroundIsAgent = false then false
  else if p.source = .hook ∧ cfg.decayMsFor p.state < now - p.evidenceAt then false
  else windowActivity ≠ 0 && decide (saturatingMul (saturatingAdd windowActivity 1) 1000 ≤ p.stampedAt)

/-- Capture the screen and fold it. -/
def captureAndFold (p : StampedState) (pid : Nat) (foregroundIsAgent : Bool) (engine : RuleEngine)
    (snap : PaneSnapshot) (capture : CaptureManifest) (cfg : FoldConfig) (now : Nat) : Verdict :=
  let evaluation := engine.evaluate snap
  verdict (some p)
    { pid, foregroundIsAgent, scrolled := snap.scrolled, historyView := evaluation.historyView }
    evaluation.evidence capture cfg now

/-- The fold answers what the stamp says. -/
def Agrees (p : StampedState) (v : Verdict) : Prop :=
  v.state = p.state ∧ v.detail = p.detail ∧ v.winningEvidence.source = p.source

/-- The stamp is what this rule would claim. -/
def StampedState.says (p : StampedState) (state : AgentState) (rule : CompiledRule) : Prop :=
  p.state = state ∧ rule.detail = p.detail ∧ p.source = .capture

/-- What a reused stamp's screen must show for the fold to answer the stamp. Behind another
foreground: a hook claim of a walkable agent, or the cap's own `unknown`. Otherwise history,
or: under a hook claim, no blocker chrome, unless the claim is blocked or not older than the
capture; under any other, no chrome, or the chrome the stamp was made of. -/
def ScreenAgrees (p : StampedState) (foregroundIsAgent : Bool) (rules : List CompiledRule) (snap : PaneSnapshot)
    (now : Nat) : Prop :=
  if foregroundIsAgent then
    showsHistory rules snap = true ∨
      if p.protected then p.state = .blocked ∨ speaker rules snap .blocked = none ∨ now ≤ p.evidenceAt
      else
        match speaker rules snap .blocked, speaker rules snap .working, speaker rules snap .idle with
        | some rule, _, _ => p.says .blocked rule
        | none, some _, _ => False
        | none, none, some rule => p.says .idle rule
        | none, none, none => True
  else (p.protected = true ∧ p.pid ≠ 0) ∨ (p.source = .process ∧ p.state = .unknown ∧ p.detail = none)

/-! ## What a reusable stamp is -/

structure Reusable (p : StampedState) (foregroundIsAgent : Bool) (cfg : FoldConfig) (now : Nat) : Prop where
  settled : p.state ≠ .working
  uncapped : foregroundIsAgent = true → p.source ≠ .process
  capped : foregroundIsAgent = false → p.source = .hook ∨ p.source = .process
  undecayed : p.source = .hook → now - p.evidenceAt ≤ cfg.decayMsFor p.state

theorem reusable_of_canReuse {p : StampedState} {windowActivity : Nat} {foregroundIsAgent : Bool} {cfg : FoldConfig}
    {now : Nat} (h : canReuseStamp p windowActivity foregroundIsAgent cfg now = true) :
    Reusable p foregroundIsAgent cfg now := by
  simp only [canReuseStamp] at h
  repeat' split at h
  all_goals first | cases h | skip
  rename_i hworking hprocess hscreen hdecayed
  refine ⟨hworking, fun hfg hp => hprocess ⟨hp, hfg⟩, fun hfg => ?_, fun hhook => ?_⟩
  · cases hs : p.source with
    | hook => exact .inl rfl
    | process => exact .inr rfl
    | capture => exact absurd ⟨.inl hs, hfg⟩ hscreen
    | activity => exact absurd ⟨.inr hs, hfg⟩ hscreen
  · exact Nat.le_of_not_lt fun hlt => hdecayed ⟨hhook, hlt⟩

/-! ## The screen's claims -/

section Screen

variable {engine : RuleEngine} {snap : PaneSnapshot} {state : AgentState}

theorem shows_none : latest (engine.evaluate snap).evidence (Evidence.shows state) = none ↔
    speaker engine.rules snap state = none := by
  have h := evaluate_shows engine snap state
  constructor
  · intro hl
    rw [hl, Option.map_none] at h
    exact Option.map_eq_none_iff.mp h.symm
  · intro hs
    rw [hs, Option.map_none] at h
    exact Option.map_eq_none_iff.mp h

theorem shows_some {e : Evidence} (h : latest (engine.evaluate snap).evidence (Evidence.shows state) = some e) :
    e.at_ = snap.capturedAt ∧ e.source.provenance = .capture ∧
      ∃ rule, speaker engine.rules snap state = some rule ∧ e.claimDetail = rule.detail := by
  have hs := evaluate_shows engine snap state
  rw [h, Option.map_some] at hs
  obtain ⟨rule, hrule, heq⟩ := Option.map_eq_some_iff.mp hs.symm
  injection heq with hdetail hat
  exact ⟨hat.symm, Source.provenance_onScreen (latest_shows h).1, rule, hrule, hdetail.symm⟩

theorem evaluate_noHook : ∀ e ∈ (engine.evaluate snap).evidence, e.freshHook = false := by
  intro e he
  have hs := (mem_evaluate he).2
  cases hsource : e.source <;> simp_all [Evidence.freshHook, Source.onScreen]

end Screen

/-! ## The two paths -/

section Paths

variable {p : StampedState} {engine : RuleEngine} {snap : PaneSnapshot} {capture : CaptureManifest}
  {cfg : FoldConfig} {now : Nat}

/-- A held stamp agrees with itself. -/
theorem agrees_hold (label : String) (reset : Bool) : Agrees p (hold (some p) label reset now) := ⟨rfl, rfl, rfl⟩

theorem agrees_corroborate (hp : p.protected = true) (e : Evidence) (reset : Bool) :
    Agrees p (corroborate p e reset) :=
  ⟨rfl, rfl, (StampedState.protected_iff.mp hp).1.symm⟩

/-- Behind another foreground. -/
theorem agrees_capped {facts : SnapshotFacts} (hpid : facts.pid = p.pid) :
    Agrees p (capForeground (some p) facts false now) ↔
      (p.protected = true ∧ p.pid ≠ 0) ∨ (p.source = .process ∧ p.state = .unknown ∧ p.detail = none) := by
  simp only [capForeground]
  by_cases hheld : p.protected = true ∧ p.pid ≠ 0
  · have hfilter : (protectedHook (some p)).filter (fun _ => facts.pid ≠ 0) = some p := by
      simp [protectedHook_some hheld.1, hpid, hheld.2]
    rw [hfilter]
    exact ⟨fun _ => .inl hheld, fun _ => agrees_hold _ _⟩
  · have hfilter : (protectedHook (some p)).filter (fun _ => facts.pid ≠ 0) = none := by
      rw [hpid]
      cases hp : p.protected with
      | false => simp [protectedHook, hp]
      | true =>
        have hz : p.pid = 0 := not_not.mp fun hne => hheld ⟨hp, hne⟩
        simp [hz]
    rw [hfilter]
    constructor
    · rintro ⟨hstate, hdetail, hsource⟩
      exact .inr ⟨hsource.symm, hstate.symm, hdetail.symm⟩
    · rintro (h | ⟨hsource, hstate, hdetail⟩)
      · exact absurd h hheld
      · exact ⟨hstate.symm, hdetail.symm, hsource.symm⟩

/-- Under a protected hook claim inside its decay window, only newer blocker chrome disagrees. -/
theorem agrees_hook (hp : p.protected = true) (hr : Reusable p true cfg now) (hcaptured : snap.capturedAt = now) :
    Agrees p (foldAgainstHook p (screenClaims (engine.evaluate snap).evidence) capture cfg now false) ↔
      p.state = .blocked ∨ speaker engine.rules snap .blocked = none ∨ now ≤ p.evidenceAt := by
  obtain ⟨hsource, hknown⟩ := StampedState.protected_iff.mp hp
  have hcases := foldAgainstHook_cases p (engine.evaluate snap).evidence capture cfg now
  generalize foldAgainstHook p (screenClaims (engine.evaluate snap).evidence) capture cfg now false = v at hcases
  cases hcases with
  | @corroborated e corr =>
    refine ⟨fun _ => ?_, fun _ => agrees_corroborate hp e false⟩
    cases hb : (screenClaims (engine.evaluate snap).evidence).blocker with
    | none => exact .inr (.inl (shows_none.mp hb))
    | some b =>
      rw [ScreenClaims.corroborator, hb] at corr
      by_cases hblocked : p.state = .blocked
      · exact .inl hblocked
      · simp [hblocked] at corr
  | @carved b blocker unblocked newer =>
    obtain ⟨hat, -, rule, hrule, -⟩ := shows_some blocker
    constructor
    · exact fun hagrees => absurd hagrees.1.symm unblocked
    · rintro (h | h | h)
      · exact absurd h unblocked
      · rw [hrule] at h
        cases h
      · omega
  | @older b label blocker unblocked older =>
    refine ⟨fun _ => .inr (.inr ?_), fun _ => agrees_hold _ _⟩
    have hat := (shows_some blocker).1
    omega
  | unseen blocker candidate => exact ⟨fun _ => .inr (.inl (shows_none.mp blocker)), fun _ => agrees_hold _ _⟩
  | suppressed blocker candidate contrary held =>
    exact ⟨fun _ => .inr (.inl (shows_none.mp blocker)), fun _ => agrees_hold _ _⟩
  | expired blocker candidate contrary decayed undwelt state source =>
    exact absurd decayed.1 (Nat.not_lt.mpr (hr.undecayed hsource))

/-- What the screen publishes agrees with the stamp where the rule says what the stamp says. -/
theorem agrees_publishFrom {e : Evidence} {state : AgentState} {rule : CompiledRule}
    (hsource : e.source.provenance = .capture) (hdetail : e.claimDetail = rule.detail) :
    Agrees p (finishPublish (publishFrom e state) (some p) false) ↔ p.says state rule := by
  simp only [Agrees, finishPublish, publishFrom, StampedState.says, hsource, hdetail]
  constructor
  · rintro ⟨hstate, hd, hs⟩
    exact ⟨hstate.symm, hd, hs.symm⟩
  · rintro ⟨hstate, hd, hs⟩
    exact ⟨hstate.symm, hd, hs.symm⟩

/-- Under any other stamp, the chrome must be that of the stamp. -/
theorem agrees_screen (hr : Reusable p true cfg now) :
    Agrees p (foldScreen (some p) (screenClaims (engine.evaluate snap).evidence) cfg now false) ↔
      match speaker engine.rules snap .blocked, speaker engine.rules snap .working,
        speaker engine.rules snap .idle with
      | some rule, _, _ => p.says .blocked rule
      | none, some _, _ => False
      | none, none, some rule => p.says .idle rule
      | none, none, none => True := by
  simp only [foldScreen]
  cases hb : (screenClaims (engine.evaluate snap).evidence).blocker with
  | some b =>
    obtain ⟨-, hsource, rule, hrule, hdetail⟩ := shows_some hb
    rw [hrule]
    exact agrees_publishFrom hsource hdetail
  | none =>
    rw [shows_none.mp hb]
    cases hw : (screenClaims (engine.evaluate snap).evidence).working with
    | some w =>
      obtain ⟨-, -, rule, hrule, -⟩ := shows_some hw
      rw [hrule]
      exact ⟨fun hagrees => hr.settled hagrees.1.symm, False.elim⟩
    | none =>
      rw [shows_none.mp hw]
      cases hi : (screenClaims (engine.evaluate snap).evidence).idle with
      | some i =>
        obtain ⟨-, hsource, rule, hrule, hdetail⟩ := shows_some hi
        rw [hrule]
        have hnot : ¬ (Option.map StampedState.state (some p) = some .working ∧
            now - (Option.map StampedState.evidenceAt (some p)).getD 0 ≤ cfg.dwellMs) :=
          fun h => hr.settled (Option.some.inj h.1)
        simp only [if_neg hnot]
        exact agrees_publishFrom hsource hdetail
      | none =>
        rw [shows_none.mp hi]
        exact ⟨fun _ => trivial, fun _ => agrees_hold _ _⟩

/-- **When the quiet-pane shortcut agrees with the full path.** For a reusable stamp, on a pane
that is not scrolled and with the agent's pid unchanged, capturing the screen now and folding
it answers the stamp's state, detail and source exactly when the screen agrees. -/
theorem quiet_agrees_iff {windowActivity pid : Nat} {foregroundIsAgent : Bool}
    (hreuse : canReuseStamp p windowActivity foregroundIsAgent cfg now = true) (hpid : pid = p.pid)
    (hscrolled : snap.scrolled = false) (hcaptured : snap.capturedAt = now) :
    Agrees p (captureAndFold p pid foregroundIsAgent engine snap capture cfg now) ↔
      ScreenAgrees p foregroundIsAgent engine.rules snap now := by
  have hr := reusable_of_canReuse hreuse
  subst hpid
  have hreset : ∀ (fg hist : Bool), episodeReset (some p)
      { pid := p.pid, foregroundIsAgent := fg, scrolled := false, historyView := hist } = false := by
    simp [episodeReset]
  simp only [captureAndFold, verdict, verdictWithProgram, ScreenAgrees, hscrolled, hreset,
    latest_freshHook_none evaluate_noHook, evaluate_historyView]
  cases foregroundIsAgent with
  | false => exact agrees_capped rfl
  | true =>
    cases hh : showsHistory engine.rules snap with
    | true =>
      have hheld : Agrees p (hold (some p) "frozen: history view" false now) := agrees_hold _ _
      exact ⟨fun _ => .inl rfl, fun _ => hheld⟩
    | false =>
      cases hp : p.protected with
      | true =>
        have hsome : protectedHook (some p) = some p := protectedHook_some hp
        simp only [Bool.not_true, Bool.false_eq_true, if_false, if_true, Bool.false_or, false_or, hsome]
        exact agrees_hook hp hr hcaptured
      | false =>
        have hnone : protectedHook (some p) = none := by
          simp [protectedHook, hp]
        simp only [Bool.not_true, Bool.false_eq_true, if_false, if_true, Bool.false_or, false_or, hnone]
        exact agrees_screen hr

/-! ### Samples -/

/-- A permission dialog, and the rule that reads it. -/
def dialogEngine : RuleEngine where
  rules :=
    [{ state := .blocked
       detail := some { token := "permission" }
       priority := 0
       region := .tailLines 5
       skipStateUpdate := false
       matcher := .contains "proceed?".toList }]

def dialogScreen (now : Nat) : PaneSnapshot :=
  { title := [], tailText := "Do you want to proceed?".toList, scrollPosition := none, visibleHeight := none
    capturedAt := now }

/-- A hook's idle stamp over a screen an earlier cycle had captured. -/
def quietIdleHook : StampedState :=
  { idleHook with evidenceAt := 1700000002000, since := 1700000002000, stampedAt := 1700000002000 }

theorem quiet_agrees_iff_capped :
    Agrees quietIdleHook
      (captureAndFold quietIdleHook 7 false dialogEngine (dialogScreen 1700000005000) { visible := [] } {}
        1700000005000) :=
  (quiet_agrees_iff (show canReuseStamp quietIdleHook 1700000000 false {} 1700000005000 = true by decide) rfl rfl
    rfl).mpr (by simp [ScreenAgrees]; decide)

/-- **The shortcut hides a carve-out.** Three seconds after a hook reported idle, well inside its
decay window and with nothing written to the window since, the dialog still on the screen
would carve the claim out as blocked; the stamp is reused instead. -/
theorem quiet_hides_blocker :
    ¬ ∀ (p : StampedState) (engine : RuleEngine) (snap : PaneSnapshot) (capture : CaptureManifest) (cfg : FoldConfig)
        (now windowActivity pid : Nat) (foregroundIsAgent : Bool),
        canReuseStamp p windowActivity foregroundIsAgent cfg now = true → pid = p.pid → snap.scrolled = false →
        snap.capturedAt = now → Agrees p (captureAndFold p pid foregroundIsAgent engine snap capture cfg now) := by
  intro h
  have hagrees := h quietIdleHook dialogEngine (dialogScreen 1700000005000) { visible := [] } {} 1700000005000
    1700000000 7 true (by decide) rfl rfl rfl
  exact absurd hagrees.1 (by decide)

end Paths

end TmuxAgents
