/-
What the fold may do to a protected hook claim: when its state changes
(`protected_claim_changes`), and what a kept claim's evidence time becomes
(`evidence_time_kept`).
-/
import TmuxAgents.Fold.Verdict
import TmuxAgents.Persist.Publish

namespace TmuxAgents

/-! ## The write plan -/

def guardForVerdict (v : Verdict) : Guard :=
  if v.writes.episodeReset then .unconditional
  else if v.writes.mayOverride then .unconditional
  else
    match v.winningEvidence.source with
    | .hook => .refreshClaim v.state
    | _ => if v.state = .blocked then .carveOut v.winningEvidence.at_ else .protectHook

def planFromVerdict (paneId : String) (v : Verdict) (pid : Nat) (name : Text) (hash now : Nat) : StampPlan :=
  match v.writes.action with
  | .hold => .hold now (some hash)
  | .publish =>
    .publish
      { paneId
        state := v.state
        detail := v.detail
        source := v.winningEvidence.source
        evidenceAt := v.winningEvidence.at_
        since := v.winningEvidence.at_
        stampedAt := now
        hash := some hash
        pid
        name
        setAttention := v.writes.setAttention
        episodeReset := v.writes.episodeReset
        guard := guardForVerdict v }

/-- A publish carries the verdict's evidence time. -/
theorem planFromVerdict_evidenceAt {paneId : String} {v : Verdict} {pid : Nat} {name : Text} {hash now : Nat}
    {publish : Publish} (h : planFromVerdict paneId v pid name hash now = .publish publish) :
    publish.evidenceAt = v.winningEvidence.at_ := by
  simp only [planFromVerdict] at h
  split at h
  · cases h
  · injection h with h
    rw [← h]

/-! ## The ladder for a protected claim -/

theorem latest_freshHook_none {evidence : List Evidence} (h : ∀ e ∈ evidence, e.freshHook = false) :
    latest evidence Evidence.freshHook = none := latest_none.mpr h

theorem protectedHook_some {p : StampedState} (h : p.protected = true) : protectedHook (some p) = some p := by
  simp [protectedHook, h]

theorem StampedState.protected_iff {p : StampedState} : p.protected = true ↔ p.source = .hook ∧ p.state ≠ .unknown := by
  simp [StampedState.protected]

/-- The pane's screen is looked at. -/
def SnapshotFacts.readable (facts : SnapshotFacts) : Prop :=
  facts.foregroundIsAgent = true ∧ facts.scrolled = false ∧ facts.historyView = false

instance (facts : SnapshotFacts) : Decidable facts.readable :=
  inferInstanceAs (Decidable (_ ∧ _ ∧ _))

section Protected

variable {p : StampedState} {facts : SnapshotFacts} {evidence : List Evidence} {capture : CaptureManifest}
  {cfg : FoldConfig} {now : Nat}

/-- With no agent in the foreground and none walkable, the claim expires. -/
theorem verdict_gone (hpid : episodeReset (some p) facts = false) (hno : ∀ e ∈ evidence, e.freshHook = false)
    (hfg : facts.foregroundIsAgent = false) (hgone : facts.pid = 0) :
    (verdict (some p) facts evidence capture cfg now).state = .unknown ∧
      (verdict (some p) facts evidence capture cfg now).detail = none ∧
      (verdict (some p) facts evidence capture cfg now).winningEvidence.source = .process := by
  simp [verdict, verdictWithProgram, hpid, latest_freshHook_none hno, hfg, capForeground, hgone, finishPublish]

/-- Off the screen, with the agent alive, the claim is held. -/
theorem verdict_unread (hp : p.protected = true) (hpid : episodeReset (some p) facts = false)
    (hno : ∀ e ∈ evidence, e.freshHook = false) (hread : ¬ facts.readable)
    (halive : facts.foregroundIsAgent = true ∨ facts.pid ≠ 0) :
    ∃ label, verdict (some p) facts evidence capture cfg now = hold (some p) label false now := by
  simp only [verdict, verdictWithProgram, hpid, latest_freshHook_none hno]
  cases hfg : facts.foregroundIsAgent with
  | false =>
    have hne : facts.pid ≠ 0 := halive.resolve_left (by simp [hfg])
    refine ⟨"foreground is not the agent; hook claim held (agent alive)", ?_⟩
    simp [capForeground, protectedHook_some hp, hne]
    rfl
  | true =>
    have hfrozen : (facts.scrolled || facts.historyView) = true := by
      simp only [SnapshotFacts.readable, hfg, true_and, not_and] at hread
      cases hs : facts.scrolled with
      | true => rfl
      | false => simpa using hread hs
    refine ⟨if facts.scrolled then "frozen: pane scrolled" else "frozen: history view", ?_⟩
    simp [hfrozen]

/-- On the screen, it is folded against what the screen claims. -/
theorem verdict_read (hp : p.protected = true) (hpid : episodeReset (some p) facts = false)
    (hno : ∀ e ∈ evidence, e.freshHook = false) (hread : facts.readable) :
    verdict (some p) facts evidence capture cfg now =
      foldAgainstHook p (screenClaims evidence) capture cfg now false := by
  obtain ⟨hfg, hscrolled, hhistory⟩ := hread
  simp [verdict, verdictWithProgram, hpid, latest_freshHook_none hno, hfg, hscrolled, hhistory, protectedHook_some hp]

end Protected

/-! ## Against the screen -/

/-- A candidate is on the screen and claims working or idle. -/
theorem candidate_claims {evidence : List Evidence} {c : Evidence} (h : (screenClaims evidence).candidate = some c) :
    ∃ state, c ∈ evidence ∧ c.shows state = true ∧ c.source.onScreen = true ∧ c.claimState = some state ∧
      (state = .working ∨ state = .idle) := by
  simp only [ScreenClaims.candidate, screenClaims] at h
  cases hw : latest evidence (Evidence.shows .working) with
  | some w =>
    rw [hw, Option.some_or, Option.some.injEq] at h
    subst h
    have hs := latest_shows hw
    exact ⟨.working, (latest_some hw).1, (latest_some hw).2.1, hs.1, hs.2, .inl rfl⟩
  | none =>
    rw [hw, Option.none_or] at h
    have hs := latest_shows h
    exact ⟨.idle, (latest_some h).1, (latest_some h).2.1, hs.1, hs.2, .inr rfl⟩

/-- The claim that would corroborate `p`: a blocker for a blocked one, else the candidate of its
state on an unblocked screen. -/
def ScreenClaims.corroborator (p : StampedState) (claims : ScreenClaims) : Option Evidence :=
  match claims.blocker with
  | some b => if p.state = .blocked then some b else none
  | none => claims.candidate.filter fun c => c.claimState = some p.state

/-- The dwell applies: idle chrome under a working claim this fresh. -/
def Dwells (p : StampedState) (c : Evidence) (cfg : FoldConfig) (now : Nat) : Prop :=
  p.state = .working ∧ c.claimState = some .idle ∧ now - p.evidenceAt ≤ cfg.dwellMs

/-- The decay window of a capture-visible claim has passed. -/
def Decayed (p : StampedState) (capture : CaptureManifest) (cfg : FoldConfig) (now : Nat) : Prop :=
  cfg.decayMsFor p.state < now - p.evidenceAt ∧ p.state ∈ capture.visible

/-- What screen evidence makes of a protected claim. -/
inductive AgainstHook (p : StampedState) (claims : ScreenClaims) (capture : CaptureManifest) (cfg : FoldConfig)
    (now : Nat) : Verdict → Prop
  | corroborated {e : Evidence} (by' : claims.corroborator p = some e) :
    AgainstHook p claims capture cfg now (corroborate p e false)
  | carved {b : Evidence} (blocker : claims.blocker = some b) (unblocked : p.state ≠ .blocked)
    (newer : p.evidenceAt < b.at_) :
    AgainstHook p claims capture cfg now (finishPublish (publishFrom b .blocked) (some p) false)
  | older {b : Evidence} {label : String} (blocker : claims.blocker = some b) (unblocked : p.state ≠ .blocked)
    (older : b.at_ ≤ p.evidenceAt) : AgainstHook p claims capture cfg now (hold (some p) label false now)
  | unseen {label : String} (blocker : claims.blocker = none) (candidate : claims.candidate = none) :
    AgainstHook p claims capture cfg now (hold (some p) label false now)
  | suppressed {c : Evidence} {label : String} (blocker : claims.blocker = none)
    (candidate : claims.candidate = some c) (contrary : c.claimState ≠ some p.state)
    (held : ¬ Decayed p capture cfg now ∨ Dwells p c cfg now) :
    AgainstHook p claims capture cfg now (hold (some p) label false now)
  | expired {c : Evidence} {publish : PendingPublish} (blocker : claims.blocker = none)
    (candidate : claims.candidate = some c) (contrary : c.claimState ≠ some p.state)
    (decayed : Decayed p capture cfg now) (undwelt : ¬ Dwells p c cfg now)
    (state : some publish.state = c.claimState) (source : publish.source = .capture) :
    AgainstHook p claims capture cfg now (finishPublish publish (some p) false)

theorem foldAgainstHook_cases (p : StampedState) (evidence : List Evidence) (capture : CaptureManifest)
    (cfg : FoldConfig) (now : Nat) :
    AgainstHook p (screenClaims evidence) capture cfg now
      (foldAgainstHook p (screenClaims evidence) capture cfg now false) := by
  simp only [foldAgainstHook]
  cases hb : (screenClaims evidence).blocker with
  | some b =>
    dsimp only
    by_cases hblocked : p.state = .blocked
    · rw [if_pos hblocked]
      exact .corroborated (by rw [ScreenClaims.corroborator, hb]; exact if_pos hblocked)
    · rw [if_neg hblocked]
      by_cases hnew : p.evidenceAt < b.at_
      · rw [if_pos hnew]
        exact .carved hb hblocked hnew
      · rw [if_neg hnew]
        exact .older hb hblocked (by omega)
  | none =>
    cases hc : (screenClaims evidence).candidate with
    | none => exact .unseen hb hc
    | some c =>
      obtain ⟨state, -, -, honscreen, hstate, -⟩ := candidate_claims hc
      dsimp only
      simp only [hstate, Option.getD_some]
      by_cases hsame : state = p.state
      · rw [if_pos hsame]
        refine .corroborated ?_
        rw [ScreenClaims.corroborator, hb, hc]
        simp [hstate, hsame]
      · rw [if_neg hsame]
        have hcontrary : c.claimState ≠ some p.state := by
          rw [hstate]
          exact fun h => hsame (Option.some.inj h)
        split
        · rename_i hd
          exact .suppressed hb hc hcontrary (.inl hd)
        · rename_i hd
          split
          · rename_i hw
            exact .suppressed hb hc hcontrary (.inr ⟨hw.1, by rw [hstate, hw.2.1], hw.2.2⟩)
          · rename_i hw
            refine .expired hb hc hcontrary (not_not.mp hd) ?_ hstate.symm (Source.provenance_onScreen honscreen)
            rintro ⟨hworking, hidle, hfresh⟩
            rw [hstate, Option.some.injEq] at hidle
            exact hw ⟨hworking, hidle, hfresh⟩

/-! ## State changes -/

/-- The foreground is not the agent and no agent process is walkable. -/
def Gone (facts : SnapshotFacts) : Prop := facts.foregroundIsAgent = false ∧ facts.pid = 0

/-- Blocker chrome newer than the evidence of a working or idle claim. -/
def CarvedOut (p : StampedState) (facts : SnapshotFacts) (evidence : List Evidence) : Prop :=
  facts.readable ∧ (p.state = .working ∨ p.state = .idle) ∧
    ∃ b, latest evidence (Evidence.shows .blocked) = some b ∧ p.evidenceAt < b.at_

/-- Contrary chrome `c` on an unblocked screen, past the decay window of a capture-visible state. -/
def ExpiredBy (p : StampedState) (facts : SnapshotFacts) (evidence : List Evidence) (capture : CaptureManifest)
    (cfg : FoldConfig) (now : Nat) (c : Evidence) : Prop :=
  facts.readable ∧ latest evidence (Evidence.shows .blocked) = none ∧
    (latest evidence (Evidence.shows .working)).or (latest evidence (Evidence.shows .idle)) = some c ∧
    c.claimState ≠ some p.state ∧ Decayed p capture cfg now ∧ ¬ Dwells p c cfg now

section Changes

variable {p : StampedState} {facts : SnapshotFacts} {evidence : List Evidence} {capture : CaptureManifest}
  {cfg : FoldConfig} {now : Nat}

/-- What changes the state against the screen, and to what. -/
theorem AgainstHook.state_ne {v : Verdict} (h : AgainstHook p (screenClaims evidence) capture cfg now v)
    (hp : p.protected = true) (hread : facts.readable) :
    (v.state = p.state ∧ ¬ CarvedOut p facts evidence ∧ ∀ c, ¬ ExpiredBy p facts evidence capture cfg now c) ∨
      (v.state = .blocked ∧ p.state ≠ .blocked ∧ CarvedOut p facts evidence) ∨
      ∃ c, some v.state = c.claimState ∧ v.state ≠ p.state ∧ ExpiredBy p facts evidence capture cfg now c := by
  have hknown := (StampedState.protected_iff.mp hp).2
  -- a slot's claim is the freshest of its kind, whichever way it is asked for
  have hcand : ∀ c, (latest evidence (Evidence.shows .working)).or (latest evidence (Evidence.shows .idle)) = some c →
      (screenClaims evidence).candidate = some c := fun _ h => h
  cases h with
  | @corroborated e corr =>
    refine .inl ⟨rfl, ?_, ?_⟩
    · rintro ⟨-, hstate, b, hb, -⟩
      have hblocker : (screenClaims evidence).blocker = some b := hb
      rw [ScreenClaims.corroborator, hblocker] at corr
      rcases hstate with hs | hs <;> simp [hs] at corr
    · rintro c ⟨-, hb, hc, hne, -⟩
      have hblocker : (screenClaims evidence).blocker = none := hb
      rw [ScreenClaims.corroborator, hblocker, hcand c hc] at corr
      obtain ⟨heq, hsame⟩ := Option.filter_eq_some_iff.mp corr
      rw [Option.some.injEq] at heq
      subst heq
      exact hne (by simpa using hsame)
  | @carved b blocker unblocked newer =>
    refine .inr (.inl ⟨rfl, unblocked, hread, ?_, b, blocker, newer⟩)
    cases hs : p.state with
    | idle => exact .inr rfl
    | working => exact .inl rfl
    | blocked => exact absurd hs unblocked
    | unknown => exact absurd hs hknown
  | @older b label blocker unblocked older =>
    refine .inl ⟨rfl, ?_, ?_⟩
    · rintro ⟨-, -, b', hb', hlt⟩
      have heq : some b = some b' := blocker.symm.trans hb'
      injection heq with heq
      subst heq
      omega
    · rintro c ⟨-, hb, -⟩
      have heq : some b = none := blocker.symm.trans hb
      cases heq
  | unseen blocker candidate =>
    refine .inl ⟨rfl, ?_, ?_⟩
    · rintro ⟨-, -, b, hb, -⟩
      have heq : none = some b := blocker.symm.trans hb
      cases heq
    · rintro c ⟨-, -, hc, -⟩
      have heq : none = some c := candidate.symm.trans (hcand c hc)
      cases heq
  | @suppressed c label blocker candidate contrary held =>
    refine .inl ⟨rfl, ?_, ?_⟩
    · rintro ⟨-, -, b, hb, -⟩
      have heq : none = some b := blocker.symm.trans hb
      cases heq
    · rintro c' ⟨-, -, hc, -, hdecayed, hdwell⟩
      have heq : some c = some c' := candidate.symm.trans (hcand c' hc)
      injection heq with heq
      subst heq
      rcases held with hn | hw
      · exact hn hdecayed
      · exact hdwell hw
  | @expired c publish blocker candidate contrary decayed undwelt state source =>
    refine .inr (.inr ⟨c, state, ?_, hread, blocker, candidate, contrary, decayed, undwelt⟩)
    intro heq
    have heq : publish.state = p.state := heq
    exact contrary (by rw [← state, heq])

/-- The fold of a protected claim: gone, held unread, or folded against the screen. -/
theorem verdict_protected (hp : p.protected = true) (hno : ∀ e ∈ evidence, e.freshHook = false)
    (hpid : episodeReset (some p) facts = false) :
    (Gone facts ∧ (verdict (some p) facts evidence capture cfg now).state = .unknown ∧
        (verdict (some p) facts evidence capture cfg now).winningEvidence.source = .process) ∨
      (¬ Gone facts ∧ ¬ facts.readable ∧
        ∃ label, verdict (some p) facts evidence capture cfg now = hold (some p) label false now) ∨
      (facts.readable ∧ AgainstHook p (screenClaims evidence) capture cfg now
        (verdict (some p) facts evidence capture cfg now)) := by
  by_cases hgone : Gone facts
  · have hv : (verdict (some p) facts evidence capture cfg now).state = .unknown ∧ _ :=
      verdict_gone hpid hno hgone.1 hgone.2
    exact .inl ⟨hgone, hv.1, hv.2.2⟩
  · by_cases hread : facts.readable
    · rw [verdict_read hp hpid hno hread]
      exact .inr (.inr ⟨hread, foldAgainstHook_cases p evidence capture cfg now⟩)
    · have halive : facts.foregroundIsAgent = true ∨ facts.pid ≠ 0 := by
        by_cases hfg : facts.foregroundIsAgent = true
        · exact .inl hfg
        · exact .inr fun hz => hgone ⟨by simpa using hfg, hz⟩
      exact .inr (.inl ⟨hgone, hread, verdict_unread hp hpid hno hread halive⟩)

theorem Gone.not_readable (h : Gone facts) : ¬ facts.readable := by
  rintro ⟨hfg, -⟩
  rw [h.1] at hfg
  cases hfg

/-- A contrary slot's claim is contrary evidence. -/
theorem contrary_of_changes (h : CarvedOut p facts evidence ∨ ∃ c, ExpiredBy p facts evidence capture cfg now c) :
    ∃ e ∈ evidence, ∃ state, e.shows state = true ∧ state ≠ p.state ∧ state ≠ .unknown := by
  rcases h with ⟨-, hstate, b, hb, -⟩ | ⟨c, -, -, hc, hne, -⟩
  · obtain ⟨hmem, hshows, -⟩ := latest_some hb
    refine ⟨b, hmem, .blocked, hshows, ?_, by simp⟩
    rcases hstate with hs | hs <;> simp [hs]
  · obtain ⟨state, hmem, hshows, -, hclaim, hstate⟩ := candidate_claims hc
    refine ⟨c, hmem, state, hshows, ?_, ?_⟩
    · intro heq
      exact hne (by rw [hclaim, heq])
    · rcases hstate with hs | hs <;> simp [hs]

variable (capture cfg now) in
/-- The verdict's state, by what the claim meets. -/
theorem verdict_state (hp : p.protected = true) (hno : ∀ e ∈ evidence, e.freshHook = false)
    (hpid : episodeReset (some p) facts = false) :
    (Gone facts ∧ (verdict (some p) facts evidence capture cfg now).state = .unknown) ∨
      (CarvedOut p facts evidence ∧ (verdict (some p) facts evidence capture cfg now).state = .blocked) ∨
      (∃ c, ExpiredBy p facts evidence capture cfg now c ∧
        some (verdict (some p) facts evidence capture cfg now).state = c.claimState) ∨
      (¬ Gone facts ∧ ¬ CarvedOut p facts evidence ∧ (∀ c, ¬ ExpiredBy p facts evidence capture cfg now c) ∧
        (verdict (some p) facts evidence capture cfg now).state = p.state) := by
  have hcases : _ ∨ _ ∨ facts.readable ∧ AgainstHook p (screenClaims evidence) capture cfg now
      (verdict (some p) facts evidence capture cfg now) := verdict_protected hp hno hpid
  rcases hcases with ⟨hgone, hv, -⟩ | ⟨hgone, hread, label, hv⟩ | ⟨hread, hv⟩
  · exact .inl ⟨hgone, hv⟩
  · refine .inr (.inr (.inr ⟨hgone, fun h => hread h.1, fun c h => hread h.1, ?_⟩))
    rw [hv]
    rfl
  · rcases hv.state_ne hp hread with ⟨hsame, hcarved, hexpired⟩ | ⟨hv, -, hcarved⟩ | ⟨c, hv, -, hexpired⟩
    · exact .inr (.inr (.inr ⟨fun h => h.not_readable hread, hcarved, hexpired, hsame⟩))
    · exact .inr (.inl ⟨hcarved, hv⟩)
    · exact .inr (.inr (.inl ⟨c, hexpired, hv⟩))

/-- Only one of the ways applies. -/
theorem CarvedOut.not_expired (h : CarvedOut p facts evidence) (c : Evidence) :
    ¬ ExpiredBy p facts evidence capture cfg now c := by
  obtain ⟨-, -, b, hb, -⟩ := h
  rintro ⟨-, hnone, -⟩
  rw [hb] at hnone
  cases hnone

/-- **What changes a protected hook claim.** Its state changes exactly when the agent is gone,
when newer blocker chrome carves a working or idle claim out, or when contrary chrome finds it
decayed and capture-visible; each says what it changes to. Without contrary evidence, and with
an agent there, no passage of time changes it. -/
theorem protected_claim_changes (hsource : p.source = .hook) (hstate : p.state ≠ .unknown)
    (hno : ∀ e ∈ evidence, e.freshHook = false) (hpid : episodeReset (some p) facts = false) :
    ((verdict (some p) facts evidence capture cfg now).state ≠ p.state ↔
      Gone facts ∨ CarvedOut p facts evidence ∨ ∃ c, ExpiredBy p facts evidence capture cfg now c) ∧
    (Gone facts → (verdict (some p) facts evidence capture cfg now).state = .unknown) ∧
    (CarvedOut p facts evidence → (verdict (some p) facts evidence capture cfg now).state = .blocked) ∧
    (∀ c, ExpiredBy p facts evidence capture cfg now c →
      some (verdict (some p) facts evidence capture cfg now).state = c.claimState) ∧
    (¬ Gone facts → (∀ e ∈ evidence, ∀ state, e.shows state = true → state = p.state ∨ state = .unknown) →
      ∀ later, (verdict (some p) facts evidence capture cfg later).state = p.state) := by
  have hp : p.protected = true := StampedState.protected_iff.mpr ⟨hsource, hstate⟩
  refine ⟨⟨fun hne => ?_, fun hchange => ?_⟩, fun hgone => ?_, fun hcarved => ?_, fun c hexpired => ?_,
    fun hgone hagree later => ?_⟩
  · rcases verdict_state capture cfg now hp hno hpid with ⟨h, -⟩ | ⟨h, -⟩ | ⟨c, h, -⟩ | ⟨-, -, -, h⟩
    · exact .inl h
    · exact .inr (.inl h)
    · exact .inr (.inr ⟨c, h⟩)
    · exact absurd h hne
  · rcases verdict_state capture cfg now hp hno hpid with ⟨-, h⟩ | ⟨hc, h⟩ | ⟨c, hc, h⟩ | ⟨h₁, h₂, h₃, -⟩
    · rw [h]
      exact fun heq => hstate heq.symm
    · rw [h]
      rcases hc.2.1 with hs | hs <;> simp [hs]
    · exact fun heq => hc.2.2.2.1 (by rw [← h, heq])
    · rcases hchange with hgone | hcarved | ⟨c, hexpired⟩
      · exact absurd hgone h₁
      · exact absurd hcarved h₂
      · exact absurd hexpired (h₃ c)
  · rcases verdict_state capture cfg now hp hno hpid with ⟨-, h⟩ | ⟨hc, -⟩ | ⟨c, hc, -⟩ | ⟨h, -⟩
    · exact h
    · exact absurd hc.1 hgone.not_readable
    · exact absurd hc.1 hgone.not_readable
    · exact absurd hgone h
  · rcases verdict_state capture cfg now hp hno hpid with ⟨hgone, -⟩ | ⟨-, h⟩ | ⟨c, hc, -⟩ | ⟨-, h, -⟩
    · exact absurd hcarved.1 hgone.not_readable
    · exact h
    · exact absurd hc (hcarved.not_expired c)
    · exact absurd hcarved h
  · rcases verdict_state capture cfg now hp hno hpid with ⟨hgone, -⟩ | ⟨hc, -⟩ | ⟨c', hc, h⟩ | ⟨-, -, h, -⟩
    · exact absurd hexpired.1 hgone.not_readable
    · exact absurd hexpired (hc.not_expired c)
    · have heq : some c' = some c := hc.2.2.1.symm.trans hexpired.2.2.1
      rw [h, Option.some.inj heq]
    · exact absurd hexpired (h c)
  · have hcontrary : ¬ (CarvedOut p facts evidence ∨ ∃ c, ExpiredBy p facts evidence capture cfg later c) := by
      intro hchange
      obtain ⟨e, hmem, state, hshows, hne, hknown⟩ := contrary_of_changes hchange
      exact (hagree e hmem state hshows).elim hne hknown
    rcases verdict_state capture cfg later hp hno hpid with ⟨h, -⟩ | ⟨hc, -⟩ | ⟨c, hc, -⟩ | ⟨-, -, -, h⟩
    · exact absurd h hgone
    · exact absurd (.inl hc) hcontrary
    · exact absurd (.inr ⟨c, hc⟩) hcontrary
    · exact h

/-! ### Samples -/

/-- A hook's idle claim of two seconds ago. -/
def idleHook : StampedState :=
  { state := .idle, detail := none, source := .hook, evidenceAt := 2000, since := 2000, stampedAt := 2000
    attention := false, notifiedAt := none, turnAt := 0, hash := some 1, pid := 7, session := none, subagents := [] }

def agentForeground : SnapshotFacts :=
  { pid := 7, foregroundIsAgent := true, scrolled := false, historyView := false }

/-- What a screen rule claims. -/
def screenEvidence (state : AgentState) (at' : Nat) : Evidence :=
  { source := .screenRule, claim := .state { state, detail := none }, at_ := at', meta_ := "rule #0" }

theorem protected_claim_changes_carved :
    (verdict (some idleHook) agentForeground [screenEvidence .blocked 4000] { visible := [] } {} 4000).state =
      .blocked :=
  (protected_claim_changes (by decide) (by decide) (by decide) (by decide)).2.2.1
    ⟨by decide, .inr rfl, screenEvidence .blocked 4000, by decide, by decide⟩

/-! ## The evidence time -/

/-- The claim that corroborates `p` in this cycle, if one does. -/
def corroborating (p : StampedState) (facts : SnapshotFacts) (evidence : List Evidence) : Option Evidence :=
  if facts.readable then (screenClaims evidence).corroborator p else none

/-- A verdict that keeps the hook claim does not take its evidence time back, nor does its plan. -/
def KeepsEvidenceTime (p : StampedState) (v : Verdict) : Prop :=
  v.state = p.state → v.winningEvidence.source = .hook →
    p.evidenceAt ≤ v.winningEvidence.at_ ∧
      ∀ paneId pid name hash now publish, planFromVerdict paneId v pid name hash now = .publish publish →
        p.evidenceAt ≤ publish.evidenceAt

theorem keepsEvidenceTime_iff {v : Verdict} :
    KeepsEvidenceTime p v ↔
      (v.state = p.state → v.winningEvidence.source = .hook → p.evidenceAt ≤ v.winningEvidence.at_) := by
  constructor
  · exact fun h hstate hsource => (h hstate hsource).1
  · intro h hstate hsource
    refine ⟨h hstate hsource, ?_⟩
    intro paneId pid name hash now publish hplan
    rw [planFromVerdict_evidenceAt hplan]
    exact h hstate hsource

/-- Where nothing corroborates the claim, its time stands if the verdict's does. -/
theorem keepsEvidenceTime_uncorroborated {v : Verdict} {corroborator : Option Evidence} (hnone : corroborator = none)
    (h : v.state = p.state → v.winningEvidence.source = .hook → p.evidenceAt ≤ v.winningEvidence.at_) :
    KeepsEvidenceTime p v ↔ ∀ e, corroborator = some e → p.evidenceAt ≤ e.at_ := by
  refine ⟨fun _ e he => ?_, fun _ => keepsEvidenceTime_iff.mpr h⟩
  rw [hnone] at he
  cases he

theorem AgainstHook.keepsEvidenceTime {v : Verdict} (h : AgainstHook p (screenClaims evidence) capture cfg now v) :
    KeepsEvidenceTime p v ↔ ∀ e, (screenClaims evidence).corroborator p = some e → p.evidenceAt ≤ e.at_ := by
  cases h with
  | @corroborated e corr =>
    rw [corr, keepsEvidenceTime_iff]
    constructor
    · intro hk e' he
      rw [← Option.some.inj he]
      exact hk rfl rfl
    · exact fun hk _ _ => hk e rfl
  | @carved b blocker unblocked newer =>
    refine keepsEvidenceTime_uncorroborated ?_ fun hstate => absurd hstate.symm unblocked
    rw [ScreenClaims.corroborator, blocker]
    exact if_neg unblocked
  | @older b label blocker unblocked older =>
    refine keepsEvidenceTime_uncorroborated ?_ fun _ _ => le_refl _
    rw [ScreenClaims.corroborator, blocker]
    exact if_neg unblocked
  | unseen blocker candidate =>
    refine keepsEvidenceTime_uncorroborated ?_ fun _ _ => le_refl _
    rw [ScreenClaims.corroborator, blocker, candidate]
    rfl
  | @suppressed c label blocker candidate contrary held =>
    refine keepsEvidenceTime_uncorroborated ?_ fun _ _ => le_refl _
    rw [ScreenClaims.corroborator, blocker, candidate]
    simp [contrary]
  | @expired c publish blocker candidate contrary decayed undwelt state source =>
    refine keepsEvidenceTime_uncorroborated ?_ fun hstate => ?_
    · rw [ScreenClaims.corroborator, blocker, candidate]
      simp [contrary]
    · have heq : publish.state = p.state := hstate
      exact absurd (by rw [← state, heq]) contrary

/-- **When a kept claim's evidence time stands.** A verdict that keeps a protected hook claim
leaves its evidence time at or past the stamp's exactly when the claim that corroborates it,
if there is one, is no older than the stamp. -/
theorem evidence_time_kept (hsource : p.source = .hook) (hstate : p.state ≠ .unknown)
    (hno : ∀ e ∈ evidence, e.freshHook = false) (hpid : episodeReset (some p) facts = false) :
    KeepsEvidenceTime p (verdict (some p) facts evidence capture cfg now) ↔
      ∀ e, corroborating p facts evidence = some e → p.evidenceAt ≤ e.at_ := by
  have hp : p.protected = true := StampedState.protected_iff.mpr ⟨hsource, hstate⟩
  have hcases : _ ∨ _ ∨ facts.readable ∧ AgainstHook p (screenClaims evidence) capture cfg now
      (verdict (some p) facts evidence capture cfg now) := verdict_protected hp hno hpid
  rcases hcases with ⟨hgone, -, hprocess⟩ | ⟨-, hread, label, hv⟩ | ⟨hread, hv⟩
  · refine keepsEvidenceTime_uncorroborated (if_neg hgone.not_readable) fun _ hhook => ?_
    rw [hprocess] at hhook
    cases hhook
  · refine keepsEvidenceTime_uncorroborated (if_neg hread) fun _ _ => ?_
    rw [hv]
    exact le_refl _
  · rw [corroborating, if_pos hread]
    exact hv.keepsEvidenceTime

theorem evidence_time_kept_corroborated :
    KeepsEvidenceTime idleHook
      (verdict (some idleHook) agentForeground [screenEvidence .idle 4000] { visible := [] } {} 4000) :=
  (evidence_time_kept (by decide) (by decide) (by decide) (by decide)).mpr (by decide)

/-- **A capture older than the hook takes it back.** The cycle sampled its clock, and captured,
one second before the hook's stamp landed; the idle chrome it saw then rewinds the claim. -/
theorem evidence_time_rewound :
    ¬ ∀ (p : StampedState) (facts : SnapshotFacts) (evidence : List Evidence) (capture : CaptureManifest)
        (cfg : FoldConfig) (now : Nat), p.source = .hook → p.state ≠ .unknown →
        (∀ e ∈ evidence, e.freshHook = false) → episodeReset (some p) facts = false →
        KeepsEvidenceTime p (verdict (some p) facts evidence capture cfg now) := by
  intro h
  have hkept := h idleHook agentForeground [screenEvidence .idle 1000] { visible := [] } {} 1000 (by decide)
    (by decide) (by decide) (by decide)
  exact absurd (hkept (by decide) (by decide)).1 (by decide)

end Changes

end TmuxAgents
