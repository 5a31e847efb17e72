/-
The screen-rule engine (`engine.rs`): a snapshot's regions, the compiled
matchers, and the one claim a state that the rules make of it. A regex is the
texts it matches.

`RuleEngine.evaluate_shows` says which rule speaks for a state: the first of the
highest priority among those that match.
-/
import Mathlib.Data.Char
import Mathlib.Data.List.Lex
import Mathlib.Data.List.Sort
import TmuxAgents.Fold.Evidence

namespace TmuxAgents

/-! ## Text -/

/-- `split_inclusive` on newlines. -/
def splitInclusive : Text → List Text
  | [] => []
  | c :: rest =>
    if c = '\n' then [c] :: splitInclusive rest
    else
      match splitInclusive rest with
      | [] => [[c]]
      | line :: lines => (c :: line) :: lines

/-- A line without its newline, and without a carriage return before it. -/
def stripNewline (line : Text) : Text :=
  if line.getLast? = some '\n' then
    let line := line.dropLast
    if line.getLast? = some '\r' then line.dropLast else line
  else line

/-- `str::lines`. -/
def textLines (text : Text) : List Text := (splitInclusive text).map stripNewline

def joinLines (lines : List Text) : Text := ['\n'].intercalate lines

/-- Where `strip_ansi` is in an escape sequence. -/
inductive AnsiMode
  | text
  | escape
  | csi
  | osc
  | oscEscape

def stripAnsiFrom : AnsiMode → Text → Text
  | _, [] => []
  | .text, c :: rest => if c = '\x1b' then stripAnsiFrom .escape rest else c :: stripAnsiFrom .text rest
  | .escape, c :: rest =>
    if c = '[' then stripAnsiFrom .csi rest
    else if c = ']' then stripAnsiFrom .osc rest
    else stripAnsiFrom .text rest
  | .csi, c :: rest =>
    if 0x40 ≤ c.toNat ∧ c.toNat ≤ 0x7e then stripAnsiFrom .text rest else stripAnsiFrom .csi rest
  | .osc, c :: rest =>
    if c = '\x07' then stripAnsiFrom .text rest
    else if c = '\x1b' then stripAnsiFrom .oscEscape rest
    else stripAnsiFrom .osc rest
  | .oscEscape, c :: rest =>
    if c = '\\' then stripAnsiFrom .text rest
    else if c = '\x1b' then stripAnsiFrom .escape rest
    else c :: stripAnsiFrom .text rest

def stripAnsi (text : Text) : Text := stripAnsiFrom .text text

/-! ## Regions -/

inductive Region
  | tailLines (n : Nat)
  | bottomNonEmptyLines (n : Nat)
  | visible
  | title
deriving DecidableEq

def regionLabel : Region → String
  | .title => "title"
  | .visible => "visible"
  | .tailLines n => "tail_lines(" ++ toString n ++ ")"
  | .bottomNonEmptyLines n => "bottom_non_empty_lines(" ++ toString n ++ ")"

/-- What the rules read of a pane in a cycle. -/
structure PaneSnapshot where
  title : Text
  tailText : Text
  scrollPosition : Option Nat
  visibleHeight : Option Nat
  capturedAt : Nat
deriving DecidableEq

namespace PaneSnapshot

def scrolled (snap : PaneSnapshot) : Bool := snap.scrollPosition.any fun n => 0 < n

end PaneSnapshot

/-- The last lines of a list. -/
def lastLines (n : Nat) (lines : List Text) : List Text := lines.drop (lines.length - n)

/-- A line with nothing left of it once stripped. -/
def blankLine (line : Text) : Bool := (stripAnsi line).all isWhitespace

def extractRegion (region : Region) (snap : PaneSnapshot) : Text :=
  match region with
  | .title => stripAnsi snap.title
  | .tailLines n => stripAnsi (joinLines (lastLines n (textLines snap.tailText)))
  | .bottomNonEmptyLines n =>
    let content := ((textLines snap.tailText).reverse.dropWhile blankLine).reverse
    stripAnsi (joinLines (lastLines n content))
  | .visible =>
    match snap.visibleHeight with
    | some h => stripAnsi (joinLines (lastLines h (textLines snap.tailText)))
    | none => stripAnsi (joinLines (textLines snap.tailText))

/-! ## Matchers -/

/-- A compiled matcher tree. -/
inductive CompiledMatcher
  | contains (s : Text)
  | regex (isMatch : Text → Bool)
  | lineRegex (isMatch : Text → Bool)
  | lastMatchingLine (selector predicate : CompiledMatcher)
  | any (matchers : List CompiledMatcher)
  | all (matchers : List CompiledMatcher)
  | not (matcher : CompiledMatcher)

mutual

def CompiledMatcher.matches : CompiledMatcher → Text → Bool
  | .contains s, text => decide (s <:+: text)
  | .regex isMatch, text => isMatch text
  | .lineRegex isMatch, text => (textLines text).any isMatch
  | .lastMatchingLine selector predicate, text =>
    match (textLines text).reverse.find? selector.matches with
    | some line => predicate.matches line
    | none => false
  | .any matchers, text => anyMatches matchers text
  | .all matchers, text => allMatches matchers text
  | .not matcher, text => !matcher.matches text

def anyMatches : List CompiledMatcher → Text → Bool
  | [], _ => false
  | matcher :: matchers, text => matcher.matches text || anyMatches matchers text

def allMatches : List CompiledMatcher → Text → Bool
  | [], _ => true
  | matcher :: matchers, text => matcher.matches text && allMatches matchers text

end

/-! ## Rules -/

structure CompiledRule where
  state : AgentState
  detail : Option Detail
  priority : Int
  region : Region
  /-- The screen shows history: freeze, do not restate. -/
  skipStateUpdate : Bool
  matcher : CompiledMatcher

def CompiledRule.matched (rule : CompiledRule) (snap : PaneSnapshot) : Bool :=
  rule.matcher.matches (extractRegion rule.region snap)

structure RuleEngine where
  rules : List CompiledRule

/-- One rule's outcome against a snapshot. -/
structure RuleReport where
  index : Nat
  state : AgentState
  detail : Option Detail
  priority : Int
  region : Region
  skipStateUpdate : Bool
  matched : Bool
deriving DecidableEq

structure Evaluation where
  /-- One claim a state, ordered by state. -/
  evidence : List Evidence
  reports : List RuleReport
  historyView : Bool
deriving DecidableEq

/-- The rule that speaks for a state so far, with its index. -/
structure BestRule where
  state : AgentState
  index : Nat
  rule : CompiledRule

/-- What the pass over the rules has found so far. -/
structure Matches where
  reports : List RuleReport
  historyView : Bool
  best : List BestRule

namespace RuleEngine

def noMatches : Matches := { reports := [], historyView := false, best := [] }

/-- The pass's body. -/
def matchRule (snap : PaneSnapshot) (found : Matches) (entry : CompiledRule × Nat) : Matches :=
  let (rule, index) := entry
  let matched := rule.matched snap
  let report : RuleReport :=
    { index, matched
      state := rule.state
      detail := rule.detail
      priority := rule.priority
      region := rule.region
      skipStateUpdate := rule.skipStateUpdate }
  let found := { found with reports := found.reports ++ [report] }
  if !matched then found
  else if rule.skipStateUpdate then { found with historyView := true }
  else if found.best.any fun best => best.state = rule.state then
    { found with
      best := Choose.modifyFirst (fun best => best.state = rule.state)
        (fun best => if best.rule.priority < rule.priority then { best with index, rule } else best) found.best }
  else { found with best := found.best ++ [{ state := rule.state, index, rule }] }

def ruleEvidence (snap : PaneSnapshot) (best : BestRule) : Evidence where
  source := if best.rule.region = .title then .title else .screenRule
  claim := .state { state := best.rule.state, detail := best.rule.detail }
  at_ := snap.capturedAt
  meta_ := "rule #" ++ toString best.index ++ " " ++ String.ofList best.rule.state.token ++ " on " ++
    regionLabel best.rule.region

/-- Match every rule, select one claim a state, flag history. -/
def evaluate (engine : RuleEngine) (snap : PaneSnapshot) : Evaluation :=
  let found := engine.rules.zipIdx.foldl (matchRule snap) noMatches
  { evidence := (found.best.insertionSort fun a b => a.state.token ≤ b.state.token).map (ruleEvidence snap)
    reports := found.reports
    historyView := found.historyView }

/-! ### The rule that speaks for a state -/

/-- Rules that match and claim this state. -/
def speaks (snap : PaneSnapshot) (state : AgentState) (rule : CompiledRule) : Bool :=
  rule.matched snap && !rule.skipStateUpdate && decide (rule.state = state)

/-- The first of the highest priority. -/
def speaker (rules : List CompiledRule) (snap : PaneSnapshot) (state : AgentState) : Option CompiledRule :=
  Choose.minByKey (fun rule => -rule.priority) (rules.filter (speaks snap state))

/-- A rule that matched marks the screen as history. -/
def showsHistory (rules : List CompiledRule) (snap : PaneSnapshot) : Bool :=
  rules.any fun rule => rule.matched snap && rule.skipStateUpdate

/-- What the pass has found after these rules. -/
structure Found (snap : PaneSnapshot) (rules : List CompiledRule) (found : Matches) : Prop where
  history : found.historyView = showsHistory rules snap
  own : ∀ best ∈ found.best, best.rule.state = best.state
  distinct : (found.best.map BestRule.state).Nodup
  speakers : ∀ state, (found.best.find? fun best => best.state = state).map BestRule.rule = speaker rules snap state

theorem Found.start (snap : PaneSnapshot) : Found snap [] noMatches where
  history := rfl
  own := by simp [noMatches]
  distinct := by simp [noMatches]
  speakers := by simp [noMatches, speaker, Choose.minByKey]

/-- A rule that does not speak leaves every state its speaker. -/
theorem speaker_concat_silent {rules : List CompiledRule} {snap : PaneSnapshot} {state : AgentState}
    {rule : CompiledRule} (h : speaks snap state rule = false) :
    speaker (rules ++ [rule]) snap state = speaker rules snap state := by
  simp only [speaker, List.filter_append, List.filter_cons, h, Bool.false_eq_true, if_false, List.filter_nil,
    List.append_nil]

/-- A rule that speaks takes over from one of lower priority. -/
theorem speaker_concat {rules : List CompiledRule} {snap : PaneSnapshot} {state : AgentState} {rule : CompiledRule}
    (h : speaks snap state rule = true) :
    speaker (rules ++ [rule]) snap state = match speaker rules snap state with
      | none => some rule
      | some best => some (if best.priority < rule.priority then rule else best) := by
  simp only [speaker, List.filter_append, List.filter_cons, h, if_true, List.filter_nil, Choose.minByKey_concat,
    Int.neg_lt_neg_iff]
  cases Choose.minByKey (fun rule : CompiledRule => -rule.priority) (rules.filter (speaks snap state)) with
  | none => rfl
  | some best => rfl

theorem speaks_of {snap : PaneSnapshot} {rule : CompiledRule} (hm : rule.matched snap = true)
    (hs : rule.skipStateUpdate = false) (state : AgentState) :
    speaks snap state rule = decide (rule.state = state) := by
  simp [speaks, hm, hs]

theorem Found.step {snap : PaneSnapshot} {rules : List CompiledRule} {found : Matches} (h : Found snap rules found)
    (rule : CompiledRule) (index : Nat) : Found snap (rules ++ [rule]) (matchRule snap found (rule, index)) := by
  have hhistory : showsHistory (rules ++ [rule]) snap =
      (showsHistory rules snap || (rule.matched snap && rule.skipStateUpdate)) := by
    simp [showsHistory]
  simp only [matchRule]
  cases hm : rule.matched snap with
  | false =>
    have hsilent : ∀ state, speaks snap state rule = false := fun state => by simp [speaks, hm]
    refine ⟨?_, h.own, h.distinct, fun state => ?_⟩
    · rw [hhistory, hm]
      simpa using h.history
    · rw [speaker_concat_silent (hsilent state)]
      exact h.speakers state
  | true =>
    cases hs : rule.skipStateUpdate with
    | true =>
      have hsilent : ∀ state, speaks snap state rule = false := fun state => by simp [speaks, hs]
      refine ⟨?_, h.own, h.distinct, fun state => ?_⟩
      · rw [hhistory, hm, hs]
        simp
      · rw [speaker_concat_silent (hsilent state)]
        exact h.speakers state
    | false =>
      have hhist : found.historyView = showsHistory (rules ++ [rule]) snap := by
        rw [hhistory, hs]
        simpa using h.history
      have hspeaks := speaks_of hm hs
      simp only [Bool.not_true, Bool.false_eq_true, if_false]
      by_cases hany : (found.best.any fun best => best.state = rule.state) = true
      · rw [if_pos hany]
        refine ⟨hhist, ?_, ?_, fun state => ?_⟩
        · intro best hbest
          rcases Choose.mem_modifyFirst hbest with hbest | ⟨old, hold, hstate, rfl⟩
          · exact h.own best hbest
          · split
            · exact (of_decide_eq_true hstate).symm
            · exact h.own old hold
        · rw [Choose.map_modifyFirst fun best _ => by split <;> rfl]
          exact h.distinct
        · rw [Choose.find?_modifyFirst fun best hbest => by split <;> exact hbest]
          by_cases hstate : state = rule.state
          · -- the state's own rule: the later of two equal priorities does not take over
            subst hstate
            obtain ⟨old, hold⟩ := List.find?_isSome.mpr (List.any_eq_true.mp hany) |> Option.isSome_iff_exists.mp
            have hprev := h.speakers rule.state
            rw [hold] at hprev
            rw [if_pos rfl, hold, speaker_concat (by simpa using hspeaks rule.state), ← hprev]
            simp only [Option.map_some, Option.some.injEq]
            split <;> rfl
          · rw [if_neg hstate, speaker_concat_silent]
            · exact h.speakers state
            · rw [hspeaks state]
              exact decide_eq_false fun heq => hstate heq.symm
      · rw [if_neg hany]
        have hnone : ∀ best ∈ found.best, best.state ≠ rule.state := by
          intro best hbest heq
          exact hany (List.any_eq_true.mpr ⟨best, hbest, decide_eq_true heq⟩)
        refine ⟨hhist, ?_, ?_, fun state => ?_⟩
        · intro best hbest
          rcases List.mem_append.mp hbest with hbest | hbest
          · exact h.own best hbest
          · rw [List.mem_singleton.mp hbest]
        · rw [List.map_append]
          refine List.nodup_append.mpr ⟨h.distinct, by simp, ?_⟩
          intro a ha b hb heq
          obtain ⟨best, hbest, rfl⟩ := List.mem_map.mp ha
          simp only [List.map_cons, List.map_nil, List.mem_singleton] at hb
          exact hnone best hbest (heq.trans hb)
        · have hprev := h.speakers state
          rw [List.find?_append]
          by_cases hstate : state = rule.state
          · subst hstate
            have hfind : (found.best.find? fun best => decide (best.state = rule.state)) = none := by
              rw [List.find?_eq_none]
              intro best hbest heq
              exact hnone best hbest (of_decide_eq_true heq)
            rw [hfind] at hprev
            rw [hfind, speaker_concat (by simpa using hspeaks rule.state), ← hprev]
            simp
          · have hsilent : speaks snap state rule = false := by
              rw [hspeaks state]
              exact decide_eq_false fun heq => hstate heq.symm
            have hne : ¬ rule.state = state := fun heq => hstate heq.symm
            rw [speaker_concat_silent hsilent, ← hprev]
            simp [hne]

/-- The whole pass. -/
theorem found_evaluate (engine : RuleEngine) (snap : PaneSnapshot) :
    Found snap engine.rules (engine.rules.zipIdx.foldl (matchRule snap) noMatches) := by
  have hrun : ∀ (rules : List CompiledRule) (start : Nat) (seen : List CompiledRule) (found : Matches),
      Found snap seen found → Found snap (seen ++ rules) ((rules.zipIdx start).foldl (matchRule snap) found) := by
    intro rules
    induction rules with
    | nil =>
      intro start seen found h
      rw [List.append_nil]
      exact h
    | cons rule rules ih =>
      intro start seen found h
      have hnext := ih (start + 1) (seen ++ [rule]) _ (h.step rule start)
      rw [List.append_assoc] at hnext
      exact hnext
  exact hrun engine.rules 0 [] noMatches (Found.start snap)

theorem evaluate_historyView (engine : RuleEngine) (snap : PaneSnapshot) :
    (engine.evaluate snap).historyView = showsHistory engine.rules snap :=
  (found_evaluate engine snap).history

/-- Everything a snapshot is evidence of was captured with it, on the screen or the title. -/
theorem mem_evaluate {engine : RuleEngine} {snap : PaneSnapshot} {e : Evidence}
    (h : e ∈ (engine.evaluate snap).evidence) : e.at_ = snap.capturedAt ∧ e.source.onScreen = true := by
  obtain ⟨best, -, rfl⟩ := List.mem_map.mp h
  refine ⟨rfl, ?_⟩
  simp only [ruleEvidence]
  split <;> rfl

/-- **One rule speaks for a state.** The screen's claim of a state is that of the first rule of
the highest priority among those that match it. -/
theorem evaluate_shows (engine : RuleEngine) (snap : PaneSnapshot) (state : AgentState) :
    (latest (engine.evaluate snap).evidence (Evidence.shows state)).map (fun e => (e.claimDetail, e.at_)) =
      (speaker engine.rules snap state).map fun rule => (rule.detail, snap.capturedAt) := by
  have h := found_evaluate engine snap
  -- the claims of the state are those of the one best entry of that state
  have hclaims : (engine.evaluate snap).evidence.filter (Evidence.shows state) =
      ((engine.rules.zipIdx.foldl (matchRule snap) noMatches).best.find? fun best => best.state = state).toList.map
        (ruleEvidence snap) := by
    have hperm := List.perm_insertionSort (fun a b : BestRule => a.state.token ≤ b.state.token)
      (engine.rules.zipIdx.foldl (matchRule snap) noMatches).best
    have hdistinct := (hperm.symm.map BestRule.state).nodup_iff.mp h.distinct
    rw [← Choose.find?_key_perm hperm hdistinct, ← Choose.filter_key_eq_find? hdistinct]
    simp only [evaluate, List.filter_map]
    congr 1
    refine List.filter_congr fun best hbest => ?_
    have hown := h.own best (hperm.mem_iff.mp hbest)
    simp only [Function.comp, Evidence.shows, ruleEvidence, Evidence.claimState, ← hown]
    split <;> simp [Source.onScreen, beq_eq_decide]
  rw [latest, hclaims, ← h.speakers state]
  cases (engine.rules.zipIdx.foldl (matchRule snap) noMatches).best.find? fun best => best.state = state with
  | none => rfl
  | some best => rfl

end RuleEngine

end TmuxAgents
