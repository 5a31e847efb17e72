/-
Typed evidence (`evidence.rs`) and what the fold looks for in it: the freshest
claim of a kind, the last of several equally fresh ones.
-/
import TmuxAgents.Lib.Choose
import TmuxAgents.Persist.Stamp

namespace TmuxAgents

/-- Where a piece of evidence came from. -/
inductive Source
  | programStatus
  | hookEvent
  | screenRule
  | title
deriving DecidableEq

namespace Source

/-- The bucket that persists to `@agent_source`. -/
def provenance : Source → StampProvenance
  | .hookEvent | .programStatus => .hook
  | .screenRule | .title => .capture

def name : Source → String
  | .programStatus => "program-status"
  | .hookEvent => "hook"
  | .screenRule => "screen"
  | .title => "title"

/-- The pane's screen or its title. -/
def onScreen : Source → Bool
  | .screenRule | .title => true
  | .programStatus | .hookEvent => false

end Source

structure StateClaim where
  state : AgentState
  detail : Option Detail
deriving DecidableEq

inductive Lifecycle
  | start
  | «end»
deriving DecidableEq

inductive Claim
  | state (claim : StateClaim)
  | lifecycle (lifecycle : Lifecycle)
deriving DecidableEq

structure Evidence where
  source : Source
  claim : Claim
  at_ : Nat
  meta_ : String
deriving DecidableEq

namespace Evidence

def claimState (e : Evidence) : Option AgentState :=
  match e.claim with
  | .state claim => some claim.state
  | .lifecycle _ => none

def claimDetail (e : Evidence) : Option Detail :=
  match e.claim with
  | .state claim => claim.detail
  | .lifecycle _ => none

/-- A hook's claim of a state. -/
def freshHook (e : Evidence) : Bool := e.source == .hookEvent && e.claimState.isSome

/-- The screen's or the title's claim of this state. -/
def shows (state : AgentState) (e : Evidence) : Bool := e.source.onScreen && e.claimState == some state

end Evidence

/-- `latest`: the freshest evidence of a kind. -/
def latest (evidence : List Evidence) (pred : Evidence → Bool) : Option Evidence :=
  Choose.maxByKey Evidence.at_ (evidence.filter pred)

theorem latest_some {evidence : List Evidence} {pred : Evidence → Bool} {e : Evidence}
    (h : latest evidence pred = some e) :
    e ∈ evidence ∧ pred e = true ∧ ∀ e' ∈ evidence, pred e' = true → e'.at_ ≤ e.at_ := by
  obtain ⟨hmem, hpred⟩ := List.mem_filter.mp (Choose.maxByKey_mem h)
  exact ⟨hmem, hpred, fun e' he' hp => Choose.maxByKey_le h e' (List.mem_filter.mpr ⟨he', hp⟩)⟩

theorem latest_none {evidence : List Evidence} {pred : Evidence → Bool} :
    latest evidence pred = none ↔ ∀ e ∈ evidence, pred e = false := by
  rw [latest, Choose.maxByKey_eq_none, List.filter_eq_nil_iff]
  exact ⟨fun h e he => Bool.eq_false_iff.mpr (h e he), fun h e he => Bool.eq_false_iff.mp (h e he)⟩

/-- The freshest claim of a state claims it. -/
theorem latest_shows {evidence : List Evidence} {state : AgentState} {e : Evidence}
    (h : latest evidence (Evidence.shows state) = some e) : e.source.onScreen = true ∧ e.claimState = some state := by
  have hs := (latest_some h).2.1
  simp only [Evidence.shows, Bool.and_eq_true, beq_iff_eq] at hs
  exact hs

/-- What the screen shows is a capture. -/
theorem Source.provenance_onScreen {source : Source} (h : source.onScreen = true) : source.provenance = .capture := by
  cases source <;> first | rfl | cases h

end TmuxAgents
