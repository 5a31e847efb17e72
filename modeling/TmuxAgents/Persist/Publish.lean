/-
A guarded state publish (`render.rs`) and what is written for a pane in a cycle.
-/
import TmuxAgents.Persist.Transaction

namespace TmuxAgents

/-- A guarded state publish. -/
structure Publish where
  paneId : String
  state : AgentState
  detail : Option Detail
  source : StampProvenance
  evidenceAt : Nat
  /-- Used only if the state changes. -/
  since : Nat
  stampedAt : Nat
  hash : Option Nat
  pid : Nat
  name : Text
  setAttention : Bool
  episodeReset : Bool
  guard : Guard
deriving DecidableEq

/-- What to write for one pane in a cycle. -/
inductive StampPlan
  | publish (publish : Publish)
  | hold (stampedAt : Nat) (hash : Option Nat)
  | remove
  | endSession
deriving DecidableEq

end TmuxAgents
