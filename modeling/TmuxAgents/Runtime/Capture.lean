/-
Hook-liveness memory (`capture.rs`): the edges counted for a pane since its last hook
event, and the follow-up looks of its foreground-cap episode.

A map is the list of its entries; which of them is evicted does not depend on their
order, for no two carry one touch stamp. `set_config` also swaps the fold's tuning,
which nothing here reads.
-/
import TmuxAgents.Lib.Assoc
import TmuxAgents.Lib.Choose
import TmuxAgents.Lib.Text
import TmuxAgents.Program.Project

namespace TmuxAgents.Capture

/-! ## Memory -/

/-- Counting edges after which a pane's coverage is suspect, by default. -/
def demoteEdges : UInt32 := 5

/-- Panes remembered at the most. -/
def maxTracked : Nat := 4096

/-- Follow-up looks a pane gets in one foreground-cap episode. -/
def recheckLimit : Nat := 3

structure PaneHook where
  edgesSinceHook : UInt32 := 0
  demoted : Bool := false
  lastHookClaim : Option AgentState := none
  workingClaimContradicted : Bool := false
  touched : Nat := 0
deriving DecidableEq

structure CaptureState where
  demoteEdges : UInt32
  hooks : List (Text × PaneHook) := []
  rechecks : List (Text × Nat) := []
  recheckDue : List Text := []
  clock : Nat := 0
  recheckLooks : Nat := 0
  demotions : Nat := 0
deriving DecidableEq

def CaptureState.new (demoteEdges : UInt32) : CaptureState := { demoteEdges := demoteEdges }

/-- `u32::saturating_add(1)`. -/
def saturatingSucc (n : UInt32) : UInt32 := if n.toNat + 1 < 2 ^ 32 then n + 1 else n

namespace CaptureState

variable (cs : CaptureState) (pane : Text)

/-! ## Entries -/

/-- The pane that makes room for a new one (`entry_mut`). -/
def evicted : Option Text :=
  if (Assoc.get? cs.hooks pane).isNone && maxTracked ≤ cs.hooks.length then
    (Choose.minByKey (fun e => e.2.touched) cs.hooks).map Prod.fst
  else none

/-- The map with room for the pane. -/
def roomFor : List (Text × PaneHook) :=
  match cs.evicted pane with
  | some oldest => Assoc.remove cs.hooks oldest
  | none => cs.hooks

/-- The pane's entry, created if absent and touched, and the state it is an entry of. -/
def entryMut : PaneHook × CaptureState :=
  let clock := cs.clock + 1
  let entry := { (Assoc.get? (cs.roomFor pane) pane).getD {} with touched := clock }
  (entry, { cs with clock := clock, hooks := Assoc.set (cs.roomFor pane) pane entry })

/-- The state with the pane's entry changed in place. -/
def store (entry : PaneHook) : CaptureState := { cs with hooks := Assoc.set cs.hooks pane entry }

/-! ## Calls -/

def setConfig (demoteEdges : UInt32) : CaptureState := { cs with demoteEdges := demoteEdges }

/-- A hook event, and the state it claims if it carries one. -/
def onHookEvent (claimed : Option AgentState) : CaptureState :=
  let (entry, cs) := cs.entryMut pane
  cs.store pane
    { entry with
      edgesSinceHook := 0
      demoted := false
      workingClaimContradicted := false
      lastHookClaim := if claimed.isSome then claimed else entry.lastHookClaim }

/-- An activity edge of a hook-capable pane, and whether the pane is demoted now. -/
def noteEdge (hookFresh storedWorking : Bool) : Bool × CaptureState :=
  let (entry, cs) := cs.entryMut pane
  let entry := if storedWorking then entry else { entry with workingClaimContradicted := true }
  let hookSaysWorking := entry.lastHookClaim == some .working && !entry.workingClaimContradicted
  if hookFresh || hookSaysWorking then (entry.demoted, cs.store pane entry)
  else
    let entry := { entry with edgesSinceHook := saturatingSucc entry.edgesSinceHook }
    if entry.demoted || entry.edgesSinceHook < cs.demoteEdges then (entry.demoted, cs.store pane entry)
    else
      let cs := cs.store pane { entry with demoted := true }
      (true, { cs with demotions := cs.demotions + 1 })

/-- Nothing the tier holds for the pane means anything any more. -/
def forgetPane : CaptureState :=
  { cs with hooks := Assoc.remove cs.hooks pane, rechecks := Assoc.remove cs.rechecks pane }

/-- The sweep's prune to the panes it resolved as agents. -/
def prune (live : List Text) : CaptureState :=
  { cs with
    hooks := cs.hooks.filter fun e => live.contains e.1
    rechecks := cs.rechecks.filter fun e => live.contains e.1 }

/-- A capture landed on the fold's foreground cap, or did not. -/
def noteForegroundCap (capped : Bool) : CaptureState :=
  if !capped then { cs with rechecks := Assoc.remove cs.rechecks pane }
  else if (Assoc.get? cs.rechecks pane).isNone && maxTracked ≤ cs.rechecks.length then cs
  else
    let spent := (Assoc.get? cs.rechecks pane).getD 0
    if recheckLimit ≤ spent then { cs with rechecks := Assoc.set cs.rechecks pane spent }
    else
      { cs with
        rechecks := Assoc.set cs.rechecks pane (spent + 1)
        recheckLooks := cs.recheckLooks + 1
        recheckDue := cs.recheckDue ++ [pane] }

def takeRecheck : List Text × CaptureState := (cs.recheckDue, { cs with recheckDue := [] })

end CaptureState

/-! ## Runs -/

inductive Call
  | hookEvent (pane : Text) (claimed : Option AgentState)
  | edge (pane : Text) (hookFresh storedWorking : Bool)
  | forget (pane : Text)
  | sweep (live : List Text)
  | config (demoteEdges : UInt32)
  | foregroundCap (pane : Text) (capped : Bool)
  | recheck
deriving DecidableEq

def CaptureState.step (cs : CaptureState) : Call → CaptureState
  | .hookEvent pane claimed => cs.onHookEvent pane claimed
  | .edge pane hookFresh storedWorking => (cs.noteEdge pane hookFresh storedWorking).2
  | .forget pane => cs.forgetPane pane
  | .sweep live => cs.prune live
  | .config demoteEdges => cs.setConfig demoteEdges
  | .foregroundCap pane capped => cs.noteForegroundCap pane capped
  | .recheck => cs.takeRecheck.2

end TmuxAgents.Capture
