/-
What one call does to a pane's hook-liveness memory.

A hook event and an edge touch a pane's entry and leave the others, but for the one
evicted to make room; a forget and a prune drop entries; nothing else touches one.
-/
import TmuxAgents.Runtime.Capture

namespace TmuxAgents.Capture

namespace PaneHook

/-! ## The entry after a call -/

/-- After a hook event. -/
def told (entry : PaneHook) (claimed : Option AgentState) : PaneHook :=
  { entry with
    edgesSinceHook := 0
    demoted := false
    workingClaimContradicted := false
    lastHookClaim := if claimed.isSome then claimed else entry.lastHookClaim }

/-- Whether an edge counts. -/
def counted (entry : PaneHook) (hookFresh storedWorking : Bool) : Bool :=
  !hookFresh && !(entry.lastHookClaim == some .working && !(entry.workingClaimContradicted || !storedWorking))

/-- After an edge. -/
def seen (entry : PaneHook) (threshold : UInt32) (hookFresh storedWorking : Bool) : PaneHook :=
  let edges := if entry.counted hookFresh storedWorking then saturatingSucc entry.edgesSinceHook else entry.edgesSinceHook
  { entry with
    edgesSinceHook := edges
    demoted := entry.demoted || (entry.counted hookFresh storedWorking && decide (threshold ≤ edges))
    workingClaimContradicted := entry.workingClaimContradicted || !storedWorking }

end PaneHook

theorem saturatingSucc_toNat (n : UInt32) : (saturatingSucc n).toNat = min (n.toNat + 1) (2 ^ 32 - 1) := by
  have hlt := n.toNat_lt
  rw [saturatingSucc]
  split
  next h =>
    rw [UInt32.toNat_add, UInt32.toNat_one, Nat.mod_eq_of_lt h]
    omega
  next => omega

namespace CaptureState

variable {cs : CaptureState} {pane other : Text}

/-- What is remembered of a pane. -/
def memory (cs : CaptureState) (pane : Text) : Option PaneHook := Assoc.get? cs.hooks pane

/-- A pane nothing is remembered of has an empty entry. -/
def entry (cs : CaptureState) (pane : Text) : PaneHook := (cs.memory pane).getD {}

def isDemoted (cs : CaptureState) (pane : Text) : Bool := (cs.entry pane).demoted

/-! ## Room -/

theorem evicted_eq_some (hkeys : (cs.hooks.map Prod.fst).Nodup) (h : cs.evicted pane = some other) :
    cs.memory pane = none ∧ maxTracked ≤ cs.hooks.length ∧ ∃ oldest, cs.memory other = some oldest ∧
      ∀ pane' entry, cs.memory pane' = some entry → oldest.touched ≤ entry.touched := by
  rw [evicted] at h
  split at h
  next hfull =>
    obtain ⟨hnone, hfull⟩ := Bool.and_eq_true_iff.mp hfull
    obtain ⟨e, he, rfl⟩ := Option.map_eq_some_iff.mp h
    refine ⟨Option.isNone_iff_eq_none.mp hnone, of_decide_eq_true hfull, e.2,
      Assoc.get?_of_mem hkeys (Choose.minByKey_mem he), fun pane' entry hentry => ?_⟩
    exact Choose.minByKey_le he _ (Assoc.mem_of_get? hentry)
  next => cases h

theorem evicted_ne (h : cs.evicted pane = some other) : other ≠ pane := by
  rw [evicted] at h
  split at h
  next hfull =>
    obtain ⟨e, he, rfl⟩ := Option.map_eq_some_iff.mp h
    exact Assoc.get?_eq_none.mp (Option.isNone_iff_eq_none.mp (Bool.and_eq_true_iff.mp hfull).1) e
      (Choose.minByKey_mem he)
  next => cases h

theorem get?_roomFor (cs : CaptureState) (pane other : Text) :
    Assoc.get? (cs.roomFor pane) other = if cs.evicted pane = some other then none else cs.memory other := by
  rw [roomFor]
  split
  next oldest hevicted =>
    by_cases h : oldest = other
    · rw [if_pos (by rw [hevicted, h]), h, Assoc.get?_remove_self]
    · rw [if_neg (by rw [hevicted, Option.some.injEq]; exact h), Assoc.get?_remove_other (Ne.symm h)]
      rfl
  next hevicted =>
    have hkept : cs.evicted pane ≠ some other := by
      rw [hevicted]
      exact (Option.some_ne_none other).symm
    rw [if_neg hkept]
    rfl

theorem get?_roomFor_self (cs : CaptureState) (pane : Text) : Assoc.get? (cs.roomFor pane) pane = cs.memory pane := by
  rw [get?_roomFor, if_neg fun h => evicted_ne h rfl]

theorem roomFor_sublist (cs : CaptureState) (pane : Text) : (cs.roomFor pane).Sublist cs.hooks := by
  rw [roomFor]
  split
  · exact List.filter_sublist
  · exact .refl _

/-! ## Calls that touch a pane -/

/-- The state after a call touched the pane's entry and stored another. -/
def touch (cs : CaptureState) (pane : Text) (change : PaneHook → PaneHook) : CaptureState :=
  { cs with
    clock := cs.clock + 1
    hooks := Assoc.set (cs.roomFor pane) pane (change { cs.entry pane with touched := cs.clock + 1 }) }

theorem onHookEvent_eq (cs : CaptureState) (pane : Text) (claimed : Option AgentState) :
    cs.onHookEvent pane claimed = cs.touch pane fun entry => entry.told claimed := by
  simp only [onHookEvent, entryMut, store, Assoc.set_set, get?_roomFor_self]
  rfl

theorem memory_touch (cs : CaptureState) (pane other : Text) (change : PaneHook → PaneHook) :
    (cs.touch pane change).memory other =
      if other = pane then some (change { cs.entry pane with touched := cs.clock + 1 })
      else if cs.evicted pane = some other then none
      else cs.memory other := by
  rw [memory, touch]
  split
  next h => rw [h, Assoc.get?_set_self]
  next h => rw [Assoc.get?_set_other h, get?_roomFor]

theorem entry_touch (cs : CaptureState) (pane other : Text) (change : PaneHook → PaneHook) :
    (cs.touch pane change).entry other =
      if other = pane then change { cs.entry pane with touched := cs.clock + 1 }
      else if cs.evicted pane = some other then {}
      else cs.entry other := by
  rw [entry, memory_touch]
  split
  · rfl
  · split
    · rfl
    · rfl

theorem entry_touch_self (cs : CaptureState) (pane : Text) (change : PaneHook → PaneHook) :
    (cs.touch pane change).entry pane = change { cs.entry pane with touched := cs.clock + 1 } := by
  rw [entry_touch, if_pos rfl]

theorem entryMut_eq (cs : CaptureState) (pane : Text) :
    cs.entryMut pane = ({ cs.entry pane with touched := cs.clock + 1 }, cs.touch pane id) := by
  simp only [entryMut, get?_roomFor_self]
  rfl

/-- An edge, from the entry it finds. -/
theorem noteEdge_store {entry : PaneHook} {after : CaptureState} (hookFresh storedWorking : Bool)
    (h : cs.entryMut pane = (entry, after)) :
    cs.noteEdge pane hookFresh storedWorking =
      ((entry.seen after.demoteEdges hookFresh storedWorking).demoted,
        { after.store pane (entry.seen after.demoteEdges hookFresh storedWorking) with
          demotions := after.demotions +
            if !entry.demoted && (entry.seen after.demoteEdges hookFresh storedWorking).demoted then 1 else 0 }) := by
  have hcontradicted : (if storedWorking then entry else { entry with workingClaimContradicted := true }) =
      { entry with workingClaimContradicted := entry.workingClaimContradicted || !storedWorking } := by
    cases storedWorking
    · simp
    · simp
  have hcounted : (hookFresh || (entry.lastHookClaim == some .working &&
      !(entry.workingClaimContradicted || !storedWorking))) = !entry.counted hookFresh storedWorking := by
    rw [PaneHook.counted, Bool.not_and, Bool.not_not, Bool.not_not]
  rw [noteEdge, h]
  dsimp only
  rw [hcontradicted]
  dsimp only
  rw [hcounted]
  cases hcounts : entry.counted hookFresh storedWorking with
  | false => simp [PaneHook.seen, hcounts, store]
  | true =>
    have hless : decide (saturatingSucc entry.edgesSinceHook < after.demoteEdges) =
        !decide (after.demoteEdges ≤ saturatingSucc entry.edgesSinceHook) := by
      rw [← decide_not]
      exact decide_eq_decide.mpr UInt32.not_le.symm
    have hseen : entry.seen after.demoteEdges hookFresh storedWorking =
        { entry with
          edgesSinceHook := saturatingSucc entry.edgesSinceHook
          demoted := entry.demoted || decide (after.demoteEdges ≤ saturatingSucc entry.edgesSinceHook)
          workingClaimContradicted := entry.workingClaimContradicted || !storedWorking } := by
      simp only [PaneHook.seen, hcounts, if_true, Bool.true_and]
    rw [hseen, hless]
    cases hdemoted : entry.demoted with
    | true => simp [store]
    | false =>
      cases decide (after.demoteEdges ≤ saturatingSucc entry.edgesSinceHook) with
      | true => simp [store]
      | false => simp [store]

theorem noteEdge_eq (cs : CaptureState) (pane : Text) (hookFresh storedWorking : Bool) :
    cs.noteEdge pane hookFresh storedWorking =
      (((cs.entry pane).seen cs.demoteEdges hookFresh storedWorking).demoted,
        { cs.touch pane fun entry => entry.seen cs.demoteEdges hookFresh storedWorking with
          demotions := cs.demotions +
            if !cs.isDemoted pane &&
              ((cs.entry pane).seen cs.demoteEdges hookFresh storedWorking).demoted then 1 else 0 }) := by
  rw [noteEdge_store hookFresh storedWorking (entryMut_eq cs pane)]
  simp only [store, touch, id, Assoc.set_set]
  rfl

theorem isDemoted_noteEdge (cs : CaptureState) (pane : Text) (hookFresh storedWorking : Bool) :
    (cs.noteEdge pane hookFresh storedWorking).2.isDemoted pane =
      ((cs.entry pane).seen cs.demoteEdges hookFresh storedWorking).demoted := by
  have hentry := entry_touch_self cs pane fun entry => entry.seen cs.demoteEdges hookFresh storedWorking
  have hdemoted := congrArg PaneHook.demoted hentry
  rw [noteEdge_eq]
  exact hdemoted

/-! ## Calls that drop memory, and the others -/

theorem memory_forgetPane (cs : CaptureState) (pane other : Text) :
    (cs.forgetPane pane).memory other = if other = pane then none else cs.memory other := by
  split
  next h =>
    rw [h]
    exact Assoc.get?_remove_self
  next h => exact Assoc.get?_remove_other h

theorem memory_prune (cs : CaptureState) (live : List Text) (other : Text) :
    (cs.prune live).memory other = if live.contains other then cs.memory other else none :=
  Assoc.get?_filter live.contains

theorem hooks_noteForegroundCap (cs : CaptureState) (pane : Text) (capped : Bool) :
    (cs.noteForegroundCap pane capped).hooks = cs.hooks ∧ (cs.noteForegroundCap pane capped).clock = cs.clock ∧
      (cs.noteForegroundCap pane capped).demotions = cs.demotions ∧
      (cs.noteForegroundCap pane capped).demoteEdges = cs.demoteEdges := by
  rw [noteForegroundCap]
  split
  · exact ⟨rfl, rfl, rfl, rfl⟩
  · split
    · exact ⟨rfl, rfl, rfl, rfl⟩
    · dsimp only
      split
      · exact ⟨rfl, rfl, rfl, rfl⟩
      · exact ⟨rfl, rfl, rfl, rfl⟩

end CaptureState

end TmuxAgents.Capture
