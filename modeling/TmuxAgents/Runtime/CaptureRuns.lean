/-
Hook-liveness demotion over whole runs: a pane's entry is what the calls since its last
hook event, and since its memory was last dropped, say of it.
-/
import TmuxAgents.Lib.History
import TmuxAgents.Runtime.CaptureFacts

open History

namespace TmuxAgents.Capture

/-- The state after a list of calls on a new one. -/
def stateAfter (threshold : UInt32) (calls : List Call) : CaptureState :=
  Run.run CaptureState.step (.new threshold) calls

theorem stateAfter_concat (threshold : UInt32) (calls : List Call) (call : Call) :
    stateAfter threshold (calls ++ [call]) = (stateAfter threshold calls).step call := Run.run_concat ..

/-! ## What the calls say of a pane -/

/-- The threshold a call sets. -/
def Call.retunes : Call → Option UInt32
  | .config demoteEdges => some demoteEdges
  | _ => none

/-- The threshold in force after the calls. -/
def inForce (threshold : UInt32) (calls : List Call) : UInt32 := (calls.filterMap Call.retunes).getLastD threshold

section

variable (threshold : UInt32) (pane : Text)

def isHookEvent (m : List Call × Call) : Bool :=
  match m.2 with
  | .hookEvent target _ => target == pane
  | _ => false

/-- The pane's memory is dropped: it is forgotten, pruned or evicted. -/
def dropped (m : List Call × Call) : Bool :=
  match m.2 with
  | .forget target => target == pane
  | .sweep live => !live.contains pane
  | .hookEvent target _ | .edge target _ _ => (stateAfter threshold m.1).evicted target == some pane
  | _ => false

/-- A hook event of the pane, or the end of its memory. -/
def resets (m : List Call × Call) : Bool := isHookEvent pane m || dropped threshold pane m

/-- The state a hook event of the pane claims. -/
def claim (m : List Call × Call) : Option AgentState :=
  match m.2 with
  | .hookEvent target claimed => if target = pane then claimed else none
  | _ => none

/-- An edge of the pane that found another state stored than `working`. -/
def contradicts (m : List Call × Call) : Bool :=
  match m.2 with
  | .edge target _ storedWorking => target == pane && !storedWorking
  | _ => false

/-- The last hook event with a claim since the pane's memory was dropped claimed `working`. -/
def claimsWorking (seen : List (List Call × Call)) : Bool :=
  ((since (dropped threshold pane) seen).filterMap (claim pane)).getLast? == some .working

/-- Every edge since the pane's last hook event saw `working` stored. -/
def seenWorking (seen : List (List Call × Call)) : Bool :=
  (since (isHookEvent pane) seen).all fun m => !contradicts pane m

/-- An edge of the pane that counts, where it comes. -/
def counts (m : List Call × Call) : Bool :=
  match m.2 with
  | .edge target hookFresh _ =>
    target == pane && !hookFresh &&
      !(claimsWorking threshold pane (moments (m.1 ++ [m.2])) && seenWorking pane (moments (m.1 ++ [m.2])))
  | _ => false

theorem contradicts_edge (calls : List Call) (target : Text) (hookFresh storedWorking : Bool) :
    contradicts pane (calls, .edge target hookFresh storedWorking) = (target == pane && !storedWorking) := rfl

theorem counts_edge (calls : List Call) (target : Text) (hookFresh storedWorking : Bool) :
    counts threshold pane (calls, .edge target hookFresh storedWorking) =
      (target == pane && !hookFresh &&
        !(claimsWorking threshold pane (moments (calls ++ [.edge target hookFresh storedWorking])) &&
          seenWorking pane (moments (calls ++ [.edge target hookFresh storedWorking])))) := rfl

/-- The counting edges since the pane's last hook event or the end of its memory. -/
def countingEdges (calls : List Call) : Nat :=
  (since (resets threshold pane) (moments calls)).countP (counts threshold pane)

/-- A counting edge that reaches the threshold in force. -/
def reaches (m : List Call × Call) : Prop :=
  counts threshold pane m = true ∧ (inForce threshold m.1).toNat ≤ countingEdges threshold pane (m.1 ++ [m.2])

/-- An episode of demotion of the pane begins. -/
def Demotes (m : List Call × Call) : Prop :=
  (stateAfter threshold m.1).isDemoted pane = false ∧ (stateAfter threshold (m.1 ++ [m.2])).isDemoted pane = true

end

/-! ## Entries along a run -/

/-- A call on the entry of a pane that keeps its memory. -/
def Call.change (pane : Text) (cs : CaptureState) : Call → PaneHook → PaneHook
  | .hookEvent target claimed, entry =>
    if target = pane then ({ entry with touched := cs.clock + 1 } : PaneHook).told claimed else entry
  | .edge target hookFresh storedWorking, entry =>
    if target = pane then ({ entry with touched := cs.clock + 1 } : PaneHook).seen cs.demoteEdges hookFresh storedWorking
    else entry
  | _, entry => entry

section

variable {threshold : UInt32} {pane : Text}

theorem entry_step (calls : List Call) (call : Call) :
    (stateAfter threshold (calls ++ [call])).entry pane =
      if dropped threshold pane (calls, call) then {}
      else call.change pane (stateAfter threshold calls) ((stateAfter threshold calls).entry pane) := by
  obtain ⟨cs, hcs⟩ : ∃ cs, cs = stateAfter threshold calls := ⟨_, rfl⟩
  have htouch (target : Text) (change : PaneHook → PaneHook) : (cs.touch target change).entry pane =
      if cs.evicted target = some pane then {}
      else if target = pane then change { cs.entry pane with touched := cs.clock + 1 } else cs.entry pane := by
    rw [CaptureState.entry_touch]
    by_cases h : pane = target
    · rw [if_pos h, if_neg fun hevicted => CaptureState.evicted_ne hevicted h, if_pos h.symm, h]
    · rw [if_neg h, if_neg (Ne.symm h)]
  rw [stateAfter_concat, ← hcs]
  cases call with
  | hookEvent target claimed =>
    simp only [CaptureState.step, CaptureState.onHookEvent_eq, htouch, dropped, ← hcs, beq_iff_eq, Call.change]
  | edge target hookFresh storedWorking =>
    have hentry := htouch target fun entry => entry.seen cs.demoteEdges hookFresh storedWorking
    rw [CaptureState.step, CaptureState.noteEdge_eq]
    simp only [dropped, ← hcs, beq_iff_eq, Call.change]
    exact hentry
  | forget target =>
    rw [CaptureState.step, CaptureState.entry, CaptureState.memory_forgetPane]
    simp only [dropped, beq_iff_eq, Call.change]
    by_cases h : pane = target
    · rw [if_pos h, if_pos h.symm]
      rfl
    · rw [if_neg h, if_neg (Ne.symm h)]
      rfl
  | sweep live =>
    have hdropped : dropped threshold pane (calls, .sweep live) = !live.contains pane := rfl
    rw [CaptureState.step, CaptureState.entry, CaptureState.memory_prune, hdropped]
    cases live.contains pane with
    | true => rfl
    | false => rfl
  | config threshold => rfl
  | foregroundCap target capped =>
    have hhooks := (cs.hooks_noteForegroundCap target capped).1
    simp only [CaptureState.step, CaptureState.entry, CaptureState.memory, hhooks]
    rfl
  | recheck => rfl

theorem entry_dropped {calls : List Call} {call : Call} (h : dropped threshold pane (calls, call) = true) :
    (stateAfter threshold (calls ++ [call])).entry pane = {} := by
  rw [entry_step, if_pos h]

theorem entry_kept {calls : List Call} {call : Call} (h : dropped threshold pane (calls, call) = false) :
    (stateAfter threshold (calls ++ [call])).entry pane =
      call.change pane (stateAfter threshold calls) ((stateAfter threshold calls).entry pane) := by
  rw [entry_step, if_neg (by rw [h]; exact Bool.false_ne_true)]

theorem entry_resets {calls : List Call} {call : Call} (h : resets threshold pane (calls, call) = true) :
    ((stateAfter threshold (calls ++ [call])).entry pane).edgesSinceHook = 0 ∧
      ((stateAfter threshold (calls ++ [call])).entry pane).demoted = false ∧
      ((stateAfter threshold (calls ++ [call])).entry pane).workingClaimContradicted = false := by
  cases hdropped : dropped threshold pane (calls, call) with
  | true =>
    rw [entry_dropped hdropped]
    exact ⟨rfl, rfl, rfl⟩
  | false =>
    rw [resets, hdropped, Bool.or_false] at h
    rw [entry_kept hdropped]
    cases call with
    | hookEvent target claimed =>
      rw [Call.change, if_pos (beq_iff_eq.mp h)]
      exact ⟨rfl, rfl, rfl⟩
    | _ => cases h

/-! ## The claim, the contradiction and the count -/

theorem lastHookClaim_change (pane : Text) (cs : CaptureState) (entry : PaneHook) (m : List Call × Call) :
    (m.2.change pane cs entry).lastHookClaim = (claim pane m).or entry.lastHookClaim := by
  obtain ⟨calls, call⟩ := m
  cases call with
  | hookEvent target claimed =>
    simp only [Call.change, claim]
    split
    · cases claimed with
      | none => rfl
      | some state => rfl
    · rfl
  | edge target hookFresh storedWorking =>
    simp only [Call.change, claim]
    split
    · rfl
    · rfl
  | _ => rfl

theorem contradicted_change (pane : Text) (cs : CaptureState) (entry : PaneHook) {m : List Call × Call}
    (h : isHookEvent pane m = false) :
    (m.2.change pane cs entry).workingClaimContradicted = (entry.workingClaimContradicted || contradicts pane m) := by
  obtain ⟨calls, call⟩ := m
  cases call with
  | hookEvent target claimed =>
    rw [Call.change, if_neg (beq_eq_false_iff_ne.mp h)]
    exact (Bool.or_false _).symm
  | edge target hookFresh storedWorking =>
    simp only [Call.change, contradicts]
    split
    next htarget =>
      rw [beq_iff_eq.mpr htarget, Bool.true_and]
      rfl
    next htarget => rw [beq_eq_false_iff_ne.mpr htarget, Bool.false_and, Bool.or_false]
  | _ => exact (Bool.or_false _).symm

theorem isHookEvent_of_claim {m : List Call × Call} {state : AgentState} (h : claim pane m = some state) :
    isHookEvent pane m = true := by
  obtain ⟨calls, call⟩ := m
  cases call with
  | hookEvent target claimed =>
    simp only [claim] at h
    split at h
    next htarget => exact beq_iff_eq.mpr htarget
    next => cases h
  | _ => cases h

/-- The register rule, for a pane's entry. -/
theorem entry_since (ends : List Call × Call → Bool) (holds : List (List Call × Call) → PaneHook → Prop)
    (hstart : holds [] {})
    (hends : ∀ calls call, ends (calls, call) = true → holds [] ((stateAfter threshold (calls ++ [call])).entry pane))
    (hkeeps : ∀ calls call, ends (calls, call) = false →
      holds (since ends (moments calls)) ((stateAfter threshold calls).entry pane) →
      holds (since ends (moments calls) ++ [(calls, call)]) ((stateAfter threshold (calls ++ [call])).entry pane))
    (calls : List Call) : holds (since ends (moments calls)) ((stateAfter threshold calls).entry pane) := by
  refine since_invariant CaptureState.step (s := .new threshold) ends (fun seen cs => holds seen (cs.entry pane)) hstart
    (fun calls call h => ?_) (fun calls call h ih => ?_) calls
  · have hentry := hends calls call h
    rw [stateAfter_concat] at hentry
    exact hentry
  · have hentry := hkeeps calls call h ih
    rw [stateAfter_concat] at hentry
    exact hentry

/-- The stored claim is the last since the memory was dropped. -/
theorem lastHookClaim_run (calls : List Call) :
    ((stateAfter threshold calls).entry pane).lastHookClaim =
      ((since (dropped threshold pane) (moments calls)).filterMap (claim pane)).getLast? := by
  refine entry_since (dropped threshold pane)
    (fun seen entry => entry.lastHookClaim = (seen.filterMap (claim pane)).getLast?) rfl
    (fun calls call h => ?_) (fun calls call h ih => ?_) calls
  · rw [entry_dropped h]
    rfl
  · have hchange := lastHookClaim_change pane (stateAfter threshold calls)
      ((stateAfter threshold calls).entry pane) (calls, call)
    rw [entry_kept h, hchange, ih, List.filterMap_append, List.getLast?_append]
    cases hclaim : claim pane (calls, call) with
    | none => simp [hclaim]
    | some state => simp [hclaim]

/-- The claim is contradicted when an edge since the last hook event saw another state stored. -/
theorem contradicted_run (calls : List Call) :
    ((stateAfter threshold calls).entry pane).workingClaimContradicted =
      (since (resets threshold pane) (moments calls)).any (contradicts pane) := by
  refine entry_since (resets threshold pane)
    (fun seen entry => entry.workingClaimContradicted = seen.any (contradicts pane)) rfl
    (fun calls call h => (entry_resets h).2.2) (fun calls call h ih => ?_) calls
  obtain ⟨hevent, hdropped⟩ := Bool.or_eq_false_iff.mp h
  rw [entry_kept hdropped, contradicted_change pane _ _ hevent, ih, List.any_append, List.any_cons, List.any_nil,
    Bool.or_false]

/-- **An edge counts by what was said before it.** The stored entry answers for the history. -/
theorem counted_run (calls : List Call) (hookFresh storedWorking : Bool) :
    ((stateAfter threshold calls).entry pane).counted hookFresh storedWorking =
      counts threshold pane (calls, .edge pane hookFresh storedWorking) := by
  have hkept : dropped threshold pane (calls, .edge pane hookFresh storedWorking) = false :=
    beq_eq_false_iff_ne.mpr fun h => CaptureState.evicted_ne h rfl
  have hclaims : claimsWorking threshold pane (moments (calls ++ [.edge pane hookFresh storedWorking])) =
      (((stateAfter threshold calls).entry pane).lastHookClaim == some .working) := by
    rw [lastHookClaim_run, claimsWorking, moments_concat, since_keeps _ hkept, List.filterMap_append]
    exact congrArg (fun seen => List.getLast? seen == some AgentState.working) (List.append_nil _)
  have hseen : seenWorking pane (moments (calls ++ [.edge pane hookFresh storedWorking])) =
      !((since (isHookEvent pane) (moments calls)).any (contradicts pane) || !storedWorking) := by
    have hkeeps : isHookEvent pane (calls, .edge pane hookFresh storedWorking) = false := rfl
    rw [seenWorking, moments_concat, since_keeps _ hkeeps, List.all_append, List.all_eq_not_any_not, List.all_cons,
      List.all_nil, Bool.and_true, contradicts_edge, beq_self_eq_true, Bool.true_and, Bool.not_or]
    simp only [Bool.not_not]
  rw [PaneHook.counted, counts_edge, beq_self_eq_true, Bool.true_and, hclaims, hseen]
  cases hworking : ((stateAfter threshold calls).entry pane).lastHookClaim == some AgentState.working with
  | false => rfl
  | true =>
    -- a claim since the memory was dropped: the last hook event is after that
    have hmem := List.mem_of_getLast? ((lastHookClaim_run calls).symm.trans (beq_iff_eq.mp hworking))
    obtain ⟨m, hm, hclaim⟩ := List.mem_filterMap.mp hmem
    have hsince : since (resets threshold pane) (moments calls) = since (isHookEvent pane) (moments calls) :=
      since_or (isHookEvent pane) ⟨m, hm, isHookEvent_of_claim hclaim⟩
    rw [contradicted_run, hsince]

theorem countingEdges_resets {calls : List Call} {call : Call} (h : resets threshold pane (calls, call) = true) :
    countingEdges threshold pane (calls ++ [call]) = 0 := by
  rw [countingEdges, moments_concat, since_ends _ h]
  rfl

/-- What a call that resets nothing does to the count and the demotion. -/
theorem entry_keeps {calls : List Call} {call : Call} (h : resets threshold pane (calls, call) = false) :
    ((stateAfter threshold (calls ++ [call])).entry pane).edgesSinceHook =
        (if counts threshold pane (calls, call) then
          saturatingSucc ((stateAfter threshold calls).entry pane).edgesSinceHook
        else ((stateAfter threshold calls).entry pane).edgesSinceHook) ∧
      ((stateAfter threshold (calls ++ [call])).entry pane).demoted =
        (((stateAfter threshold calls).entry pane).demoted || (counts threshold pane (calls, call) &&
          decide ((stateAfter threshold calls).demoteEdges ≤
            ((stateAfter threshold (calls ++ [call])).entry pane).edgesSinceHook))) := by
  obtain ⟨hevent, hdropped⟩ := Bool.or_eq_false_iff.mp h
  rw [entry_kept hdropped]
  cases call with
  | hookEvent target claimed =>
    have hother := beq_eq_false_iff_ne.mp hevent
    rw [Call.change, if_neg hother]
    exact ⟨rfl, (Bool.or_false _).symm⟩
  | edge target hookFresh storedWorking =>
    rw [Call.change]
    by_cases htarget : target = pane
    · rw [if_pos htarget, htarget, ← counted_run]
      exact ⟨rfl, rfl⟩
    · rw [if_neg htarget, counts_edge, beq_eq_false_iff_ne.mpr htarget]
      exact ⟨rfl, (Bool.or_false _).symm⟩
  | _ => exact ⟨rfl, (Bool.or_false _).symm⟩

/-- The stored count is the number of counting edges, but for its saturation. -/
theorem edgesSinceHook_run (calls : List Call) :
    ((stateAfter threshold calls).entry pane).edgesSinceHook.toNat =
      min (countingEdges threshold pane calls) (2 ^ 32 - 1) := by
  refine entry_since (resets threshold pane)
    (fun seen entry => entry.edgesSinceHook.toNat = min (seen.countP (counts threshold pane)) (2 ^ 32 - 1)) rfl
    (fun calls call h => ?_) (fun calls call h ih => ?_) calls
  · rw [(entry_resets h).1]
    rfl
  · rw [(entry_keeps h).1, List.countP_append, List.countP_singleton]
    split
    · rw [saturatingSucc_toNat, ih]
      omega
    · rw [ih]
      omega

/-! ## Demotion -/

theorem demoteEdges_step (cs : CaptureState) (call : Call) :
    (cs.step call).demoteEdges = call.retunes.getD cs.demoteEdges := by
  cases call with
  | hookEvent pane claimed =>
    rw [CaptureState.step, CaptureState.onHookEvent_eq]
    rfl
  | edge pane hookFresh storedWorking =>
    rw [CaptureState.step, CaptureState.noteEdge_eq]
    rfl
  | foregroundCap pane capped => exact (cs.hooks_noteForegroundCap pane capped).2.2.2
  | _ => rfl

theorem demoteEdges_run (calls : List Call) : (stateAfter threshold calls).demoteEdges = inForce threshold calls := by
  induction calls using List.reverseRecOn with
  | nil => rfl
  | append_singleton calls call ih =>
    rw [stateAfter_concat, demoteEdges_step, ih, inForce, inForce, List.filterMap_append]
    cases hretunes : call.retunes with
    | none => simp [hretunes]
    | some demoteEdges => simp [hretunes]

/-- A pane is demoted from the counting edge that reached the threshold on. -/
theorem demoted_run (calls : List Call) :
    (stateAfter threshold calls).isDemoted pane = true ↔
      ∃ m ∈ since (resets threshold pane) (moments calls), reaches threshold pane m := by
  refine entry_since (resets threshold pane)
    (fun seen entry => entry.demoted = true ↔ ∃ m ∈ seen, reaches threshold pane m) (by simp)
    (fun calls call h => ?_) (fun calls call h ih => ?_) calls
  · rw [(entry_resets h).2.1]
    simp
  · have hreaches : reaches threshold pane (calls, call) ↔ (counts threshold pane (calls, call) &&
        decide ((stateAfter threshold calls).demoteEdges ≤
          ((stateAfter threshold (calls ++ [call])).entry pane).edgesSinceHook)) = true := by
      have hlt := (inForce threshold calls).toNat_lt
      rw [reaches, Bool.and_eq_true, decide_eq_true_iff, demoteEdges_run, UInt32.le_iff_toNat_le, edgesSinceHook_run]
      refine and_congr_right fun _ => ?_
      dsimp only
      omega
    rw [(entry_keeps h).2, Bool.or_eq_true, ih, ← hreaches]
    simp only [List.mem_append, List.mem_singleton, or_and_right, exists_or, exists_eq_left]

end

end TmuxAgents.Capture
