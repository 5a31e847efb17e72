/-
Hook-liveness demotion over whole runs: how often a pane is demoted, how many panes are
remembered, and what a call for one pane does to the memory of another.
-/
import TmuxAgents.Runtime.CaptureRuns

open History

namespace TmuxAgents.Capture

/-! ## Recency -/

/-- The call creates the pane's entry or finds it. -/
def Call.touches (pane : Text) : Call → Bool
  | .hookEvent target _ | .edge target _ _ => target == pane
  | _ => false

/-- The pane a call is for. -/
def Call.pane? : Call → Option Text
  | .hookEvent pane _ | .edge pane _ _ | .forget pane | .foregroundCap pane _ => some pane
  | .sweep _ | .config _ | .recheck => none

/-- The one pane was touched after the other was touched last. -/
def TouchedAfter (calls : List Call) (pane other : Text) : Prop :=
  ∃ before call after, calls = before ++ call :: after ∧ call.touches pane = true ∧
    ∀ later ∈ call :: after, later.touches other = false

theorem TouchedAfter.concat {calls : List Call} {call : Call} {pane other : Text} (h : TouchedAfter calls pane other)
    (hcall : call.touches other = false) : TouchedAfter (calls ++ [call]) pane other := by
  obtain ⟨before, first, after, rfl, hfirst, hlater⟩ := h
  refine ⟨before, first, after ++ [call], by rw [List.append_assoc, List.cons_append], hfirst, fun later hmem => ?_⟩
  rw [← List.cons_append, List.mem_append, List.mem_singleton] at hmem
  rcases hmem with hmem | rfl
  · exact hlater later hmem
  · exact hcall

theorem TouchedAfter.last {calls : List Call} {call : Call} {pane other : Text} (h : call.touches pane = true)
    (hother : call.touches other = false) : TouchedAfter (calls ++ [call]) pane other := by
  refine ⟨calls, call, [], rfl, h, fun later hmem => ?_⟩
  rw [List.mem_singleton.mp hmem]
  exact hother

namespace CaptureState

/-- The map within its bound, its touch stamps in the order of the calls. -/
structure Sound (cs : CaptureState) (calls : List Call) : Prop where
  keys : (cs.hooks.map Prod.fst).Nodup
  length : cs.hooks.length ≤ maxTracked
  clock : ∀ pane entry, cs.memory pane = some entry → entry.touched ≤ cs.clock
  order : ∀ pane other entry entry', cs.memory pane = some entry → cs.memory other = some entry' → other ≠ pane →
    entry'.touched ≤ entry.touched → TouchedAfter calls pane other

variable {cs cs' : CaptureState} {calls : List Call} {call : Call} {pane other : Text}

theorem length_roomFor (hkeys : (cs.hooks.map Prod.fst).Nodup) (h : cs.hooks.length ≤ maxTracked)
    (hnone : cs.memory pane = none) : (cs.roomFor pane).length < maxTracked := by
  rw [roomFor]
  split
  next oldest hevicted =>
    obtain ⟨-, -, entry, hentry, -⟩ := evicted_eq_some hkeys hevicted
    exact Nat.lt_of_lt_of_le (Assoc.length_remove_lt hentry) h
  next hevicted =>
    by_contra hfull
    have hroom : ((Assoc.get? cs.hooks pane).isNone && decide (maxTracked ≤ cs.hooks.length)) = true :=
      Bool.and_eq_true_iff.mpr ⟨Option.isNone_iff_eq_none.mpr hnone, decide_eq_true (Nat.not_lt.mp hfull)⟩
    rw [evicted, if_pos hroom] at hevicted
    have hnil := Choose.minByKey_eq_none.mp (Option.map_eq_none_iff.mp hevicted)
    rw [hnil] at hfull
    exact hfull (by decide)

/-- A call that touches a pane. -/
theorem Sound.touch (h : cs.Sound calls) {change : PaneHook → PaneHook}
    (hchange : ∀ entry, (change entry).touched = entry.touched) (hcall : ∀ target, call.touches target = (pane == target)) :
    (cs.touch pane change).Sound (calls ++ [call]) := by
  have hself : ∀ entry, (cs.touch pane change).memory pane = some entry → entry.touched = cs.clock + 1 := by
    intro entry hentry
    rw [memory_touch, if_pos rfl] at hentry
    rw [← Option.some.inj hentry, hchange]
  have hother : ∀ target entry, target ≠ pane → (cs.touch pane change).memory target = some entry →
      cs.memory target = some entry := by
    intro target entry htarget hentry
    rw [memory_touch, if_neg htarget] at hentry
    split at hentry
    · cases hentry
    · exact hentry
  refine ⟨Assoc.nodup_set (((roomFor_sublist cs pane).map Prod.fst).nodup h.keys), ?_, fun target entry hentry => ?_,
    fun target other entry entry' hentry hentry' hne hle => ?_⟩
  · cases hmemory : cs.memory pane with
    | some entry =>
      have hget := (get?_roomFor_self cs pane).trans hmemory
      refine Nat.le_trans (Nat.le_of_eq (Assoc.length_set_of_some hget)) ?_
      exact Nat.le_trans (roomFor_sublist cs pane).length_le h.length
    | none => exact Nat.le_trans Assoc.length_set_le (length_roomFor h.keys h.length hmemory)
  · show entry.touched ≤ cs.clock + 1
    by_cases htarget : target = pane
    · rw [hself entry (htarget ▸ hentry)]
    · exact Nat.le_succ_of_le (h.clock target entry (hother target entry htarget hentry))
  · by_cases htarget : target = pane
    · refine .last ?_ ?_
      · rw [hcall, htarget, beq_self_eq_true]
      · rw [hcall, ← htarget]
        exact beq_eq_false_iff_ne.mpr (Ne.symm hne)
    · have hold := hother target entry htarget hentry
      by_cases hotherPane : other = pane
      · have hstamp := hself entry' (hotherPane ▸ hentry')
        have hclock := h.clock target entry hold
        omega
      · refine (h.order target other entry entry' hold (hother other entry' hotherPane hentry') hne hle).concat ?_
        rw [hcall]
        exact beq_eq_false_iff_ne.mpr (Ne.symm hotherPane)

/-- A call that touches none, and may drop some. -/
theorem Sound.drop (h : cs.Sound calls) (hhooks : cs'.hooks.Sublist cs.hooks) (hclock : cs'.clock = cs.clock)
    (hcall : ∀ target, call.touches target = false) : cs'.Sound (calls ++ [call]) := by
  have hold : ∀ target entry, cs'.memory target = some entry → cs.memory target = some entry := by
    intro target entry hentry
    exact Assoc.get?_of_mem h.keys (hhooks.subset (Assoc.mem_of_get? hentry))
  refine ⟨(hhooks.map Prod.fst).nodup h.keys, Nat.le_trans hhooks.length_le h.length, fun target entry hentry => ?_,
    fun target other entry entry' hentry hentry' hne hle => ?_⟩
  · rw [hclock]
    exact h.clock target entry (hold target entry hentry)
  · exact (h.order target other entry entry' (hold _ _ hentry) (hold _ _ hentry') hne hle).concat (hcall other)

theorem Sound.step (h : cs.Sound calls) (call : Call) : (cs.step call).Sound (calls ++ [call]) := by
  cases call with
  | hookEvent pane claimed =>
    rw [CaptureState.step, onHookEvent_eq]
    exact h.touch (fun _ => rfl) fun _ => rfl
  | edge pane hookFresh storedWorking =>
    rw [CaptureState.step, noteEdge_eq]
    have htouch : (cs.touch pane fun entry => entry.seen cs.demoteEdges hookFresh storedWorking).Sound
        (calls ++ [.edge pane hookFresh storedWorking]) := h.touch (fun _ => rfl) fun _ => rfl
    exact ⟨htouch.keys, htouch.length, htouch.clock, htouch.order⟩
  | forget pane => exact h.drop List.filter_sublist rfl fun _ => rfl
  | sweep live => exact h.drop List.filter_sublist rfl fun _ => rfl
  | config demoteEdges => exact h.drop (.refl _) rfl fun _ => rfl
  | foregroundCap pane capped =>
    obtain ⟨hhooks, hclock, -⟩ := cs.hooks_noteForegroundCap pane capped
    refine h.drop ?_ hclock fun _ => rfl
    rw [CaptureState.step, hhooks]
  | recheck => exact h.drop (.refl _) rfl fun _ => rfl

theorem sound_run (threshold : UInt32) (calls : List Call) : (stateAfter threshold calls).Sound calls := by
  induction calls using List.reverseRecOn with
  | nil => exact ⟨.nil, Nat.zero_le _, nofun, nofun⟩
  | append_singleton calls call ih =>
    rw [stateAfter_concat]
    exact ih.step call

/-! ## Other panes -/

/-- A call for one pane drops another from the hook memory, or leaves what it remembers. -/
theorem memory_step (hpane : call.pane? = some pane) (hne : other ≠ pane) :
    (cs.step call).memory other = if call.touches pane && cs.evicted pane == some other then none else cs.memory other := by
  have htouch (change : PaneHook → PaneHook) : (cs.touch pane change).memory other =
      if (pane == pane) && cs.evicted pane == some other then none else cs.memory other := by
    rw [memory_touch, if_neg hne, beq_self_eq_true, Bool.true_and]
    simp only [beq_iff_eq]
  cases call with
  | hookEvent target claimed =>
    cases hpane
    rw [CaptureState.step, onHookEvent_eq]
    exact htouch _
  | edge target hookFresh storedWorking =>
    cases hpane
    rw [CaptureState.step, noteEdge_eq]
    exact htouch fun entry => entry.seen cs.demoteEdges hookFresh storedWorking
  | forget target =>
    cases hpane
    exact (memory_forgetPane cs pane other).trans (if_neg hne)
  | foregroundCap target capped =>
    exact congrArg (fun hooks => Assoc.get? hooks other) (cs.hooks_noteForegroundCap target capped).1
  | sweep live => cases hpane
  | config demoteEdges => cases hpane
  | recheck => cases hpane

/-- No call for one pane reads or spends the follow-up looks of another. -/
theorem rechecks_step (hpane : call.pane? = some pane) (hne : other ≠ pane) :
    Assoc.get? (cs.step call).rechecks other = Assoc.get? cs.rechecks other := by
  cases call with
  | hookEvent target claimed =>
    rw [CaptureState.step, onHookEvent_eq]
    rfl
  | edge target hookFresh storedWorking =>
    rw [CaptureState.step, noteEdge_eq]
    rfl
  | forget target =>
    cases hpane
    exact Assoc.get?_remove_other hne
  | foregroundCap target capped =>
    cases hpane
    rw [CaptureState.step, noteForegroundCap]
    split
    · exact Assoc.get?_remove_other hne
    · split
      · rfl
      · dsimp only
        split
        · exact Assoc.get?_set_other hne
        · exact Assoc.get?_set_other hne
  | sweep live => cases hpane
  | config demoteEdges => cases hpane
  | recheck => cases hpane

/-- The pane evicted was touched before every other that is remembered. -/
theorem Sound.evicted (h : cs.Sound calls) (hevicted : cs.evicted pane = some other) :
    cs.memory pane = none ∧ cs.hooks.length = maxTracked ∧ (cs.memory other).isSome = true ∧
      ∀ target, target ≠ other → (cs.memory target).isSome = true → TouchedAfter calls target other := by
  obtain ⟨hnone, hfull, oldest, holdest, hle⟩ := evicted_eq_some h.keys hevicted
  refine ⟨hnone, Nat.le_antisymm h.length hfull, Option.isSome_iff_exists.mpr ⟨oldest, holdest⟩,
    fun target hne htarget => ?_⟩
  obtain ⟨entry, hentry⟩ := Option.isSome_iff_exists.mp htarget
  exact h.order target other entry oldest hentry holdest (Ne.symm hne) (hle target entry hentry)

end CaptureState

/-! ## Episodes -/

section

variable {threshold : UInt32} {pane : Text} {m : List Call × Call}

theorem edge_of_counts (h : counts threshold pane m = true) :
    ∃ hookFresh storedWorking, m.2 = .edge pane hookFresh storedWorking := by
  obtain ⟨calls, call⟩ := m
  cases call with
  | edge target hookFresh storedWorking =>
    rw [counts_edge, Bool.and_assoc, Bool.and_eq_true] at h
    exact ⟨hookFresh, storedWorking, by rw [beq_iff_eq.mp h.1]⟩
  | _ => cases h

/-- An episode begins at an edge of the pane. -/
theorem Demotes.edge (h : Demotes threshold pane m) :
    ∃ hookFresh storedWorking, m.2 = .edge pane hookFresh storedWorking := by
  obtain ⟨calls, call⟩ := m
  obtain ⟨hbefore, hafter⟩ := h
  rw [CaptureState.isDemoted] at hbefore hafter
  cases hresets : resets threshold pane (calls, call) with
  | true =>
    rw [(entry_resets hresets).2.1] at hafter
    cases hafter
  | false =>
    rw [(entry_keeps hresets).2, hbefore, Bool.false_or, Bool.and_eq_true] at hafter
    exact edge_of_counts hafter.1

/-- A call begins one episode at the most. -/
theorem Demotes.unique {other : Text} (h : Demotes threshold pane m) (hother : Demotes threshold other m) :
    pane = other := by
  obtain ⟨hookFresh, storedWorking, hm⟩ := h.edge
  obtain ⟨hookFresh', storedWorking', hm'⟩ := hother.edge
  rw [hm] at hm'
  exact (Call.edge.inj hm').1

theorem demotes_edge (calls : List Call) (hookFresh storedWorking : Bool) :
    Demotes threshold pane (calls, .edge pane hookFresh storedWorking) ↔
      (!(stateAfter threshold calls).isDemoted pane &&
        (((stateAfter threshold calls).entry pane).seen (stateAfter threshold calls).demoteEdges
          hookFresh storedWorking).demoted) = true := by
  have hafter : (stateAfter threshold (calls ++ [.edge pane hookFresh storedWorking])).isDemoted pane =
      (((stateAfter threshold calls).entry pane).seen (stateAfter threshold calls).demoteEdges
        hookFresh storedWorking).demoted := by
    rw [stateAfter_concat, CaptureState.step, CaptureState.isDemoted_noteEdge]
  rw [Demotes, hafter, Bool.and_eq_true, Bool.not_eq_true']

/-- Only an edge begins an episode. -/
theorem not_demotes {calls : List Call} {call : Call}
    (h : ∀ pane hookFresh storedWorking, call ≠ .edge pane hookFresh storedWorking) :
    ¬∃ pane, Demotes threshold pane (calls, call) := by
  rintro ⟨pane, hdemotes⟩
  obtain ⟨hookFresh, storedWorking, hedge⟩ := hdemotes.edge
  exact h pane hookFresh storedWorking hedge

open Classical in
/-- The counter goes up where an episode begins. -/
theorem demotions_step (calls : List Call) (call : Call) :
    (stateAfter threshold (calls ++ [call])).demotions =
      (stateAfter threshold calls).demotions + if ∃ pane, Demotes threshold pane (calls, call) then 1 else 0 := by
  by_cases hcall : ∃ target hookFresh storedWorking, call = .edge target hookFresh storedWorking
  · obtain ⟨target, hookFresh, storedWorking, rfl⟩ := hcall
    have hiff : (∃ pane, Demotes threshold pane (calls, .edge target hookFresh storedWorking)) ↔
        Demotes threshold target (calls, .edge target hookFresh storedWorking) := by
      constructor
      · intro hany
        obtain ⟨pane, h⟩ := hany
        obtain ⟨_, _, hedge⟩ := h.edge
        rw [(Call.edge.inj hedge).1] at h ⊢
        exact h
      · exact fun h => ⟨target, h⟩
    rw [stateAfter_concat, CaptureState.step, CaptureState.noteEdge_eq]
    simp only [hiff, demotes_edge]
  · simp only [not_exists] at hcall
    rw [if_neg (not_demotes hcall), stateAfter_concat]
    cases call with
    | edge pane hookFresh storedWorking => exact absurd rfl (hcall pane hookFresh storedWorking)
    | hookEvent pane claimed =>
      rw [CaptureState.step, CaptureState.onHookEvent_eq]
      rfl
    | foregroundCap pane capped => exact ((stateAfter threshold calls).hooks_noteForegroundCap pane capped).2.2.1
    | _ => rfl

open Classical in
theorem demotions_run (calls : List Call) :
    (stateAfter threshold calls).demotions =
      (moments calls).countP fun m => decide (∃ pane, Demotes threshold pane m) := by
  refine countP_moments CaptureState.step (s := .new threshold) CaptureState.demotions _ rfl (fun calls call => ?_) calls
  have hstep := @demotions_step threshold calls call
  rw [stateAfter_concat] at hstep
  simp only [decide_eq_true_eq]
  exact hstep

end

/-! ## Demotion follows its history -/

open Classical in
/-- What the calls so far say of every pane is what the state holds. -/
structure FollowsHistory (threshold : UInt32) (calls : List Call) : Prop where
  demoted : ∀ pane, (stateAfter threshold calls).isDemoted pane = true ↔
    ∃ m ∈ since (resets threshold pane) (moments calls), reaches threshold pane m
  count : ∀ pane, ((stateAfter threshold calls).entry pane).edgesSinceHook.toNat =
    min (countingEdges threshold pane calls) (2 ^ 32 - 1)
  /-- An edge answers whether its pane is demoted now. -/
  edge : ∀ pane hookFresh storedWorking, ((stateAfter threshold calls).noteEdge pane hookFresh storedWorking).1 =
    (stateAfter threshold (calls ++ [.edge pane hookFresh storedWorking])).isDemoted pane
  hookEvent : ∀ pane claimed, (stateAfter threshold (calls ++ [.hookEvent pane claimed])).isDemoted pane = false ∧
    countingEdges threshold pane (calls ++ [.hookEvent pane claimed]) = 0
  demotions : (stateAfter threshold calls).demotions =
    (moments calls).countP fun m => decide (∃ pane, Demotes threshold pane m)
  episode : ∀ m pane other, Demotes threshold pane m → Demotes threshold other m → pane = other
  tracked : ((stateAfter threshold calls).hooks.map Prod.fst).Nodup ∧
    (stateAfter threshold calls).hooks.length ≤ maxTracked
  /-- A call for one pane leaves another's memory, or evicts it: the map is full, and the evicted was touched
  before every other. -/
  others : ∀ call pane other, call.pane? = some pane → other ≠ pane →
    Assoc.get? (stateAfter threshold (calls ++ [call])).rechecks other =
        Assoc.get? (stateAfter threshold calls).rechecks other ∧
      ((stateAfter threshold (calls ++ [call])).memory other = (stateAfter threshold calls).memory other ∨
        (stateAfter threshold (calls ++ [call])).memory other = none ∧ (stateAfter threshold calls).memory pane = none ∧
          (stateAfter threshold calls).hooks.length = maxTracked ∧
          ∀ target, target ≠ other → ((stateAfter threshold calls).memory target).isSome = true →
            TouchedAfter calls target other)

theorem demotion_follows_history (threshold : UInt32) (calls : List Call) : FollowsHistory threshold calls := by
  refine ⟨fun pane => demoted_run calls, fun pane => edgesSinceHook_run calls, fun pane hookFresh storedWorking => ?_, fun pane claimed => ?_,
    demotions_run calls, fun m pane other => Demotes.unique,
    ⟨(CaptureState.sound_run threshold calls).keys, (CaptureState.sound_run threshold calls).length⟩,
    fun call pane other hpane hne => ?_⟩
  · rw [stateAfter_concat, CaptureState.step, CaptureState.isDemoted_noteEdge, CaptureState.noteEdge_eq]
  · have hevent : isHookEvent pane (calls, .hookEvent pane claimed) = true := beq_self_eq_true pane
    have hresets : resets threshold pane (calls, .hookEvent pane claimed) = true := by
      rw [resets, hevent, Bool.true_or]
    exact ⟨(entry_resets hresets).2.1, countingEdges_resets hresets⟩
  · rw [stateAfter_concat]
    refine ⟨CaptureState.rechecks_step hpane hne, ?_⟩
    rw [CaptureState.memory_step hpane hne]
    split
    next hevicted =>
      obtain ⟨hnone, hfull, -, hafter⟩ := (CaptureState.sound_run threshold calls).evicted
        (beq_iff_eq.mp (Bool.and_eq_true_iff.mp hevicted).2)
      exact .inr ⟨rfl, hnone, hfull, hafter⟩
    next => exact .inl rfl

end TmuxAgents.Capture
