/-
Observations are applied once, in the order they were drained.

Whatever was applied to a pane is at or below the cursor of whatever the pane is
bound to since (`Applies`): a binding that goes on only moves forward, and a new
one starts beyond everything accepted. So the next observation applied is above
all before it, and the applied ones of a pane are a subsequence of the drained.
-/
import Mathlib.Data.List.Sort
import TmuxAgents.Runtime.Histories

namespace TmuxAgents

open Checked Collector ProgramRuntime

/-- What was applied so far rises pane by pane, and is never beyond what is bound. -/
structure Applies (f : Fleet) : Prop where
  accepted : ∀ a ∈ appliedOf f.history, a.observed ∈ acceptedOf f.history
  passed : ∀ a ∈ appliedOf f.history, ∀ binding, f.runtime.binding a.observed.pane = some binding →
    a.observed.stamp ≤ binding.cursor
  rising : (appliedOf f.history).Pairwise fun a a' => a.observed.pane = a'.observed.pane →
    a.observed.stamp < a'.observed.stamp

theorem applies_withEpoch (epoch : Nat) : Applies (.withEpoch epoch) :=
  ⟨fun _ h => (by cases h), fun _ h => (by cases h), .nil⟩

/-- What was applied before is behind an observation that passes its checks. -/
theorem Applies.stamp_lt {f : Fleet} (h : Applies f) {a a' : AppliedObservation} (ha : a ∈ appliedOf f.history)
    (ha' : a'.Checked f) (hp : a.observed.pane = a'.observed.pane) : a.observed.stamp < a'.observed.stamp := by
  have hle := h.passed a ha a'.binding (by rw [hp]; exact ha'.bound)
  refine hle.trans_lt ?_
  rw [Binding.cursor, ObservedEvent.stamp, Prod.Lex.toLex_lt_toLex]
  exact .inr ⟨ha'.connection.symm, ha'.sequence⟩

/-- A move that applies nothing. -/
theorem Applies.of_same {f f' : Fleet} (h : Applies f) (happlied : appliedOf f'.history = appliedOf f.history)
    (haccepted : acceptedOf f.history ⊆ acceptedOf f'.history)
    (hprogress : ∀ pane binding, f'.runtime.binding pane = some binding →
      (∃ prior, f.runtime.binding pane = some prior ∧ prior.Follows binding) ∨
        binding.Beyond (acceptedOf f.history) pane) : Applies f' := by
  refine ⟨?_, ?_, ?_⟩
  all_goals rw [happlied]
  · exact fun a ha => haccepted (h.accepted a ha)
  · intro a ha binding hb
    rcases hprogress _ binding hb with ⟨prior, hprior, hfollows⟩ | hbeyond
    · exact (h.passed a ha prior hprior).trans hfollows.cursor_le
    · exact hbeyond a.observed (h.accepted a ha) rfl
  · exact h.rising

theorem Move.applies {f f' : Fleet} (hmove : Move f f') (h : Applies f) : Applies f' := by
  have haccepted := acceptedOf_subset hmove.history
  cases hmove with
  | @runtime r' releases applied hstep happlied batch =>
    cases applied with
    | none =>
      refine h.of_same ?_ haccepted fun pane binding hb => hstep.progress hb
      simp only [Option.toList_none, List.map_nil, List.append_nil, appliedOf_append, appliedOf_released]
    | some a =>
      obtain ⟨hchecked, hcursor⟩ := happlied a rfl
      have hhistory : appliedOf (f.history ++ releases.map .released ++ (some a).toList.map .applied) =
          appliedOf f.history ++ [a] := by
        rw [appliedOf_append, appliedOf_append, appliedOf_released, List.append_nil]
        rfl
      refine ⟨fun a' ha' => haccepted ?_, fun a' ha' binding hb => ?_, ?_⟩
      · rw [hhistory] at ha'
        rcases List.mem_append.mp ha' with hold | hnew
        · exact h.accepted a' hold
        · exact List.mem_singleton.mp hnew ▸ hchecked.accepted
      · rw [hhistory] at ha'
        rcases List.mem_append.mp ha' with hold | hnew
        · rcases hstep.progress hb with ⟨prior, hprior, hfollows⟩ | hbeyond
          · exact (h.passed a' hold prior hprior).trans hfollows.cursor_le
          · exact hbeyond a'.observed (h.accepted a' hold) rfl
        · obtain rfl := List.mem_singleton.mp hnew
          exact hcursor binding hb
      · rw [hhistory, List.pairwise_append]
        refine ⟨h.rising, List.pairwise_singleton .., fun a₁ h₁ a₂ h₂ hp => ?_⟩
        obtain rfl := List.mem_singleton.mp h₂
        exact h.stamp_lt h₁ hchecked hp
  | collector hmicros hs batch =>
    exact h.of_same rfl haccepted fun pane binding hb => .inl ⟨binding, hb, .refl binding⟩
  | drain batch =>
    refine h.of_same ?_ haccepted fun pane binding hb => .inl ⟨binding, hb, .refl binding⟩
    rw [appliedOf_append]
    exact List.append_nil _
  | @note event hnote batch =>
    refine h.of_same ?_ haccepted fun pane binding hb => .inl ⟨binding, hb, .refl binding⟩
    rw [appliedOf_append]
    cases hnote <;> exact List.append_nil _

theorem Moves.applies {f f' : Fleet} (h : Moves f f') (ha : Applies f) : Applies f' := by
  induction h with
  | refl => exact ha
  | tail _ hmove ih => exact hmove.applies ih

/-- An applied observation passed its checks. -/
theorem Moves.applied_checked {f f' : Fleet} (h : Moves f f') {x y : List RuntimeEvent} {a : AppliedObservation}
    (hx : f'.history = x ++ .applied a :: y) (hlen : f.history.length ≤ x.length) :
    ∃ g, Moves f g ∧ Moves g f' ∧ g.history <+: x ∧ appliedOf x = appliedOf g.history ∧ a.Checked g := by
  obtain ⟨g, g', b, c, hbefore, hmove, hafter, hb, hc⟩ := h.point hx hlen
  have hmem : ∀ new, g'.history = g.history ++ new → new = b ++ .applied a :: c := fun new hnew =>
    List.append_cancel_left (hnew.symm.trans hc)
  have happlied : ∀ new, g'.history = g.history ++ new → appliedOf new = appliedOf b ++ a :: appliedOf c :=
    fun new hnew => by
      rw [hmem new hnew, appliedOf_append]
      rfl
  have hone : ∀ l : List AppliedObservation, l.length ≤ 1 → l = appliedOf b ++ a :: appliedOf c →
      l = [a] ∧ appliedOf b = [] := by
    intro l hlen hl
    rw [hl, List.length_append, List.length_cons] at hlen
    have hb : appliedOf b = [] := List.eq_nil_of_length_eq_zero (by omega)
    have hc : appliedOf c = [] := List.eq_nil_of_length_eq_zero (by omega)
    rw [hl, hb, hc]
    exact ⟨rfl, rfl⟩
  have hnone : ∀ new, g'.history = g.history ++ new → appliedOf new = [] → False := fun new hnew hnil => by
    have := happlied new hnew
    rw [hnil] at this
    simp at this
  cases hmove with
  | runtime applied hstep hchecked batch =>
    have happlied := happlied _ (List.append_assoc ..)
    rw [appliedOf_append, appliedOf_released, List.nil_append] at happlied
    have hlist : appliedOf (applied.toList.map .applied) = applied.toList := by cases applied <;> rfl
    rw [hlist] at happlied
    obtain ⟨hl, hnil⟩ := hone _ (by cases applied <;> simp) happlied
    refine ⟨g, hbefore, .head (.runtime applied hstep hchecked batch) hafter, hb ▸ List.prefix_append .., ?_, ?_⟩
    · rw [hb, appliedOf_append, hnil, List.append_nil]
    · exact (hchecked a (Option.toList_eq_singleton_iff.mp hl)).1
  | collector hmicros hs batch => exact (hnone [] (List.append_nil _).symm rfl).elim
  | drain batch => exact (hnone _ rfl rfl).elim
  | note hnote batch => exact (hnone _ rfl (by cases hnote <;> rfl)).elim

/-! ## Order -/

/-- Rising observations among rising ones are a subsequence. -/
theorem sublist_of_rising {l l' : List ObservedEvent} (h : l.Pairwise fun e e' => e.stamp < e'.stamp)
    (h' : l'.Pairwise fun e e' => e.stamp < e'.stamp) (hsub : l ⊆ l') : l.Sublist l' := by
  have hasymm : Std.Antisymm fun e e' : ObservedEvent => e.stamp < e'.stamp :=
    ⟨fun _ _ hlt hgt => absurd (hlt.trans hgt) (lt_irrefl _)⟩
  have hnodup : l.Nodup := h.imp fun hlt heq => absurd (heq ▸ hlt) (lt_irrefl _)
  exact List.sublist_of_subperm_of_pairwise (List.subperm_of_subset hnodup hsub) h h'

/-- What the drains of a history observed of a pane rises. -/
theorem Ready.drained_rising {f : Fleet} (h : Ready f) (pane : PaneId) :
    (((drainsOf f.history).flatMap (·.observations)).filter fun e => e.pane == pane).Pairwise
      fun e e' => e.stamp < e'.stamp := by
  refine (h.ordered pane).rising.sublist (List.Sublist.trans ?_ (List.sublist_append_left ..))
  rw [List.filter_flatMap, List.flatMap_map]
  induction drainsOf f.history with
  | nil => exact List.Sublist.refl _
  | cons drain drains ih =>
    rw [List.flatMap_cons, List.flatMap_cons]
    exact (List.sublist_append_right ..).append ih

/-- **Observations are applied in order, once.** Each was checked against the fleet it was applied
in, is above its binding's floor and everything applied of its pane on that connection before;
none is applied twice, and a pane's are applied in the order they were drained. -/
theorem observations_applied_once [Base64] (epoch : Nat) (ops : List FleetOp) :
    ∃ f, (Fleet.withEpoch epoch).run ops = some f ∧
      (∀ x a y, f.history = x ++ .applied a :: y →
        (∃ g, Moves (.withEpoch epoch) g ∧ Moves g f ∧ g.history <+: x ∧ a.Checked g) ∧
        a.binding.boundary.sequenceFloor < a.observed.sequence ∧
        ∀ a' ∈ appliedOf x, a'.observed.pane = a.observed.pane → a'.observed.connection = a.observed.connection →
          a'.observed.sequence < a.observed.sequence) ∧
      ((appliedOf f.history).map (·.observed)).Nodup ∧
      ∀ pane, (((appliedOf f.history).map (·.observed)).filter fun e => e.pane == pane).Sublist
        (((drainsOf f.history).flatMap (·.observations)).filter fun e => e.pane == pane) := by
  have hready := ready_withEpoch epoch
  have happlies := applies_withEpoch epoch
  obtain ⟨f, hrun, hmoves⟩ := Fleet.run_moves hready ops
  have hf := Moves.ready hmoves hready
  have ha := Moves.applies hmoves happlies
  refine ⟨f, hrun, fun x a y hx => ?_, ?_, fun pane => ?_⟩
  · obtain ⟨g, hbefore, hafter, hprefix, happlied, hchecked⟩ := Moves.applied_checked hmoves hx (Nat.zero_le _)
    refine ⟨⟨g, hbefore, hafter, hprefix, hchecked⟩, ?_, fun a' ha' hp hc => ?_⟩
    · exact ((Moves.ready hbefore hready).floored _ _ hchecked.bound).trans_lt hchecked.sequence
    · have hlt := (Moves.applies hbefore happlies).stamp_lt (happlied ▸ ha') hchecked hp
      rw [ObservedEvent.stamp, ObservedEvent.stamp, hc, Prod.Lex.toLex_lt_toLex] at hlt
      exact (hlt.resolve_left (lt_irrefl _)).2
  · rw [List.Nodup, List.pairwise_map]
    refine ha.rising.imp fun hlt heq => ?_
    exact absurd (heq ▸ hlt (congrArg _ heq)) (lt_irrefl _)
  · refine sublist_of_rising ?_ (hf.drained_rising pane) fun e he => ?_
    · rw [List.filter_map, List.pairwise_map]
      refine (ha.rising.filter _).imp_of_mem fun h₁ h₂ hlt => hlt ?_
      have hp₁ := (List.mem_filter.mp h₁).2
      have hp₂ := (List.mem_filter.mp h₂).2
      exact (beq_iff_eq.mp hp₁).trans (beq_iff_eq.mp hp₂).symm
    · obtain ⟨hmem, hp⟩ := List.mem_filter.mp he
      obtain ⟨a, hin, rfl⟩ := List.mem_map.mp hmem
      obtain ⟨drain, hdrain, ho⟩ := hf.accepted a.observed (ha.accepted a hin)
      exact List.mem_filter.mpr ⟨List.mem_flatMap.mpr ⟨drain, hdrain, ho⟩, hp⟩

end TmuxAgents
