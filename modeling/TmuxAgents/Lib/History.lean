/-
What a state remembers of the operations that led to it.

A moment is an operation with those before it. What a register holds is told by the
moments since the last one that `ends` what it held before: `since_invariant` is the
rule. A count, a latch and the last value written are read off that list.
-/
import Mathlib.Data.List.DropRight
import TmuxAgents.Lib.Run

namespace History

variable {σ ω : Type*}

/-! ## Moments -/

/-- Every operation of a list, with those before it. -/
def momentsFrom : List ω → List ω → List (List ω × ω)
  | _, [] => []
  | before, op :: ops => (before, op) :: momentsFrom (before ++ [op]) ops

def moments (ops : List ω) : List (List ω × ω) := momentsFrom [] ops

theorem momentsFrom_concat (before ops : List ω) (op : ω) :
    momentsFrom before (ops ++ [op]) = momentsFrom before ops ++ [(before ++ ops, op)] := by
  induction ops generalizing before with
  | nil =>
    rw [List.append_nil]
    rfl
  | cons op' ops ih =>
    have hrest := ih (before ++ [op'])
    rw [List.append_assoc, List.singleton_append] at hrest
    exact congrArg (List.cons (before, op')) hrest

theorem moments_concat (ops : List ω) (op : ω) : moments (ops ++ [op]) = moments ops ++ [(ops, op)] :=
  momentsFrom_concat [] ops op

/-! ## Since the last of a kind -/

section

variable {α : Type*} (ends : α → Bool)

/-- What came after the last that `ends`. -/
def since (list : List α) : List α := list.rtakeWhile fun a => !ends a

theorem since_ends {list : List α} {a : α} (h : ends a = true) : since ends (list ++ [a]) = [] :=
  List.rtakeWhile_concat_neg _ _ _ (by simp [h])

theorem since_keeps {list : List α} {a : α} (h : ends a = false) :
    since ends (list ++ [a]) = since ends list ++ [a] :=
  List.rtakeWhile_concat_pos _ _ _ (by simp [h])

/-- Where one of the first kind came after the last of the second, the second kind ends nothing. -/
theorem since_or {ends' : α → Bool} {list : List α} (h : ∃ a ∈ since ends' list, ends a = true) :
    since (fun a => ends a || ends' a) list = since ends list := by
  induction list using List.reverseRecOn with
  | nil => rfl
  | append_singleton list a ih =>
    cases ha : ends a with
    | true => rw [since_ends ends ha, since_ends _ (by rw [ha, Bool.true_or])]
    | false =>
      cases ha' : ends' a with
      | true =>
        rw [since_ends ends' ha'] at h
        obtain ⟨b, hb, -⟩ := h
        cases hb
      | false =>
        rw [since_keeps ends' ha'] at h
        obtain ⟨b, hb, hends⟩ := h
        rcases List.mem_append.mp hb with hb | hb
        · rw [since_keeps ends ha, since_keeps _ (by rw [ha, ha', Bool.or_false]), ih ⟨b, hb, hends⟩]
        · rw [List.mem_singleton.mp hb, ha] at hends
          cases hends

end

/-! ## Registers -/

section

variable (step : σ → ω → σ) {s : σ} (ends : List ω × ω → Bool)

/-- **What a register holds.** It starts empty, what ends its contents empties it, and every other
operation adds the moment it is. -/
theorem since_invariant (holds : List (List ω × ω) → σ → Prop) (hstart : holds [] s)
    (hends : ∀ ops op, ends (ops, op) = true → holds [] (step (Run.run step s ops) op))
    (hkeeps : ∀ ops op, ends (ops, op) = false → holds (since ends (moments ops)) (Run.run step s ops) →
      holds (since ends (moments ops) ++ [(ops, op)]) (step (Run.run step s ops) op)) (ops : List ω) :
    holds (since ends (moments ops)) (Run.run step s ops) := by
  induction ops using List.reverseRecOn with
  | nil => exact hstart
  | append_singleton ops op ih =>
    rw [moments_concat, Run.run_concat]
    cases h : ends (ops, op) with
    | true =>
      rw [since_ends ends h]
      exact hends ops op h
    | false =>
      rw [since_keeps ends h]
      exact hkeeps ops op h ih

/-- A count of the operations that meet a condition where they come. -/
theorem countP_moments (count : σ → Nat) (counts : List ω × ω → Bool) (hstart : count s = 0)
    (hstep : ∀ ops op, count (step (Run.run step s ops) op) =
      count (Run.run step s ops) + if counts (ops, op) then 1 else 0) (ops : List ω) :
    count (Run.run step s ops) = (moments ops).countP counts := by
  induction ops using List.reverseRecOn with
  | nil => exact hstart
  | append_singleton ops op ih =>
    rw [moments_concat, Run.run_concat, List.countP_append, hstep, ih, List.countP_singleton]

end

end History
