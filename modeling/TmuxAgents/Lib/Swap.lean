/-
Compare-and-swap on a register whose written values are all new.

Each swap expects a value and writes another. Where every value written is new,
no value is expected by two swaps, and the value the register holds tells which
swap was the last.
-/
import Mathlib.Algebra.Order.Ring.Nat
import Mathlib.Data.List.Nodup

variable {ι α : Type*} (expected written : ι → α)

/-- The swaps a register went through from its first value to its current one: each found the
value the one before it had written. -/
def Swaps (first : α) (swaps : List ι) (current : α) : Prop :=
  swaps.map expected ++ [current] = first :: swaps.map written

namespace Swaps

variable {expected written} {first current : α} {swaps : List ι}

theorem start : Swaps expected written first [] first := rfl

theorem next (h : Swaps expected written first swaps current) {swap : ι} (he : expected swap = current) :
    Swaps expected written first (swaps ++ [swap]) (written swap) := by
  have hl : swaps.map expected ++ [current] ++ [written swap] = first :: swaps.map written ++ [written swap] :=
    congrArg (· ++ [written swap]) h
  simpa [Swaps, he] using hl

/-- **At most one swap expects a value.** -/
theorem expected_nodup (h : Swaps expected written first swaps current) (hnew : (first :: swaps.map written).Nodup) :
    (swaps.map expected).Nodup := by
  rw [← (show _ = _ from h)] at hnew
  exact (List.nodup_append.mp hnew).1

/-- **The register names its last writer.** -/
theorem last (h : Swaps expected written first swaps current) (hne : current ≠ first) :
    ∃ swap, swaps.getLast? = some swap ∧ written swap = current := by
  rcases List.eq_nil_or_concat' swaps with rfl | ⟨before, swap, rfl⟩
  · simp only [Swaps, List.map_nil, List.nil_append, List.cons.injEq, and_true] at h
    exact absurd h hne
  · refine ⟨swap, List.getLast?_concat, ?_⟩
    have hshape : (before ++ [swap]).map expected ++ [current] = (first :: before.map written) ++ [written swap] := by
      rw [show _ = _ from h]
      simp
    have hlast := congrArg List.getLast? hshape
    rw [List.getLast?_concat, List.getLast?_concat, Option.some.injEq] at hlast
    exact hlast.symm

end Swaps

/-- A value that no two elements share is the value of at most one. -/
theorem List.Nodup.filter_map_le_one [DecidableEq α] {f : ι → α} {l : List ι} (h : (l.map f).Nodup) (a : α) :
    (l.filter fun x => f x = a).length ≤ 1 := by
  induction l with
  | nil => simp
  | cons x l ih =>
    rw [List.map_cons, List.nodup_cons] at h
    by_cases hx : f x = a
    · have hnone : l.filter (fun y => f y = a) = [] := by
        rw [List.filter_eq_nil_iff]
        intro y hy hya
        exact h.1 (List.mem_map.mpr ⟨y, hy, (of_decide_eq_true hya).trans hx.symm⟩)
      simp [hx, hnone]
    · simpa [hx] using ih h.2
