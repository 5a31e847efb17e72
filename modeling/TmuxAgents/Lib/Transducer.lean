/-
Transducers: a machine that reads a stream one symbol at a time and emits a list
of items for each. `feed_induct` is the rule for an invariant that speaks of what
has been read and what has been emitted.
-/
import Mathlib.Algebra.Order.Ring.Nat
import Mathlib.Data.List.Basic
import Mathlib.Data.List.Induction

namespace Transducer

variable {σ α ω : Type*} (step : σ → α → List ω × σ)

/-- The items a stream makes the machine emit, and its state after it. -/
def feed (s : σ) : List α → List ω × σ
  | [] => ([], s)
  | a :: rest => ((step s a).1 ++ (feed (step s a).2 rest).1, (feed (step s a).2 rest).2)

@[simp] theorem feed_nil (s : σ) : feed step s [] = ([], s) := rfl

theorem feed_cons (s : σ) (a : α) (rest : List α) :
    feed step s (a :: rest) = ((step s a).1 ++ (feed step (step s a).2 rest).1, (feed step (step s a).2 rest).2) := rfl

theorem feed_append (s : σ) (before after : List α) :
    feed step s (before ++ after) =
      ((feed step s before).1 ++ (feed step (feed step s before).2 after).1,
        (feed step (feed step s before).2 after).2) := by
  induction before generalizing s with
  | nil => rfl
  | cons a before ih => simp only [List.cons_append, feed_cons, ih, List.append_assoc]

theorem feed_concat (s : σ) (before : List α) (a : α) :
    feed step s (before ++ [a]) =
      ((feed step s before).1 ++ (step (feed step s before).2 a).1, (step (feed step s before).2 a).2) := by
  rw [feed_append, feed_cons, feed_nil, List.append_nil]

variable {step}

/-- A relation between what was read, what was emitted and the state, kept by every symbol. -/
theorem feed_induct {s : σ} (I : List α → List ω → σ → Prop) (start : I [] [] s)
    (next : ∀ seen items s a, I seen items s → I (seen ++ [a]) (items ++ (step s a).1) (step s a).2)
    (stream : List α) : I stream (feed step s stream).1 (feed step s stream).2 := by
  induction stream using List.reverseRecOn with
  | nil => exact start
  | append_singleton seen a ih =>
    rw [feed_concat]
    exact next _ _ _ a ih

end Transducer
