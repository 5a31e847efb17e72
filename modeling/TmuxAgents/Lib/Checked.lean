/-
Fallible steps: what a result of two steps in a row says of each, and steps that must not
fail: `Option` read as "returns, or panics", a checked subtraction, and the rules of the
total-correctness triple `Returns x P` (the computation returns, and what it returns
satisfies `P`).
-/
import Mathlib.Algebra.Order.Ring.Nat
import Mathlib.Data.Option.Basic
import Mathlib.Data.List.Basic

namespace Checked

/-- A result is the result of both steps. -/
theorem ok_of_bind {ε α β : Type} {x : Except ε α} {f : α → Except ε β} {b : β} (h : x >>= f = .ok b) :
    ∃ a, x = .ok a ∧ f a = .ok b := by
  cases x with
  | error e => cases h
  | ok a => exact ⟨a, rfl, h⟩

universe u

variable {α β : Type u}

/-- Subtraction of unsigned machine integers: below zero it panics. -/
def usub (a b : Nat) : Option Nat := if b ≤ a then some (a - b) else none

@[simp] theorem usub_eq_some {a b c : Nat} : usub a b = some c ↔ b ≤ a ∧ a - b = c := by
  unfold usub
  split <;> simp [*]

theorem usub_of_le {a b : Nat} (h : b ≤ a) : usub a b = some (a - b) := if_pos h

/-- The computation returns a value that satisfies `P`. -/
def Returns (x : Option α) (P : α → Prop) : Prop := ∃ a, x = some a ∧ P a

namespace Returns

theorem mono {x : Option α} {P Q : α → Prop} (h : Returns x P) (hPQ : ∀ a, P a → Q a) : Returns x Q := by
  obtain ⟨a, hx, ha⟩ := h
  exact ⟨a, hx, hPQ a ha⟩

theorem bind {x : Option α} {f : α → Option β} {P : α → Prop} {Q : β → Prop} (h : Returns x P)
    (hf : ∀ a, P a → Returns (f a) Q) : Returns (x >>= f) Q := by
  obtain ⟨a, rfl, ha⟩ := h
  exact hf a ha

theorem of_eq {x : Option α} {P : α → Prop} (h : Returns x P) {a : α} (ha : x = some a) : P a := by
  obtain ⟨a', hx, h⟩ := h
  obtain rfl : a = a' := Option.some.inj (ha.symm.trans hx)
  exact h

theorem and {x : Option α} {P Q : α → Prop} (h : Returns x P) (h' : Returns x Q) : Returns x fun a => P a ∧ Q a := by
  obtain ⟨a, hx, ha⟩ := h
  exact ⟨a, hx, ha, h'.of_eq hx⟩

theorem usub {a b : Nat} {P : Nat → Prop} (hle : b ≤ a) (h : P (a - b)) : Returns (Checked.usub a b) P :=
  ⟨a - b, usub_of_le hle, h⟩

/-- A loop, by an invariant that may speak of the elements still to come. -/
theorem foldlM {f : β → α → Option β} (I : List α → β → Prop)
    (h : ∀ a rest b, I (a :: rest) b → Returns (f b a) (I rest)) {l : List α} {b : β} (hb : I l b) :
    Returns (l.foldlM f b) (I []) := by
  induction l generalizing b with
  | nil => exact ⟨b, rfl, hb⟩
  | cons a rest ih =>
    rw [List.foldlM_cons]
    exact Returns.bind (h a rest b hb) fun b' hb' => ih hb'

end Returns

/-- A loop that returned, by an invariant of its returning steps. -/
theorem foldlM_some {f : β → α → Option β} (I : β → Prop) (h : ∀ b a b', I b → f b a = some b' → I b') :
    ∀ {l : List α} {b b' : β}, I b → l.foldlM f b = some b' → I b'
  | [], b, b', hb, hl => by
    cases hl
    exact hb
  | a :: l, b, b', hb, hl => by
    rw [List.foldlM_cons, Option.bind_eq_bind, Option.bind_eq_some_iff] at hl
    obtain ⟨b₁, h₁, hl⟩ := hl
    exact foldlM_some I h (h b a b₁ hb h₁) hl

end Checked
