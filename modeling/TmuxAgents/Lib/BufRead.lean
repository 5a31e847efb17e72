/-
A buffered reader.

What is left to read is fixed; how much of it one look shows is the reader's own, and may be
different at every look. A look shows nothing only at the end.
-/
import Mathlib.Data.List.Basic

/-- A reader `ρ` of `β`s whose looks may fail with an `ε`. -/
structure BufRead (ρ ε β : Type*) where
  /-- What is left to read. -/
  rest : ρ → List β
  fillBuf : ρ → Except ε (List β × ρ)
  consume : ρ → Nat → ρ
  shows : ∀ {r available r'}, fillBuf r = .ok (available, r') → available <+: rest r
  ends : ∀ {r r'}, fillBuf r = .ok ([], r') → rest r = []
  fills : ∀ {r available r'}, fillBuf r = .ok (available, r') → rest r' = rest r
  moves : ∀ {r available r' n}, fillBuf r = .ok (available, r') → n ≤ available.length →
    rest (consume r' n) = (rest r).drop n

namespace BufRead

variable {ρ ε β : Type*} (reader : BufRead ρ ε β) {r r' : ρ} {available : List β}

/-- What a look shows, and what is left past it. -/
theorem rest_eq (h : reader.fillBuf r = .ok (available, r')) :
    reader.rest r = available ++ reader.rest (reader.consume r' available.length) := by
  obtain ⟨tail, htail⟩ := reader.shows h
  rw [reader.moves h (Nat.le_refl _), ← htail, List.drop_left]

theorem rest_consume (h : reader.fillBuf r = .ok (available, r')) {front back : List β} (hsplit : available = front ++ back) :
    reader.rest (reader.consume r' front.length) = back ++ reader.rest (reader.consume r' available.length) := by
  have hle : front.length ≤ available.length := by rw [hsplit, List.length_append]; omega
  rw [reader.moves h hle, reader.rest_eq h, List.drop_append_of_le_length hle, hsplit, List.drop_left]

/-- A look that shows something leaves less past it. -/
theorem length_consume_lt {b : β} {bs : List β} (h : reader.fillBuf r = .ok (b :: bs, r')) :
    (reader.rest (reader.consume r' (b :: bs).length)).length < (reader.rest r).length := by
  rw [reader.rest_eq h, List.length_append, List.length_cons]
  omega

/-! ## Chunks -/

/-- The reader of a stream that comes in chunks. A look shows what is left of the first. -/
def chunked (ε β : Type*) : BufRead {chunks : List (List β) // [] ∉ chunks} ε β where
  rest r := r.1.flatten
  fillBuf r := .ok (r.1.headD [], r)
  consume r n :=
    match r with
    | ⟨[], h⟩ => ⟨[], h⟩
    | ⟨chunk :: chunks, h⟩ =>
      if hle : chunk.length ≤ n then ⟨chunks, fun hmem => h (.tail _ hmem)⟩
      else ⟨chunk.drop n :: chunks, by
        rw [List.mem_cons, not_or]
        exact ⟨fun hnil => hle (List.drop_eq_nil_iff.mp hnil.symm), fun hmem => h (.tail _ hmem)⟩⟩
  shows := by
    rintro ⟨chunks, h⟩ available r' hfill
    obtain ⟨rfl, -⟩ := Prod.mk.inj (Except.ok.inj hfill)
    cases chunks with
    | nil => exact List.prefix_refl _
    | cons chunk chunks => exact List.prefix_append ..
  ends := by
    rintro ⟨chunks, h⟩ r' hfill
    obtain ⟨hnil, -⟩ := Prod.mk.inj (Except.ok.inj hfill)
    cases chunks with
    | nil => rfl
    | cons chunk chunks =>
      rw [List.headD_cons] at hnil
      exact absurd (hnil ▸ List.mem_cons_self) h
  fills := by
    intro r available r' hfill
    rw [← (Prod.mk.inj (Except.ok.inj hfill)).2]
  moves := by
    rintro ⟨chunks, h⟩ available r' n hfill hn
    obtain ⟨rfl, rfl⟩ := Prod.mk.inj (Except.ok.inj hfill)
    cases chunks with
    | nil => rw [List.flatten_nil, List.drop_nil]
    | cons chunk chunks =>
      rw [List.headD_cons] at hn
      dsimp only
      rw [List.flatten_cons, List.drop_append_of_le_length hn]
      split
      next hle => rw [List.drop_eq_nil_of_le hle, List.nil_append]
      next => rfl

end BufRead
