/-
Lines: a list cut after each separator.

A list of whole lines is empty or ends in a separator. Cutting such a list off the front cuts
the rest as if it stood alone (`splitInclusive_append`), which is what lets a reader work on
one piece of a file at a time, and every list is whole lines and an unfinished one.
-/
import Mathlib.Algebra.Order.Ring.Nat
import Mathlib.Data.List.Basic
import Mathlib.Data.List.Infix

namespace Lines

variable {α : Type*} {sep : α}

/-! ## Definitions -/

section

variable [DecidableEq α]

/-- `split_inclusive`: each piece but an unfinished last one ends in the separator. -/
def splitInclusive (sep : α) : List α → List (List α)
  | [] => []
  | a :: rest =>
    if a = sep then [a] :: splitInclusive sep rest
    else match splitInclusive sep rest with
      | [] => [[a]]
      | line :: lines => (a :: line) :: lines

/-- `position`: where the first separator is. -/
def position (sep : α) : List α → Option Nat
  | [] => none
  | a :: rest => if a = sep then some 0 else (position sep rest).map (· + 1)

/-- `rposition`: where the last separator is. -/
def rposition (sep : α) : List α → Option Nat
  | [] => none
  | a :: rest =>
    match rposition sep rest with
    | some i => some (i + 1)
    | none => if a = sep then some 0 else none

/-- How much of a list is whole lines. -/
def completeLen (sep : α) (list : List α) : Nat :=
  match rposition sep list with
  | some i => i + 1
  | none => 0

end

/-- The list is whole lines. -/
def Whole (sep : α) (list : List α) : Prop := list = [] ∨ ∃ front, list = front ++ [sep]

/-! ## Whole lines -/

theorem Whole.nil : Whole sep [] := .inl rfl

theorem Whole.append {a b : List α} (ha : Whole sep a) (hb : Whole sep b) : Whole sep (a ++ b) := by
  rcases hb with rfl | ⟨front, rfl⟩
  · rwa [List.append_nil]
  · exact .inr ⟨a ++ front, (List.append_assoc ..).symm⟩

theorem Whole.of_append {a b : List α} (h : Whole sep (a ++ b)) : Whole sep b := by
  rcases List.eq_nil_or_concat b with rfl | ⟨front, last, rfl⟩
  · exact Whole.nil
  · rcases h with h | ⟨before, h⟩
    · simp at h
    · rw [List.concat_eq_append, ← List.append_assoc] at h
      obtain ⟨-, hlast⟩ := List.append_inj' h rfl
      rw [List.singleton_inj] at hlast
      subst hlast
      exact .inr ⟨front, List.concat_eq_append⟩

theorem Whole.cons {a : α} {rest : List α} (h : Whole sep (a :: rest)) : Whole sep rest := by
  have happend : Whole sep ([a] ++ rest) := h
  exact happend.of_append

theorem Whole.eq_nil {list : List α} (h : Whole sep list) (hsep : sep ∉ list) : list = [] := by
  rcases h with h | ⟨front, rfl⟩
  · exact h
  · exact absurd (List.mem_append_right front (List.mem_singleton_self sep)) hsep

/-- The last of those that have a property. -/
theorem exists_last {β : Type*} {P : β → Prop} {list : List β} (h : ∃ x ∈ list, P x) :
    ∃ before x after, list = before ++ x :: after ∧ P x ∧ ∀ y ∈ after, ¬ P y := by
  induction list with
  | nil =>
    obtain ⟨x, hx, -⟩ := h
    cases hx
  | cons a list ih =>
    by_cases hrest : ∃ x ∈ list, P x
    · obtain ⟨before, x, after, rfl, hx, hafter⟩ := ih hrest
      exact ⟨a :: before, x, after, rfl, hx, hafter⟩
    · obtain ⟨x, hx, hP⟩ := h
      rcases List.mem_cons.mp hx with rfl | hx
      · exact ⟨[], x, list, rfl, hP, fun y hy hPy => hrest ⟨y, hy, hPy⟩⟩
      · exact absurd ⟨x, hx, hP⟩ hrest

variable [DecidableEq α]

theorem splitInclusive_nil : splitInclusive sep ([] : List α) = [] := rfl

theorem splitInclusive_cons {a : α} {rest : List α} :
    splitInclusive sep (a :: rest) =
      if a = sep then [a] :: splitInclusive sep rest
      else match splitInclusive sep rest with
        | [] => [[a]]
        | line :: lines => (a :: line) :: lines := rfl

theorem position_nil : position sep ([] : List α) = none := rfl

theorem position_cons {a : α} {rest : List α} :
    position sep (a :: rest) = if a = sep then some 0 else (position sep rest).map (· + 1) := rfl

theorem rposition_nil : rposition sep ([] : List α) = none := rfl

theorem rposition_cons {a : α} {rest : List α} :
    rposition sep (a :: rest) =
      match rposition sep rest with
      | some i => some (i + 1)
      | none => if a = sep then some 0 else none := rfl

theorem splitInclusive_eq_nil {list : List α} : splitInclusive sep list = [] ↔ list = [] := by
  cases list with
  | nil => exact ⟨fun _ => rfl, fun _ => rfl⟩
  | cons a rest =>
    rw [splitInclusive_cons]
    split
    · simp
    · split <;> simp

theorem flatten_splitInclusive (list : List α) : (splitInclusive sep list).flatten = list := by
  induction list with
  | nil => rfl
  | cons a rest ih =>
    rw [splitInclusive_cons]
    split
    · rw [List.flatten_cons, ih]
      rfl
    · split
      · rename_i hnil
        rw [hnil] at ih
        rw [← ih]
        rfl
      · rename_i line lines hcons
        rw [hcons] at ih
        rw [List.flatten_cons, List.cons_append, ← List.flatten_cons, ih]

/-- Whole lines are cut off the front. -/
theorem splitInclusive_append {a b : List α} (ha : Whole sep a) :
    splitInclusive sep (a ++ b) = splitInclusive sep a ++ splitInclusive sep b := by
  induction a with
  | nil => rfl
  | cons x rest ih =>
    by_cases hrest : rest = []
    · subst hrest
      have hx : x = sep := by
        rcases ha with h | ⟨front, h⟩
        · cases h
        · rcases front with _ | ⟨y, front⟩
          · simpa using h
          · simp at h
      rw [List.cons_append, List.nil_append, splitInclusive_cons, if_pos hx, splitInclusive_cons, if_pos hx]
      rfl
    · have ih := ih ha.cons
      rw [List.cons_append, splitInclusive_cons, splitInclusive_cons]
      split
      · rw [ih]
        rfl
      · cases hsplit : splitInclusive sep rest with
        | nil => exact absurd (splitInclusive_eq_nil.mp hsplit) hrest
        | cons line lines =>
          rw [ih, hsplit]
          rfl

/-- A line by itself. -/
theorem splitInclusive_line {front : List α} (h : sep ∉ front) : splitInclusive sep (front ++ [sep]) = [front ++ [sep]] := by
  induction front with
  | nil => rw [List.nil_append, splitInclusive_cons, if_pos rfl, splitInclusive_nil]
  | cons a front ih =>
    rw [List.mem_cons, not_or] at h
    rw [List.cons_append, splitInclusive_cons, if_neg (Ne.symm h.1), ih h.2]

/-- An unfinished line. -/
theorem splitInclusive_unfinished {list : List α} (h : sep ∉ list) (hne : list ≠ []) :
    splitInclusive sep list = [list] := by
  induction list with
  | nil => exact absurd rfl hne
  | cons a rest ih =>
    rw [List.mem_cons, not_or] at h
    rw [splitInclusive_cons, if_neg (Ne.symm h.1)]
    by_cases hrest : rest = []
    · subst hrest
      rfl
    · rw [ih h.2 hrest]

/-! ## Positions -/

theorem position_eq_some {list : List α} {i : Nat} :
    position sep list = some i ↔ ∃ front rest, list = front ++ sep :: rest ∧ sep ∉ front ∧ front.length = i := by
  induction list generalizing i with
  | nil => simp [position_nil]
  | cons a list ih =>
    rw [position_cons]
    by_cases ha : a = sep
    · subst ha
      rw [if_pos rfl, Option.some.injEq]
      constructor
      · rintro rfl
        exact ⟨[], list, rfl, List.not_mem_nil, rfl⟩
      · rintro ⟨front, rest, heq, hmem, rfl⟩
        cases front with
        | nil => rfl
        | cons b front =>
          rw [List.cons_append, List.cons.injEq] at heq
          rw [heq.1] at hmem
          exact absurd List.mem_cons_self hmem
    · rw [if_neg ha, Option.map_eq_some_iff]
      constructor
      · rintro ⟨j, hj, rfl⟩
        obtain ⟨front, rest, rfl, hmem, rfl⟩ := ih.mp hj
        refine ⟨a :: front, rest, rfl, ?_, rfl⟩
        rw [List.mem_cons, not_or]
        exact ⟨Ne.symm ha, hmem⟩
      · rintro ⟨front, rest, heq, hmem, rfl⟩
        cases front with
        | nil =>
          rw [List.nil_append, List.cons.injEq] at heq
          exact absurd heq.1 ha
        | cons b front =>
          rw [List.cons_append, List.cons.injEq] at heq
          rw [List.mem_cons, not_or] at hmem
          exact ⟨front.length, ih.mpr ⟨front, rest, heq.2, hmem.2, rfl⟩, rfl⟩

theorem position_eq_none {list : List α} : position sep list = none ↔ sep ∉ list := by
  induction list with
  | nil => simp [position_nil]
  | cons a list ih =>
    rw [position_cons]
    by_cases ha : a = sep
    · rw [if_pos ha]
      simp [ha]
    · rw [if_neg ha, Option.map_eq_none_iff, ih, List.mem_cons, not_or]
      exact ⟨fun h => ⟨Ne.symm ha, h⟩, And.right⟩

theorem rposition_eq_none {list : List α} : rposition sep list = none ↔ sep ∉ list := by
  induction list with
  | nil => simp [rposition_nil]
  | cons a list ih =>
    rw [rposition_cons]
    cases hrest : rposition sep list with
    | none =>
      rw [hrest] at ih
      by_cases ha : a = sep
      · simp [ha]
      · simp [ha, Ne.symm ha, ih.mp rfl]
    | some i =>
      rw [hrest] at ih
      have hmem : sep ∈ list := by
        by_contra hmem
        exact absurd (ih.mpr hmem) (by simp)
      simp [hmem]

theorem rposition_eq_some {list : List α} {i : Nat} (h : rposition sep list = some i) :
    ∃ front rest, list = front ++ sep :: rest ∧ sep ∉ rest ∧ front.length = i := by
  induction list generalizing i with
  | nil => cases h
  | cons a list ih =>
    rw [rposition_cons] at h
    cases hrest : rposition sep list with
    | none =>
      rw [hrest] at h
      simp only [Option.ite_none_right_eq_some, Option.some.injEq] at h
      obtain ⟨rfl, rfl⟩ := h
      exact ⟨[], list, rfl, rposition_eq_none.mp hrest, rfl⟩
    | some j =>
      rw [hrest, Option.some.injEq] at h
      subst h
      obtain ⟨front, rest, rfl, hmem, rfl⟩ := ih hrest
      exact ⟨a :: front, rest, rfl, hmem, rfl⟩

/-! ## The whole lines of a list -/

/-- Every list is whole lines and an unfinished one. -/
theorem complete_split (sep : α) (list : List α) :
    Whole sep (list.take (completeLen sep list)) ∧ sep ∉ list.drop (completeLen sep list) := by
  unfold completeLen
  cases hpos : rposition sep list with
  | none => exact ⟨.inl rfl, rposition_eq_none.mp hpos⟩
  | some i =>
    obtain ⟨front, rest, rfl, hmem, rfl⟩ := rposition_eq_some hpos
    have hcut : front ++ sep :: rest = (front ++ [sep]) ++ rest := by rw [List.append_assoc]; rfl
    have hlen : (front ++ [sep]).length = front.length + 1 := List.length_append
    simp only [hcut, ← hlen, List.take_left, List.drop_left]
    exact ⟨.inr ⟨front, rfl⟩, hmem⟩

theorem completeLen_le (sep : α) (list : List α) : completeLen sep list ≤ list.length := by
  unfold completeLen
  cases hpos : rposition sep list with
  | none => exact Nat.zero_le _
  | some i =>
    obtain ⟨front, rest, rfl, -, rfl⟩ := rposition_eq_some hpos
    simp only [List.length_append, List.length_cons]
    omega

/-- Whole lines with an unfinished one behind them are all of the whole lines. -/
theorem completeLen_append {a b : List α} (ha : Whole sep a) (hb : sep ∉ b) : completeLen sep (a ++ b) = a.length := by
  have hle := completeLen_le sep (a ++ b)
  obtain ⟨hwhole, hrest⟩ := complete_split sep (a ++ b)
  rcases Nat.lt_trichotomy (completeLen sep (a ++ b)) a.length with h | h | h
  · -- The last separator of `a` would be past the last separator.
    rw [List.drop_append_of_le_length (Nat.le_of_lt h), List.mem_append, not_or] at hrest
    have hcut : Whole sep (a.take (completeLen sep (a ++ b)) ++ a.drop (completeLen sep (a ++ b))) := by
      rwa [List.take_append_drop]
    have hnil := hcut.of_append.eq_nil hrest.1
    rw [List.drop_eq_nil_iff] at hnil
    omega
  · exact h
  · rw [List.take_append] at hwhole
    have hnil := hwhole.of_append.eq_nil fun hmem => hb (List.mem_of_mem_take hmem)
    rw [List.take_eq_nil_iff] at hnil
    rcases hnil with hnil | hnil
    · omega
    · subst hnil
      rw [List.append_nil] at hle h
      omega

/-- Behind whole lines, the whole lines go on. -/
theorem completeLen_append_whole {a b : List α} (ha : Whole sep a) :
    completeLen sep (a ++ b) = a.length + completeLen sep b := by
  obtain ⟨hwhole, hrest⟩ := complete_split sep b
  have h := completeLen_append (ha.append hwhole) hrest
  rw [List.append_assoc, List.take_append_drop, List.length_append, List.length_take] at h
  have hle := completeLen_le sep b
  omega

/-- Whole lines at the front are among the whole lines. -/
theorem le_completeLen {a b : List α} (ha : Whole sep a) : a.length ≤ completeLen sep (a ++ b) := by
  rw [completeLen_append_whole ha]
  exact Nat.le_add_right _ _

/-! ## The lines of whole lines -/

theorem ne_nil_of_mem {list line : List α} (h : line ∈ splitInclusive sep list) : line ≠ [] := by
  induction list generalizing line with
  | nil => cases h
  | cons a rest ih =>
    rw [splitInclusive_cons] at h
    split at h
    · rcases List.mem_cons.mp h with rfl | h
      · exact List.cons_ne_nil _ _
      · exact ih h
    · split at h
      · rw [List.mem_singleton] at h
        rw [h]
        exact List.cons_ne_nil _ _
      · rename_i first lines hsplit
        rcases List.mem_cons.mp h with rfl | h
        · exact List.cons_ne_nil _ _
        · exact ih (by rw [hsplit]; exact List.mem_cons_of_mem _ h)

/-- Whole lines by the first of them. -/
theorem Whole.first_line {list : List α} (h : Whole sep list) (hne : list ≠ []) :
    ∃ front rest, list = (front ++ [sep]) ++ rest ∧ sep ∉ front ∧ Whole sep rest := by
  have hmem : sep ∈ list := by
    by_contra hmem
    exact hne (h.eq_nil hmem)
  cases hpos : position sep list with
  | none => exact absurd hmem (position_eq_none.mp hpos)
  | some i =>
    obtain ⟨front, rest, rfl, hfront, -⟩ := position_eq_some.mp hpos
    refine ⟨front, rest, by rw [List.append_assoc]; rfl, hfront, ?_⟩
    have hcut : Whole sep ((front ++ [sep]) ++ rest) := by
      rw [List.append_assoc]
      exact h
    exact hcut.of_append

/-- Every line of whole lines is one. -/
theorem Whole.line {list line : List α} (h : Whole sep list) (hline : line ∈ splitInclusive sep list) :
    ∃ front, line = front ++ [sep] ∧ sep ∉ front := by
  by_cases hne : list = []
  · rw [hne] at hline
    cases hline
  · obtain ⟨front, rest, rfl, hfront, hrest⟩ := h.first_line hne
    have hwhole : Whole sep (front ++ [sep]) := .inr ⟨front, rfl⟩
    rw [splitInclusive_append hwhole, splitInclusive_line hfront, List.singleton_append, List.mem_cons] at hline
    rcases hline with rfl | hline
    · exact ⟨front, rfl, hfront⟩
    · exact Whole.line hrest hline
termination_by list.length
decreasing_by
  subst_vars
  simp only [List.length_append, List.length_cons]
  omega

/-- A list of whole lines is cut into them. -/
theorem splitInclusive_flatten {lines : List (List α)} (h : ∀ line ∈ lines, ∃ front, line = front ++ [sep] ∧ sep ∉ front) :
    Whole sep lines.flatten ∧ splitInclusive sep lines.flatten = lines := by
  induction lines with
  | nil => exact ⟨Whole.nil, rfl⟩
  | cons line lines ih =>
    obtain ⟨front, rfl, hfront⟩ := h line List.mem_cons_self
    obtain ⟨hwhole, hsplit⟩ := ih fun l hl => h l (List.mem_cons_of_mem _ hl)
    have hline : Whole sep (front ++ [sep]) := .inr ⟨front, rfl⟩
    rw [List.flatten_cons]
    refine ⟨hline.append hwhole, ?_⟩
    rw [splitInclusive_append hline, splitInclusive_line hfront, hsplit]
    rfl

/-- The lines of whole lines, cut between two of them. -/
theorem Whole.cut {list : List α} (h : Whole sep list) {before after : List (List α)}
    (hsplit : splitInclusive sep list = before ++ after) :
    list = before.flatten ++ after.flatten ∧ Whole sep before.flatten ∧
      splitInclusive sep before.flatten = before ∧ splitInclusive sep after.flatten = after := by
  have hline : ∀ line ∈ before ++ after, ∃ front, line = front ++ [sep] ∧ sep ∉ front := by
    rw [← hsplit]
    exact fun line hmem => h.line hmem
  have hbefore := splitInclusive_flatten fun line hl => hline line (List.mem_append_left _ hl)
  have hafter := splitInclusive_flatten fun line hl => hline line (List.mem_append_right _ hl)
  refine ⟨?_, hbefore.1, hbefore.2, hafter.2⟩
  rw [← List.flatten_append, ← hsplit, flatten_splitInclusive]

/-- A piece of any list: whole lines stand before it, and it is a line or the unfinished last one. -/
theorem splitInclusive_piece {list line : List α} {before after : List (List α)}
    (h : splitInclusive sep list = before ++ line :: after) :
    Whole sep before.flatten ∧ ((∃ front, line = front ++ [sep] ∧ sep ∉ front) ∨ after = [] ∧ sep ∉ line) := by
  obtain ⟨hwhole, hrest⟩ := complete_split sep list
  have hcut := List.take_append_drop (completeLen sep list) list
  generalize list.take (completeLen sep list) = lines at hwhole hcut
  generalize list.drop (completeLen sep list) = last at hrest hcut
  subst hcut
  rw [splitInclusive_append hwhole] at h
  have hlines : ∀ {after' : List (List α)}, splitInclusive sep lines = before ++ line :: after' →
      Whole sep before.flatten ∧ ∃ front, line = front ++ [sep] ∧ sep ∉ front := by
    intro after' hsplit
    refine ⟨(hwhole.cut hsplit).2.1, hwhole.line ?_⟩
    rw [hsplit]
    exact List.mem_append_right _ List.mem_cons_self
  by_cases hnil : last = []
  · rw [hnil, splitInclusive_nil, List.append_nil] at h
    exact (hlines h).imp_right .inl
  · rw [splitInclusive_unfinished hrest hnil] at h
    rcases List.eq_nil_or_concat' after with rfl | ⟨after, final, rfl⟩
    · obtain ⟨rfl, hline⟩ := List.append_inj' h rfl
      rw [List.cons.injEq] at hline
      rw [flatten_splitInclusive, ← hline.1]
      exact ⟨hwhole, .inr ⟨rfl, hrest⟩⟩
    · rw [← List.cons_append, ← List.append_assoc] at h
      exact (hlines (List.append_inj' h rfl).1).imp_right .inl

/-- A line of a list, with what stands before it and after its separator. -/
structure IsLine (sep : α) (list before line after : List α) : Prop where
  cut : list = before ++ ((line ++ [sep]) ++ after)
  whole : Whole sep before
  single : sep ∉ line

theorem IsLine.split {list before line after : List α} (h : IsLine sep list before line after) :
    splitInclusive sep list = splitInclusive sep before ++ (line ++ [sep]) :: splitInclusive sep after := by
  have hline : Whole sep (line ++ [sep]) := .inr ⟨line, rfl⟩
  rw [h.cut, splitInclusive_append h.whole, splitInclusive_append hline, splitInclusive_line h.single, List.singleton_append]

/-- A line of whole lines is one of them with anything behind. -/
theorem Whole.isLine {list line : List α} (h : Whole sep list) (hline : line ++ [sep] ∈ splitInclusive sep list)
    (rest : List α) : ∃ before after, IsLine sep (list ++ rest) before line after := by
  obtain ⟨lines, lines', hsplit⟩ := List.append_of_mem hline
  obtain ⟨hcut, hbefore, -, -⟩ := h.cut hsplit
  obtain ⟨front, hfront, hsingle⟩ := h.line hline
  obtain ⟨rfl, -⟩ := List.append_inj' hfront rfl
  refine ⟨lines.flatten, lines'.flatten ++ rest, ?_, hbefore, hsingle⟩
  rw [hcut, List.flatten_cons]
  simp only [List.append_assoc]

/-- An unfinished rest has no line. -/
theorem not_line_of_not_mem {rest line : List α} (hrest : sep ∉ rest) : line ++ [sep] ∉ splitInclusive sep rest := by
  intro hmem
  refine hrest ?_
  rw [← flatten_splitInclusive rest]
  exact List.mem_flatten.mpr ⟨_, hmem, List.mem_append_right _ (List.mem_singleton_self sep)⟩

/-! ## What a bounded read leaves behind -/

/-- The list as the whole lines of its first `n` elements, its other whole lines, and the rest. -/
theorem read_split (sep : α) (list : List α) (n : Nat) :
    ∃ read left rest, list = read ++ (left ++ rest) ∧ Whole sep read ∧ Whole sep left ∧ sep ∉ rest ∧
      read.length = completeLen sep (list.take n) ∧ read.length + left.length = completeLen sep list ∧
      read.length ≤ n := by
  have hk := completeLen_le sep (list.take n)
  rw [List.length_take] at hk
  obtain ⟨hread, -⟩ := complete_split sep (list.take n)
  rw [List.take_take, Nat.min_eq_left (by omega)] at hread
  have hlen : (list.take (completeLen sep (list.take n))).length = completeLen sep (list.take n) := by
    rw [List.length_take]
    omega
  obtain ⟨hleft, hrest⟩ := complete_split sep (list.drop (completeLen sep (list.take n)))
  refine ⟨list.take (completeLen sep (list.take n)), _, _, ?_, hread, hleft, hrest, hlen, ?_, by omega⟩
  · rw [List.take_append_drop, List.take_append_drop]
  · have htotal := completeLen_append_whole hread (b := list.drop (completeLen sep (list.take n)))
    rw [List.take_append_drop] at htotal
    have hle := completeLen_le sep (list.drop (completeLen sep (list.take n)))
    rw [htotal, List.length_take_of_le hle]

/-- The lines that end past the first `n` elements are those past its whole lines. -/
theorem lines_past_iff {list : List α} {n : Nat} {P : List α → Prop} :
    (∀ before line after, splitInclusive sep list = before ++ line :: after → sep ∈ line → P line →
        before.flatten.length + line.length ≤ n) ↔
      ∀ line ∈ splitInclusive sep ((list.take (completeLen sep list)).drop (completeLen sep (list.take n))),
        ¬ P line := by
  obtain ⟨read, left, rest, hlist, hread, hleft, hrest, hk, htotal, hn⟩ := read_split sep list n
  have hcut : (list.take (completeLen sep list)).drop (completeLen sep (list.take n)) = left := by
    rw [← hk, ← htotal, hlist, ← List.append_assoc, ← List.length_append, List.take_left, List.drop_left]
  have hsplit : splitInclusive sep list =
      splitInclusive sep read ++ (splitInclusive sep left ++ splitInclusive sep rest) := by
    rw [hlist, splitInclusive_append hread, splitInclusive_append hleft]
  rw [hcut]
  constructor
  · intro h line hline hP
    obtain ⟨before, after, heq⟩ := List.append_of_mem hline
    obtain ⟨front, rfl, -⟩ := hleft.line hline
    have hle := h (splitInclusive sep read ++ before) (front ++ [sep]) (after ++ splitInclusive sep rest)
      (by rw [hsplit, heq]; simp) (by simp) hP
    rw [List.flatten_append, flatten_splitInclusive, List.length_append] at hle
    -- The line would be among the whole lines of the first `n`.
    have hfront : left = before.flatten ++ ((front ++ [sep]) ++ after.flatten) := by
      rw [← flatten_splitInclusive left, heq, List.flatten_append, List.flatten_cons]
    have hwhole : Whole sep (read ++ (before.flatten ++ (front ++ [sep]))) :=
      .inr ⟨read ++ (before.flatten ++ front), by simp⟩
    have htake : list.take n = (read ++ (before.flatten ++ (front ++ [sep]))) ++
        (after.flatten ++ rest).take (n - (read ++ (before.flatten ++ (front ++ [sep]))).length) := by
      have hall : list = (read ++ (before.flatten ++ (front ++ [sep]))) ++ (after.flatten ++ rest) := by
        rw [hlist, hfront]
        simp
      have hlong : (read ++ (before.flatten ++ (front ++ [sep]))).length ≤ n := by
        simp only [List.length_append] at hle ⊢
        omega
      rw [hall, List.take_append, List.take_of_length_le hlong]
    have hmore := le_completeLen hwhole
      (b := (after.flatten ++ rest).take (n - (read ++ (before.flatten ++ (front ++ [sep]))).length))
    rw [← htake, ← hk] at hmore
    simp only [List.length_append, List.length_singleton] at hmore
    omega
  · intro h before line after heq hline hP
    rw [hsplit] at heq
    have hmem : ∀ lines : List (List α), lines ++ line :: after = splitInclusive sep left ++ splitInclusive sep rest →
        False := by
      intro lines hlines
      have hin : line ∈ splitInclusive sep left ++ splitInclusive sep rest := by
        rw [← hlines]
        exact List.mem_append_right _ List.mem_cons_self
      rcases List.mem_append.mp hin with hin | hin
      · exact h line hin hP
      · refine hrest ?_
        rw [← flatten_splitInclusive rest]
        exact List.mem_flatten.mpr ⟨line, hin, hline⟩
    rcases List.append_eq_append_iff.mp heq with ⟨lines, -, hlines⟩ | ⟨lines, hlines, hafter⟩
    · exact (hmem lines hlines.symm).elim
    · cases lines with
      | nil => exact (hmem [] hafter).elim
      | cons first lines =>
        rw [List.cons_append, List.cons.injEq] at hafter
        obtain ⟨rfl, -⟩ := hafter
        have hflat := congrArg (fun l : List (List α) => l.flatten.length) hlines
        simp only [flatten_splitInclusive, List.flatten_append, List.flatten_cons, List.length_append] at hflat
        omega

end Lines
