/-
Text fields: decimal numbers as Rust prints and parses them, and texts joined
by a separator.

`Text.field_unique` is the rule for separated texts: with separator-free fields a
separated text splits in one way only.
-/
import Mathlib.Algebra.Order.Ring.Nat
import Mathlib.Data.List.Basic
import Mathlib.Data.List.Infix

/-- Text as its characters. -/
abbrev Text := List Char

namespace Text

/-- Decided on the characters of the text, not on all there are. -/
instance decidableForallMem (text : Text) (p : Char → Prop) [DecidablePred p] : Decidable (∀ c ∈ text, p c) :=
  List.decidableBAll p text

/-! ## Numbers -/

/-- `{}` of an unsigned integer. -/
def decimal (n : Nat) : Text := Nat.toDigits 10 n

/-- `parse` of an unsigned integer below `bound`: a sign, digits, and no overflow. -/
def parseUnsigned (bound : Nat) (text : Text) : Option Nat :=
  let digits := match text with
    | '+' :: rest => rest
    | _ => text
  if digits.isEmpty || !digits.all Char.isDigit then none
  else
    let n := Nat.ofDigitChars 10 digits 0
    if n < bound then some n else none

/-- `char::to_digit(16)`. -/
def hexDigit (c : Char) : Option Nat :=
  if '0' ≤ c ∧ c ≤ '9' then some (c.toNat - 48)
  else if 'a' ≤ c ∧ c ≤ 'f' then some (c.toNat - 87)
  else if 'A' ≤ c ∧ c ≤ 'F' then some (c.toNat - 55)
  else none

theorem hexDigit_digitChar : ∀ n < 16, hexDigit (Nat.digitChar n) = some n := by decide

theorem isDigit_of_mem_decimal {n : Nat} {c : Char} (h : c ∈ decimal n) : c.isDigit = true :=
  Nat.isDigit_of_mem_toDigits (by decide) (by decide) h

@[simp] theorem decimal_ne_nil (n : Nat) : decimal n ≠ [] := Nat.toDigits_ne_nil

theorem not_mem_decimal {c : Char} (hc : c.isDigit = false) (n : Nat) : c ∉ decimal n := by
  intro h
  rw [isDigit_of_mem_decimal h] at hc
  cases hc

@[simp] theorem ofDigitChars_decimal (n : Nat) : Nat.ofDigitChars 10 (decimal n) 0 = n :=
  Nat.ofDigitChars_ten_toDigits

theorem decimal_injective : Function.Injective decimal := by
  intro a b h
  rw [← ofDigitChars_decimal a, h, ofDigitChars_decimal]

theorem length_decimal_le {n k : Nat} (hk : 0 < k) (h : n < 10 ^ k) : (decimal n).length ≤ k :=
  (Nat.length_toDigits_le_iff (by decide) hk).mpr h

theorem parseUnsigned_decimal {n bound : Nat} (h : n < bound) : parseUnsigned bound (decimal n) = some n := by
  have hplus : ∀ rest, decimal n ≠ '+' :: rest := by
    intro rest he
    exact not_mem_decimal (c := '+') (by decide) n (by rw [he]; exact List.mem_cons_self)
  have hdigits : (match decimal n with
      | '+' :: rest => rest
      | _ => decimal n) = decimal n := by
    split
    · rename_i rest he
      exact absurd he (hplus rest)
    · rfl
  have hall : (decimal n).all Char.isDigit = true := List.all_eq_true.mpr fun c hc => isDigit_of_mem_decimal hc
  unfold parseUnsigned
  rw [hdigits]
  simp only [hall, ofDigitChars_decimal, h, Bool.not_true, Bool.or_false, if_true, Bool.false_eq_true, if_false,
    List.isEmpty_eq_false_iff.mpr (decimal_ne_nil n)]

theorem parseUnsigned_lt {bound n : Nat} {text : Text} (h : parseUnsigned bound text = some n) : n < bound := by
  simp only [parseUnsigned, Option.ite_none_left_eq_some, Option.ite_none_right_eq_some, Option.some.injEq] at h
  obtain ⟨-, hlt, rfl⟩ := h
  exact hlt

/-- The digits a text starts with. -/
def leadingDigits (text : Text) : Text := text.takeWhile Char.isDigit

theorem leadingDigits_decimal_append {n : Nat} {c : Char} {rest : Text} (hc : c.isDigit = false) :
    leadingDigits (decimal n ++ c :: rest) = decimal n := by
  unfold leadingDigits
  rw [List.takeWhile_append_of_pos fun x hx => isDigit_of_mem_decimal hx]
  simp [hc]

/-! ## Fields -/

/-- `splitn(n, sep)`. -/
def splitn : Nat → Char → Text → List Text
  | 0, _, _ => []
  | 1, _, text => [text]
  | n + 2, sep, text =>
    match text.dropWhile (· ≠ sep) with
    | [] => [text]
    | _ :: rest => text.takeWhile (· ≠ sep) :: splitn (n + 1) sep rest

theorem splitn_append {n : Nat} {sep : Char} {field rest : Text} (h : sep ∉ field) :
    splitn (n + 2) sep (field ++ sep :: rest) = field :: splitn (n + 1) sep rest := by
  have hne : ∀ c ∈ field, decide (c ≠ sep) = true := by
    intro c hc
    simp only [decide_eq_true_eq]
    rintro rfl
    exact h hc
  rw [splitn, List.dropWhile_append_of_pos hne, List.takeWhile_append_of_pos hne]
  simp

/-- A separated text is split at its first separator, or further right. -/
theorem split_first {sep : Char} {field rest before after : Text} (h : sep ∉ field)
    (heq : field ++ sep :: rest = before ++ sep :: after) :
    (before = field ∧ after = rest) ∨ ∃ more, before = field ++ sep :: more ∧ rest = more ++ sep :: after := by
  rcases List.append_eq_append_iff.mp heq with ⟨tail, hbefore, hrest⟩ | ⟨tail, hfield, hafter⟩
  · cases tail with
    | nil =>
      simp only [List.append_nil] at hbefore
      simp only [List.nil_append, List.cons.injEq, true_and] at hrest
      exact .inl ⟨hbefore, hrest.symm⟩
    | cons c more =>
      simp only [List.cons_append, List.cons.injEq] at hrest
      obtain ⟨rfl, rfl⟩ := hrest
      exact .inr ⟨more, hbefore, rfl⟩
  · cases tail with
    | nil =>
      simp only [List.append_nil] at hfield
      simp only [List.nil_append, List.cons.injEq, true_and] at hafter
      exact .inl ⟨hfield.symm, hafter⟩
    | cons c more =>
      simp only [List.cons_append, List.cons.injEq] at hafter
      obtain ⟨rfl, -⟩ := hafter
      exact absurd (hfield ▸ List.mem_append_right _ List.mem_cons_self) h

/-- Two separator-free fields before a separator are the same field. -/
theorem field_unique {sep : Char} {a b rest rest' : Text} (ha : sep ∉ a) (hb : sep ∉ b)
    (h : a ++ sep :: rest = b ++ sep :: rest') : a = b ∧ rest = rest' := by
  rcases split_first ha h with ⟨rfl, rfl⟩ | ⟨more, rfl, -⟩
  · exact ⟨rfl, rfl⟩
  · exact absurd (List.mem_append_right _ List.mem_cons_self) hb

/-- `fnmatch` of `*<sep><field><sep>*`: the text has the field between two separators. -/
def hasField (sep : Char) (field text : Text) : Bool := decide (sep :: (field ++ [sep]) <:+: text)

theorem hasField_iff {sep : Char} {field text : Text} :
    hasField sep field text = true ↔ ∃ before after, text = before ++ sep :: (field ++ sep :: after) := by
  rw [hasField, decide_eq_true_eq]
  constructor
  · rintro ⟨before, after, rfl⟩
    exact ⟨before, after, by simp⟩
  · rintro ⟨before, after, rfl⟩
    exact ⟨before, after, by simp⟩

/-! ## Parts of a text -/

/-- `str::strip_suffix`. -/
def stripSuffix (text suffix : Text) : Option Text :=
  if suffix <:+ text then some (text.take (text.length - suffix.length)) else none

theorem stripSuffix_append (text suffix : Text) : stripSuffix (text ++ suffix) suffix = some text := by
  rw [stripSuffix, if_pos (List.suffix_append text suffix), List.length_append, Nat.add_sub_cancel, List.take_left']
  rfl

/-- `str::split_once`: at the first place the delimiter stands. -/
def splitOnce (delim : Text) : Text → Option (Text × Text)
  | [] => if delim = [] then some ([], []) else none
  | c :: rest =>
    if delim <+: c :: rest then some ([], (c :: rest).drop delim.length)
    else (splitOnce delim rest).map fun parts => (c :: parts.1, parts.2)

theorem splitOnce_eq_none {delim text : Text} (h : ¬ delim <:+: text) : splitOnce delim text = none := by
  induction text with
  | nil =>
    rw [splitOnce, if_neg]
    rintro rfl
    exact h (List.nil_infix)
  | cons c rest ih =>
    rw [splitOnce, if_neg fun hp => h hp.isInfix, ih fun hi => h (List.infix_cons hi)]
    rfl

/-- The text splits where the delimiter stands first. -/
theorem splitOnce_first {delim text rest : Text}
    (h : ∀ before after, text ++ delim = before ++ (delim ++ after) → before = text) :
    splitOnce delim (text ++ (delim ++ rest)) = some (text, rest) := by
  induction text with
  | nil =>
    cases hcat : delim ++ rest with
    | nil =>
      obtain ⟨rfl, rfl⟩ := List.append_eq_nil_iff.mp hcat
      rfl
    | cons c more =>
      rw [List.nil_append, splitOnce, ← hcat, if_pos (List.prefix_append delim rest), List.drop_left]
  | cons c text ih =>
    rw [List.cons_append, splitOnce, if_neg, ih]
    · rfl
    · intro before after heq
      have hb := h (c :: before) after (by rw [List.cons_append, List.cons_append, heq])
      exact (List.cons.inj hb).2
    · intro hp
      -- the delimiter would stand in front of the text
      have hp : delim <+: (c :: text) ++ delim :=
        List.prefix_of_prefix_length_le hp ⟨rest, by simp⟩ (by simp; omega)
      obtain ⟨after, hafter⟩ := hp
      exact List.cons_ne_nil c text (h [] after hafter.symm).symm

/-- What a split says of the text, and of any other place the delimiter stands. -/
theorem splitOnce_of_infix {delim before after : Text} :
    ∃ first more, splitOnce delim (before ++ (delim ++ after)) = some (first, more) ∧
      before ++ (delim ++ after) = first ++ (delim ++ more) ∧ first.length ≤ before.length := by
  induction before with
  | nil =>
    refine ⟨[], after, splitOnce_first fun b a h => ?_, rfl, Nat.le_refl 0⟩
    have hlen := congrArg List.length h
    simp only [List.length_append, List.length_nil] at hlen
    exact List.length_eq_zero_iff.mp (by omega)
  | cons c before ih =>
    rw [List.cons_append, splitOnce]
    split
    next hp =>
      obtain ⟨more, hmore⟩ := hp
      refine ⟨[], _, rfl, ?_, Nat.zero_le _⟩
      rw [← hmore, List.drop_left]
      rfl
    next =>
      obtain ⟨first, more, hsplit, heq, hle⟩ := ih
      refine ⟨c :: first, more, by rw [hsplit]; rfl, by rw [heq]; rfl, Nat.succ_le_succ hle⟩

end Text
