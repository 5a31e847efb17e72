/-
RFC 8259: which texts are JSON, and what each denotes.

A string's body is spelled by pieces (a character, a one-letter escape, a UTF-16 unit) and
denotes the text they decode to. A value is derived within a number of levels of nesting;
an array and an object spend one.
-/
import TmuxAgents.Lib.Text

/-- What a JSON text denotes. An object may have a name twice. -/
inductive Json
  | null
  | bool (b : Bool)
  | num (literal : Text)
  | str (text : Text)
  | arr (items : List Json)
  | obj (members : List (Text × Json))

namespace Json

/-! ## Insignificant whitespace -/

def isWs (c : Char) : Bool := c == ' ' || c == '\t' || c == '\n' || c == '\r'

def Ws (text : Text) : Prop := ∀ c ∈ text, isWs c = true

theorem ws_nil : Ws [] := fun _ h => nomatch h

theorem Ws.append {a b : Text} (ha : Ws a) (hb : Ws b) : Ws (a ++ b) := fun c hc =>
  (List.mem_append.mp hc).elim (ha c) (hb c)

theorem ws_takeWhile (text : Text) : Ws (text.takeWhile isWs) := fun c hc => List.all_eq_true.mp List.all_takeWhile c hc

theorem Ws.dropWhile_append {gap : Text} (h : Ws gap) (text : Text) :
    (gap ++ text).dropWhile isWs = text.dropWhile isWs := List.dropWhile_append_of_pos h

/-! ## Numbers -/

def Digits (text : Text) : Prop := text ≠ [] ∧ ∀ c ∈ text, c.isDigit = true

/-- No zero in front of another digit. -/
def Integer (text : Text) : Prop := text = ['0'] ∨ (Digits text ∧ text.head? ≠ some '0')

def Fraction (text : Text) : Prop := text = [] ∨ ∃ digits, text = '.' :: digits ∧ Digits digits

def Exponent (text : Text) : Prop :=
  text = [] ∨ ∃ e sign digits, text = e :: (sign ++ digits) ∧ (e = 'e' ∨ e = 'E') ∧
    (sign = [] ∨ sign = ['+'] ∨ sign = ['-']) ∧ Digits digits

def Number (text : Text) : Prop :=
  ∃ minus integer fraction exponent, text = minus ++ (integer ++ (fraction ++ exponent)) ∧
    (minus = [] ∨ minus = ['-']) ∧ Integer integer ∧ Fraction fraction ∧ Exponent exponent

/-! ## Strings -/

/-- What stands in a string as itself. -/
def isPlain (c : Char) : Bool := c ≠ '"' && c ≠ '\\' && !(c.toNat < 0x20)

/-- The one-letter escapes. -/
def shortEscape (letter : Char) : Option Char :=
  if letter = '"' then some '"'
  else if letter = '\\' then some '\\'
  else if letter = '/' then some '/'
  else if letter = 'b' then some '\x08'
  else if letter = 'f' then some '\x0c'
  else if letter = 'n' then some '\n'
  else if letter = 'r' then some '\r'
  else if letter = 't' then some '\t'
  else none

/-- The number hex digits write, behind what was read before them. -/
def hexValue : Nat → Text → Option Nat
  | code, [] => some code
  | code, c :: rest =>
    match Text.hexDigit c with
    | none => none
    | some d => hexValue (code * 16 + d) rest

theorem hexValue_concat (code : Nat) (digits : Text) (c : Char) :
    hexValue code (digits ++ [c]) = (hexValue code digits).bind fun n => (Text.hexDigit c).map fun d => n * 16 + d := by
  induction digits generalizing code with
  | nil =>
    simp only [List.nil_append, hexValue, Option.bind_some]
    cases Text.hexDigit c with
    | none => rfl
    | some d => rfl
  | cons c' digits ih =>
    simp only [List.cons_append, hexValue]
    cases Text.hexDigit c' with
    | none => rfl
    | some d => exact ih _

/-- The hex digits of a number write it. -/
theorem hexValue_toDigits (n : Nat) : hexValue 0 (Nat.toDigits 16 n) = some n := by
  induction n using Nat.strong_induction_on with
  | _ n ih =>
    by_cases h : n < 16
    · rw [Nat.toDigits_of_lt_base h]
      simp [hexValue, Text.hexDigit_digitChar n h]
    · rw [Nat.toDigits_of_base_le (by decide) (by omega), hexValue_concat, ih (n / 16) (by omega), Option.bind_some,
        Text.hexDigit_digitChar (n % 16) (by omega), Option.map_some]
      congr 1
      omega

/-- One spelled unit of a string's body. -/
inductive Piece
  | plain (c : Char)
  | short (letter c : Char)
  | unit (code : Nat)
deriving DecidableEq

/-- A body, and the pieces that spell it. -/
inductive Body : Text → List Piece → Prop
  | nil : Body [] []
  | plain {c : Char} {text : Text} {pieces : List Piece} : isPlain c = true → Body text pieces →
      Body (c :: text) (.plain c :: pieces)
  | short {letter c : Char} {text : Text} {pieces : List Piece} : shortEscape letter = some c → Body text pieces →
      Body ('\\' :: letter :: text) (.short letter c :: pieces)
  | unit {digits text : Text} {code : Nat} {pieces : List Piece} : digits.length = 4 → hexValue 0 digits = some code →
      Body text pieces → Body ('\\' :: 'u' :: (digits ++ text)) (.unit code :: pieces)

def isHigh (code : Nat) : Bool := 0xD800 ≤ code && code < 0xDC00

def isLow (code : Nat) : Bool := 0xDC00 ≤ code && code < 0xE000

/-- The code point a surrogate pair stands for. -/
def join (high low : Nat) : Nat := 0x10000 + (high - 0xD800) * 0x400 + (low - 0xDC00)

/-- A code point's character; a surrogate has none. -/
def scalar (code : Nat) : Char := if code.isValidChar then Char.ofNat code else '\ufffd'

/-- A paired surrogate is combined, a lone one is U+FFFD. -/
def decode : List Piece → Text
  | [] => []
  | .plain c :: pieces => c :: decode pieces
  | .short _ c :: pieces => c :: decode pieces
  | .unit high :: .unit low :: pieces =>
    if isHigh high && isLow low then scalar (join high low) :: decode pieces
    else scalar high :: decode (.unit low :: pieces)
  | .unit code :: pieces => scalar code :: decode pieces

/-- A unit that is no high surrogate stands for itself. -/
theorem decode_low {code : Nat} (h : isHigh code = false) (pieces : List Piece) :
    decode (.unit code :: pieces) = scalar code :: decode pieces := by
  cases pieces with
  | nil => rfl
  | cons piece pieces =>
    cases piece with
    | plain c => rfl
    | short letter c => rfl
    | unit low => simp [decode, h]

theorem isHigh_of_isLow {code : Nat} (h : isLow code = true) : isHigh code = false := by
  simp only [isLow, isHigh, Bool.and_eq_true, decide_eq_true_eq, Bool.and_eq_false_imp, decide_eq_false_iff_not] at h ⊢
  omega

/-- A unit's decoding is one character more at the most. -/
theorem length_decode_unit (code : Nat) (pieces : List Piece) :
    (decode (.unit code :: pieces)).length ≤ (decode pieces).length + 1 := by
  cases pieces with
  | nil => exact Nat.le_refl _
  | cons piece pieces =>
    cases piece with
    | plain c => exact Nat.le_refl _
    | short letter c => exact Nat.le_refl _
    | unit low =>
      rw [decode]
      split
      next hpair =>
        rw [decode_low (isHigh_of_isLow (Bool.and_eq_true_iff.mp hpair).2)]
        simp only [List.length_cons]
        omega
      next => exact Nat.le_refl _

/-- The raw text is a string, and denotes the text. -/
def StringText (raw text : Text) : Prop :=
  ∃ body pieces, raw = '"' :: (body ++ ['"']) ∧ Body body pieces ∧ decode pieces = text

theorem body_plain {text : Text} (h : ∀ c ∈ text, isPlain c = true) : Body text (text.map .plain) := by
  induction text with
  | nil => exact .nil
  | cons c text ih => exact .plain (h c List.mem_cons_self) (ih fun d hd => h d (List.mem_cons_of_mem _ hd))

theorem decode_plain (text : Text) : decode (text.map .plain) = text := by
  induction text with
  | nil => rfl
  | cons c text ih => rw [List.map_cons, decode, ih]

/-- A text that needs no escape is its own spelling. -/
theorem stringText_plain {text : Text} (h : ∀ c ∈ text, isPlain c = true) : StringText ('"' :: (text ++ ['"'])) text :=
  ⟨text, _, rfl, body_plain h, decode_plain text⟩

/-! ## Values -/

section

variable {α : Type} (elem : Text → α → Prop)

/-- An element with whitespace around it. -/
def Padded (text : Text) (a : α) : Prop :=
  ∃ before core after, text = before ++ (core ++ after) ∧ Ws before ∧ elem core a ∧ Ws after

variable {elem} in
theorem padded_self {text : Text} {a : α} (h : elem text a) : Padded elem text a :=
  ⟨[], text, [], by simp, ws_nil, h, ws_nil⟩

/-- Elements with a comma between one and the next. -/
inductive Separated : Text → List α → Prop
  | one {text : Text} {a : α} : Padded elem text a → Separated text [a]
  | more {text rest : Text} {a : α} {as : List α} : Padded elem text a → Separated rest as →
      Separated (text ++ ',' :: rest) (a :: as)

variable {elem} in
theorem Separated.append {text rest : Text} {as bs : List α} (h : Separated elem text as) (hrest : Separated elem rest bs) :
    Separated elem (text ++ ',' :: rest) (as ++ bs) := by
  induction h with
  | one hone => exact .more hone hrest
  | more hone _ ih =>
    rw [List.append_assoc]
    exact .more hone ih

variable {elem} in
theorem Separated.gap {text : Text} {as : List α} (h : Separated elem text as) {gap : Text} (hgap : Ws gap) :
    Separated elem (gap ++ text) as := by
  have hpadded : ∀ {text : Text} {a : α}, Padded elem text a → Padded elem (gap ++ text) a := by
    rintro text a ⟨before, core, after, rfl, hbefore, ha, hafter⟩
    exact ⟨gap ++ before, core, after, (List.append_assoc ..).symm, hgap.append hbefore, ha, hafter⟩
  cases h with
  | one hone => exact .one (hpadded hone)
  | more hone hrest =>
    rw [← List.append_assoc]
    exact .more (hpadded hone) hrest

/-- What stands in front of an element, and the elements there. -/
def Ahead (text : Text) (front : List α) : Prop :=
  (front = [] ∧ Ws text) ∨ ∃ list gap, text = list ++ ',' :: gap ∧ Separated elem list front ∧ Ws gap

/-- What stands behind an element, and the elements there. -/
def Behind (text : Text) (back : List α) : Prop :=
  (back = [] ∧ Ws text) ∨ ∃ gap list, text = gap ++ ',' :: list ∧ Ws gap ∧ Separated elem list back

variable {elem} in
/-- An element, with what stands around it. -/
theorem Ahead.separated {before core more : Text} {front back : List α} {a : α} (hbefore : Ahead elem before front)
    (ha : elem core a) (hmore : Behind elem more back) : Separated elem (before ++ (core ++ more)) (front ++ a :: back) := by
  have hrest : Separated elem (core ++ more) (a :: back) := by
    rcases hmore with ⟨rfl, hws⟩ | ⟨gap, list, rfl, hgap, hlist⟩
    · exact .one ⟨[], core, more, rfl, ws_nil, ha, hws⟩
    · rw [← List.append_assoc]
      exact .more ⟨[], core, gap, rfl, ws_nil, ha, hgap⟩ hlist
  rcases hbefore with ⟨rfl, hws⟩ | ⟨list, gap, rfl, hlist, hgap⟩
  · exact hrest.gap hws
  · rw [List.append_assoc]
    exact hlist.append (hrest.gap hgap)

/-- What stands between brackets. -/
def Elements (text : Text) (as : List α) : Prop := (as = [] ∧ Ws text) ∨ Separated elem text as

/-- A name, a colon and a value. -/
def Member (text : Text) (member : Text × α) : Prop :=
  ∃ name gap after value, text = name ++ (gap ++ ':' :: (after ++ value)) ∧ StringText name member.1 ∧ Ws gap ∧
    Ws after ∧ elem value member.2

end

/-- The text derives the value, within so many levels of nesting. -/
def Nests : Nat → Text → Json → Prop
  | _, text, .null => text = "null".toList
  | _, text, .bool b => text = if b then "true".toList else "false".toList
  | _, text, .num literal => text = literal ∧ Number literal
  | _, text, .str s => StringText text s
  | 0, _, .arr _ => False
  | levels + 1, text, .arr items => ∃ body, text = '[' :: (body ++ [']']) ∧ Elements (Nests levels) body items
  | 0, _, .obj _ => False
  | levels + 1, text, .obj members =>
    ∃ body, text = '\x7b' :: (body ++ ['\x7d']) ∧ Elements (Member (Nests levels)) body members

section

variable {levels : Nat} {text : Text}

theorem nests_null : Nests levels text .null ↔ text = "null".toList := by cases levels <;> exact Iff.rfl

theorem nests_bool {b : Bool} : Nests levels text (.bool b) ↔ text = if b then "true".toList else "false".toList := by
  cases levels <;> exact Iff.rfl

theorem nests_num {literal : Text} : Nests levels text (.num literal) ↔ text = literal ∧ Number literal := by
  cases levels <;> exact Iff.rfl

theorem nests_str {s : Text} : Nests levels text (.str s) ↔ StringText text s := by cases levels <;> exact Iff.rfl

/-- A character a value starts with. -/
def opens (c : Char) : Bool := "ntf\"[\x7b-".toList.contains c || c.isDigit

theorem Digits.head {digits : Text} (h : Digits digits) : ∃ c more, digits = c :: more ∧ c.isDigit = true := by
  cases digits with
  | nil => exact absurd rfl h.1
  | cons c more => exact ⟨c, more, rfl, h.2 c List.mem_cons_self⟩

theorem Integer.head (h : Integer text) : ∃ c more, text = c :: more ∧ c.isDigit = true := by
  rcases h with rfl | ⟨hdigits, -⟩
  · exact ⟨'0', [], rfl, rfl⟩
  · exact hdigits.head

theorem Number.head (h : Number text) : ∃ c more, text = c :: more ∧ (c = '-' ∨ c.isDigit = true) := by
  obtain ⟨minus, int, frac, exp, rfl, rfl | rfl, hint, -⟩ := h
  · obtain ⟨c, more, rfl, hc⟩ := hint.head
    exact ⟨c, _, rfl, .inr hc⟩
  · exact ⟨'-', _, rfl, .inl rfl⟩

theorem StringText.head {s : Text} (h : StringText text s) : ∃ more, text = '"' :: more := by
  obtain ⟨body, pieces, rfl, -⟩ := h
  exact ⟨_, rfl⟩

theorem Nests.arr_head {items : List Json} (h : Nests levels text (.arr items)) : ∃ more, text = '[' :: more := by
  cases levels with
  | zero => exact h.elim
  | succ levels =>
    obtain ⟨body, rfl, -⟩ := h
    exact ⟨_, rfl⟩

theorem Nests.obj_head {members : List (Text × Json)} (h : Nests levels text (.obj members)) :
    ∃ more, text = '\x7b' :: more := by
  cases levels with
  | zero => exact h.elim
  | succ levels =>
    obtain ⟨body, rfl, -⟩ := h
    exact ⟨_, rfl⟩

/-- What starts with a quote is a string. -/
theorem Nests.of_quote {v : Json} (h : Nests levels ('"' :: text) v) : ∃ s, v = .str s := by
  cases v with
  | null => cases nests_null.mp h
  | bool b =>
    have htext := nests_bool.mp h
    cases b <;> cases htext
  | num literal =>
    obtain ⟨rfl, hnumber⟩ := nests_num.mp h
    obtain ⟨c, more, heq, hc⟩ := hnumber.head
    rw [← (List.cons.inj heq).1] at hc
    simp at hc
  | str s => exact ⟨s, rfl⟩
  | arr items =>
    obtain ⟨more, heq⟩ := h.arr_head
    cases heq
  | obj members =>
    obtain ⟨more, heq⟩ := h.obj_head
    cases heq

theorem Nests.head {v : Json} (h : Nests levels text v) : ∃ c more, text = c :: more ∧ opens c = true := by
  cases v with
  | null => exact ⟨'n', _, nests_null.mp h, rfl⟩
  | bool b =>
    have htext := nests_bool.mp h
    cases b with
    | true => exact ⟨'t', _, htext, rfl⟩
    | false => exact ⟨'f', _, htext, rfl⟩
  | num literal =>
    obtain ⟨rfl, hnumber⟩ := nests_num.mp h
    obtain ⟨c, more, rfl, rfl | hc⟩ := hnumber.head
    · exact ⟨'-', more, rfl, rfl⟩
    · exact ⟨c, more, rfl, by rw [opens, hc, Bool.or_true]⟩
  | str s =>
    obtain ⟨more, rfl⟩ := (nests_str.mp h).head
    exact ⟨'"', _, rfl, rfl⟩
  | arr items =>
    obtain ⟨more, rfl⟩ := h.arr_head
    exact ⟨'[', _, rfl, rfl⟩
  | obj members =>
    obtain ⟨more, rfl⟩ := h.obj_head
    exact ⟨'\x7b', _, rfl, rfl⟩

end

/-- The value has a text within so many levels: it nests no deeper, and its numbers are numbers. -/
def Within : Nat → Json → Prop
  | _, .null => True
  | _, .bool _ => True
  | _, .num literal => Number literal
  | _, .str _ => True
  | 0, .arr _ => False
  | levels + 1, .arr items => ∀ v ∈ items, Within levels v
  | 0, .obj _ => False
  | levels + 1, .obj members => ∀ m ∈ members, Within levels m.2

theorem within_num {levels : Nat} {literal : Text} : Within levels (.num literal) ↔ Number literal := by rw [Within]

/-- The text is one JSON text within so many levels, and denotes the value. -/
def Document (levels : Nat) (text : Text) (value : Json) : Prop := Padded (Nests levels) text value

end Json
