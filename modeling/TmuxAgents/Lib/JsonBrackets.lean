/-
Where a JSON value ends: its text closes the brackets it opens outside its strings, a string
ends at the first quote that is not escaped, and no value ends in whitespace.

What scans a text by quotes and brackets alone is followed over a value by induction on
`Balanced`, whatever it counts.
-/
import TmuxAgents.Lib.Json

namespace Json

/-- The inside of a string, as far as its end is concerned: a backslash takes the next character with it. -/
inductive Quoted : Text → Prop
  | nil : Quoted []
  | plain {c : Char} {text : Text} : c ≠ '"' → c ≠ '\\' → Quoted text → Quoted (c :: text)
  | escaped {c : Char} {text : Text} : Quoted text → Quoted ('\\' :: c :: text)

def isBracket (c : Char) : Bool := c == '\x7b' || c == '\x7d' || c == '[' || c == ']'

/-- The brackets outside the strings close what they open. -/
inductive Balanced : Text → Prop
  | nil : Balanced []
  | char {c : Char} {text : Text} : c ≠ '"' → isBracket c = false → Balanced text → Balanced (c :: text)
  | string {body text : Text} : Quoted body → Balanced text → Balanced ('"' :: (body ++ '"' :: text))
  | braces {inner text : Text} : Balanced inner → Balanced text → Balanced ('\x7b' :: (inner ++ '\x7d' :: text))
  | brackets {inner text : Text} : Balanced inner → Balanced text → Balanced ('[' :: (inner ++ ']' :: text))

/-! ## Strings -/

theorem isPlain_ne {c : Char} (h : isPlain c = true) : c ≠ '"' ∧ c ≠ '\\' := by
  simp only [isPlain, ne_eq, decide_not, Bool.and_eq_true, Bool.not_eq_true', decide_eq_false_iff_not] at h
  exact h.1

theorem hexDigit_ne {c : Char} {d : Nat} (h : Text.hexDigit c = some d) : c ≠ '"' ∧ c ≠ '\\' := by
  constructor <;> rintro rfl <;> cases h

theorem Quoted.run {run text : Text} (h : ∀ c ∈ run, c ≠ '"' ∧ c ≠ '\\') (htext : Quoted text) : Quoted (run ++ text) := by
  induction run with
  | nil => exact htext
  | cons c run ih =>
    have hc := h c List.mem_cons_self
    exact .plain hc.1 hc.2 (ih fun d hd => h d (List.mem_cons_of_mem _ hd))

/-- Hex digits are neither a quote nor a backslash. -/
theorem hexValue_ne {n code : Nat} {digits : Text} (h : hexValue n digits = some code) :
    ∀ c ∈ digits, c ≠ '"' ∧ c ≠ '\\' := by
  induction digits generalizing n with
  | nil => simp
  | cons d digits ih =>
    rw [hexValue] at h
    split at h
    · cases h
    next value hd =>
      intro c hc
      rcases List.mem_cons.mp hc with rfl | hc
      · exact hexDigit_ne hd
      · exact ih h c hc

theorem Body.quoted {body : Text} {pieces : List Piece} (h : Body body pieces) : Quoted body := by
  induction h with
  | nil => exact .nil
  | plain hc _ ih =>
    have hne := isPlain_ne hc
    exact .plain hne.1 hne.2 ih
  | short _ _ ih => exact .escaped ih
  | unit _ hvalue _ ih => exact .escaped (ih.run (hexValue_ne hvalue))

/-! ## Values -/

theorem Balanced.append {a b : Text} (ha : Balanced a) (hb : Balanced b) : Balanced (a ++ b) := by
  induction ha with
  | nil => exact hb
  | char hquote hbracket _ ih => exact .char hquote hbracket ih
  | string hbody _ ih =>
    rw [List.cons_append, List.append_assoc]
    exact .string hbody ih
  | braces hinner _ _ ih =>
    rw [List.cons_append, List.append_assoc]
    exact .braces hinner ih
  | brackets hinner _ _ ih =>
    rw [List.cons_append, List.append_assoc]
    exact .brackets hinner ih

theorem Balanced.run {text : Text} (h : ∀ c ∈ text, c ≠ '"' ∧ isBracket c = false) : Balanced text := by
  induction text with
  | nil => exact .nil
  | cons c text ih =>
    have hc := h c List.mem_cons_self
    exact .char hc.1 hc.2 (ih fun d hd => h d (List.mem_cons_of_mem _ hd))

theorem isWs_bare {c : Char} (h : isWs c = true) : c ≠ '"' ∧ isBracket c = false ∧ c ≠ ',' := by
  simp only [isWs, Bool.or_eq_true, beq_iff_eq] at h
  rcases h with ((rfl | rfl) | rfl) | rfl <;> decide

theorem Ws.balanced {gap : Text} (h : Ws gap) : Balanced gap :=
  .run fun c hc => ⟨(isWs_bare (h c hc)).1, (isWs_bare (h c hc)).2.1⟩

/-- A character a number has. -/
def inNumber (c : Char) : Bool := c.isDigit || c == '.' || c == '-' || c == '+' || c == 'e' || c == 'E'

theorem Digits.inNumber {digits : Text} (h : Digits digits) : ∀ c ∈ digits, inNumber c = true := by
  intro c hc
  simp [Json.inNumber, h.2 c hc]

theorem Number.inNumber {text : Text} (h : Number text) : ∀ c ∈ text, inNumber c = true := by
  obtain ⟨minus, int, frac, exp, rfl, hminus, hint, hfrac, hexp⟩ := h
  intro c hc
  simp only [List.mem_append] at hc
  rcases hc with hc | hc | hc | hc
  · rcases hminus with rfl | rfl <;> simp_all [Json.inNumber]
  · rcases hint with rfl | ⟨hdigits, -⟩
    · simp_all [Json.inNumber]
    · exact hdigits.inNumber c hc
  · rcases hfrac with rfl | ⟨digits, rfl, hdigits⟩
    · simp at hc
    · rcases List.mem_cons.mp hc with rfl | hc
      · rfl
      · exact hdigits.inNumber c hc
  · rcases hexp with rfl | ⟨e, sign, digits, rfl, he, hsign, hdigits⟩
    · simp at hc
    · rcases List.mem_cons.mp hc with rfl | hc
      · rcases he with rfl | rfl <;> rfl
      · rcases List.mem_append.mp hc with hc | hc
        · rcases hsign with rfl | rfl | rfl <;> simp_all [Json.inNumber]
        · exact hdigits.inNumber c hc

theorem inNumber_bare {c : Char} (h : inNumber c = true) : c ≠ '"' ∧ isBracket c = false ∧ c ≠ ',' := by
  have hne (d : Char) (hd : inNumber d = false) : c ≠ d := by
    rintro rfl
    simp [hd] at h
  refine ⟨hne _ rfl, ?_, hne _ rfl⟩
  simp [isBracket, hne '\x7b' rfl, hne '\x7d' rfl, hne '[' rfl, hne ']' rfl]

/-- A literal or a number: no character of it is a quote, a bracket or a comma. -/
def Bare (text : Text) : Prop := ∀ c ∈ text, c ≠ '"' ∧ isBracket c = false ∧ c ≠ ','

theorem StringText.balanced {raw text : Text} (h : StringText raw text) : Balanced raw := by
  obtain ⟨body, pieces, rfl, hbody, -⟩ := h
  exact .string hbody.quoted .nil

section

variable {α : Type} {elem : Text → α → Prop} (helem : ∀ text a, elem text a → Balanced text)

include helem

theorem Padded.balanced {text : Text} {a : α} (h : Padded elem text a) : Balanced text := by
  obtain ⟨before, core, after, rfl, hbefore, ha, hafter⟩ := h
  exact hbefore.balanced.append ((helem core a ha).append hafter.balanced)

theorem Separated.balanced {text : Text} {as : List α} (h : Separated elem text as) : Balanced text := by
  induction h with
  | one hone => exact hone.balanced helem
  | more hone _ ih => exact (hone.balanced helem).append (.char (by decide) rfl ih)

theorem Elements.balanced {text : Text} {as : List α} (h : Elements elem text as) : Balanced text := by
  rcases h with ⟨-, hws⟩ | hlist
  · exact hws.balanced
  · exact hlist.balanced helem

theorem Member.balanced {text : Text} {m : Text × α} (h : Member elem text m) : Balanced text := by
  obtain ⟨name, gap, after, value, rfl, hname, hgap, hafter, hvalue⟩ := h
  exact hname.balanced.append (hgap.balanced.append (.char (by decide) rfl (hafter.balanced.append (helem value m.2 hvalue))))

end

theorem Separated.length_le {α : Type} {elem : Text → α → Prop} (helem : ∀ text a, elem text a → text ≠ []) {text : Text}
    {as : List α} (h : Separated elem text as) : as.length ≤ text.length := by
  have hpadded : ∀ {text : Text} {a : α}, Padded elem text a → 1 ≤ text.length := by
    rintro text a ⟨before, core, after, rfl, -, ha, -⟩
    have hcore := List.length_pos_of_ne_nil (helem core a ha)
    simp only [List.length_append]
    omega
  induction h with
  | one hone => exact hpadded hone
  | more hone _ ih =>
    have hlength := hpadded hone
    simp only [List.length_append, List.length_cons]
    omega

/-- Without the whitespace around it, a list starts and ends where its elements do. -/
theorem Separated.trim {α : Type} {elem : Text → α → Prop} {starts ends : Char → Prop}
    (hstart : ∀ text a, elem text a → ∃ c more, text = c :: more ∧ starts c)
    (hend : ∀ text a, elem text a → ∃ front c, text = front ++ [c] ∧ ends c) {text : Text} {as : List α}
    (h : Separated elem text as) :
    ∃ lead inner trail, text = lead ++ (inner ++ trail) ∧ Ws lead ∧ Ws trail ∧ Separated elem inner as ∧
      (∃ c more, inner = c :: more ∧ starts c) ∧ ∃ front c, inner = front ++ [c] ∧ ends c := by
  induction h with
  | one hone =>
    obtain ⟨before, core, after, rfl, hbefore, ha, hafter⟩ := hone
    exact ⟨before, core, after, rfl, hbefore, hafter, .one (padded_self ha), hstart core _ ha, hend core _ ha⟩
  | more hone _ ih =>
    obtain ⟨before, core, after, rfl, hbefore, ha, hafter⟩ := hone
    obtain ⟨lead, inner, trail, rfl, hlead, htrail, hinner, -, front, d, rfl, hd⟩ := ih
    obtain ⟨c, more, rfl, hc⟩ := hstart core _ ha
    refine ⟨before, (c :: more ++ after) ++ ',' :: (lead ++ (front ++ [d])), trail, by simp, hbefore, htrail,
      .more ⟨[], c :: more, after, rfl, ws_nil, ha, hafter⟩ (hinner.gap hlead), ⟨c, _, rfl, hc⟩, ?_⟩
    exact ⟨(c :: more ++ after) ++ ',' :: (lead ++ front), d, by simp, hd⟩

/-- What a value's text is made of, as far as its end is concerned. -/
inductive Shape : Text → Prop
  | bare {text : Text} : Bare text → Shape text
  | string {body : Text} : Quoted body → Shape ('"' :: (body ++ ['"']))
  | braces {inner : Text} : Balanced inner → Shape ('\x7b' :: (inner ++ ['\x7d']))
  | brackets {inner : Text} : Balanced inner → Shape ('[' :: (inner ++ [']']))

theorem Shape.balanced {text : Text} (h : Shape text) : Balanced text := by
  cases h with
  | bare hbare => exact .run fun c hc => ⟨(hbare c hc).1, (hbare c hc).2.1⟩
  | string hbody => exact .string hbody .nil
  | braces hinner => exact .braces hinner .nil
  | brackets hinner => exact .brackets hinner .nil

theorem Nests.shape_scalar {levels : Nat} {text : Text} {v : Json} (h : Nests levels text v)
    (harr : ∀ items, v ≠ .arr items) (hobj : ∀ members, v ≠ .obj members) : Shape text := by
  cases v with
  | null =>
    rw [nests_null.mp h]
    exact .bare (by unfold Bare; decide)
  | bool b =>
    rw [nests_bool.mp h]
    cases b <;> exact .bare (by unfold Bare; decide)
  | num literal =>
    obtain ⟨rfl, hnumber⟩ := nests_num.mp h
    exact .bare fun c hc => inNumber_bare (hnumber.inNumber c hc)
  | str s =>
    obtain ⟨body, pieces, rfl, hbody, -⟩ := nests_str.mp h
    exact .string hbody.quoted
  | arr items => exact absurd rfl (harr items)
  | obj members => exact absurd rfl (hobj members)

theorem Nests.shape {levels : Nat} {text : Text} {v : Json} (h : Nests levels text v) : Shape text := by
  induction levels generalizing text v with
  | zero => exact h.shape_scalar (by rintro items rfl; exact h) (by rintro members rfl; exact h)
  | succ levels ih =>
    cases v with
    | arr items =>
      obtain ⟨body, rfl, hbody⟩ := h
      exact .brackets (hbody.balanced fun text a ha => (ih ha).balanced)
    | obj members =>
      obtain ⟨body, rfl, hbody⟩ := h
      exact .braces (hbody.balanced fun text a ha => ha.balanced fun text b hb => (ih hb).balanced)
    | null => exact h.shape_scalar (by simp) (by simp)
    | bool b => exact h.shape_scalar (by simp) (by simp)
    | num literal => exact h.shape_scalar (by simp) (by simp)
    | str s => exact h.shape_scalar (by simp) (by simp)

/-! ## The last character -/

/-- A character a value ends with. -/
def closes (c : Char) : Bool := "le\"]\x7d".toList.contains c || c.isDigit

theorem Digits.last {digits : Text} (h : Digits digits) : ∃ front c, digits = front ++ [c] ∧ c.isDigit = true := by
  obtain ⟨front, c, rfl⟩ := (List.eq_nil_or_concat digits).resolve_left h.1
  exact ⟨front, c, by simp, h.2 c (by simp)⟩

theorem Number.last {text : Text} (h : Number text) : ∃ front c, text = front ++ [c] ∧ c.isDigit = true := by
  obtain ⟨minus, int, frac, exp, rfl, hminus, hint, hfrac, hexp⟩ := h
  have hinteger : ∃ front c, int = front ++ [c] ∧ c.isDigit = true := by
    rcases hint with rfl | ⟨hdigits, -⟩
    · exact ⟨[], '0', rfl, rfl⟩
    · exact hdigits.last
  rcases hexp with rfl | ⟨e, sign, digits, rfl, -, -, hdigits⟩
  · rcases hfrac with rfl | ⟨digits, rfl, hdigits⟩
    · obtain ⟨front, c, rfl, hc⟩ := hinteger
      exact ⟨minus ++ front, c, by simp, hc⟩
    · obtain ⟨front, c, rfl, hc⟩ := hdigits.last
      exact ⟨minus ++ (int ++ '.' :: front), c, by simp, hc⟩
  · obtain ⟨front, c, rfl, hc⟩ := hdigits.last
    exact ⟨minus ++ (int ++ (frac ++ e :: (sign ++ front))), c, by simp, hc⟩

theorem Nests.last {levels : Nat} {text : Text} {v : Json} (h : Nests levels text v) :
    ∃ front c, text = front ++ [c] ∧ closes c = true := by
  cases v with
  | null => exact ⟨"nul".toList, 'l', nests_null.mp h, rfl⟩
  | bool b =>
    have htext := nests_bool.mp h
    cases b with
    | true => exact ⟨"tru".toList, 'e', htext, rfl⟩
    | false => exact ⟨"fals".toList, 'e', htext, rfl⟩
  | num literal =>
    obtain ⟨rfl, hnumber⟩ := nests_num.mp h
    obtain ⟨front, c, rfl, hc⟩ := hnumber.last
    exact ⟨front, c, rfl, by simp [closes, hc]⟩
  | str s =>
    obtain ⟨body, pieces, rfl, -⟩ := nests_str.mp h
    exact ⟨'"' :: body, '"', rfl, rfl⟩
  | arr items =>
    cases levels with
    | zero => exact h.elim
    | succ levels =>
      obtain ⟨body, rfl, -⟩ := h
      exact ⟨'[' :: body, ']', rfl, rfl⟩
  | obj members =>
    cases levels with
    | zero => exact h.elim
    | succ levels =>
      obtain ⟨body, rfl, -⟩ := h
      exact ⟨'\x7b' :: body, '\x7d', rfl, rfl⟩

end Json
