/-
The parser's leaves against the grammar: on the bytes of a text, each of them takes a piece
of the grammar and leaves the bytes of the rest of the text, or refuses without ever finding
a character cut; and it takes what the grammar derives.
-/
import TmuxAgents.Transcript.Json

namespace TmuxAgents.Transcript.Parser

open Text (byte bytes)

/-! ## Bytes of a text -/

theorem agrees_ws : Text.Agrees isWs Json.isWs false := by
  refine .ofTable (by decide) ?_ ?_
  · intro b hb
    have h (c : Char) (hc : c.toNat < 128) : (b == byte c) = false := by
      rw [beq_eq_false_iff_ne]
      rintro rfl
      rw [Text.byte_toNat hc] at hb
      omega
    rw [isWs, h _ (by decide), h _ (by decide), h _ (by decide), h _ (by decide)]
    rfl
  · intro c hc
    have h (d : Char) (hd : d.toNat < 128) : (c == d) = false := by
      rw [beq_eq_false_iff_ne]
      rintro rfl
      omega
    rw [Json.isWs, h _ (by decide), h _ (by decide), h _ (by decide), h _ (by decide)]
    rfl

theorem agrees_digit : Text.Agrees isDigit Char.isDigit false := by
  refine .ofTable (by decide) ?_ ?_
  · intro b hb
    have hlast : ¬ b ≤ byte '9' := by
      rw [UInt8.le_iff_toNat_le, Text.byte_toNat (by decide)]
      exact Nat.not_le.mpr (Nat.lt_of_lt_of_le (by decide) hb)
    rw [isDigit, decide_eq_false hlast, Bool.and_false]
  · intro c hc
    have hlast : ¬ c.val.toNat ≤ 57 := Nat.not_le.mpr (Nat.lt_of_lt_of_le (by decide) hc)
    simp only [Char.isDigit, ge_iff_le, Bool.and_eq_false_imp, decide_eq_false_iff_not, UInt32.le_iff_toNat_le]
    exact fun _ => hlast

theorem agrees_run : Text.Agrees inRun Json.isPlain true := by
  refine .ofTable (by decide) ?_ ?_
  · intro b hb
    have h (c : Char) (hc : c.toNat < 128) : b ≠ byte c := by
      rintro rfl
      rw [Text.byte_toNat hc] at hb
      omega
    have hlow : ¬ b.toNat < 0x20 := by omega
    rw [inRun, decide_eq_true (h '"' (by decide)), decide_eq_true (h '\\' (by decide)), decide_eq_false hlow]
    rfl
  · intro c hc
    have h (d : Char) (hd : d.toNat < 128) : c ≠ d := by
      rintro rfl
      omega
    have hlow : ¬ c.toNat < 0x20 := by omega
    rw [Json.isPlain, decide_eq_true (h '"' (by decide)), decide_eq_true (h '\\' (by decide)), decide_eq_false hlow]
    rfl

theorem ws_bytes (text : Text) : ws (bytes text) = bytes (text.dropWhile Json.isWs) := Text.dropWhile_bytes agrees_ws text

theorem ws_append {gap : Text} (h : Json.Ws gap) (text : Text) : ws (bytes (gap ++ text)) = ws (bytes text) := by
  rw [ws_bytes, ws_bytes, h.dropWhile_append]

theorem ws_cons {c : Char} (h : Json.isWs c = false) (text : Text) : ws (bytes (c :: text)) = bytes (c :: text) := by
  rw [ws_bytes, List.dropWhile_cons_of_neg (by rw [h]; exact Bool.false_ne_true)]

/-- What whitespace there was, and what is left. -/
theorem exists_ws (text : Text) : ∃ gap left, text = gap ++ left ∧ Json.Ws gap ∧ ws (bytes text) = bytes left :=
  ⟨_, _, List.takeWhile_append_dropWhile.symm, Json.ws_takeWhile text, ws_bytes text⟩

section

variable {c : Char} (hc : c.toNat < 128)

include hc

theorem eat_cons (text : Text) : eat c (bytes (c :: text)) = some (bytes text) := by
  rw [Text.bytes_ascii hc, eat, if_pos rfl]

theorem eat_some {text : Text} {b : Bytes} (h : eat c (bytes text) = some b) :
    ∃ more, text = c :: more ∧ b = bytes more := by
  rw [eat.eq_def] at h
  split at h
  · cases h
  next x rest heq =>
    split at h
    next hx =>
      cases h
      exact Text.bytes_eq_cons hc (hx ▸ heq)
    next => cases h

theorem eat_none {text : Text} (h : ∀ more, text ≠ c :: more) : eat c (bytes text) = none := by
  cases heat : eat c (bytes text) with
  | none => rfl
  | some b =>
    obtain ⟨more, heq, -⟩ := eat_some hc heat
    exact absurd heq (h more)

/-- A character behind whitespace. -/
theorem eat_ws {text : Text} {b : Bytes} (h : eat c (ws (bytes text)) = some b) :
    ∃ gap more, text = gap ++ c :: more ∧ Json.Ws gap ∧ b = bytes more := by
  obtain ⟨gap, left, htext, hgap, hleft⟩ := exists_ws text
  rw [hleft] at h
  obtain ⟨more, rfl, hb⟩ := eat_some hc h
  exact ⟨gap, more, htext, hgap, hb⟩

theorem eat_gap (hws : Json.isWs c = false) {gap : Text} (h : Json.Ws gap) (text : Text) :
    eat c (ws (bytes (gap ++ c :: text))) = some (bytes text) := by
  rw [ws_append h, ws_cons hws, eat_cons hc]

end

/-! ## What a reader does to a text -/

/-- A piece of the grammar was taken, or a text was refused that no character of was cut. -/
def Outcome {α : Type} (G : Text → Text → α → Prop) (text : Text) : Read α → Prop
  | .ok (a, b) => ∃ taken left, text = taken ++ left ∧ b = bytes left ∧ G taken left a
  | .error (_, fault) => fault ≠ .invalidUtf8

theorem Outcome.after {α : Type} {G G' : Text → Text → α → Prop} {more : Text} {r : Read α} (h : Outcome G' more r)
    (front : Text) (hG : ∀ taken left a, more = taken ++ left → G' taken left a → G (front ++ taken) left a) :
    Outcome G (front ++ more) r := by
  cases r with
  | error e => exact h
  | ok p =>
    obtain ⟨taken, left, heq, hb, ha⟩ := h
    exact ⟨front ++ taken, left, by rw [heq, List.append_assoc], hb, hG _ _ _ heq ha⟩

/-! ## Escapes -/

theorem hexDigit_ascii {c : Char} {d : Nat} (h : Text.hexDigit c = some d) : c.toNat < 128 := by
  have hle (a b : Char) (hab : a ≤ b) : a.toNat ≤ b.toNat := hab
  rw [Text.hexDigit] at h
  split at h
  next hd => exact Nat.lt_of_le_of_lt (hle _ _ hd.2) (by decide)
  · split at h
    next hd => exact Nat.lt_of_le_of_lt (hle _ _ hd.2) (by decide)
    · split at h
      next hd => exact Nat.lt_of_le_of_lt (hle _ _ hd.2) (by decide)
      · cases h

theorem latin_toNat (b : UInt8) : (Char.ofNat b.toNat).toNat = b.toNat := by
  have hlt := b.toNat_lt
  have hvalid : b.toNat.isValidChar := .inl (by omega)
  rw [Char.ofNat, dif_pos hvalid]
  rfl

/-- Bytes that are hex digits are characters of the text they stand in. -/
theorem hexDigits_some {n code : Nat} {b : Bytes} (h : hexDigits n b = some code) {text : Text} {rest : Bytes}
    (hbytes : bytes text = b ++ rest) :
    ∃ taken left, text = taken ++ left ∧ taken.length = b.length ∧ rest = bytes left ∧ Json.hexValue n taken = some code := by
  induction b generalizing n text with
  | nil => exact ⟨[], text, rfl, rfl, hbytes.symm, h⟩
  | cons x b ih =>
    rw [hexDigits] at h
    split at h
    · cases h
    next d hd =>
      have hascii := hexDigit_ascii hd
      have hx : x = byte (Char.ofNat x.toNat) := by
        rw [← UInt8.toNat_inj, Text.byte_toNat hascii, latin_toNat]
      rw [List.cons_append, hx] at hbytes
      obtain ⟨more, rfl, hrest⟩ := Text.bytes_eq_cons hascii hbytes
      obtain ⟨taken, left, rfl, hlength, hleft, hvalue⟩ := ih h hrest.symm
      refine ⟨_ :: taken, left, rfl, by rw [List.length_cons, List.length_cons, hlength], hleft, ?_⟩
      rw [Json.hexValue, hd]
      exact hvalue

theorem hexDigits_bytes {n code : Nat} {digits : Text} (h : Json.hexValue n digits = some code) :
    hexDigits n (bytes digits) = some code ∧ (bytes digits).length = digits.length := by
  induction digits generalizing n with
  | nil => exact ⟨h, rfl⟩
  | cons c digits ih =>
    rw [Json.hexValue] at h
    split at h
    · cases h
    next d hd =>
      have hascii := hexDigit_ascii hd
      have hchar : Char.ofNat (byte c).toNat = c := by rw [Text.byte_toNat hascii, Char.ofNat_toNat]
      obtain ⟨hvalue, hlength⟩ := ih h
      rw [Text.bytes_ascii hascii, hexDigits, hchar, hd]
      exact ⟨hvalue, by rw [List.length_cons, List.length_cons, hlength]⟩

/-- Four hex digits and their number. -/
def Hex4 (digits : Text) (code : Nat) : Prop := digits.length = 4 ∧ Json.hexValue 0 digits = some code

theorem hex4_outcome (text : Text) : Outcome (fun taken _ code => Hex4 taken code) text (hex4 (bytes text)) := by
  rw [hex4]
  split
  · exact Fault.noConfusion
  next hlength =>
    split
    · exact Fault.noConfusion
    next code hcode =>
      obtain ⟨taken, left, htext, htaken, hrest, hvalue⟩ := hexDigits_some hcode (List.take_append_drop 4 _).symm
      have hfour : taken.length = 4 := by
        rw [htaken, List.length_take]
        omega
      exact ⟨taken, left, htext, hrest, hfour, hvalue⟩

theorem hex4_append {digits : Text} {code : Nat} (h : Hex4 digits code) (left : Text) :
    hex4 (bytes (digits ++ left)) = .ok (code, bytes left) := by
  obtain ⟨hvalue, hlength⟩ := hexDigits_bytes h.2
  have hfour : (bytes digits).length = 4 := hlength.trans h.1
  have hlong : ¬ (bytes digits ++ bytes left).length < 4 := by
    rw [List.length_append]
    omega
  rw [Text.bytes_append, hex4, if_neg hlong, List.take_left' hfour, List.drop_left' hfour, hvalue]

/-- A low surrogate's escape stands in front. -/
def StartsLow (text : Text) : Prop :=
  ∃ digits low more, text = '\\' :: 'u' :: (digits ++ more) ∧ Hex4 digits low ∧ Json.isLow low = true

/-- What the digits of a unit escape come to, and what may follow them. -/
inductive UnitEscape (taken left : Text) (c : Char) : Prop
  | alone {code : Nat} : Hex4 taken code → c = Json.scalar code → (Json.isHigh code = true → ¬ StartsLow left) →
      UnitEscape taken left c
  | paired {digits digits' : Text} {high low : Nat} : taken = digits ++ '\\' :: 'u' :: digits' → Hex4 digits high →
      Hex4 digits' low → Json.isHigh high = true → Json.isLow low = true → c = Json.scalar (Json.join high low) →
      UnitEscape taken left c

theorem isHigh_iff {code : Nat} : Json.isHigh code = true ↔ 0xD800 ≤ code ∧ code < 0xDC00 := by
  rw [Json.isHigh, Bool.and_eq_true, decide_eq_true_eq, decide_eq_true_eq]

theorem isLow_iff {code : Nat} : Json.isLow code = true ↔ 0xDC00 ≤ code ∧ code < 0xE000 := by
  rw [Json.isLow, Bool.and_eq_true, decide_eq_true_eq, decide_eq_true_eq]

/-- A high surrogate has no character. -/
theorem scalar_high {code : Nat} (h : Json.isHigh code = true) : Json.scalar code = '\ufffd' := by
  have hrange := isHigh_iff.mp h
  have hvalid : ¬ code.isValidChar := by
    rintro (hlt | hgt)
    · omega
    · omega
  rw [Json.scalar, if_neg hvalid]

theorem eat_pair {text : Text} {b : Bytes} (h : (eat '\\' (bytes text)).bind (eat 'u') = some b) :
    ∃ more, text = '\\' :: 'u' :: more ∧ b = bytes more := by
  obtain ⟨mid, hmid, hb⟩ := Option.bind_eq_some_iff.mp h
  obtain ⟨more, rfl, rfl⟩ := eat_some (by decide) hmid
  obtain ⟨more, rfl, rfl⟩ := eat_some (by decide) hb
  exact ⟨more, rfl, rfl⟩

theorem eat_pair_cons (text : Text) :
    (eat '\\' (bytes ('\\' :: 'u' :: text))).bind (eat 'u') = some (bytes text) := by
  rw [eat_cons (by decide), Option.bind_some, eat_cons (by decide)]

theorem Hex4.unique {digits digits' text text' : Text} {code code' : Nat} (h : Hex4 digits code) (h' : Hex4 digits' code')
    (heq : digits ++ text = digits' ++ text') : code = code' ∧ text = text' := by
  obtain ⟨rfl, rfl⟩ := List.append_inj heq (h.1.trans h'.1.symm)
  have hcode := h.2.symm.trans h'.2
  exact ⟨Option.some.inj hcode, rfl⟩

theorem unicodeEscape_outcome (text : Text) : Outcome UnitEscape text (unicodeEscape (bytes text)) := by
  rw [unicodeEscape]
  have hhex := hex4_outcome text
  split
  next e he =>
    rw [he] at hhex
    exact hhex
  next hi saved hok =>
    rw [hok] at hhex
    obtain ⟨taken, left, rfl, rfl, hcode⟩ := hhex
    split
    next hrange =>
      have hhigh := isHigh_iff.mpr hrange
      split
      next hpair =>
        refine ⟨taken, left, rfl, rfl, .alone hcode (scalar_high hhigh).symm fun _ hlow => ?_⟩
        obtain ⟨digits, low, more, rfl, -⟩ := hlow
        rw [eat_pair_cons] at hpair
        cases hpair
      next rest hpair =>
        obtain ⟨more, rfl, rfl⟩ := eat_pair hpair
        have hnext := hex4_outcome more
        split
        next e he =>
          rw [he] at hnext
          exact hnext
        next lo after hlo =>
          rw [hlo] at hnext
          obtain ⟨digits, left, rfl, rfl, hlocode⟩ := hnext
          split
          next hlow =>
            refine ⟨taken ++ '\\' :: 'u' :: digits, left, ?_, rfl, .paired rfl hcode hlocode hhigh (isLow_iff.mpr hlow) rfl⟩
            simp only [List.append_assoc, List.cons_append]
          next hlow =>
            refine ⟨taken, _, rfl, rfl, .alone hcode (scalar_high hhigh).symm fun _ hstarts => ?_⟩
            obtain ⟨digits', low, more', heq, hdigits', hlow'⟩ := hstarts
            simp only [List.cons.injEq, true_and] at heq
            rw [(hlocode.unique hdigits' heq).1] at hlow
            exact hlow (isLow_iff.mp hlow')
    next hrange =>
      refine ⟨taken, left, rfl, rfl, .alone hcode rfl fun hhigh => ?_⟩
      exact absurd (isHigh_iff.mp hhigh) hrange

theorem unicodeEscape_alone {digits : Text} {code : Nat} (h : Hex4 digits code) {left : Text}
    (hleft : Json.isHigh code = true → (∀ more, left ≠ '\\' :: 'u' :: more) ∨
      ∃ digits' low more, left = '\\' :: 'u' :: (digits' ++ more) ∧ Hex4 digits' low ∧ Json.isLow low = false) :
    unicodeEscape (bytes (digits ++ left)) = .ok (Json.scalar code, bytes left) := by
  rw [unicodeEscape, hex4_append h]
  simp only
  split
  next hrange =>
    have hhigh := isHigh_iff.mpr hrange
    rw [scalar_high hhigh]
    rcases hleft hhigh with hnot | ⟨digits', low, more, rfl, hdigits', hlow⟩
    · have hnone : (eat '\\' (bytes left)).bind (eat 'u') = none := by
        cases hpair : (eat '\\' (bytes left)).bind (eat 'u') with
        | none => rfl
        | some b =>
          obtain ⟨more, heq, -⟩ := eat_pair hpair
          exact absurd heq (hnot more)
      rw [hnone]
    · rw [eat_pair_cons]
      simp only [hex4_append hdigits']
      rw [if_neg fun hrange => by rw [isLow_iff.mpr hrange] at hlow; cases hlow]
  · rfl

theorem unicodeEscape_paired {digits digits' : Text} {high low : Nat} (h : Hex4 digits high) (h' : Hex4 digits' low)
    (hhigh : Json.isHigh high = true) (hlow : Json.isLow low = true) (left : Text) :
    unicodeEscape (bytes (digits ++ '\\' :: 'u' :: (digits' ++ left))) =
      .ok (Json.scalar (Json.join high low), bytes left) := by
  rw [unicodeEscape, hex4_append h]
  simp only [if_pos (isHigh_iff.mp hhigh), eat_pair_cons, hex4_append h', if_pos (isLow_iff.mp hlow)]
  rfl

theorem escape_short {letter c : Char} (h : Json.shortEscape letter = some c) (text : Text) :
    escape (bytes (letter :: text)) = .ok (c, bytes text) := by
  rw [Json.shortEscape] at h
  split at h
  next hl => cases hl; cases h; rw [Text.bytes_ascii (by decide)]; rfl
  split at h
  next hl => cases hl; cases h; rw [Text.bytes_ascii (by decide)]; rfl
  split at h
  next hl => cases hl; cases h; rw [Text.bytes_ascii (by decide)]; rfl
  split at h
  next hl => cases hl; cases h; rw [Text.bytes_ascii (by decide)]; rfl
  split at h
  next hl => cases hl; cases h; rw [Text.bytes_ascii (by decide)]; rfl
  split at h
  next hl => cases hl; cases h; rw [Text.bytes_ascii (by decide)]; rfl
  split at h
  next hl => cases hl; cases h; rw [Text.bytes_ascii (by decide)]; rfl
  split at h
  next hl => cases hl; cases h; rw [Text.bytes_ascii (by decide)]; rfl
  cases h

theorem escape_unit (text : Text) : escape (bytes ('u' :: text)) = unicodeEscape (bytes text) := by
  rw [Text.bytes_ascii (by decide)]
  rfl

theorem escape_other {letter : Char} (h : Json.shortEscape letter = none) (hu : letter ≠ 'u') (text : Text) :
    ∃ left, escape (bytes (letter :: text)) = .error (left, .unknownEscape) := by
  obtain ⟨b, rest, hbytes⟩ := Text.exists_bytes_cons letter text
  have hletter (d c : Char) (hd : Json.shortEscape d = some c) : letter ≠ d := by
    rintro rfl
    rw [h] at hd
    cases hd
  have hb (d : Char) (hascii : d.toNat < 128) (hne : letter ≠ d) : ¬ b = byte d := fun heq =>
    hne ((Text.head_byte hascii hbytes).mp heq)
  refine ⟨rest.length, ?_⟩
  rw [hbytes, escape, if_neg (hb '"' (by decide) (hletter _ _ rfl)), if_neg (hb '\\' (by decide) (hletter _ _ rfl)),
    if_neg (hb '/' (by decide) (hletter _ _ rfl)), if_neg (hb 'b' (by decide) (hletter _ _ rfl)),
    if_neg (hb 'f' (by decide) (hletter _ _ rfl)), if_neg (hb 'n' (by decide) (hletter _ _ rfl)),
    if_neg (hb 'r' (by decide) (hletter _ _ rfl)), if_neg (hb 't' (by decide) (hletter _ _ rfl)),
    if_neg (hb 'u' (by decide) hu)]
  rfl

/-! ## Strings -/

section

variable (fuel : Nat) (out : Text)

theorem stringLoop_quote (text : Text) : stringLoop (fuel + 1) out (bytes ('"' :: text)) = .ok (out, bytes text) := by
  rw [Text.bytes_ascii (by decide)]
  rfl

theorem stringLoop_backslash (text : Text) :
    stringLoop (fuel + 1) out (bytes ('\\' :: text)) =
      match escape (bytes text) with
      | .error e => .error e
      | .ok (d, rest) => stringLoop fuel (out ++ [d]) rest := by
  rw [Text.bytes_ascii (by decide)]
  rfl

theorem stringLoop_control {c : Char} (h : c.toNat < 0x20) (text : Text) :
    stringLoop (fuel + 1) out (bytes (c :: text)) = err (bytes (c :: text)) .controlByte := by
  have hascii : c.toNat < 128 := by omega
  have hne (d : Char) (hd : d.toNat < 128) (hlow : 0x20 ≤ d.toNat) : ¬ byte c = byte d := by
    intro heq
    rw [← UInt8.toNat_inj, Text.byte_toNat hascii, Text.byte_toNat hd] at heq
    omega
  have hlow : (byte c).toNat < 0x20 := by rwa [Text.byte_toNat hascii]
  rw [Text.bytes_ascii hascii, stringLoop, if_neg (hne '"' (by decide) (by decide)),
    if_neg (hne '\\' (by decide) (by decide)), if_pos hlow]

/-- A run of characters that stand as themselves is copied at once. -/
theorem stringLoop_plain {c : Char} (h : Json.isPlain c = true) (text : Text) :
    stringLoop (fuel + 1) out (bytes (c :: text)) =
      stringLoop fuel (out ++ (c :: text).takeWhile Json.isPlain) (bytes ((c :: text).dropWhile Json.isPlain)) := by
  obtain ⟨b, rest, hbytes⟩ := Text.exists_bytes_cons c text
  have hrun : inRun b = true := (agrees_run.head hbytes).trans h
  simp only [inRun, Bool.and_eq_true, decide_eq_true_eq, Bool.not_eq_true', decide_eq_false_iff_not] at hrun
  obtain ⟨⟨hquote, hslash⟩, hlow⟩ := hrun
  have hutf8 : Text.fromUtf8 (bytes ((c :: text).takeWhile Json.isPlain)) = some ((c :: text).takeWhile Json.isPlain) :=
    Text.fromUtf8_eq_some.mpr rfl
  rw [← Text.dropWhile_bytes agrees_run, hbytes, stringLoop, if_neg hquote, if_neg hslash, if_neg hlow, ← hbytes,
    Text.takeWhile_bytes agrees_run, hutf8]

end

theorem decode_paired {high low : Nat} (hhigh : Json.isHigh high = true) (hlow : Json.isLow low = true)
    (pieces : List Json.Piece) :
    Json.decode (.unit high :: .unit low :: pieces) = Json.scalar (Json.join high low) :: Json.decode pieces := by
  rw [Json.decode, hhigh, hlow]
  rfl

/-- A unit that no low surrogate follows stands for itself. -/
theorem decode_alone {code : Nat} {body more : Text} {pieces : List Json.Piece} (hbody : Json.Body body pieces)
    (h : Json.isHigh code = true → ¬ StartsLow (body ++ more)) :
    Json.decode (.unit code :: pieces) = Json.scalar code :: Json.decode pieces := by
  cases hbody with
  | nil => rfl
  | plain _ _ => rfl
  | short _ _ => rfl
  | @unit digits text low pieces hlength hvalue hrest =>
    rw [Json.decode]
    split
    next hpair =>
      rw [Bool.and_eq_true] at hpair
      refine absurd ⟨digits, low, text ++ more, ?_, ⟨hlength, hvalue⟩, hpair.2⟩ (h hpair.1)
      simp only [List.cons_append, List.append_assoc]
    · rfl

theorem body_plain {run : Text} (hrun : ∀ c ∈ run, Json.isPlain c = true) {body : Text} {pieces : List Json.Piece}
    (h : Json.Body body pieces) :
    ∃ pieces', Json.Body (run ++ body) pieces' ∧ Json.decode pieces' = run ++ Json.decode pieces := by
  induction run with
  | nil => exact ⟨pieces, h, rfl⟩
  | cons c run ih =>
    obtain ⟨pieces', hbody, hdecode⟩ := ih fun d hd => hrun d (List.mem_cons_of_mem _ hd)
    refine ⟨.plain c :: pieces', .plain (hrun c List.mem_cons_self) hbody, ?_⟩
    rw [Json.decode, hdecode, List.cons_append]

theorem body_dropWhile {body : Text} {pieces : List Json.Piece} (h : Json.Body body pieces) :
    ∃ pieces', Json.Body (body.dropWhile Json.isPlain) pieces' ∧
      Json.decode pieces = body.takeWhile Json.isPlain ++ Json.decode pieces' := by
  induction h with
  | nil => exact ⟨[], .nil, rfl⟩
  | plain hc _ ih =>
    obtain ⟨pieces', hbody, hdecode⟩ := ih
    refine ⟨pieces', ?_, ?_⟩
    · rwa [List.dropWhile_cons_of_pos hc]
    · rw [List.takeWhile_cons_of_pos hc, Json.decode, hdecode, List.cons_append]
  | short hletter hrest _ => exact ⟨_, .short hletter hrest, rfl⟩
  | unit hlength hvalue hrest _ => exact ⟨_, .unit hlength hvalue hrest, rfl⟩

/-- The rest of a string, its closing quote with it. -/
def Closes (out taken text : Text) : Prop :=
  ∃ body pieces, taken = body ++ ['"'] ∧ Json.Body body pieces ∧ text = out ++ Json.decode pieces

theorem stringLoop_outcome (fuel : Nat) (out text : Text) :
    Outcome (fun taken _ s => Closes out taken s) text (stringLoop fuel out (bytes text)) := by
  induction fuel generalizing out text with
  | zero => exact Fault.noConfusion
  | succ fuel ih =>
    cases text with
    | nil => exact Fault.noConfusion
    | cons c text =>
      by_cases hquote : c = '"'
      · subst hquote
        rw [stringLoop_quote]
        exact ⟨['"'], text, rfl, rfl, [], [], rfl, .nil, by rw [Json.decode, List.append_nil]⟩
      by_cases hslash : c = '\\'
      · subst hslash
        rw [stringLoop_backslash]
        cases text with
        | nil => exact Fault.noConfusion
        | cons letter text =>
          cases hshort : Json.shortEscape letter with
          | some d =>
            rw [escape_short hshort]
            refine (ih (out ++ [d]) text).after ['\\', letter] ?_
            rintro taken left s - ⟨body, pieces, rfl, hbody, rfl⟩
            exact ⟨'\\' :: letter :: body, _, rfl, .short hshort hbody, by rw [Json.decode, List.append_assoc]; rfl⟩
          | none =>
            by_cases hu : letter = 'u'
            · subst hu
              rw [escape_unit]
              have hunit := unicodeEscape_outcome text
              split
              next e he =>
                rw [he] at hunit
                exact hunit
              next d rest hok =>
                rw [hok] at hunit
                obtain ⟨digits, left, rfl, rfl, hescape⟩ := hunit
                have hstep := ih (out ++ [d]) left
                refine hstep.after ('\\' :: 'u' :: digits) ?_
                rintro taken left' s rfl ⟨body, pieces, rfl, hbody, rfl⟩
                cases hescape with
                | @alone code hcode hd halone =>
                  refine ⟨'\\' :: 'u' :: (digits ++ body), .unit code :: pieces, ?_, .unit hcode.1 hcode.2 hbody, ?_⟩
                  · simp only [List.cons_append, List.append_assoc]
                  · rw [List.append_assoc] at halone
                    rw [decode_alone hbody halone, hd, List.append_assoc, List.singleton_append]
                | @paired first second high low htaken hfirst hsecond hhigh hlow hd =>
                  subst htaken
                  refine ⟨'\\' :: 'u' :: (first ++ '\\' :: 'u' :: (second ++ body)), .unit high :: .unit low :: pieces, ?_,
                    .unit hfirst.1 hfirst.2 (.unit hsecond.1 hsecond.2 hbody), ?_⟩
                  · simp only [List.cons_append, List.append_assoc]
                  · rw [decode_paired hhigh hlow, hd, List.append_assoc, List.singleton_append]
            · obtain ⟨left, hescape⟩ := escape_other hshort hu text
              rw [hescape]
              exact Fault.noConfusion
      by_cases hlow : c.toNat < 0x20
      · rw [stringLoop_control fuel out hlow]
        exact Fault.noConfusion
      have hplain : Json.isPlain c = true := by
        rw [Json.isPlain, decide_eq_true hquote, decide_eq_true hslash, decide_eq_false hlow]
        rfl
      rw [stringLoop_plain fuel out hplain]
      have hstep := ih (out ++ (c :: text).takeWhile Json.isPlain) ((c :: text).dropWhile Json.isPlain)
      have hrun : ∀ d ∈ (c :: text).takeWhile Json.isPlain, Json.isPlain d = true := fun d hd =>
        List.all_eq_true.mp List.all_takeWhile d hd
      have hafter : Outcome (fun taken _ s => Closes out taken s)
          ((c :: text).takeWhile Json.isPlain ++ (c :: text).dropWhile Json.isPlain)
          (stringLoop fuel (out ++ (c :: text).takeWhile Json.isPlain) (bytes ((c :: text).dropWhile Json.isPlain))) := by
        refine hstep.after _ ?_
        rintro taken left s - ⟨body, pieces, rfl, hbody, rfl⟩
        obtain ⟨pieces', hbody', hdecode⟩ := body_plain hrun hbody
        exact ⟨_, pieces', (List.append_assoc ..).symm, hbody', by rw [hdecode, List.append_assoc]⟩
      rwa [List.takeWhile_append_dropWhile] at hafter

theorem string_outcome (text : Text) : Outcome (fun taken _ s => Json.StringText taken s) text (string (bytes text)) := by
  rw [string]
  split
  · exact Fault.noConfusion
  next rest hquote =>
    obtain ⟨more, rfl, rfl⟩ := eat_some (by decide) hquote
    refine (stringLoop_outcome _ [] more).after ['"'] ?_
    rintro taken left s - ⟨body, pieces, rfl, hbody, rfl⟩
    exact ⟨body, pieces, rfl, hbody, rfl⟩

theorem stringLoop_append {fuel : Nat} {body : Text} {pieces : List Json.Piece} (h : Json.Body body pieces)
    (hfuel : body.length < fuel) (out left : Text) :
    stringLoop fuel out (bytes (body ++ '"' :: left)) = .ok (out ++ Json.decode pieces, bytes left) := by
  induction fuel generalizing body pieces out with
  | zero => exact absurd hfuel (Nat.not_lt_zero _)
  | succ fuel ih =>
    cases h with
    | nil =>
      rw [List.nil_append, stringLoop_quote, Json.decode, List.append_nil]
    | @plain c text pieces hc hrest =>
      obtain ⟨pieces', hbody, hdecode⟩ := body_dropWhile (.plain hc hrest)
      have hquote : Json.isPlain '"' ≠ true := by decide
      have hlength : ((c :: text).dropWhile Json.isPlain).length < fuel := by
        have hle := (List.dropWhile_suffix (p := Json.isPlain) (l := text)).length_le
        rw [List.length_cons] at hfuel
        rw [List.dropWhile_cons_of_pos hc]
        omega
      rw [List.cons_append, stringLoop_plain fuel out hc, ← List.cons_append, Text.dropWhile_append_stop hquote,
        Text.takeWhile_append_stop hquote, ih hbody hlength, hdecode, List.append_assoc]
    | @short letter c text pieces hletter hrest =>
      have hlength : text.length < fuel := by
        simp only [List.length_cons] at hfuel
        omega
      rw [List.cons_append, stringLoop_backslash, List.cons_append, escape_short hletter]
      simp only
      rw [ih hrest hlength, Json.decode, List.append_assoc, List.singleton_append]
    | @unit digits text code pieces hdigits hcode hrest =>
      have hhex : Hex4 digits code := ⟨hdigits, hcode⟩
      have hlength : text.length < fuel := by
        simp only [List.length_cons, List.length_append] at hfuel
        omega
      rw [List.cons_append, List.cons_append, List.append_assoc]
      have halone (hleft : Json.isHigh code = true → (∀ more, text ++ '"' :: left ≠ '\\' :: 'u' :: more) ∨
          ∃ digits' low more, text ++ '"' :: left = '\\' :: 'u' :: (digits' ++ more) ∧ Hex4 digits' low ∧
            Json.isLow low = false) :
          Json.decode (.unit code :: pieces) = Json.scalar code :: Json.decode pieces →
          stringLoop (fuel + 1) out (bytes ('\\' :: 'u' :: (digits ++ (text ++ '"' :: left)))) =
            .ok (out ++ Json.decode (.unit code :: pieces), bytes left) := by
        intro hdecode
        rw [stringLoop_backslash, escape_unit, unicodeEscape_alone hhex hleft]
        simp only
        rw [ih hrest hlength, hdecode, List.append_assoc, List.singleton_append]
      cases hrest with
      | nil => exact halone (fun _ => .inl fun more h => by cases h) rfl
      | plain hc hmore =>
        refine halone (fun _ => .inl fun more h => ?_) rfl
        rw [(List.cons.inj h).1] at hc
        cases hc
      | @short letter c text pieces hletter hmore =>
        refine halone (fun _ => .inl fun more h => ?_) rfl
        simp only [List.cons_append, List.cons.injEq, true_and] at h
        rw [h.1] at hletter
        cases hletter
      | @unit digits' text low pieces hdigits' hlow hmore =>
        have hhex' : Hex4 digits' low := ⟨hdigits', hlow⟩
        cases hpair : Json.isHigh code && Json.isLow low with
        | true =>
          rw [Bool.and_eq_true] at hpair
          have hrest : text.length < fuel := by
            simp only [List.length_cons, List.length_append] at hlength
            omega
          rw [List.cons_append, List.cons_append, List.append_assoc, stringLoop_backslash, escape_unit,
            unicodeEscape_paired hhex hhex' hpair.1 hpair.2, decode_paired hpair.1 hpair.2]
          simp only
          rw [ih hmore hrest, List.append_assoc, List.singleton_append]
        | false =>
          refine halone (fun hhigh => .inr ⟨digits', low, text ++ '"' :: left, ?_, hhex', ?_⟩) ?_
          · simp only [List.cons_append, List.append_assoc]
          · rwa [hhigh, Bool.true_and] at hpair
          · rw [Json.decode, hpair]
            rfl

theorem string_append {raw text : Text} (h : Json.StringText raw text) (left : Text) :
    string (bytes (raw ++ left)) = .ok (text, bytes left) := by
  obtain ⟨body, pieces, rfl, hbody, rfl⟩ := h
  have hfuel : body.length < (bytes (body ++ '"' :: left)).length + 1 := by
    have hlen := Text.length_le_bytes (body ++ '"' :: left)
    rw [List.length_append] at hlen
    omega
  rw [List.cons_append, List.append_assoc, List.singleton_append, string, eat_cons (by decide)]
  simp only
  rw [stringLoop_append hbody hfuel, List.nil_append]

end TmuxAgents.Transcript.Parser
