/-
UTF-8: a text and its bytes.

The bytes of a character below 128 are the character, and no byte of another is below 128.
So what looks for ASCII bytes in a text finds characters, and cuts between characters.
-/
import TmuxAgents.Lib.Text

namespace Text

/-- The bytes of a text. -/
def bytes (text : Text) : List UInt8 := text.flatMap String.utf8EncodeChar

/-- `str::len`, in bytes. -/
def len (text : Text) : Nat := (Text.bytes text).length

/-- `String::from_utf8`. -/
def fromUtf8 (bytes : List UInt8) : Option Text := (String.fromUTF8? ⟨bytes.toArray⟩).map String.toList

theorem fromUtf8_eq_some {bytes : List UInt8} {text : Text} :
    Text.fromUtf8 bytes = some text ↔ Text.bytes text = bytes := by
  unfold Text.fromUtf8 String.fromUTF8?
  constructor
  · intro h
    split at h
    · rename_i hvalid
      simp only [Option.map_some, Option.some.injEq] at h
      subst h
      have hencode := String.utf8Encode_toList (b := ⟨⟨bytes.toArray⟩, hvalid⟩)
      rw [Text.bytes, ← List.toList_data_toByteArray (l := List.flatMap _ _)]
      exact congrArg (fun b : ByteArray => b.data.toList) hencode
    · cases h
  · rintro rfl
    have hutf8 : (⟨(Text.bytes text).toArray⟩ : ByteArray) = text.utf8Encode := by
      ext1
      simp [List.utf8Encode, Text.bytes]
    have hvalid : (⟨(Text.bytes text).toArray⟩ : ByteArray).IsValidUTF8 := ⟨text, hutf8⟩
    rw [dif_pos hvalid]
    have hstring : (⟨⟨(Text.bytes text).toArray⟩, hvalid⟩ : String) = String.ofList text := by
      apply String.toByteArray_inj.mp
      rw [String.toByteArray_ofList]
      exact hutf8
    rw [Option.map_some]
    exact congrArg some ((congrArg String.toList hstring).trans String.toList_ofList)

theorem bytes_injective : Function.Injective bytes := by
  intro a b h
  have ha : fromUtf8 (bytes a) = some a := fromUtf8_eq_some.mpr rfl
  have hb : fromUtf8 (bytes a) = some b := fromUtf8_eq_some.mpr h.symm
  exact Option.some.inj (ha.symm.trans hb)

/-! ## Lengths in bytes -/

theorem len_append (a b : Text) : Text.len (a ++ b) = Text.len a + Text.len b := by
  simp only [Text.len, Text.bytes, List.flatMap_append, List.length_append]

theorem len_cons (c : Char) (text : Text) : Text.len (c :: text) = c.utf8Size + Text.len text := by
  simp only [Text.len, Text.bytes, List.flatMap_cons, List.length_append, String.length_utf8EncodeChar]

@[simp] theorem len_nil : Text.len [] = 0 := rfl

/-- A text of characters of one byte each. -/
theorem len_of_ascii {text : Text} (h : ∀ c ∈ text, c.utf8Size = 1) : Text.len text = text.length := by
  induction text with
  | nil => rfl
  | cons c text ih =>
    rw [Text.len_cons, h c List.mem_cons_self, ih fun d hd => h d (List.mem_cons_of_mem _ hd), List.length_cons,
      Nat.add_comm]

/-- `&text[..at]` and `&text[at..]`; a cut inside a character, or past the end, is none. -/
def splitAtByte : Text → Nat → Option (Text × Text)
  | text, 0 => some ([], text)
  | [], _ + 1 => none
  | c :: text, n + 1 =>
    if c.utf8Size ≤ n + 1 then (splitAtByte text (n + 1 - c.utf8Size)).map fun parts => (c :: parts.1, parts.2) else none

theorem splitAtByte_append (a b : Text) : splitAtByte (a ++ b) (len a) = some (a, b) := by
  induction a with
  | nil =>
    rw [len_nil, List.nil_append]
    cases b <;> rfl
  | cons c a ih =>
    obtain ⟨n, hn⟩ : ∃ n, c.utf8Size = n + 1 := ⟨c.utf8Size - 1, by have := c.utf8Size_pos; omega⟩
    have hlen : len (c :: a) = n + len a + 1 := by
      rw [len_cons, hn]
      omega
    have hrest : n + len a + 1 - (n + 1) = len a := by omega
    rw [hlen, List.cons_append, splitAtByte, hn, if_pos (by omega), hrest, ih]
    rfl

/-! ## ASCII bytes -/

@[simp] theorem bytes_nil : bytes [] = [] := rfl

theorem bytes_cons (c : Char) (text : Text) : bytes (c :: text) = String.utf8EncodeChar c ++ bytes text := rfl

theorem bytes_append (a b : Text) : bytes (a ++ b) = bytes a ++ bytes b := List.flatMap_append

/-- The byte of an ASCII character (`b'c'`). -/
def byte (c : Char) : UInt8 := UInt8.ofNat c.toNat

theorem byte_toNat {c : Char} (h : c.toNat < 128) : (byte c).toNat = c.toNat := by
  rw [byte, UInt8.toNat_ofNat']
  omega

theorem encode_ascii {c : Char} (h : c.toNat < 128) : String.utf8EncodeChar c = [byte c] := by
  have hle : c.val.toNat ≤ 0x7f := Nat.le_of_lt_succ h
  rw [String.utf8EncodeChar, if_pos hle]
  rfl

theorem bytes_ascii {c : Char} (h : c.toNat < 128) (text : Text) : bytes (c :: text) = byte c :: bytes text := by
  rw [bytes_cons, encode_ascii h]
  rfl

/-- A character past ASCII has no ASCII byte. -/
theorem encode_high {c : Char} (h : 128 ≤ c.toNat) : ∀ b ∈ String.utf8EncodeChar c, 128 ≤ b.toNat := by
  have hgt : ¬ c.val.toNat ≤ 0x7f := Nat.not_le.mpr h
  intro b hb
  rw [String.utf8EncodeChar, if_neg hgt] at hb
  have hbyte : ∀ low bits : Nat, 128 ≤ bits → low + bits < 256 → 128 ≤ (UInt8.ofNat (low + bits)).toNat := by
    intro low bits hbits hlt
    rw [UInt8.toNat_ofNat']
    omega
  split at hb
  · simp only [List.mem_cons, List.not_mem_nil, or_false] at hb
    rcases hb with rfl | rfl
    · exact hbyte _ _ (by omega) (by omega)
    · exact hbyte _ _ (by omega) (by omega)
  · split at hb
    · simp only [List.mem_cons, List.not_mem_nil, or_false] at hb
      rcases hb with rfl | rfl | rfl
      · exact hbyte _ _ (by omega) (by omega)
      · exact hbyte _ _ (by omega) (by omega)
      · exact hbyte _ _ (by omega) (by omega)
    · simp only [List.mem_cons, List.not_mem_nil, or_false] at hb
      rcases hb with rfl | rfl | rfl | rfl
      · exact hbyte _ _ (by omega) (by omega)
      · exact hbyte _ _ (by omega) (by omega)
      · exact hbyte _ _ (by omega) (by omega)
      · exact hbyte _ _ (by omega) (by omega)

theorem encode_ne_nil (c : Char) : String.utf8EncodeChar c ≠ [] := by
  intro h
  have hlength := String.length_utf8EncodeChar c
  rw [h] at hlength
  exact Nat.ne_of_gt c.utf8Size_pos hlength.symm

theorem bytes_eq_nil {text : Text} : bytes text = [] ↔ text = [] := by
  constructor
  · intro h
    cases text with
    | nil => rfl
    | cons c text => exact absurd (List.append_eq_nil_iff.mp h).1 (encode_ne_nil c)
  · rintro rfl
    rfl

/-- A byte that is an ASCII character's stands for that character. -/
theorem bytes_eq_cons {text : Text} {c : Char} (hc : c.toNat < 128) {rest : List UInt8}
    (h : bytes text = byte c :: rest) : ∃ more, text = c :: more ∧ rest = bytes more := by
  cases text with
  | nil => cases h
  | cons d more =>
    have hbyte := byte_toNat hc
    by_cases hd : d.toNat < 128
    · rw [bytes_ascii hd] at h
      obtain ⟨hhead, htail⟩ := List.cons.inj h
      have hnat : d.toNat = c.toNat := by rw [← byte_toNat hd, hhead, hbyte]
      have hchar : d = c := Char.ext (UInt32.toNat_inj.mp hnat)
      exact ⟨more, by rw [hchar], htail.symm⟩
    · cases hencode : String.utf8EncodeChar d with
      | nil => exact absurd hencode (encode_ne_nil d)
      | cons b bs =>
        rw [bytes_cons, hencode] at h
        have hb := encode_high (Nat.not_lt.mp hd) b (by rw [hencode]; exact List.mem_cons_self)
        rw [(List.cons.inj h).1, hbyte] at hb
        exact absurd hc (Nat.not_lt.mpr hb)

/-- The first byte of a text is an ASCII character's where the first character is. -/
theorem head_byte {c d : Char} (hc : c.toNat < 128) {text : Text} {b : UInt8} {rest : List UInt8}
    (h : bytes (d :: text) = b :: rest) : b = byte c ↔ d = c := by
  constructor
  · rintro rfl
    obtain ⟨more, heq, -⟩ := bytes_eq_cons hc h
    exact (List.cons.inj heq).1
  · rintro rfl
    rw [bytes_ascii hc] at h
    exact (List.cons.inj h).1.symm

theorem exists_bytes_cons (c : Char) (text : Text) : ∃ b rest, bytes (c :: text) = b :: rest := by
  cases h : bytes (c :: text) with
  | nil => exact absurd (bytes_eq_nil.mp h) (List.cons_ne_nil _ _)
  | cons b rest => exact ⟨b, rest, rfl⟩

theorem length_le_bytes (text : Text) : text.length ≤ (bytes text).length := by
  induction text with
  | nil => exact Nat.le_refl _
  | cons c text ih =>
    have hone := c.utf8Size_pos
    rw [bytes_cons, List.length_append, String.length_utf8EncodeChar, List.length_cons]
    omega

/-! ## Runs of bytes -/

theorem takeWhile_append_stop {α : Type} {p : α → Bool} {x : α} (h : ¬ p x = true) (front rest : List α) :
    (front ++ x :: rest).takeWhile p = front.takeWhile p := by
  induction front with
  | nil => rw [List.nil_append, List.takeWhile_cons_of_neg h, List.takeWhile_nil]
  | cons a front ih => rw [List.cons_append, List.takeWhile_cons, List.takeWhile_cons, ih]

theorem dropWhile_append_stop {α : Type} {p : α → Bool} {x : α} (h : ¬ p x = true) (front rest : List α) :
    (front ++ x :: rest).dropWhile p = front.dropWhile p ++ x :: rest := by
  induction front with
  | nil => rw [List.nil_append, List.dropWhile_cons_of_neg h, List.dropWhile_nil, List.nil_append]
  | cons a front ih =>
    rw [List.cons_append, List.dropWhile_cons, List.dropWhile_cons, ih]
    split
    · rfl
    · rfl

/-- A condition on bytes and one on characters say the same: on ASCII, and on everything past it. -/
structure Agrees (p : UInt8 → Bool) (q : Char → Bool) (high : Bool) : Prop where
  ascii : ∀ c : Char, c.toNat < 128 → p (byte c) = q c
  byte_high : ∀ b : UInt8, 128 ≤ b.toNat → p b = high
  char_high : ∀ c : Char, 128 ≤ c.toNat → q c = high

section

variable {p : UInt8 → Bool} {q : Char → Bool} {high : Bool}

/-- The ASCII half, checked code by code. -/
theorem Agrees.ofTable (htable : ∀ n < 128, p (byte (Char.ofNat n)) = q (Char.ofNat n))
    (hbyte : ∀ b : UInt8, 128 ≤ b.toNat → p b = high) (hchar : ∀ c : Char, 128 ≤ c.toNat → q c = high) :
    Agrees p q high where
  ascii c hc := by
    rw [← Char.ofNat_toNat c]
    exact htable c.toNat hc
  byte_high := hbyte
  char_high := hchar

theorem Agrees.encode (h : Agrees p q high) (c : Char) : ∀ b ∈ String.utf8EncodeChar c, p b = q c := by
  intro b hb
  by_cases hc : c.toNat < 128
  · rw [encode_ascii hc, List.mem_singleton] at hb
    rw [hb]
    exact h.ascii c hc
  · have hhigh := Nat.not_lt.mp hc
    rw [h.char_high c hhigh]
    exact h.byte_high b (encode_high hhigh b hb)

/-- The first byte of a text, where the two conditions agree. -/
theorem Agrees.head (h : Agrees p q high) {c : Char} {text : Text} {b : UInt8} {rest : List UInt8}
    (hbytes : bytes (c :: text) = b :: rest) : p b = q c := by
  cases hencode : String.utf8EncodeChar c with
  | nil => exact absurd hencode (encode_ne_nil c)
  | cons b' bs =>
    rw [bytes_cons, hencode] at hbytes
    rw [← (List.cons.inj hbytes).1]
    exact h.encode c b' (by rw [hencode]; exact List.mem_cons_self)

theorem dropWhile_bytes (h : Agrees p q high) (text : Text) : (bytes text).dropWhile p = bytes (text.dropWhile q) := by
  induction text with
  | nil => rfl
  | cons c text ih =>
    cases hq : q c with
    | true =>
      rw [bytes_cons, List.dropWhile_append_of_pos fun b hb => (h.encode c b hb).trans hq, ih,
        List.dropWhile_cons_of_pos hq]
    | false =>
      rw [List.dropWhile_cons_of_neg (by rw [hq]; exact Bool.false_ne_true)]
      cases hencode : String.utf8EncodeChar c with
      | nil => exact absurd hencode (encode_ne_nil c)
      | cons b bs =>
        have hb : p b = false := (h.encode c b (by rw [hencode]; exact List.mem_cons_self)).trans hq
        rw [bytes_cons, hencode, List.cons_append, List.dropWhile_cons_of_neg (by rw [hb]; exact Bool.false_ne_true)]

theorem takeWhile_bytes (h : Agrees p q high) (text : Text) : (bytes text).takeWhile p = bytes (text.takeWhile q) := by
  have hbytes : (bytes text).takeWhile p ++ (bytes text).dropWhile p =
      bytes (text.takeWhile q) ++ bytes (text.dropWhile q) := by
    rw [List.takeWhile_append_dropWhile, ← bytes_append, List.takeWhile_append_dropWhile]
  rw [dropWhile_bytes h] at hbytes
  exact List.append_cancel_right hbytes

end

/-- Joined texts of a bounded length. -/
theorem len_intercalate_le {sep : Char} {k : Nat} {fields : List Text} (hsep : sep.utf8Size = 1)
    (h : ∀ field ∈ fields, len field ≤ k) :
    len ([sep].intercalate fields) ≤ fields.length * (k + 1) - 1 := by
  induction fields with
  | nil => exact Nat.zero_le _
  | cons field fields ih =>
    have hfield := h field List.mem_cons_self
    cases fields with
    | nil =>
      rw [List.intercalate_singleton]
      simpa using hfield
    | cons next rest =>
      have hrest := ih fun f hf => h f (List.mem_cons_of_mem _ hf)
      rw [List.intercalate_cons_cons, len_append, len_append, len_cons, hsep, len_nil]
      have hmul : (field :: next :: rest).length * (k + 1) = (next :: rest).length * (k + 1) + (k + 1) := by
        rw [List.length_cons, Nat.succ_mul]
      have hpos : 0 < (next :: rest).length * (k + 1) := Nat.mul_pos (Nat.succ_pos _) (Nat.succ_pos _)
      omega

end Text
