/-
`String::from_utf8_lossy`: bytes as text, with a replacement character for each
longest run of bytes that starts a character and does not finish it.

A newline byte ends any such run, so text is decoded line by line
(`lossy_append`), whatever bytes the lines are made of.
-/
import Mathlib.Data.List.GetD
import TmuxAgents.Lib.Lines
import TmuxAgents.Lib.Utf8

namespace Text

/-! ## Definitions -/

def replacement : Char := '\uFFFD'

/-- A continuation byte. -/
def isContinuation (b : UInt8) : Bool := 0x80 ≤ b ∧ b ≤ 0xBF

/-- How many bytes the first byte of a character calls for, none for a byte that starts no
character. -/
def charWidth (b : UInt8) : Option Nat :=
  if b < 0x80 then some 1
  else if 0xC2 ≤ b ∧ b ≤ 0xDF then some 2
  else if 0xE0 ≤ b ∧ b ≤ 0xEF then some 3
  else if 0xF0 ≤ b ∧ b ≤ 0xF4 then some 4
  else none

/-- The second bytes a first one allows: no overlong form, no surrogate, nothing past the last
character. -/
def secondFits (b c : UInt8) : Bool :=
  if b = 0xE0 then 0xA0 ≤ c ∧ c ≤ 0xBF
  else if b = 0xED then 0x80 ≤ c ∧ c ≤ 0x9F
  else if b = 0xF0 then 0x90 ≤ c ∧ c ≤ 0xBF
  else if b = 0xF4 then 0x80 ≤ c ∧ c ≤ 0x8F
  else isContinuation c

/-- The bits a continuation byte adds. -/
def addBits (n : Nat) (b : UInt8) : Nat := n * 64 + b.toNat % 64

/-- A byte and what follows it, as a character and the number of bytes it takes of what follows.
Past the end there is a zero. -/
def readChar (b : UInt8) (rest : List UInt8) : Char × Nat :=
  let c := rest.getD 0 0
  let d := rest.getD 1 0
  let e := rest.getD 2 0
  match charWidth b with
  | some 1 => (Char.ofNat b.toNat, 0)
  | some 2 => if !secondFits b c then (replacement, 0) else (Char.ofNat (addBits (b.toNat % 32) c), 1)
  | some 3 =>
    if !secondFits b c then (replacement, 0)
    else if !isContinuation d then (replacement, 1)
    else (Char.ofNat (addBits (addBits (b.toNat % 16) c) d), 2)
  | some 4 =>
    if !secondFits b c then (replacement, 0)
    else if !isContinuation d then (replacement, 1)
    else if !isContinuation e then (replacement, 2)
    else (Char.ofNat (addBits (addBits (addBits (b.toNat % 8) c) d) e), 3)
  | _ => (replacement, 0)

/-- With `taken` bytes already read. -/
def lossyFrom : Nat → List UInt8 → Text
  | _, [] => []
  | taken + 1, _ :: rest => lossyFrom taken rest
  | 0, b :: rest => (readChar b rest).1 :: lossyFrom (readChar b rest).2 rest

/-- `String::from_utf8_lossy`. -/
def lossy (bytes : List UInt8) : Text := lossyFrom 0 bytes

/-- The newline byte. -/
def newline : UInt8 := 10

/-! ## Characters -/

/-- An ASCII byte is in no range past ASCII. -/
theorem not_range {c : UInt8} (hc : c < 0x80) {low : UInt8} (hlow : 0x80 ≤ low) (high : UInt8) :
    decide (low ≤ c ∧ c ≤ high) = false := by
  have hlt : c < low := UInt8.lt_of_lt_of_le hc hlow
  simp only [decide_eq_false_iff_not, not_and]
  exact fun hle => absurd hlt (UInt8.not_lt.mpr hle)

theorem not_isContinuation {c : UInt8} (hc : c < 0x80) : isContinuation c = false := not_range hc (by decide) _

theorem not_secondFits {c : UInt8} (hc : c < 0x80) (b : UInt8) : secondFits b c = false := by
  unfold secondFits
  split_ifs
  · exact not_range hc (by decide) _
  · exact not_range hc (by decide) _
  · exact not_range hc (by decide) _
  · exact not_range hc (by decide) _
  · exact not_isContinuation hc

/-- A newline, and the end, stop a character alike. -/
theorem readChar_newline (b : UInt8) (front after : List UInt8) :
    readChar b (front ++ newline :: after) = readChar b front := by
  have hnewline : isContinuation newline = false := not_isContinuation (by decide)
  have hend : isContinuation 0 = false := not_isContinuation (by decide)
  have hsecond : secondFits b newline = false := not_secondFits (by decide) b
  have hsecond0 : secondFits b 0 = false := not_secondFits (by decide) b
  -- A character looks three bytes ahead at most.
  rcases front with _ | ⟨c, _ | ⟨d, _ | ⟨e, front⟩⟩⟩
  · simp [readChar, hsecond, hsecond0]
  · simp [readChar, hnewline, hend]
  · simp [readChar, hnewline, hend]
  · simp [readChar]

/-- What is not so of the zero past the end is so inside only. -/
theorem lt_of_getD {p : UInt8 → Bool} (hend : p 0 = false) {bytes : List UInt8} {i : Nat} (h : p (bytes.getD i 0) = true) :
    i < bytes.length := by
  by_contra hi
  rw [List.getD_eq_default _ _ (Nat.le_of_not_lt hi), hend] at h
  cases h

/-- A character takes bytes that are there. -/
theorem readChar_le (b : UInt8) (rest : List UInt8) : (readChar b rest).2 ≤ rest.length := by
  have hend : isContinuation 0 = false := not_isContinuation (by decide)
  have hsecond : ∀ i, secondFits b (rest.getD i 0) = true → i < rest.length :=
    fun i => lt_of_getD (not_secondFits (by decide) b)
  have hnext : ∀ i, isContinuation (rest.getD i 0) = true → i < rest.length := fun i => lt_of_getD hend
  unfold readChar
  dsimp only
  split
  · exact Nat.zero_le _
  · split_ifs with hc
    · exact Nat.zero_le _
    · exact hsecond 0 (by simpa using hc)
  · split_ifs with hc hd
    · exact Nat.zero_le _
    · exact hsecond 0 (by simpa using hc)
    · exact hnext 1 (by simpa using hd)
  · split_ifs with hc hd he
    · exact Nat.zero_le _
    · exact hsecond 0 (by simpa using hc)
    · exact hnext 1 (by simpa using hd)
    · exact hnext 2 (by simpa using he)
  · exact Nat.zero_le _

theorem ofNat_ne_newline {n : Nat} (h : n ≠ 10) : Char.ofNat n ≠ '\n' := by
  intro hchar
  by_cases hvalid : n.isValidChar
  · have hnat := congrArg Char.toNat hchar
    rw [Char.ofNat, dif_pos hvalid] at hnat
    exact h hnat
  · rw [Char.ofNat, dif_neg hvalid] at hchar
    cases hchar

theorem charWidth_bounds {b : UInt8} {width : Nat} (h : charWidth b = some width) :
    width = 1 ∧ b.toNat < 0x80 ∨ width = 2 ∧ 0xC2 ≤ b.toNat ∧ b.toNat ≤ 0xDF ∨
      width = 3 ∧ 0xE0 ≤ b.toNat ∧ b.toNat ≤ 0xEF ∨ width = 4 ∧ 0xF0 ≤ b.toNat ∧ b.toNat ≤ 0xF4 := by
  unfold charWidth at h
  simp only [UInt8.le_iff_toNat_le, UInt8.lt_iff_toNat_lt] at h
  split_ifs at h with h1 h2 h3 h4
  · exact .inl ⟨(Option.some.inj h).symm, h1⟩
  · exact .inr (.inl ⟨(Option.some.inj h).symm, h2⟩)
  · exact .inr (.inr (.inl ⟨(Option.some.inj h).symm, h3⟩))
  · exact .inr (.inr (.inr ⟨(Option.some.inj h).symm, h4⟩))

/-- No overlong form: a first byte without bits has a second byte with high ones. -/
theorem secondFits_high {b c : UInt8} (h : secondFits b c = true) :
    (b.toNat = 0xE0 → 0xA0 ≤ c.toNat ∧ c.toNat ≤ 0xBF) ∧ (b.toNat = 0xF0 → 0x90 ≤ c.toNat ∧ c.toNat ≤ 0xBF) := by
  unfold secondFits at h
  constructor
  · intro hb
    have hb' : b = 0xE0 := UInt8.toNat_inj.mp hb
    simpa [hb', UInt8.le_iff_toNat_le] using h
  · intro hb
    have hb' : b = 0xF0 := UInt8.toNat_inj.mp hb
    simpa [hb', UInt8.le_iff_toNat_le] using h

/-- Only the newline byte is read as a newline. -/
theorem readChar_ne {b : UInt8} (hb : b ≠ newline) (rest : List UInt8) : (readChar b rest).1 ≠ '\n' := by
  unfold readChar
  dsimp only
  split
  · exact ofNat_ne_newline fun hnat => hb (UInt8.toNat_inj.mp hnat)
  · rename_i hwidth
    have hbounds := charWidth_bounds hwidth
    split_ifs with hc
    · decide
    · refine ofNat_ne_newline ?_
      simp only [addBits]
      omega
  · rename_i hwidth
    have hbounds := charWidth_bounds hwidth
    split_ifs with hc hd
    · decide
    · decide
    · rw [Bool.not_eq_true', Bool.not_eq_false] at hc
      have hhigh := secondFits_high hc
      refine ofNat_ne_newline ?_
      simp only [addBits]
      omega
  · rename_i hwidth
    have hbounds := charWidth_bounds hwidth
    split_ifs with hc hd he
    · decide
    · decide
    · decide
    · rw [Bool.not_eq_true', Bool.not_eq_false] at hc
      have hhigh := secondFits_high hc
      refine ofNat_ne_newline ?_
      simp only [addBits]
      omega
  · decide

/-! ## Lines -/

theorem lossyFrom_newline {taken : Nat} {front : List UInt8} (h : taken ≤ front.length) (after : List UInt8) :
    lossyFrom taken (front ++ newline :: after) = lossyFrom taken front ++ '\n' :: lossy after := by
  induction front generalizing taken with
  | nil =>
    obtain rfl : taken = 0 := Nat.le_zero.mp h
    rfl
  | cons b front ih =>
    cases taken with
    | succ taken => exact ih (Nat.le_of_succ_le_succ h)
    | zero =>
      rw [List.cons_append, lossyFrom, lossyFrom, readChar_newline, ih (readChar_le b front), List.cons_append]

theorem newline_not_mem_lossyFrom {taken : Nat} {bytes : List UInt8} (h : newline ∉ bytes) :
    '\n' ∉ lossyFrom taken bytes := by
  induction bytes generalizing taken with
  | nil =>
    rw [lossyFrom]
    exact List.not_mem_nil
  | cons b bytes ih =>
    rw [List.mem_cons, not_or] at h
    cases taken with
    | succ taken => exact ih h.2
    | zero =>
      rw [lossyFrom, List.mem_cons, not_or]
      exact ⟨(readChar_ne (Ne.symm h.1) bytes).symm, ih h.2⟩

theorem lossy_newline (front after : List UInt8) : lossy (front ++ newline :: after) = lossy front ++ '\n' :: lossy after :=
  lossyFrom_newline (Nat.zero_le _) after

theorem newline_not_mem_lossy {bytes : List UInt8} (h : newline ∉ bytes) : '\n' ∉ lossy bytes := newline_not_mem_lossyFrom h

/-- **Whole lines are decoded on their own.** -/
theorem lossy_append {front : List UInt8} (h : Lines.Whole newline front) (after : List UInt8) :
    lossy (front ++ after) = lossy front ++ lossy after := by
  rcases h with rfl | ⟨line, rfl⟩
  · rfl
  · have hfront := lossy_newline line []
    rw [List.append_assoc, List.singleton_append, lossy_newline, hfront, List.append_assoc]
    rfl

theorem whole_lossy {front : List UInt8} (h : Lines.Whole newline front) : Lines.Whole '\n' (lossy front) := by
  rcases h with rfl | ⟨line, rfl⟩
  · exact .nil
  · exact .inr ⟨lossy line, lossy_newline line []⟩

end Text
