/-
A cursor's text (`model.rs`): five hex fields behind a version tag.
-/
import TmuxAgents.Lib.Codec
import TmuxAgents.Lib.Json
import TmuxAgents.Transcript.Event

namespace TmuxAgents.Transcript

/-- `{:x}`. -/
def hex (n : Nat) : Text := Nat.toDigits 16 n

/-- `u64::from_str_radix(_, 16)`. -/
def fromHex (text : Text) : Option Nat :=
  let digits := if text.head? = some '+' then text.tail else text
  if digits.isEmpty then none else (Json.hexValue 0 digits).filter fun n => decide (n < 2 ^ 64)

/-- `Display`. -/
def Cursor.display (cursor : Cursor) : Text :=
  ['.'].intercalate ["t1".toList, hex cursor.file.dev, hex cursor.file.ino, hex cursor.size, hex cursor.offset, hex cursor.part]

/-- `FromStr`. -/
def Cursor.fromStr (text : Text) : Option Cursor :=
  match text.splitOn '.' with
  | [tag, dev, ino, size, offset, part] =>
    if tag = "t1".toList then do
      let dev ← fromHex dev
      let ino ← fromHex ino
      let size ← fromHex size
      let offset ← fromHex offset
      let part ← (fromHex part).filter fun n => decide (n < 2 ^ 32)
      return { file := { dev, ino }, size, offset, part }
    else none
  | _ => none

/-- The fields of a cursor are words. -/
structure Cursor.InWords (cursor : Cursor) : Prop where
  dev : cursor.file.dev < 2 ^ 64
  ino : cursor.file.ino < 2 ^ 64
  size : cursor.size < 2 ^ 64
  offset : cursor.offset < 2 ^ 64
  part : cursor.part < 2 ^ 32

/-! ## The round trip -/

theorem hexDigit_of_mem_hex {c : Char} {n : Nat} (h : c ∈ hex n) : ∃ d < 16, c = Nat.digitChar d := by
  unfold hex at h
  induction n using Nat.strong_induction_on with
  | _ n ih =>
    by_cases hlt : n < 16
    · rw [Nat.toDigits_of_lt_base hlt, List.mem_singleton] at h
      exact ⟨n, hlt, h⟩
    · rw [Nat.toDigits_of_base_le (by decide) (by omega), List.mem_append, List.mem_singleton] at h
      rcases h with h | h
      · exact ih (n / 16) (by omega) h
      · exact ⟨n % 16, by omega, h⟩

theorem not_mem_hex {c : Char} (hc : ∀ d < 16, c ≠ Nat.digitChar d) (n : Nat) : c ∉ hex n := by
  intro h
  obtain ⟨d, hd, heq⟩ := hexDigit_of_mem_hex h
  exact hc d hd heq

theorem fromHex_hex {n : Nat} (h : n < 2 ^ 64) : fromHex (hex n) = some n := by
  have hplus : (hex n).head? ≠ some '+' := fun heq => not_mem_hex (by decide) n (List.mem_of_head? heq)
  have hne : (hex n).isEmpty = false := List.isEmpty_eq_false_iff.mpr Nat.toDigits_ne_nil
  have hvalue : Json.hexValue 0 (hex n) = some n := Json.hexValue_toDigits n
  have hfilter : (some n).filter (fun n => decide (n < 2 ^ 64)) = some n := Option.filter_some_pos (decide_eq_true h)
  simp only [fromHex, hplus, hne, hvalue, hfilter, if_false, Bool.false_eq_true]

/-- **A cursor reads back from its text.** -/
theorem fromStr_display {cursor : Cursor} (h : cursor.InWords) : Cursor.fromStr cursor.display = some cursor := by
  have hsplit : cursor.display.splitOn '.' =
      ["t1".toList, hex cursor.file.dev, hex cursor.file.ino, hex cursor.size, hex cursor.offset, hex cursor.part] := by
    refine Text.splitOn_eq_iff.mpr ⟨List.cons_ne_nil _ _, fun field hfield => ?_, rfl⟩
    rw [List.mem_cons] at hfield
    rcases hfield with rfl | hfield
    · decide
    · simp only [List.mem_cons, List.not_mem_nil, or_false] at hfield
      rcases hfield with rfl | rfl | rfl | rfl | rfl <;> exact not_mem_hex (by decide) _
  have hpart : cursor.part < 2 ^ 64 := Nat.lt_trans h.part (by decide)
  have hfilter : (some cursor.part).filter (fun n => decide (n < 2 ^ 32)) = some cursor.part :=
    Option.filter_some_pos (decide_eq_true h.part)
  rw [Cursor.fromStr, hsplit]
  simp only [fromHex_hex h.dev, fromHex_hex h.ino, fromHex_hex h.size, fromHex_hex h.offset, fromHex_hex hpart, hfilter]
  rfl

theorem fromStr_display_first :
    Cursor.fromStr (Cursor.display { file := { dev := 66, ino := 2 ^ 63 }, size := 4096, offset := 0, part := 1 }) =
      some { file := { dev := 66, ino := 2 ^ 63 }, size := 4096, offset := 0, part := 1 } :=
  fromStr_display ⟨by decide, by decide, by decide, by decide, by decide⟩

end TmuxAgents.Transcript
