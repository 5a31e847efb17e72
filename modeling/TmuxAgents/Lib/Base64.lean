/-
Base64 with the standard alphabet (RFC 4648), padded canonically or not padded at all.

Three bytes are four symbols of six bits; a last group of one or two bytes is two or three
symbols whose unused bits are zero. `decode_encode`: either form reads back what it wrote.
-/
import Mathlib.Algebra.Order.Ring.Nat
import Mathlib.Data.List.Basic
import Mathlib.Data.List.DropRight

namespace Rfc4648

/-! ## Symbols -/

/-- `A` to `Z`, `a` to `z`, `0` to `9`, `+` and `/`. -/
def symbol (n : Nat) : UInt8 :=
  if n < 26 then .ofNat (0x41 + n)
  else if n < 52 then .ofNat (0x61 + (n - 26))
  else if n < 62 then .ofNat (0x30 + (n - 52))
  else if n = 62 then 0x2b
  else 0x2f

def sextet (byte : UInt8) : Option Nat :=
  if 0x41 ≤ byte ∧ byte ≤ 0x5a then some (byte.toNat - 0x41)
  else if 0x61 ≤ byte ∧ byte ≤ 0x7a then some (byte.toNat - 0x61 + 26)
  else if 0x30 ≤ byte ∧ byte ≤ 0x39 then some (byte.toNat - 0x30 + 52)
  else if byte = 0x2b then some 62
  else if byte = 0x2f then some 63
  else none

/-- The byte of `=`. -/
def pad : UInt8 := 0x3d

theorem sextet_symbol {n : Nat} (h : n < 64) : sextet (symbol n) = some n := by
  have all : ∀ n : Fin 64, sextet (symbol n) = some n.val := by decide
  exact all ⟨n, h⟩

/-- What holds of the 64 symbols holds of every one. -/
theorem symbol_forall {P : UInt8 → Prop} (h : ∀ n : Fin 64, P (symbol n)) (n : Nat) : P (symbol n) := by
  rcases Nat.lt_or_ge n 64 with hn | hn
  · exact h ⟨n, hn⟩
  · have hlast : symbol n = symbol 63 := by
      unfold symbol
      rw [if_neg (by omega), if_neg (by omega), if_neg (by omega), if_neg (by omega)]
      rfl
    rw [hlast]
    exact h 63

theorem symbol_ne_pad (n : Nat) : symbol n ≠ pad := symbol_forall (P := (· ≠ pad)) (by decide) n

/-! ## Without padding -/

def encodeBare : List UInt8 → List UInt8
  | a :: b :: c :: rest =>
    let n := a.toNat * 65536 + b.toNat * 256 + c.toNat
    symbol (n / 262144) :: symbol (n / 4096 % 64) :: symbol (n / 64 % 64) :: symbol (n % 64) :: encodeBare rest
  | [a, b] =>
    let n := a.toNat * 1024 + b.toNat * 4
    [symbol (n / 4096), symbol (n / 64 % 64), symbol (n % 64)]
  | [a] =>
    let n := a.toNat * 16
    [symbol (n / 64), symbol (n % 64)]
  | [] => []

/-- A last group whose unused bits are not zero is no encoding. -/
def decodeBare : List UInt8 → Option (List UInt8)
  | w :: x :: y :: z :: rest => do
    let w ← sextet w
    let x ← sextet x
    let y ← sextet y
    let z ← sextet z
    let n := w * 262144 + x * 4096 + y * 64 + z
    let rest ← decodeBare rest
    return .ofNat (n / 65536) :: .ofNat (n / 256 % 256) :: .ofNat (n % 256) :: rest
  | [w, x, y] => do
    let w ← sextet w
    let x ← sextet x
    let y ← sextet y
    let n := w * 4096 + x * 64 + y
    if n % 4 = 0 then some [.ofNat (n / 1024), .ofNat (n / 4 % 256)] else none
  | [w, x] => do
    let w ← sextet w
    let x ← sextet x
    let n := w * 64 + x
    if n % 16 = 0 then some [.ofNat (n / 16)] else none
  | [_] => none
  | [] => some []

theorem decodeBare_encodeBare (bytes : List UInt8) : decodeBare (encodeBare bytes) = some bytes := by
  have hbyte (a : UInt8) : a.toNat < 256 := a.toNat_lt
  have hof {n : Nat} {a : UInt8} (h : n = a.toNat) : UInt8.ofNat n = a := by rw [h, UInt8.ofNat_toNat]
  fun_induction encodeBare bytes with
  | case1 a b c rest n ih =>
    have ha := hbyte a
    have hb := hbyte b
    have hc := hbyte c
    have hn : n = a.toNat * 65536 + b.toNat * 256 + c.toNat := rfl
    clear_value n
    have hw : n / 262144 < 64 := by omega
    have hsum : n / 262144 * 262144 + n / 4096 % 64 * 4096 + n / 64 % 64 * 64 + n % 64 = n := by omega
    have h1 : n / 65536 = a.toNat := by omega
    have h2 : n / 256 % 256 = b.toNat := by omega
    have h3 : n % 256 = c.toNat := by omega
    simp only [decodeBare, sextet_symbol hw, sextet_symbol (Nat.mod_lt _ (by decide : 0 < 64)), ih,
      Option.bind_eq_bind, Option.bind_some, Option.pure_def, hsum, hof h1, hof h2, hof h3]
  | case2 a b n =>
    have ha := hbyte a
    have hb := hbyte b
    have hn : n = a.toNat * 1024 + b.toNat * 4 := rfl
    clear_value n
    have hw : n / 4096 < 64 := by omega
    have hsum : n / 4096 * 4096 + n / 64 % 64 * 64 + n % 64 = n := by omega
    have hzero : n % 4 = 0 := by omega
    have h1 : n / 1024 = a.toNat := by omega
    have h2 : n / 4 % 256 = b.toNat := by omega
    simp only [decodeBare, sextet_symbol hw, sextet_symbol (Nat.mod_lt _ (by decide : 0 < 64)),
      Option.bind_eq_bind, Option.bind_some, hsum, hzero, if_true, hof h1, hof h2]
  | case3 a n =>
    have ha := hbyte a
    have hn : n = a.toNat * 16 := rfl
    clear_value n
    have hw : n / 64 < 64 := by omega
    have hsum : n / 64 * 64 + n % 64 = n := by omega
    have hzero : n % 16 = 0 := by omega
    have h1 : n / 16 = a.toNat := by omega
    simp only [decodeBare, sextet_symbol hw, sextet_symbol (Nat.mod_lt _ (by decide : 0 < 64)),
      Option.bind_eq_bind, Option.bind_some, hsum, hzero, if_true, hof h1]
  | case4 => rfl

theorem exists_symbol_of_mem {bytes : List UInt8} {byte : UInt8} (h : byte ∈ encodeBare bytes) :
    ∃ n, byte = symbol n := by
  fun_induction encodeBare bytes with
  | case1 a b c rest n ih =>
    simp only [List.mem_cons] at h
    rcases h with h | h | h | h | h
    · exact ⟨_, h⟩
    · exact ⟨_, h⟩
    · exact ⟨_, h⟩
    · exact ⟨_, h⟩
    · exact ih h
  | case2 a b n =>
    simp only [List.mem_cons, List.not_mem_nil, or_false] at h
    rcases h with h | h | h
    · exact ⟨_, h⟩
    · exact ⟨_, h⟩
    · exact ⟨_, h⟩
  | case3 a n =>
    simp only [List.mem_cons, List.not_mem_nil, or_false] at h
    rcases h with h | h
    · exact ⟨_, h⟩
    · exact ⟨_, h⟩
  | case4 => cases h

theorem pad_notMem_encodeBare (bytes : List UInt8) : pad ∉ encodeBare bytes := by
  intro h
  obtain ⟨n, hn⟩ := exists_symbol_of_mem h
  exact symbol_ne_pad n hn.symm

theorem length_encodeBare (bytes : List UInt8) :
    (encodeBare bytes).length + (3 - bytes.length % 3) % 3 = 4 * ((bytes.length + 2) / 3) := by
  fun_induction encodeBare bytes with
  | case1 a b c rest n ih =>
    simp only [List.length_cons]
    omega
  | case2 a b n => simp only [List.length_cons, List.length_nil]
  | case3 a n => simp only [List.length_cons, List.length_nil]
  | case4 => rfl

/-! ## With padding -/

/-- What fills the last group of an encoding of `n` bytes up to four symbols. -/
def padding (n : Nat) : List UInt8 := List.replicate ((3 - n % 3) % 3) pad

def encode (padded : Bool) (bytes : List UInt8) : List UInt8 :=
  if padded then encodeBare bytes ++ padding bytes.length else encodeBare bytes

/-- Padded text is whole groups, of which the last ends in at most two pads. Text that is
not padded has none: a pad is no symbol. -/
def decode (padded : Bool) (value : List UInt8) : Option (List UInt8) :=
  if padded then
    let bare := value.rdropWhile (· == pad)
    if value.length % 4 = 0 ∧ value.length ≤ bare.length + 2 then decodeBare bare else none
  else decodeBare value

theorem length_encode_le (padded : Bool) (bytes : List UInt8) :
    (encode padded bytes).length ≤ 4 * ((bytes.length + 2) / 3) := by
  have hbare := length_encodeBare bytes
  cases padded with
  | false =>
    simp only [encode, Bool.false_eq_true, if_false]
    omega
  | true =>
    simp only [encode, if_true, List.length_append, padding, List.length_replicate]
    omega

theorem rdropWhile_append_replicate {bare : List UInt8} (h : pad ∉ bare) (k : Nat) :
    (bare ++ List.replicate k pad).rdropWhile (· == pad) = bare := by
  induction k with
  | zero =>
    rw [List.replicate_zero, List.append_nil, List.rdropWhile_eq_self_iff]
    intro hne hlast
    exact h (beq_iff_eq.mp hlast ▸ List.getLast_mem hne)
  | succ k ih => rw [List.replicate_succ', ← List.append_assoc, List.rdropWhile_concat_pos _ _ _ (by decide), ih]

/-- **Either form reads back what it wrote.** -/
theorem decode_encode (padded : Bool) (bytes : List UInt8) : decode padded (encode padded bytes) = some bytes := by
  cases padded with
  | false => exact decodeBare_encodeBare bytes
  | true =>
    have hbare := length_encodeBare bytes
    have hdrop := rdropWhile_append_replicate (pad_notMem_encodeBare bytes) ((3 - bytes.length % 3) % 3)
    simp only [decode, encode, if_true, padding, hdrop, List.length_append, List.length_replicate]
    rw [if_pos (by omega), decodeBare_encodeBare]

theorem mem_encode {padded : Bool} {bytes : List UInt8} {byte : UInt8} (h : byte ∈ encode padded bytes) :
    (∃ n, byte = symbol n) ∨ byte = pad := by
  cases padded with
  | false => exact .inl (exists_symbol_of_mem h)
  | true =>
    rcases List.mem_append.mp h with h | h
    · exact .inl (exists_symbol_of_mem h)
    · exact .inr (List.eq_of_mem_replicate h)

/-- Padded text that does not end in a pad is text that is not padded. -/
theorem encode_of_getLast_ne {bytes : List UInt8} (h : (encode true bytes).getLast? ≠ some pad) :
    encode true bytes = encode false bytes := by
  simp only [encode, if_true, padding, Bool.false_eq_true, if_false] at h ⊢
  cases hk : (3 - bytes.length % 3) % 3 with
  | zero => rw [List.replicate_zero, List.append_nil]
  | succ k =>
    rw [hk, List.replicate_succ', ← List.append_assoc, List.getLast?_concat] at h
    exact absurd rfl h

end Rfc4648
