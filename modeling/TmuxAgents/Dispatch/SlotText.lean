/-
The ledger's lines (`render_entry`, `parse_entry` and `Parser` of `slots.rs`).

The parser is a cursor over the bytes of a line. It stops at ASCII bytes only, so
here it is what is left of the line's characters. A cursor method that may give
up answers `none`.
-/
import TmuxAgents.Dispatch.Broker
import TmuxAgents.Dispatch.Slots
import TmuxAgents.Lib.Lines

/-- `{}` of a signed integer. -/
def Text.integer : Int → Text
  | .ofNat n => Text.decimal n
  | .negSucc n => '-' :: Text.decimal (n + 1)

namespace TmuxAgents

/-! ## Writing -/

namespace Act.JsonWriter

def mark (w : JsonWriter) : JsonWriter :=
  { w with needsComma := match w.needsComma with
      | [] => []
      | _ :: rest => true :: rest }

def string (w : JsonWriter) (k v : Text) : JsonWriter := ((w.key k).push (jsonString v)).mark

def number (w : JsonWriter) (k : Text) (v : Int) : JsonWriter := ((w.key k).push (Text.integer v)).mark

def null (w : JsonWriter) (k : Text) : JsonWriter := ((w.key k).push "null".toList).mark

/-- A string where there is one. -/
def optString (w : JsonWriter) (k : Text) : Option String → JsonWriter
  | some v => w.string k v.toList
  | none => w.null k

end Act.JsonWriter

namespace SlotText

open Act (JsonWriter)
open Slots (Entry Receipt)

/-- One record as its line. The time goes through an `i64`. -/
def renderEntry (entry : Entry) : Text :=
  let j := JsonWriter.new.beginObject
  let j := j.string "slot".toList entry.slot.toList
  let j := j.string "pane".toList entry.pane.toList
  let j := j.string "action".toList entry.action.toList
  let j := j.optString "device".toList entry.device
  let j := j.number "at_ms".toList (Int.bmod entry.atMs (2 ^ 64))
  let j := j.number "pid".toList entry.pid
  let j := match entry.receipt with
    | some receipt =>
      let j := j.string "outcome".toList receipt.outcome.toList
      let j := j.optString "reason".toList receipt.reason
      j.number "exit_code".toList receipt.exitCode
    | none => ((j.null "outcome".toList).null "reason".toList).null "exit_code".toList
  j.endObject.finish

/-! ## The cursor -/

/-- A JSON scalar, which is every value this record shape holds. -/
inductive Value
  | str (text : Text)
  | num (n : Int)
  | null
deriving DecidableEq

namespace Value

def intoString : Value → Option Text
  | str s => some s
  | _ => none

def intoOptString : Value → Option (Option Text)
  | str s => some (some s)
  | null => some none
  | num _ => none

def intoNumber : Value → Option Int
  | num n => some n
  | _ => none

def intoOptNumber : Value → Option (Option Int)
  | num n => some (some n)
  | null => some none
  | str _ => none

end Value

namespace Parser

def isBlank (c : Char) : Bool := c == ' ' || c == '\t'

def spaces (src : Text) : Text := src.dropWhile isBlank

/-- Where the byte is not next, every caller gives up. -/
def eat (c : Char) : Text → Option Text
  | [] => none
  | x :: rest => if x = c then some rest else none

/-- `u32::from_str_radix(_, 16)` of four characters, which may be a sign and three digits. -/
def fromHex : Text → Option Nat
  | '+' :: digits => digits.foldlM (fun n c => (Text.hexDigit c).map (n * 16 + ·)) 0
  | digits => digits.foldlM (fun n c => (Text.hexDigit c).map (n * 16 + ·)) 0

/-- `char::from_u32`. -/
def fromU32 (code : Nat) : Option Char := if code.isValidChar then some (Char.ofNat code) else none

/-- The escapes of one character. -/
def unescape (c : Char) : Option Char :=
  if c = '"' then some '"'
  else if c = '\\' then some '\\'
  else if c = '/' then some '/'
  else if c = 'n' then some '\n'
  else if c = 'r' then some '\r'
  else if c = 't' then some '\t'
  else if c = 'b' then some '\x08'
  else if c = 'f' then some '\x0c'
  else none

/-- The rest of a string, after its opening quote. -/
def stringBody : Text → Option (Text × Text)
  | [] => none
  | '"' :: rest => some ([], rest)
  | '\\' :: 'u' :: a :: b :: c :: d :: rest =>
    ((fromHex [a, b, c, d]).bind fromU32).bind fun x => (stringBody rest).map fun read => (x :: read.1, read.2)
  | '\\' :: e :: rest => (unescape e).bind fun x => (stringBody rest).map fun read => (x :: read.1, read.2)
  | '\\' :: [] => none
  | x :: rest => (stringBody rest).map fun read => (x :: read.1, read.2)

def string (src : Text) : Option (Text × Text) := (eat '"' src).bind stringBody

/-- `str::parse::<i64>`. -/
def parseI64 : Text → Option Int
  | '-' :: digits =>
    if digits.isEmpty || !digits.all Char.isDigit then none
    else
      let n := Nat.ofDigitChars 10 digits 0
      if n ≤ 2 ^ 63 then some (-(n : Int)) else none
  | text => (Text.parseUnsigned (2 ^ 63) text).map Int.ofNat

/-- A sign alone is given to `parse`; no byte at all is not. -/
def number : Text → Option (Value × Text)
  | '-' :: src => (parseI64 ('-' :: src.takeWhile Char.isDigit)).map fun n => (.num n, src.dropWhile Char.isDigit)
  | src =>
    if (src.takeWhile Char.isDigit).isEmpty then none
    else (parseI64 (src.takeWhile Char.isDigit)).map fun n => (.num n, src.dropWhile Char.isDigit)

def value (src : Text) : Option (Value × Text) :=
  match src with
  | [] => none
  | c :: _ =>
    if c = '"' then (string src).map fun read => (.str read.1, read.2)
    else if c = 'n' then if "null".toList <+: src then some (.null, src.drop 4) else none
    else number src

end Parser

/-! ## Reading -/

/-- The members read so far. -/
structure Members where
  slot : Option Text := none
  pane : Option Text := none
  action : Option Text := none
  device : Option Text := none
  atMs : Option Nat := none
  pid : Option Int := none
  outcome : Option Text := none
  reason : Option Text := none
  exitCode : Option Int := none
deriving DecidableEq

/-- `u64::try_from`, of an `i64`. -/
def toU64 (n : Int) : Option Nat := if 0 ≤ n then some n.toNat else none

/-- `i32::try_from`. -/
def toI32 (n : Int) : Option Int := if -2 ^ 31 ≤ n ∧ n < 2 ^ 31 then some n else none

/-- A member read. Unknown keys are skipped so a later field is additive. -/
def Members.assign (m : Members) (key : Text) (value : Value) : Option Members :=
  if key = "slot".toList then value.intoString.map fun s => { m with slot := some s }
  else if key = "pane".toList then value.intoString.map fun s => { m with pane := some s }
  else if key = "action".toList then value.intoString.map fun s => { m with action := some s }
  else if key = "device".toList then value.intoOptString.map fun s => { m with device := s }
  else if key = "at_ms".toList then (value.intoNumber.bind toU64).map fun n => { m with atMs := some n }
  else if key = "pid".toList then (value.intoNumber.bind toI32).map fun n => { m with pid := some n }
  else if key = "outcome".toList then value.intoOptString.map fun s => { m with outcome := s }
  else if key = "reason".toList then value.intoOptString.map fun s => { m with reason := s }
  else if key = "exit_code".toList then value.intoOptNumber.map fun n => { m with exitCode := n }
  else some m

/-- One member, and the blanks behind it. -/
def readMember (m : Members) (src : Text) : Option (Members × Text) := do
  let (key, src) ← Parser.string (Parser.spaces src)
  let src ← Parser.eat ':' (Parser.spaces src)
  let (value, src) ← Parser.value (Parser.spaces src)
  let m ← m.assign key value
  some (m, Parser.spaces src)

namespace Parser

theorem length_spaces_le (src : Text) : (spaces src).length ≤ src.length := (List.dropWhile_suffix _).length_le

theorem eq_of_eat {c : Char} {src rest : Text} (h : eat c src = some rest) : src = c :: rest := by
  cases src with
  | nil => cases h
  | cons x src =>
    rw [eat] at h
    split at h
    next hx => rw [hx, Option.some.inj h]
    next => cases h

theorem length_stringBody {src s rest : Text} (h : stringBody src = some (s, rest)) : rest.length < src.length := by
  fun_induction stringBody src generalizing s rest with
  | case1 => cases h
  | case2 src =>
    cases h
    simp
  | case3 a b c d src ih =>
    obtain ⟨x, -, h⟩ := Option.bind_eq_some_iff.mp h
    obtain ⟨⟨more, rest⟩, hread, heq⟩ := Option.map_eq_some_iff.mp h
    have hlt := ih hread
    cases heq
    simp only [List.length_cons]
    omega
  | case4 e src _ ih =>
    obtain ⟨x, -, h⟩ := Option.bind_eq_some_iff.mp h
    obtain ⟨⟨more, rest⟩, hread, heq⟩ := Option.map_eq_some_iff.mp h
    have hlt := ih hread
    cases heq
    simp only [List.length_cons]
    omega
  | case5 => cases h
  | case6 x src _ _ _ _ ih =>
    obtain ⟨⟨more, rest⟩, hread, heq⟩ := Option.map_eq_some_iff.mp h
    have hlt := ih hread
    cases heq
    simp only [List.length_cons]
    omega

theorem length_string {src s rest : Text} (h : string src = some (s, rest)) : rest.length < src.length := by
  obtain ⟨body, heat, hbody⟩ := Option.bind_eq_some_iff.mp h
  have hlt := length_stringBody hbody
  rw [eq_of_eat heat, List.length_cons]
  omega

theorem length_value {src rest : Text} {v : Value} (h : value src = some (v, rest)) : rest.length ≤ src.length := by
  unfold value at h
  split at h
  next => cases h
  next c src =>
    split at h
    next =>
      obtain ⟨read, hread, heq⟩ := Option.map_eq_some_iff.mp h
      cases heq
      exact (length_string hread).le
    next =>
      split at h
      next =>
        split at h
        · cases h
          simp only [List.length_drop]
          omega
        · cases h
      next =>
        unfold number at h
        split at h
        next digits hsrc =>
          obtain ⟨n, -, heq⟩ := Option.map_eq_some_iff.mp h
          cases heq
          rw [hsrc, List.length_cons]
          exact (List.dropWhile_suffix _).length_le.trans (Nat.le_succ _)
        · split at h
          · cases h
          · obtain ⟨n, -, heq⟩ := Option.map_eq_some_iff.mp h
            cases heq
            exact (List.dropWhile_suffix _).length_le

end Parser

theorem readMember_eq_some {m m' : Members} {src rest : Text} :
    readMember m src = some (m', rest) ↔
      ∃ key afterKey afterColon v afterValue, Parser.string (Parser.spaces src) = some (key, afterKey) ∧
        Parser.eat ':' (Parser.spaces afterKey) = some afterColon ∧
        Parser.value (Parser.spaces afterColon) = some (v, afterValue) ∧ m.assign key v = some m' ∧
        Parser.spaces afterValue = rest := by
  simp only [readMember, Option.bind_eq_bind, Option.bind_eq_some_iff, Prod.exists, Option.some.injEq, Prod.mk.injEq]
  constructor
  · rintro ⟨key, afterKey, hkey, afterColon, hcolon, v, afterValue, hvalue, m'', hm, rfl, hrest⟩
    exact ⟨key, afterKey, afterColon, v, afterValue, hkey, hcolon, hvalue, hm, hrest⟩
  · rintro ⟨key, afterKey, afterColon, v, afterValue, hkey, hcolon, hvalue, hm, hrest⟩
    exact ⟨key, afterKey, hkey, afterColon, hcolon, v, afterValue, hvalue, m', hm, rfl, hrest⟩

theorem length_readMember {m m' : Members} {src rest : Text} (h : readMember m src = some (m', rest)) :
    rest.length < src.length := by
  obtain ⟨key, afterKey, afterColon, v, afterValue, hkey, hcolon, hvalue, -, rfl⟩ := readMember_eq_some.mp h
  have h₁ := Parser.length_string hkey
  have h₂ := Parser.length_value hvalue
  have h₃ := Parser.length_spaces_le src
  have h₄ := Parser.length_spaces_le afterKey
  have h₅ := Parser.length_spaces_le afterColon
  have h₆ := Parser.length_spaces_le afterValue
  rw [Parser.eq_of_eat hcolon, List.length_cons] at h₄
  omega

/-- The members up to the closing brace. -/
def readMembers (m : Members) (src : Text) : Option (Members × Text) :=
  match _h : readMember m src with
  | none => none
  | some (m, rest) =>
    match rest with
    | ',' :: rest => readMembers m rest
    | '\x7d' :: rest => some (m, rest)
    | _ => none
termination_by src.length
decreasing_by
  have hlt := length_readMember _h
  rw [List.length_cons] at hlt
  omega

/-- A half-written receipt is as unreadable as a half-written line. -/
def Members.receipt (m : Members) : Option (Option Receipt) :=
  match m.outcome, m.exitCode with
  | some outcome, some exitCode =>
    (toI32 exitCode).map fun exitCode =>
      some { outcome := String.ofList outcome, reason := m.reason.map String.ofList, exitCode }
  | none, none => some none
  | _, _ => none

def Members.entry (m : Members) : Option Entry := do
  let receipt ← m.receipt
  some
    { slot := String.ofList (← m.slot)
      pane := String.ofList (← m.pane)
      action := String.ofList (← m.action)
      device := m.device.map String.ofList
      atMs := ← m.atMs
      pid := ← m.pid
      receipt }

/-- The members behind the opening brace, and the closing brace. -/
def readObject (src : Text) : Option (Members × Text) :=
  match Parser.eat '\x7d' src with
  | some rest => some ({}, rest)
  | none => readMembers {} src

/-- `none` is a torn or unparsable line, never a missing entry. -/
def parseEntry (line : Text) : Option Entry :=
  (Parser.eat '\x7b' (Parser.spaces line)).bind fun src =>
    (readObject (Parser.spaces src)).bind fun read =>
      if (Parser.spaces read.2).isEmpty then read.1.entry else none

/-! ## The file -/

/-- A line without its end. -/
def stripLine (line : Text) : Text :=
  match line.reverse with
  | '\n' :: '\r' :: front => front.reverse
  | '\n' :: front => front.reverse
  | _ => line

/-- `str::lines`. -/
def lines (text : Text) : List Text := (Lines.splitInclusive '\n' text).map stripLine

/-- A line as the record it holds. -/
def classify (line : Text) : Slots.Line :=
  if line.all isWhitespace then .blank
  else
    match parseEntry line with
    | some entry => .record entry
    | none => .garbled

/-- Every record of a ledger's text, or the number of the first line that is not one. -/
def read (text : Text) : Except Nat (List Entry) := Slots.readLines 1 ((lines text).map classify)

/-- What `write` writes, once it has evicted and sorted. -/
def body (entries : List Entry) : Text := entries.flatMap fun entry => renderEntry entry ++ ['\n']

end SlotText

end TmuxAgents
