/-
The transcript's JSON (`json.rs`): the recursive-descent parser over a record's bytes, and
the compact printer.

The parser works on the bytes that are left, with the levels of nesting it may still enter;
its loops are bounded by what is left. An error says how much was left where it was raised.
-/
import TmuxAgents.Lib.Utf8
import TmuxAgents.Lib.Json
import TmuxAgents.Program.Record

namespace TmuxAgents.Transcript

abbrev Value := Json

/-- What is wrong with a record's text (`ParseError::what`). -/
inductive Fault
  | trailing
  | value
  | colon
  | objectEnd
  | arrayEnd
  | nesting
  | string
  | unterminated
  | controlByte
  | invalidUtf8
  | truncatedEscape
  | unknownEscape
  | truncatedUnit
  | hexDigit
  | leadingZero
  | digit
  | fractionDigit
  | exponentDigit
deriving DecidableEq

namespace Fault

def what : Fault → String
  | trailing => "trailing bytes after the document"
  | value => "expected a value"
  | colon => "expected ':' after an object key"
  | objectEnd => "expected ',' or '\x7d' in an object"
  | arrayEnd => "expected ',' or ']' in an array"
  | nesting => "nesting deeper than the parser's cap"
  | string => "expected a string"
  | unterminated => "unterminated string"
  | controlByte => "raw control byte in a string"
  | invalidUtf8 => "invalid UTF-8 in a string"
  | truncatedEscape => "truncated escape"
  | unknownEscape => "unknown escape"
  | truncatedUnit => "truncated \\u escape"
  | hexDigit => "non-hex digit in a \\u escape"
  | leadingZero => "leading zero in a number"
  | digit => "expected a digit"
  | fractionDigit => "expected a digit after '.'"
  | exponentDigit => "expected a digit in the exponent"

end Fault

structure ParseError where
  byte : Nat
  fault : Fault
deriving DecidableEq

def maxDepth : Nat := 64

/-! ## The parser -/

namespace Parser

/-- What was read and the bytes left, or how many were left and what was wrong. -/
abbrev Read (α : Type) := Except (Nat × Fault) (α × Bytes)

def err {α : Type} (b : Bytes) (fault : Fault) : Except (Nat × Fault) α := .error (b.length, fault)

def isWs (b : UInt8) : Bool := b == Text.byte ' ' || b == Text.byte '\t' || b == Text.byte '\n' || b == Text.byte '\r'

def ws (b : Bytes) : Bytes := b.dropWhile isWs

def eat (c : Char) (b : Bytes) : Option Bytes :=
  match b with
  | [] => none
  | x :: rest => if x = Text.byte c then some rest else none

def lit (word : Text) (b : Bytes) : Option Bytes :=
  if Text.bytes word <+: b then some (b.drop (Text.bytes word).length) else none

def isDigit (b : UInt8) : Bool := Text.byte '0' ≤ b && b ≤ Text.byte '9'

def digits (b : Bytes) : Option Bytes :=
  let rest := b.dropWhile isDigit
  if rest.length < b.length then some rest else none

def integer (b : Bytes) : Read Unit :=
  match eat '0' b with
  | some rest => if rest.head?.any isDigit then err rest .leadingZero else .ok ((), rest)
  | none =>
    match digits b with
    | some rest => .ok ((), rest)
    | none => err b .digit

def fraction (b : Bytes) : Read Unit :=
  match eat '.' b with
  | none => .ok ((), b)
  | some rest =>
    match digits rest with
    | some rest => .ok ((), rest)
    | none => err rest .fractionDigit

/-- `e` or `E`. -/
def eatExponent (b : Bytes) : Option Bytes := (eat 'e' b).or (eat 'E' b)

/-- A sign, or none. -/
def skipSign (b : Bytes) : Bytes := ((eat '+' b).or (eat '-' b)).getD b

def exponent (b : Bytes) : Read Unit :=
  match eatExponent b with
  | none => .ok ((), b)
  | some rest =>
    match digits (skipSign rest) with
    | some rest => .ok ((), rest)
    | none => err (skipSign rest) .exponentDigit

/-- `String::from_utf8_lossy`, of ASCII bytes. -/
def lossy (b : Bytes) : Text := b.map fun c => Char.ofNat c.toNat

def number (start : Bytes) : Read Value :=
  match integer ((eat '-' start).getD start) with
  | .error e => .error e
  | .ok (_, b) =>
    match fraction b with
    | .error e => .error e
    | .ok (_, b) =>
      match exponent b with
      | .error e => .error e
      | .ok (_, b) => .ok (.num (lossy (start.take (start.length - b.length))), b)

/-- `char::to_digit(16)` of each, into one number. -/
def hexDigits : Nat → Bytes → Option Nat
  | n, [] => some n
  | n, c :: rest =>
    match Text.hexDigit (Char.ofNat c.toNat) with
    | none => none
    | some d => hexDigits (n * 16 + d) rest

def hex4 (b : Bytes) : Read Nat :=
  if b.length < 4 then err b .truncatedUnit
  else
    match hexDigits 0 (b.take 4) with
    | none => err b .hexDigit
    | some n => .ok (n, b.drop 4)

def unicodeEscape (b : Bytes) : Read Char :=
  match hex4 b with
  | .error e => .error e
  | .ok (hi, saved) =>
    if 0xD800 ≤ hi ∧ hi < 0xDC00 then
      match (eat '\\' saved).bind (eat 'u') with
      | none => .ok ('\ufffd', saved)
      | some rest =>
        match hex4 rest with
        | .error e => .error e
        | .ok (lo, rest) =>
          if 0xDC00 ≤ lo ∧ lo < 0xE000 then .ok (Json.scalar (0x10000 + (hi - 0xD800) * 1024 + (lo - 0xDC00)), rest)
          else .ok ('\ufffd', saved)
    else .ok (Json.scalar hi, saved)

def escape (b : Bytes) : Read Char :=
  match b with
  | [] => err b .truncatedEscape
  | c :: rest =>
    if c = Text.byte '"' then .ok ('"', rest)
    else if c = Text.byte '\\' then .ok ('\\', rest)
    else if c = Text.byte '/' then .ok ('/', rest)
    else if c = Text.byte 'b' then .ok ('\x08', rest)
    else if c = Text.byte 'f' then .ok ('\x0c', rest)
    else if c = Text.byte 'n' then .ok ('\n', rest)
    else if c = Text.byte 'r' then .ok ('\r', rest)
    else if c = Text.byte 't' then .ok ('\t', rest)
    else if c = Text.byte 'u' then unicodeEscape rest
    else err rest .unknownEscape

/-- A byte of a run that is copied as it stands. -/
def inRun (b : UInt8) : Bool := b ≠ Text.byte '"' && b ≠ Text.byte '\\' && !(b.toNat < 0x20)

def stringLoop : Nat → Text → Bytes → Read Text
  | 0, _, b => err b .unterminated
  | _ + 1, _, [] => err [] .unterminated
  | fuel + 1, out, c :: rest =>
    if c = Text.byte '"' then .ok (out, rest)
    else if c = Text.byte '\\' then
      match escape rest with
      | .error e => .error e
      | .ok (d, rest) => stringLoop fuel (out ++ [d]) rest
    else if c.toNat < 0x20 then err (c :: rest) .controlByte
    else
      match Text.fromUtf8 ((c :: rest).takeWhile inRun) with
      | some run => stringLoop fuel (out ++ run) ((c :: rest).dropWhile inRun)
      | none => err ((c :: rest).dropWhile inRun) .invalidUtf8

def string (b : Bytes) : Read Text :=
  match eat '"' b with
  | none => err b .string
  | some rest => stringLoop (rest.length + 1) [] rest

section

variable {α : Type} (elem : Bytes → Read α) (close : Char) (fault : Fault)

/-- The loop over the elements of an object or an array. -/
def elementsLoop : Nat → List α → Bytes → Read (List α)
  | 0, _, b => err b fault
  | fuel + 1, items, b =>
    match elem (ws b) with
    | .error e => .error e
    | .ok (a, b) =>
      match eat ',' (ws b) with
      | some b => elementsLoop fuel (items ++ [a]) b
      | none =>
        match eat close (ws b) with
        | some b => .ok (items ++ [a], b)
        | none => err (ws b) fault

/-- From the opening bracket on. -/
def elements (b : Bytes) : Read (List α) :=
  match eat close (ws (b.drop 1)) with
  | some b => .ok ([], b)
  | none => elementsLoop elem close fault b.length [] (ws (b.drop 1))

end

/-- A key and its value. -/
def pair (value : Bytes → Read Value) (b : Bytes) : Read (Text × Value) :=
  match string b with
  | .error e => .error e
  | .ok (key, b) =>
    match eat ':' (ws b) with
    | none => err (ws b) .colon
    | some b =>
      match value (ws b) with
      | .error e => .error e
      | .ok (v, b) => .ok ((key, v), b)

section

/- The parser of the values one level deeper, if there is a level left. -/
variable (inner : Option (Bytes → Read Value))

def object (b : Bytes) : Read Value :=
  match inner with
  | none => err b .nesting
  | some value =>
    match elements (pair value) '\x7d' .objectEnd b with
    | .error e => .error e
    | .ok (pairs, b) => .ok (.obj pairs, b)

def array (b : Bytes) : Read Value :=
  match inner with
  | none => err b .nesting
  | some value =>
    match elements value ']' .arrayEnd b with
    | .error e => .error e
    | .ok (items, b) => .ok (.arr items, b)

/-- The literals; any other word is refused where it starts. -/
def word (text : Text) (v : Value) (b : Bytes) : Read Value :=
  match lit text b with
  | some b => .ok (v, b)
  | none => err b .value

def dispatch (b : Bytes) : Read Value :=
  match b with
  | [] => err b .value
  | c :: _ =>
    if c = Text.byte '\x7b' then object inner b
    else if c = Text.byte '[' then array inner b
    else if c = Text.byte '"' then
      match string b with
      | .error e => .error e
      | .ok (text, b) => .ok (.str text, b)
    else if c = Text.byte 'n' then word "null".toList .null b
    else if c = Text.byte 't' then word "true".toList (.bool true) b
    else if c = Text.byte 'f' then word "false".toList (.bool false) b
    else if c = Text.byte '-' ∨ isDigit c then number b
    else err b .value

end

/-- A value, with so many levels of nesting left. -/
def value : Nat → Bytes → Read Value
  | 0, b => dispatch none b
  | levels + 1, b => dispatch (some (value levels)) b

end Parser

def parse (src : Text) : Except ParseError Value :=
  let b := Text.bytes src
  match Parser.value maxDepth (Parser.ws b) with
  | .error (left, fault) => .error ⟨b.length - left, fault⟩
  | .ok (v, rest) =>
    if Parser.ws rest = [] then .ok v else .error ⟨b.length - (Parser.ws rest).length, .trailing⟩

/-! ## The printer -/

namespace Value

def writeChar (c : Char) : Text :=
  if c = '"' then ['\\', '"']
  else if c = '\\' then ['\\', '\\']
  else if c = '\n' then ['\\', 'n']
  else if c = '\r' then ['\\', 'r']
  else if c = '\t' then ['\\', 't']
  else if c.toNat < 0x20 then ['\\', 'u', '0', '0', Nat.digitChar (c.toNat / 16), Nat.digitChar (c.toNat % 16)]
  else [c]

def writeString (s : Text) : Text := '"' :: (s.flatMap writeChar ++ ['"'])

mutual

def writeCompact : Value → Text
  | .null => "null".toList
  | .bool b => if b then "true".toList else "false".toList
  | .num raw => raw
  | .str s => writeString s
  | .arr items => '[' :: (writeItems true items ++ [']'])
  | .obj pairs => '\x7b' :: (writePairs true pairs ++ ['\x7d'])

def writeItems (first : Bool) : List Value → Text
  | [] => []
  | v :: rest => (if first then [] else [',']) ++ (writeCompact v ++ writeItems false rest)

def writePairs (first : Bool) : List (Text × Value) → Text
  | [] => []
  | (k, v) :: rest => (if first then [] else [',']) ++ (writeString k ++ ':' :: (writeCompact v ++ writePairs false rest))

end

def toCompact (v : Value) : Text := writeCompact v

end Value

end TmuxAgents.Transcript
