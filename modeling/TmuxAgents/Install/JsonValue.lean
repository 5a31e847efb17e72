/-
The installer's JSON (`install/json_value.rs`): a value model that keeps key order and number
text, a parser, and a printer of its own.

The parser works on what is left of the document. Its depth cap is its recursion, and its
loops are bounded by what is left: every turn reads a character.
-/
import Mathlib.Data.Char
import TmuxAgents.Lib.Assoc
import TmuxAgents.Lib.Text

namespace TmuxAgents.Install

/-- A parsed JSON value. An object may have a key twice. -/
inductive Value
  | null
  | bool (b : Bool)
  | num (token : Text)
  | str (text : Text)
  | arr (items : List Value)
  | obj (members : List (Text × Value))

abbrev Members := List (Text × Value)

namespace Value

def get? (value : Value) (key : Text) : Option Value :=
  match value with
  | obj members => Assoc.get? members key
  | _ => none

def asStr : Value → Option Text
  | str text => some text
  | _ => none

def objSet (value : Value) (key : Text) (new : Value) : Value :=
  match value with
  | obj members => obj (Assoc.set members key new)
  | other => other

def objRemove (value : Value) (key : Text) : Value :=
  match value with
  | obj members => obj (Assoc.remove members key)
  | other => other

end Value

/-! ## The parser -/

def maxDepth : Nat := 128

/-- What was wrong, and with how much of the document left. -/
inductive ParseError
  | depth (left : Nat)
  | unexpectedCharacter (c : Char) (left : Nat)
  | unexpectedEnd
  | key (left : Nat)
  | colon (left : Nat)
  | objectEnd (got : Option Char)
  | arrayEnd (got : Option Char)
  | unterminatedString
  | escape (got : Option Char)
  | truncatedHex
  | hexDigit
  | literal (left : Nat)
  | trailing (left : Nat)
deriving DecidableEq

/-- What was read, and what is left. -/
abbrev Parsed (α : Type) := Except ParseError (α × Text)

def isWs (c : Char) : Bool := c == ' ' || c == '\t' || c == '\n' || c == '\r'

def skipWs (text : Text) : Text := text.dropWhile isWs

/-- So many hex digits. -/
def readHex : Nat → Nat → Text → Parsed Nat
  | 0, code, text => .ok (code, text)
  | _ + 1, _, [] => .error .truncatedHex
  | count + 1, code, c :: text =>
    match Text.hexDigit c with
    | none => .error .hexDigit
    | some d => readHex count (code * 16 + d) text

/-- A UTF-16 code unit as a scalar of its own. -/
def scalar (code : Nat) : Char := if code.isValidChar then Char.ofNat code else '\ufffd'

/-- A low surrogate's escape is read; anything else is left. -/
def peekLowSurrogateEscape (text : Text) : Except ParseError (Option (Nat × Text)) :=
  match text with
  | '\\' :: 'u' :: rest =>
    match readHex 4 0 rest with
    | .error e => .error e
    | .ok (low, rest) => if 0xDC00 ≤ low ∧ low ≤ 0xDFFF then .ok (some (low, rest)) else .ok none
  | _ => .ok none

/-- What a unit escape comes to. -/
def unicodeEscape (text : Text) : Parsed Char :=
  match readHex 4 0 text with
  | .error e => .error e
  | .ok (unit, rest) =>
    if 0xD800 ≤ unit ∧ unit ≤ 0xDBFF then
      match peekLowSurrogateEscape rest with
      | .error e => .error e
      | .ok (some (low, rest)) => .ok (scalar (0x10000 + (unit - 0xD800) * 1024 + (low - 0xDC00)), rest)
      | .ok none => .ok ('\ufffd', rest)
    else if 0xDC00 ≤ unit ∧ unit ≤ 0xDFFF then .ok ('\ufffd', rest)
    else .ok (scalar unit, rest)

/-- The one-character escapes. -/
def unescape (c : Char) : Option Char :=
  if c = '"' then some '"'
  else if c = '\\' then some '\\'
  else if c = '/' then some '/'
  else if c = 'n' then some '\n'
  else if c = 't' then some '\t'
  else if c = 'r' then some '\r'
  else if c = 'b' then some '\x08'
  else if c = 'f' then some '\x0c'
  else none

/-- The rest of a string, after its opening quote. -/
def stringLoop : Nat → Text → Text → Parsed Text
  | 0, _, _ => .error .unterminatedString
  | _ + 1, _, [] => .error .unterminatedString
  | fuel + 1, out, c :: text =>
    if c = '"' then .ok (out, text)
    else if c = '\\' then
      match text with
      | [] => .error (.escape none)
      | e :: rest =>
        if e = 'u' then
          match unicodeEscape rest with
          | .error e => .error e
          | .ok (d, rest) => stringLoop fuel (out ++ [d]) rest
        else match unescape e with
          | none => .error (.escape (some e))
          | some d => stringLoop fuel (out ++ [d]) rest
    else stringLoop fuel (out ++ [c]) text

def string (text : Text) : Parsed Text := stringLoop (text.length + 1) [] text

def isNumberChar (c : Char) : Bool :=
  c == '-' || c == '+' || c == '.' || c == 'e' || c == 'E' || c.isDigit

def number (text : Text) : Parsed Value := .ok (.num (text.takeWhile isNumberChar), text.dropWhile isNumberChar)

def takeLit (lit text : Text) : Option Text := if lit <+: text then some (text.drop lit.length) else none

def boolean (text : Text) : Parsed Value :=
  match takeLit "true".toList text with
  | some rest => .ok (.bool true, rest)
  | none =>
    match takeLit "false".toList text with
    | some rest => .ok (.bool false, rest)
    | none => .error (.literal text.length)

def null (text : Text) : Parsed Value :=
  match takeLit "null".toList text with
  | some rest => .ok (.null, rest)
  | none => .error (.literal text.length)

section

variable (value : Text → Parsed Value)

/-- The members of an object, from a key on. -/
def membersLoop : Nat → Members → Text → Parsed Value
  | 0, _, _ => .error .unexpectedEnd
  | fuel + 1, out, text =>
    match skipWs text with
    | '"' :: rest =>
      match string rest with
      | .error e => .error e
      | .ok (key, rest) =>
        match skipWs rest with
        | ':' :: rest =>
          match value (skipWs rest) with
          | .error e => .error e
          | .ok (val, rest) =>
            match skipWs rest with
            | ',' :: rest => membersLoop fuel (out ++ [(key, val)]) rest
            | '}' :: rest => .ok (.obj (out ++ [(key, val)]), rest)
            | rest => .error (.objectEnd rest.head?)
        | rest => .error (.colon rest.tail.length)
    | rest => .error (.key rest.length)

/-- After the opening brace. -/
def object (text : Text) : Parsed Value :=
  match skipWs text with
  | '}' :: rest => .ok (.obj [], rest)
  | rest => membersLoop value (rest.length + 1) [] rest

def itemsLoop : Nat → List Value → Text → Parsed Value
  | 0, _, _ => .error .unexpectedEnd
  | fuel + 1, out, text =>
    match value (skipWs text) with
    | .error e => .error e
    | .ok (val, rest) =>
      match skipWs rest with
      | ',' :: rest => itemsLoop fuel (out ++ [val]) rest
      | ']' :: rest => .ok (.arr (out ++ [val]), rest)
      | rest => .error (.arrayEnd rest.head?)

/-- After the opening bracket. -/
def array (text : Text) : Parsed Value :=
  match skipWs text with
  | ']' :: rest => .ok (.arr [], rest)
  | rest => itemsLoop value (rest.length + 1) [] rest

end

/-- A value, with so many levels of nesting to go. -/
def value : Nat → Text → Parsed Value
  | 0, text => .error (.depth text.length)
  | levels + 1, text =>
    match text with
    | [] => .error .unexpectedEnd
    | c :: rest =>
      if c = '\x7b' then object (value levels) rest
      else if c = '[' then array (value levels) rest
      else if c = '"' then
        match string rest with
        | .error e => .error e
        | .ok (text, rest) => .ok (.str text, rest)
      else if c = 't' ∨ c = 'f' then boolean text
      else if c = 'n' then null text
      else if c = '-' ∨ c.isDigit then number text
      else .error (.unexpectedCharacter c text.length)

def parse (input : Text) : Except ParseError Value :=
  match value maxDepth (skipWs input) with
  | .error e => .error e
  | .ok (v, rest) => if (skipWs rest).isEmpty then .ok v else .error (.trailing (skipWs rest).length)

/-! ## The printer -/

def pad (indent : Nat) : Text := (List.replicate indent [' ', ' ']).flatten

def escape (c : Char) : Text :=
  if c = '"' then ['\\', '"']
  else if c = '\\' then ['\\', '\\']
  else if c = '\n' then ['\\', 'n']
  else if c = '\r' then ['\\', 'r']
  else if c = '\t' then ['\\', 't']
  else if c.toNat < 0x20 then ['\\', 'u', '0', '0', Nat.digitChar (c.toNat / 16), Nat.digitChar (c.toNat % 16)]
  else [c]

def writeString (text : Text) : Text := '"' :: (text.flatMap escape ++ ['"'])

mutual

def writeValue (indent : Nat) : Value → Text
  | .null => "null".toList
  | .bool b => if b then "true".toList else "false".toList
  | .num token => token
  | .str text => writeString text
  | .arr items =>
    if items.isEmpty then "[]".toList else '[' :: (writeItems (indent + 1) true items ++ '\n' :: (pad indent ++ [']']))
  | .obj members =>
    if members.isEmpty then ['\x7b', '}']
    else '\x7b' :: (writeMembers (indent + 1) true members ++ '\n' :: (pad indent ++ ['}']))

/-- The items, each on a line of its own. -/
def writeItems (indent : Nat) (first : Bool) : List Value → Text
  | [] => []
  | v :: rest => (if first then [] else [',']) ++ '\n' :: (pad indent ++ (writeValue indent v ++ writeItems indent false rest))

def writeMembers (indent : Nat) (first : Bool) : List (Text × Value) → Text
  | [] => []
  | (k, v) :: rest =>
    (if first then [] else [',']) ++ '\n' ::
      (pad indent ++ (writeString k ++ ':' :: ' ' :: (writeValue indent v ++ writeMembers indent false rest)))

end

/-- Two-space indentation, and a newline at the end. -/
def toPretty (v : Value) : Text := writeValue 0 v ++ ['\n']

end TmuxAgents.Install
