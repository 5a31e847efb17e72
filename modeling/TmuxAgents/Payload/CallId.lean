/-
The id minted for a pending call (`event/permission.rs`): a hash of the session, the prompt,
the tool, and the tool input's own entries in key order.

The entries are found by walking the object's text by byte offsets. A slice at an offset that
is no character's start would panic; here it has no result, and neither has a walk that does
not end within the text's length.
-/
import Mathlib.Data.Prod.Lex
import Mathlib.Data.Char
import Mathlib.Data.List.Lex
import Mathlib.Data.List.Sort
import Mathlib.Order.Lex
import TmuxAgents.Lib.Utf8
import TmuxAgents.Payload.Field

namespace TmuxAgents.Payload

/-- A string behind its opening quote, and the bytes up to and with the closing one. -/
def readJsonString (i : Nat) (out : Text) : Text → Option (Text × Nat)
  | [] => none
  | ['\\'] => none
  | '\\' :: letter :: rest => readJsonString (i + '\\'.utf8Size + letter.utf8Size) (out ++ [unescape letter]) rest
  | '"' :: _ => some (out, i + 1)
  | c :: rest => readJsonString (i + c.utf8Size) (out ++ [c]) rest

/-- The bytes of the value the text starts with: a string, what brackets enclose, or all up to a comma. -/
def jsonValueLen (i depth : Nat) (inString escaped : Bool) : Text → Nat
  | [] => i
  | c :: rest =>
    if inString then
      if (inStringStep escaped c).1 = false ∧ depth = 0 then i + 1
      else jsonValueLen (i + c.utf8Size) depth (inStringStep escaped c).1 (inStringStep escaped c).2 rest
    else if c = '"' then jsonValueLen (i + c.utf8Size) depth true escaped rest
    else if c = '\x7b' ∨ c = '[' then jsonValueLen (i + c.utf8Size) (depth + 1) false escaped rest
    else if c = '\x7d' ∨ c = ']' then
      if depth = 0 then i
      else if depth - 1 = 0 then i + c.utf8Size
      else jsonValueLen (i + c.utf8Size) (depth - 1) false escaped rest
    else if c = ',' ∧ depth = 0 then i
    else jsonValueLen (i + c.utf8Size) depth false escaped rest

abbrev Entries := List (Text × Text)

def skipComma (rest : Text) : Text :=
  match rest with
  | ',' :: rest => rest
  | _ => rest

/-- One entry, and what is left behind it and its comma. `some none` ends the walk; a cut character is `none`. -/
def walkEntry (afterQuote : Text) : Option (Option ((Text × Text) × Text)) :=
  match readJsonString 0 [] afterQuote with
  | none => some none
  | some (key, used) =>
    match Text.splitAtByte afterQuote used with
    | none => none
    | some (_, tail) =>
      match trimStart tail with
      | ':' :: rest =>
        let value := trimStart rest
        match Text.splitAtByte value (jsonValueLen 0 0 false false value) with
        | none => none
        | some (text, rest) => some (some ((key, trimEnd text), trimStart (skipComma (trimStart rest))))
      | _ => some none

/-- The entries, and what could not be walked. -/
def walk : Nat → Entries → Text → Option (Entries × Text)
  | 0, _, _ => none
  | fuel + 1, entries, '"' :: afterQuote =>
    match walkEntry afterQuote with
    | none => none
    | some none => some (entries, '"' :: afterQuote)
    | some (some (entry, rest)) => walk fuel (entries ++ [entry]) rest
  | _ + 1, entries, rest => some (entries, rest)

/-- `sort_unstable`: equal entries are the same. -/
def sortEntries (entries : Entries) : Entries := entries.insertionSort fun a b => toLex a ≤ toLex b

def joinEntries (entries : Entries) : Text :=
  [Char.ofNat 0x1e].intercalate ((sortEntries entries).map fun e => e.1 ++ '=' :: e.2)

/-- Without the braces, where it has both. -/
def stripBraces (obj : Text) : Text :=
  match obj with
  | '\x7b' :: rest => (Text.stripSuffix rest ['\x7d']).getD obj
  | _ => obj

def canonicalObject (obj : Text) : Option Text :=
  let body := trimEnd (trimStart (stripBraces obj))
  match walk (body.length + 1) [] body with
  | none => none
  | some (entries, rest) => some (if rest.isEmpty then joinEntries entries else obj)

/-- FNV-1a. -/
def fnv (bytes : List UInt8) : UInt64 :=
  bytes.foldl (fun hash byte => (hash ^^^ byte.toUInt64) * 0x100000001b3) 0xcbf29ce484222325

/-- `{:016x}` -/
def hex16 (n : UInt64) : Text := (List.range 16).reverse.map fun k => Nat.digitChar (n.toNat / 16 ^ k % 16)

def mintCallId (payload tool : Text) : Option Text :=
  let input := match jsonObjectField payload "tool_input".toList with
    | none => some []
    | some obj => canonicalObject obj
  input.map fun input =>
    hex16 (fnv (Text.bytes ([Char.ofNat 0x1f].intercalate
      [(jsonStringField payload "session_id".toList).getD [], (jsonStringField payload "prompt_id".toList).getD [],
        tool, input])))

end TmuxAgents.Payload
