/-
Reading a hook payload without parsing it (`event/mapping.rs`): a field is looked for by its
quoted name, at the first place the raw text has it, and the value is read from there by hand.
-/
import TmuxAgents.Lib.Json
import TmuxAgents.Persist.Stamp

namespace TmuxAgents.Payload

/-- `"field"` -/
def quoted (field : Text) : Text := '"' :: (field ++ ['"'])

/-- What stands behind the colon behind the quoted name. -/
def afterField (payload field : Text) : Option Text :=
  match Text.splitOnce (quoted field) payload with
  | none => none
  | some (_, rest) =>
    match trimStart rest with
    | ':' :: rest => some (trimStart rest)
    | _ => none

/-- What a backslash and a letter are read as. -/
def unescape (letter : Char) : Char := if letter = 'n' then '\n' else if letter = 't' then '\t' else letter

/-- A string behind its opening quote. -/
def readString (out : Text) : Text → Option Text
  | [] => none
  | ['\\'] => none
  | '\\' :: letter :: rest => readString (out ++ [unescape letter]) rest
  | '"' :: _ => some out
  | c :: rest => readString (out ++ [c]) rest

def jsonStringField (payload field : Text) : Option Text :=
  match afterField payload field with
  | some ('"' :: rest) => readString [] rest
  | _ => none

/-- In a string: whether it goes on, and whether the next character is escaped. -/
def inStringStep (escaped : Bool) (c : Char) : Bool × Bool :=
  if escaped then (true, false)
  else if c = '\\' then (true, true)
  else if c = '"' then (false, false)
  else (true, false)

/-- Up to the brace that closes, and with it. -/
def scanObject (depth : Nat) (inString escaped : Bool) : Text → Option Text
  | [] => none
  | c :: rest =>
    if inString then
      (scanObject depth (inStringStep escaped c).1 (inStringStep escaped c).2 rest).map (c :: ·)
    else if c = '"' then (scanObject depth true escaped rest).map (c :: ·)
    else if c = '\x7b' then (scanObject (depth + 1) false escaped rest).map (c :: ·)
    else if c = '\x7d' then
      if depth - 1 = 0 then some [c] else (scanObject (depth - 1) false escaped rest).map (c :: ·)
    else (scanObject depth false escaped rest).map (c :: ·)

def jsonObjectField (payload field : Text) : Option Text :=
  match afterField payload field with
  | some ('\x7b' :: rest) => scanObject 0 false false ('\x7b' :: rest)
  | _ => none

end TmuxAgents.Payload
