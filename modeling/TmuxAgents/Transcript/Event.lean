/-
The event model of the transcript readers (`model.rs`) and how a record maps to events
(`reader.rs`, `map_line`).

What JSON is and what a store's adapter reads in it are a parameter (`Adapters`): the adapters
are stateless, and the reader uses no more of an event's kind than whether it is unknown and
how its strings are capped.
-/
import TmuxAgents.Lib.Lines
import TmuxAgents.Persist.Metadata

namespace TmuxAgents.Transcript

open Lines

inductive Store
  | claude
  | codex
  | gemini
  | pi
  /-- Refused: its transcript renders as holes. -/
  | cursor
  /-- A database. -/
  | openCode
deriving DecidableEq

/-- Of a build without the database reader. -/
def Store.isReadable : Store → Bool
  | .claude | .codex | .gemini | .pi => true
  | .cursor | .openCode => false

def Store.isFileStore (store : Store) : Bool := store != .openCode

structure FileId where
  dev : Nat
  ino : Nat
deriving DecidableEq

/-- An event's address: its file, the start of its record's line, and which of the record's events it is. -/
structure Cursor where
  file : FileId
  /-- The file's size when the cursor was minted. -/
  size : Nat
  offset : Nat
  part : Nat
deriving DecidableEq

/-- `a.position() >= b.position()`. -/
def Cursor.atOrAfter (a b : Cursor) : Bool := decide (b.offset < a.offset) || (a.offset == b.offset && decide (b.part ≤ a.part))

inductive Body
  | text (s : Text)
  | json (s : Text)
deriving DecidableEq

def Body.asStr : Body → Text
  | .text s => s
  | .json s => s

structure Budget where
  headerBytes : Nat
  readBytes : Nat
  frameBytes : Nat
deriving DecidableEq

/-- One event as an adapter produces it. -/
structure Mapped (Kind : Type) where
  kind : Kind
  body : Option Body
deriving DecidableEq

structure Event (Kind : Type) where
  cursor : Cursor
  ts : Option Text
  kind : Kind
  preview : Option Text
  body : Option Body
deriving DecidableEq

/-- JSON and the stores' adapters. -/
structure Adapters (Kind Session : Type) where
  /-- `from_utf8`, `json::parse` and `map_record`: nothing where the text is not JSON. -/
  mapRecord : Store → Bytes → Option (Option Text × List (Mapped Kind))
  /-- `session_meta` of a text that is JSON. -/
  sessionMeta : Store → Bytes → Option Session
  /-- `Unknown`, by the type name `<store>/unparsable`. -/
  unparsable : Store → Kind
  isUnknown : Kind → Bool
  truncateStrings : Nat → Kind → Kind

/-! ## Headers -/

/-- `preview_of` and `first_line`. -/
def firstLine (text : Text) : Text := trimEnd (text.takeWhile (· ≠ '\n'))

/-- At most `max` bytes, without splitting a character. -/
def truncateUtf8 : Text → Nat → Text
  | [], _ => []
  | c :: rest, max => if c.utf8Size ≤ max then c :: truncateUtf8 rest (max - c.utf8Size) else []

variable {Kind Session : Type} (adapters : Adapters Kind Session)

def Event.toHeader (event : Event Kind) (budget : Budget) : Event Kind :=
  let preview : Option Text := event.preview.or (event.body.map fun b => firstLine b.asStr)
  { event with
    preview := preview.map fun p => truncateUtf8 p budget.headerBytes
    body := none
    kind := adapters.truncateStrings budget.headerBytes event.kind }

def Event.headerCost (event : Event Kind) : Nat := 96 + event.ts.elim 0 Text.len + event.preview.elim 0 Text.len

/-! ## Records -/

def newline : UInt8 := 0x0a

def isAsciiWhitespace (byte : UInt8) : Bool :=
  byte == 0x20 || byte == 0x09 || byte == newline || byte == 0x0c || byte == 0x0d

/-- Without the suffix, if it is there. -/
def stripSuffix (byte : UInt8) (line : Bytes) : Bytes := if line.getLast? = some byte then line.dropLast else line

def stripEol (line : Bytes) : Bytes := stripSuffix 0x0d (stripSuffix newline line)

/-- One record to its events, in the order they belong in the stream, and how many of them are unknown. A line that
will not parse is one unknown event. -/
def mapLine (store : Store) (id : FileId) (size : Nat) (line : Bytes) (offset : Nat) : List (Event Kind) × Nat :=
  let trimmed := stripEol line
  if trimmed.all isAsciiWhitespace then ([], 0)
  else
    let cursorAt := fun part => { file := id, size, offset, part := part % 2 ^ 32 : Cursor }
    match adapters.mapRecord store trimmed with
    | none => ([{ cursor := cursorAt 0, ts := none, kind := adapters.unparsable store, preview := none, body := none }], 1)
    | some (ts, mapped) =>
      (mapped.mapIdx fun part m =>
          { cursor := cursorAt part, ts, kind := m.kind, preview := m.body.map fun b => firstLine b.asStr, body := m.body },
        mapped.countP fun m => adapters.isUnknown m.kind)

/-- Lines in file order, the first at an offset. -/
def mapLines (store : Store) (id : FileId) (size : Nat) : Nat → List Bytes → List (Event Kind) × Nat
  | _, [] => ([], 0)
  | offset, line :: lines =>
    let (events, unknown) := mapLine adapters store id size line offset
    let (more, moreUnknown) := mapLines store id size (offset + line.length) lines
    (events ++ more, unknown + moreUnknown)

def mapRange (store : Store) (id : FileId) (size : Nat) (bytes : Bytes) (base : Nat) : List (Event Kind) × Nat :=
  mapLines adapters store id size base (Lines.splitInclusive newline bytes)

end TmuxAgents.Transcript
