/-
The bounded transcript reader (`reader.rs`): an end-anchored window that pages backwards, and
a forward tail.

The window walks backwards in chunks, keeping the bytes it has read but not yet attributed to
a complete line. The tail keeps two things: per path, the tuple of the file it last read, and
per file, how far it has read.
-/
import TmuxAgents.Transcript.Event

namespace TmuxAgents.Transcript

open Lines

def chunkBytes : Nat := 64 * 1024
def headBytes : Nat := 64 * 1024
def maxRecordBytes : Nat := 8 * 1024 * 1024

inductive Refusal
  | unsupportedStore (store : Store)
  | storeIncomplete (store : Store)
  | cursorInvalid
  | io
deriving DecidableEq

def Refusal.forStore : Store → Refusal
  | .openCode => .unsupportedStore .openCode
  | store => .storeIncomplete store

structure WindowRequest where
  last : Nat
  before : Option Cursor
  headersOnly : Bool
  budget : Budget
deriving DecidableEq

/-- One page, newest first. -/
structure Window (Kind Session : Type) where
  events : List (Event Kind)
  older : Option Cursor
  budgetTruncated : Bool
  unknown : Nat
  session : Option Session
deriving DecidableEq

inductive Tail (Kind : Type)
  | unchanged
  | fresh (events : List (Event Kind)) (unknown : Nat) (restarted : Bool)
deriving DecidableEq

/-- The file-identity tuple the memo compares. -/
structure FileMemo where
  id : FileId
  size : Nat
  mtime : Int
  mtimeNsec : Int
deriving DecidableEq

/-- A file as it is. -/
structure File where
  id : FileId
  bytes : Bytes
  mtime : Int
  mtimeNsec : Int
deriving DecidableEq

/-- `fs::metadata`. -/
def File.memo (file : File) : FileMemo :=
  { id := file.id, size := file.bytes.length, mtime := file.mtime, mtimeNsec := file.mtimeNsec }

structure Source where
  store : Store
  path : String
deriving DecidableEq

structure Reader where
  memo : String → Option FileMemo
  offsets : FileId → Option Nat
  unknown : Nat

def Reader.new : Reader := { memo := fun _ => none, offsets := fun _ => none, unknown := 0 }

/-- `read_range`: what there is of the bytes asked for. -/
def readRange (bytes : Bytes) (lo hi : Nat) : Bytes := (bytes.drop lo).take (hi - lo)

/-- `read_record`: up to the newline, or to the cap. -/
def readRecord (bytes : Bytes) (offset size : Nat) : Bytes :=
  let buf := readRange bytes offset (min size (offset + maxRecordBytes))
  match position newline buf with
  | some i => buf.take (i + 1)
  | none => buf

/-- Still the same bytes: the same file, never shortened, and an offset inside it. -/
def validate (cursor : Cursor) (stat : FileMemo) : Except Refusal Unit :=
  if cursor.file = stat.id ∧ cursor.size ≤ stat.size ∧ cursor.offset < stat.size then .ok ()
  else .error .cursorInvalid

variable {Kind Session : Type} (adapters : Adapters Kind Session)

/-! ## The window -/

structure Accumulator (Kind : Type) where
  store : Store
  id : FileId
  size : Nat
  req : WindowRequest
  events : List (Event Kind)
  frame : Nat
  readBytes : Nat
  unknown : Nat
  truncated : Bool
  /-- An event was reached and not kept. -/
  more : Bool

namespace Accumulator

def new (store : Store) (id : FileId) (size : Nat) (req : WindowRequest) : Accumulator Kind :=
  { store, id, size, req, events := [], frame := 0, readBytes := 0, unknown := 0, truncated := false, more := false }

variable (acc : Accumulator Kind)

def isFull : Bool := decide (acc.req.last ≤ acc.events.length) || acc.truncated

/-- `push_newest_first`, of events that come newest first. -/
def pushNewestFirst : Accumulator Kind → List (Event Kind) → Accumulator Kind
  | acc, [] => acc
  | acc, event :: rest =>
    if acc.req.before.any event.cursor.atOrAfter then acc.pushNewestFirst rest
    else if acc.isFull then { acc with more := true }
    else if acc.req.headersOnly then
      let header := event.toHeader adapters acc.req.budget
      let cost := header.headerCost
      if !acc.events.isEmpty && decide (acc.req.budget.frameBytes < acc.frame + cost) then
        { acc with truncated := true, more := true }
      else
        Accumulator.pushNewestFirst { acc with frame := acc.frame + cost, events := acc.events ++ [header] } rest
    else Accumulator.pushNewestFirst { acc with events := acc.events ++ [event] } rest

/-- Lines that start at `base`, then their events newest first. -/
def absorb (bytes : Bytes) (base : Nat) : Accumulator Kind :=
  let (events, unknown) := mapRange adapters acc.store acc.id acc.size bytes base
  Accumulator.pushNewestFirst adapters { acc with unknown := acc.unknown + unknown } events.reverse

def finish (reachedHead : Bool) (session : Option Session) : Window Kind Session :=
  let more := acc.more || !reachedHead
  { events := acc.events
    older := if more then acc.events.getLast?.map Event.cursor else none
    budgetTruncated := acc.truncated
    unknown := acc.unknown
    session }

end Accumulator

/-- The backward walk: `pending` is what starts at `lo` and has not been mapped. -/
def scan (bytes : Bytes) (lo : Nat) (pending : Bytes) (firstChunk : Bool) (acc : Accumulator Kind) :
    Accumulator Kind × Bool :=
  if lo = 0 then (acc, true)
  else if acc.isFull then (acc, false)
  else if acc.req.budget.readBytes ≤ acc.readBytes then ({ acc with truncated := true }, false)
  else
    let want := min chunkBytes (acc.req.budget.readBytes - acc.readBytes)
    let chunk := readRange bytes (lo - want) lo
    let acc := { acc with readBytes := acc.readBytes + chunk.length }
    let pending := chunk ++ pending
    -- A read caught mid-append leaves an incomplete last line, which is dropped.
    let clipped := if firstChunk then
        match rposition newline pending with
        | some i => some (pending.take (i + 1))
        | none => if 0 < lo - want then none else some pending
      else some pending
    match clipped with
    | none => scan bytes (lo - want) pending false acc
    | some pending =>
      -- At the head every byte is a complete line; elsewhere the leading part belongs to an earlier record.
      match if lo - want = 0 then some 0 else (position newline pending).map (· + 1) with
      | none => scan bytes (lo - want) pending false acc
      | some bodyStart =>
        scan bytes (lo - want) (pending.take bodyStart) false
          (acc.absorb adapters (pending.drop bodyStart) (lo - want + bodyStart))
termination_by lo
decreasing_by all_goals (simp only [chunkBytes]; omega)

/-- The session header, of the first record that has one. -/
def headSession (store : Store) (bytes : Bytes) : Option Session :=
  (Lines.splitInclusive newline (readRange bytes 0 headBytes)).findSome? fun line =>
    adapters.sessionMeta store (stripEol line)

/-- `Reader::stat`: a store that is not served is refused before anything is read. -/
def stat (source : Source) (file : Option File) : Except Refusal FileMemo :=
  if !source.store.isReadable then .error (.forStore source.store)
  else match file with
    | none => .error .io
    | some file => .ok file.memo

/-- The accumulator before the walk: the earlier events of the record that `before` points into. -/
def startWindow (store : Store) (stat : FileMemo) (bytes : Bytes) (req : WindowRequest) : Accumulator Kind :=
  let acc := Accumulator.new store stat.id stat.size req
  match req.before with
  | none => acc
  | some c =>
    if 0 < c.part then
      let line := readRecord bytes c.offset stat.size
      let (events, unknown) := mapLine adapters store stat.id stat.size line c.offset
      Accumulator.pushNewestFirst adapters
        { acc with readBytes := acc.readBytes + line.length, unknown := acc.unknown + unknown }
        (events.take c.part).reverse
    else acc

/-- `Reader::window` of a file that does not change between the stat and the reads. -/
def Reader.window (reader : Reader) (source : Source) (file : Option File) (req : WindowRequest) :
    Reader × Except Refusal (Window Kind Session) :=
  if !source.store.isFileStore then (reader, .error (.forStore source.store))
  else match stat source file with
    | .error refusal => (reader, .error refusal)
    | .ok stat =>
      match req.before.elim (.ok ()) fun c => validate c stat with
      | .error refusal => (reader, .error refusal)
      | .ok _ =>
        let bytes := file.elim [] File.bytes
        let scanHi := req.before.elim stat.size Cursor.offset
        let (acc, reachedHead) := scan adapters bytes scanHi [] true
          (startWindow adapters source.store stat bytes req)
        let session := if req.before.isSome then none else headSession adapters source.store bytes
        ({ reader with unknown := reader.unknown + acc.unknown }, .ok (acc.finish reachedHead session))

/-! ## The tail -/

/-- Where one read ends: `offset + read_bytes` is a `u64`. -/
def readEnd (offset size readBytes : Nat) : Nat := min size ((offset + readBytes) % 2 ^ 64)

/-- `Reader::tail`, of the file the stat saw and the file the read opened. -/
def Reader.tail (reader : Reader) (source : Source) (statted opened : Option File) (budget : Budget) :
    Reader × Except Refusal (Tail Kind) :=
  if !source.store.isFileStore then (reader, .error (.forStore source.store))
  else match stat source statted with
    | .error refusal => (reader, .error refusal)
    | .ok stat =>
      if reader.memo source.path = some stat then (reader, .ok .unchanged)
      else
        let stored := (reader.offsets stat.id).getD 0
        let restarted := decide (stat.size < stored)
        let offset := if restarted then 0 else stored
        match opened with
        | none => (reader, .error .io)
        | some file =>
          let buf := readRange file.bytes offset (readEnd offset stat.size budget.readBytes)
          -- Only whole lines advance the offset.
          let complete := completeLen newline buf
          let (events, unknown) := mapRange adapters source.store stat.id stat.size (buf.take complete) offset
          ({ memo := Function.update reader.memo source.path (some stat)
             offsets := Function.update reader.offsets stat.id (some (offset + complete))
             unknown := reader.unknown + unknown },
            .ok (.fresh events unknown restarted))

end TmuxAgents.Transcript
