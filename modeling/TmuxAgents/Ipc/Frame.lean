/-
The hook wire protocol (`ipc.rs`): one frame a connection, a four-byte magic and
then length-prefixed fields. The decoder parses a buffer from its start each time
more has arrived, and keeps no state between two attempts.

An index or a slice out of bounds panics: `none`.
-/
import TmuxAgents.Lib.Incremental
import TmuxAgents.Program.Record

namespace TmuxAgents.Ipc

open Incremental

/-! ## Bytes -/

/-- `str::as_bytes`. -/
def asBytes (s : String) : Bytes := s.toByteArray.data.toList

/-- `str::from_utf8`. -/
def fromUtf8 (bytes : Bytes) : Option String := String.fromUTF8? ⟨bytes.toArray⟩

/-- `u32::to_le_bytes`, of a length cut to 32 bits. -/
def toLeBytes (n : Nat) : Bytes :=
  [UInt8.ofNat n, UInt8.ofNat (n / 2 ^ 8), UInt8.ofNat (n / 2 ^ 16), UInt8.ofNat (n / 2 ^ 24)]

/-- `u32::from_le_bytes`. -/
def fromLeBytes (b₀ b₁ b₂ b₃ : UInt8) : Nat :=
  b₀.toNat + 2 ^ 8 * b₁.toNat + 2 ^ 16 * b₂.toNat + 2 ^ 24 * b₃.toNat

/-- `buf[from..to]`. -/
def slice (buf : Bytes) (start stop : Nat) : Option Bytes :=
  if start ≤ stop ∧ stop ≤ buf.length then some ((buf.drop start).take (stop - start)) else none

/-! ## Frames -/

/-- `TMA1`: an event. -/
def magic : Bytes := [0x54, 0x4d, 0x41, 0x31]

/-- `TMAS`: a push subscription. -/
def subscribeMagic : Bytes := [0x54, 0x4d, 0x41, 0x53]

/-- `TMAH`: a read of the transition history. -/
def historyMagic : Bytes := [0x54, 0x4d, 0x41, 0x48]

def magics : List Bytes := [magic, subscribeMagic, historyMagic]

def maxSmall : Nat := 4096

def maxPayload : Nat := 1048576

/-- The caps of the fields, in wire order. -/
def fieldCaps : List Nat := [maxSmall, maxSmall, maxSmall, maxPayload]

structure Frame where
  pane : String
  agent : String
  kind : String
  payload : String
deriving DecidableEq

inductive Inbound
  | event (frame : Frame)
  | subscribe
  | history
deriving DecidableEq

def encodeField (field : String) : Bytes := toLeBytes (asBytes field).length ++ asBytes field

def encodeFrame (pane agent kind payload : String) : Bytes :=
  magic ++ ([pane, agent, kind, payload].map encodeField).flatten

/-- The fields are within their caps. -/
def Fits (pane agent kind payload : String) : Prop :=
  (asBytes pane).length ≤ maxSmall ∧ (asBytes agent).length ≤ maxSmall ∧ (asBytes kind).length ≤ maxSmall ∧
    (asBytes payload).length ≤ maxPayload

/-! ## Decoding -/

inductive MagicKind
  | event
  | subscribe
  | history
  | needMore
  | invalid
deriving DecidableEq

/-- A byte that diverges from every magic is invalid at once. -/
def magicKind (buf : Bytes) : MagicKind :=
  if (buf.take 4).zipIdx.any fun (b, i) => !magics.any fun m => m[i]? == some b then .invalid
  else if buf.length < 4 then .needMore
  else if buf.take 4 = magic then .event
  else if buf.take 4 = subscribeMagic then .subscribe
  else if buf.take 4 = historyMagic then .history
  else .invalid

inductive FieldStep
  | field (s : String) (next : Nat)
  | needMore
  | invalid
deriving DecidableEq

/-- The cap is checked on the length before the body is sliced. -/
def takeField (buf : Bytes) (at_ max : Nat) : Option FieldStep :=
  let bodyAt := at_ + 4
  if buf.length < bodyAt then some .needMore
  else do
    let len := fromLeBytes (← buf[at_]?) (← buf[at_ + 1]?) (← buf[at_ + 2]?) (← buf[at_ + 3]?)
    if max < len then return .invalid
    let stop := bodyAt + len
    if buf.length < stop then return .needMore
    match fromUtf8 (← slice buf bodyAt stop) with
    | some s => return .field s stop
    | none => return .invalid

/-- The fields from an offset on, or why not. -/
inductive FieldsStep
  | fields (fields : List String)
  | needMore
  | invalid
deriving DecidableEq

def takeFields (buf : Bytes) : Nat → List Nat → List String → Option FieldsStep
  | _, [], fields => some (.fields fields)
  | at_, max :: caps, fields => do
    match ← takeField buf at_ max with
    | .field s next => takeFields buf next caps (fields ++ [s])
    | .needMore => return .needMore
    | .invalid => return .invalid

/-- Bytes past one frame are ignored: a connection carries a single frame. -/
def parseInbound (buf : Bytes) : Option (ParseStatus Inbound) :=
  match magicKind buf with
  | .needMore => some .needMore
  | .invalid => some .invalid
  | .subscribe => some (.complete .subscribe)
  | .history => some (.complete .history)
  | .event => do
    match ← takeFields buf 4 fieldCaps [] with
    | .needMore => return .needMore
    | .invalid => return .invalid
    | .fields [pane, agent, kind, payload] => return .complete (.event { pane, agent, kind, payload })
    | .fields _ => none

/-- `read_inbound_by`, on the chunks it reads before the deadline or the end of the input. -/
def readInbound (chunks : List Bytes) : Option (Option Inbound) := readAll parseInbound [] chunks

/-- `Pending::advance`, each time the peer sent more, until the connection is not parked. -/
def pendingAdvances (isOpen : Bool) (chunks : List Bytes) : Option (Advance Inbound) :=
  advanceAll parseInbound isOpen [] chunks

end TmuxAgents.Ipc
