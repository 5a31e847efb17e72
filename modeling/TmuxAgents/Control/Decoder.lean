/-
The control-stream decoder (`control/decoder.rs`): a line state machine over the
bytes of a tmux control client. Payload bytes are handed on and not retained.
-/
import TmuxAgents.Control.Protocol
import TmuxAgents.Lib.Transducer

namespace TmuxAgents

/-! ## Words -/

/-- The bytes of an ASCII text. -/
def ascii (s : String) : Bytes := s.toList.map fun c => UInt8.ofNat c.toNat

def newline : UInt8 := 10
def space : UInt8 := 32

/-- The value of a text of decimal digits. -/
def digitsValue (bytes : Bytes) : Nat := bytes.foldl (fun n byte => 10 * n + (byte.toNat - 48)) 0

/-- A `u64` of at most twenty digits. -/
def decodeNumber (bytes : Bytes) : Option Nat :=
  if bytes.isEmpty || 20 < bytes.length || !bytes.all isAsciiDigit then none
  else if digitsValue bytes < 2 ^ 64 then some (digitsValue bytes)
  else none

/-- `PaneId::parse`: `%` and a `u32`. -/
def decodePane : Bytes → Option PaneId
  | 37 :: digits =>
    if digits.isEmpty || !digits.all isAsciiDigit then none
    else if digitsValue digits < 2 ^ 32 then some (digitsValue digits)
    else none
  | _ => none

/-- The words of a line. -/
def words (line : Bytes) : List Bytes := line.splitOn space

/-- The first word of a line. -/
def tag (line : Bytes) : Bytes := (words line).headD []

/-- The key of a command frame: three numbers and nothing after them. -/
def frame (line : Bytes) : Option (Nat × Nat × Nat) :=
  match words line with
  | [_, a, b, c] => do some (← decodeNumber a, ← decodeNumber b, ← decodeNumber c)
  | _ => none

/-! ## State -/

def maxOutputHeader : Nat := 64
def maxHeader : Nat := 1024
def maxCommandHeader : Nat := 96
def maxBlockBytes : Nat := 1024 * 1024
def maxBlockLines : Nat := 4096

inductive Line
  | header
  /-- An octal escape so far: its digits and their value. -/
  | payload (pane : PaneId) (octal : Option (Nat × Nat))
  | skip
  | blockData
  | poisoned
deriving DecidableEq

structure Decoder where
  line : Line := .header
  header : Bytes := []
  block : Option (Nat × Nat × Nat) := none
  blockBytes : Nat := 0
  blockLines : Nat := 0
  attached : Bool := false
deriving DecidableEq

/-- The tags that frame a command block. -/
def commandTags : List Bytes := [ascii "%begin ", ascii "%end ", ascii "%error "]

namespace Decoder

def fatal (d : Decoder) : List Decoded × Decoder :=
  ([.gap none .framingLoss, .fatal], { d with line := .poisoned, header := [] })

def inPayload (d : Decoder) (pane : PaneId) : Bool :=
  match d.line with
  | .payload p _ => p == pane
  | _ => false

/-! ## Lines -/

/-- A byte of a notification's payload. -/
def payloadByte (d : Decoder) (protocol : Bool) (pane : PaneId) (octal : Option (Nat × Nat)) (byte : UInt8) :
    List Decoded × Decoder :=
  if byte = newline then
    ((if protocol && octal.isSome then [.gap (some pane) .malformedTransport] else []) ++ [.end_ pane],
      { d with line := .header })
  else if !protocol then ([], d)
  else
    match octal with
    | some (digits, value) =>
      if !(48 ≤ byte.toNat && byte.toNat ≤ 55) || (digits == 0 && 51 < byte.toNat) then
        ([.gap (some pane) .malformedTransport, .end_ pane], { d with line := .skip })
      else
        let value := value * 8 + (byte.toNat - 48)
        if digits + 1 = 3 then ([.byte pane (UInt8.ofNat value)], { d with line := .payload pane none })
        else ([], { d with line := .payload pane (some (digits + 1, value)) })
    | none =>
      if byte = backslash then ([], { d with line := .payload pane (some (0, 0)) })
      else ([.byte pane byte], d)

/-- Output before the attach response has been observed cannot establish coverage. -/
def openPayload (d : Decoder) (pane : PaneId) : List Decoded × Decoder :=
  if !d.attached then d.fatal else ([.start pane], { d with line := .payload pane none })

/-- A payload begins after a whole output header; nothing where the header is none yet. -/
def startPayload (d : Decoder) : Option (List Decoded × Decoder) :=
  match words d.header.dropLast with
  | name :: id :: rest =>
    if name = ascii "%output" then
      (decodePane id).bind fun pane => if rest.isEmpty then some (d.openPayload pane) else none
    else if name = ascii "%extended-output" then
      (decodePane id).bind fun pane =>
        match rest with
        | age :: rest =>
          if (decodeNumber age).isSome && rest.getLast? == some (ascii ":") then some (d.openPayload pane) else none
        | [] => none
    else none
  | _ => none

/-- A whole line inside a command block: response data, unless it frames a block. -/
def completeBlockLine (d : Decoder) (expected : Nat × Nat × Nat) : List Decoded × Decoder :=
  let d := { d with blockLines := d.blockLines + 1 }
  let name := tag d.header
  if maxBlockLines < d.blockLines then d.fatal
  else if name = ascii "%end" ∨ name = ascii "%error" then
    if frame d.header = some expected then
      let closed := { d with block := none, blockBytes := 0, blockLines := 0 }
      if !d.attached && name == ascii "%error" then ([.note .exit], { closed with line := .poisoned })
      else ([], { closed with attached := true })
    else d.fatal
  else if name = ascii "%begin" then d.fatal
  else ([], d)

def sessionTags : List Bytes := ["%sessions-changed", "%session-renamed", "%session-changed"].map ascii

def lifecycleTags : List Bytes :=
  ["%window-add", "%window-close", "%window-pane-changed", "%window-renamed", "%layout-change", "%unlinked-window-add",
    "%unlinked-window-close", "%unlinked-window-renamed", "%pane-mode-changed", "%session-window-changed"].map ascii

/-- A whole line outside a command block. -/
def completeNotification (d : Decoder) : List Decoded × Decoder :=
  let name := tag d.header
  if name = ascii "%begin" then
    match frame d.header with
    | some key => ([], { d with block := some key, blockBytes := 0, blockLines := 0 })
    | none => d.fatal
  else if name = ascii "%end" ∨ name = ascii "%error" then d.fatal
  else if name = ascii "%output" ∨ name = ascii "%extended-output" then ([.gap none .malformedTransport], d)
  else if name = ascii "%pause" ∨ name = ascii "%continue" then
    match (words d.header)[1]?.bind decodePane with
    | some id => ([if name = ascii "%pause" then .pause id else .continue_ id], d)
    | none => ([.gap none .malformedTransport], d)
  else if name ∈ sessionTags then ([.note .sessionsChanged], d)
  else if name ∈ lifecycleTags then ([.note .lifecycle], d)
  else if name = ascii "%exit" then ([.note .exit], { d with line := .poisoned })
  else ([], d)

def completeHeader (d : Decoder) : List Decoded × Decoder :=
  match d.block with
  | some expected => d.completeBlockLine expected
  | none => d.completeNotification

/-- The cap on a header: a command frame's, an output notification's, or any other's. -/
def headerLimit (d : Decoder) : Nat :=
  if d.block.isSome || commandTags.any fun t => t.isPrefixOf d.header then maxCommandHeader
  else if (ascii "%output ").isPrefixOf d.header then maxOutputHeader
  else maxHeader

/-- A line in a block that cannot become a command frame any more. -/
def isBlockData (d : Decoder) : Bool :=
  d.block.isSome && !commandTags.any fun t => d.header.isPrefixOf t || t.isPrefixOf d.header

def headerByte (d : Decoder) (byte : UInt8) : List Decoded × Decoder :=
  if byte = newline then (d.completeHeader.1, { d.completeHeader.2 with header := [] })
  else
    let d := { d with header := d.header ++ [byte] }
    if d.isBlockData then ([], { d with header := [], line := .blockData })
    else if d.headerLimit < d.header.length then d.fatal
    else if d.block.isNone && byte == space then
      match d.startPayload with
      | some (items, d) => (items, { d with header := [] })
      | none => ([], d)
    else ([], d)

/-- A byte of a block's response data. -/
def blockDataByte (d : Decoder) (byte : UInt8) : List Decoded × Decoder :=
  if byte = newline then
    let d := { d with blockLines := d.blockLines + 1 }
    if maxBlockLines < d.blockLines then d.fatal else ([], { d with line := .header })
  else ([], d)

/-! ## Streams -/

/-- The byte is counted in an open block. -/
def charged (d : Decoder) : Decoder := { d with blockBytes := d.blockBytes + 1 }

/-- A byte, by the line it is on. -/
def lineByte (d : Decoder) (protocol : Bool) (byte : UInt8) : List Decoded × Decoder :=
  match d.line with
  | .payload pane octal => d.payloadByte protocol pane octal byte
  | .skip => ([], if byte = newline then { d with line := .header } else d)
  | .blockData => d.blockDataByte byte
  | .header => d.headerByte byte
  | .poisoned => ([], d)

/-- A byte of the stream, where the machine is not poisoned. -/
def byte (d : Decoder) (protocol : Bool) (byte : UInt8) : List Decoded × Decoder :=
  let d := if d.block.isSome then d.charged else d
  if d.block.isSome && maxBlockBytes < d.blockBytes then d.fatal else d.lineByte protocol byte

/-- One chunk. A poisoned machine reads no further. -/
def feed (d : Decoder) (protocol : Bool) : Bytes → List Decoded × Decoder
  | [] => ([], d)
  | b :: rest =>
    if d.line = .poisoned then ([], d)
    else
      let (items, d) := d.byte protocol b
      let (more, d) := feed d protocol rest
      (items ++ more, d)

/-- Chunks as they arrive, each with the protocol flag it was fed under. -/
def feedAll (d : Decoder) : List (Bool × Bytes) → List Decoded × Decoder
  | [] => ([], d)
  | (protocol, bytes) :: chunks =>
    let (items, d) := d.feed protocol bytes
    let (more, d) := feedAll d chunks
    (items ++ more, d)

/-- The end of the stream always loses coverage. -/
def finish (d : Decoder) : List Decoded × Decoder :=
  ([.gap none .disconnected], { d with line := .poisoned, header := [] })

end Decoder

end TmuxAgents
