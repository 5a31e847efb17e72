/-
The frame parser (`program_status/parse.rs`): one complete OSC frame, with its
introducer and terminator, to a command.

The parser goes through the pairs of the body from left to right and keeps the
last well-formed value of each key; a limit that is exceeded rejects the whole
frame. Base64 belongs to another package and is a parameter, `Base64`. The
decode scratch is storage the source reuses between frames; here a decoded
text is returned.
-/
import Mathlib.Data.List.DropRight
import TmuxAgents.Program.Record

namespace TmuxAgents

/-- The base64 engine: `decode padding value output` is the decoding of `value` into a
buffer of `output` bytes, where `padding` asks for canonical padding and its absence
for none. -/
class Base64 where
  decode : (padding : Bool) → (value : Bytes) → (output : Nat) → Option Bytes

/-- An engine for frames that carry no text, which never ask it anything. -/
@[reducible] def noBase64 : Base64 := ⟨fun _ _ _ => none⟩

inductive TextField
  | message
  | title
deriving DecidableEq

inductive RejectReason
  | frameTooLong
  | invalidFrame
  | keyTooLong
  | encodedTextTooLong (field : TextField)
  | decodedTextTooLong (field : TextField)
  | invalidBase64 (field : TextField)
  | invalidUtf8 (field : TextField)
  | controlText (field : TextField)
  | appTooLong
  | idTooLong
  | idSegmentTooLong
  | idTooDeep
deriving DecidableEq

inductive IgnoreReason
  | missingState
  | unknownState
  | invalidId
deriving DecidableEq

inductive ParseOutcome
  | command (command : ProgramCommand)
  | ignored (reason : IgnoreReason)
deriving DecidableEq

/-! ## Bytes -/

def esc : UInt8 := 0x1b
def bel : UInt8 := 0x07
/-- The byte of a backslash, which ends a string after an escape. -/
def backslash : UInt8 := 0x5c
/-- The byte of `]`, which introduces an OSC after an escape. -/
def bracket : UInt8 := 0x5d

/-- Space, tab, line feed, form feed and carriage return. -/
def isAsciiWhitespace (byte : UInt8) : Bool :=
  byte == 0x20 || byte == 0x09 || byte == 0x0a || byte == 0x0c || byte == 0x0d

def trim (bytes : Bytes) : Bytes := (bytes.dropWhile isAsciiWhitespace).rdropWhile isAsciiWhitespace

/-- Letters, digits, `_`, `.`, `,`, `+`, `/`, `=` and `-`. -/
def valueByte (byte : UInt8) : Bool :=
  isAsciiAlphanumeric byte || byte == 0x5f || byte == 0x2e || byte == 0x2c || byte == 0x2b ||
    byte == 0x2f || byte == 0x3d || byte == 0x2d

/-- `7501;` -/
def framePrefix : Bytes := [0x37, 0x35, 0x30, 0x31, 0x3b]

namespace Key

/-! The keys of a pair. -/

/-- `state` -/
def state : Bytes := [0x73, 0x74, 0x61, 0x74, 0x65]
/-- `kind` -/
def kind : Bytes := [0x6b, 0x69, 0x6e, 0x64]
/-- `progress` -/
def progress : Bytes := [0x70, 0x72, 0x6f, 0x67, 0x72, 0x65, 0x73, 0x73]
/-- `app` -/
def app : Bytes := [0x61, 0x70, 0x70]
/-- `msg` -/
def msg : Bytes := [0x6d, 0x73, 0x67]
/-- `title` -/
def title : Bytes := [0x74, 0x69, 0x74, 0x6c, 0x65]
/-- `id` -/
def id : Bytes := [0x69, 0x64]

end Key

/-! ## Values -/

/-- A decoded text within `max` bytes. -/
def decodeText [Base64] (value : Bytes) (output : Nat) (field : TextField) (max : Nat)
    (hmax : max ≤ maxMsgBytes) : Except RejectReason { text : SingleLineText // text.len ≤ max } :=
  match Base64.decode (value.getLast? == some 0x3d) value output with
  | none => .error (.invalidBase64 field)
  | some decoded =>
    if hlen : decoded.length > max then .error (.decodedTextTooLong field)
    else
      match hutf : String.fromUTF8? ⟨decoded.toArray⟩ with
      | none => .error (.invalidUtf8 field)
      | some text =>
        if hcontrol : text.toList.any isControl = true then .error (.controlText field)
        else
          have hsize : text.utf8ByteSize ≤ max := by
            unfold String.fromUTF8? at hutf
            split at hutf
            · cases hutf
              exact Nat.le_of_not_gt hlen
            · cases hutf
          .ok ⟨⟨text, by simpa using ⟨hsize.trans hmax, by simpa using hcontrol⟩⟩, hsize⟩

/-- `permission`, `question` or `auth`. -/
def blockedKind (value : Bytes) : Option BlockedKind :=
  if value = [0x70, 0x65, 0x72, 0x6d, 0x69, 0x73, 0x73, 0x69, 0x6f, 0x6e] then some .permission
  else if value = [0x71, 0x75, 0x65, 0x73, 0x74, 0x69, 0x6f, 0x6e] then some .question
  else if value = [0x61, 0x75, 0x74, 0x68] then some .auth
  else none

/-- A decimal that fits a byte and is a progress. Leading zeroes are legal. -/
def progressValue (value : Bytes) : Option Progress :=
  if !value.isEmpty && value.all isAsciiDigit then
    (value.foldlM (fun n digit =>
        let n := n * 10 + (digit.toNat - 0x30)
        if n ≤ 255 then some n else none) 0).bind fun n => (Progress.new n).toOption
  else none

/-! ## Pairs -/

/-- What the pairs read so far leave. -/
structure Fields where
  state : Option Bytes := none
  id : RecordId := .root
  invalidId : Bool := false
  kind : Option BlockedKind := none
  progress : Option Progress := none
  app : Option AppId := none
  msg : Option { text : SingleLineText // text.len ≤ maxMsgBytes } := none
  title : Option { text : SingleLineText // text.len ≤ maxTitleBytes } := none

/-- The limits of a pair and its `id`. They precede the skipping of malformed pairs,
overwritten duplicates included. A byte string that is not UTF-8 is not in the grammar
of ids either. -/
def limitPair (fields : Fields) (key value : Bytes) : Except RejectReason Fields :=
  if key = Key.msg && decide (value.length > maxMsgEncodedBytes) then .error (.encodedTextTooLong .message)
  else if key = Key.title && decide (value.length > maxTitleEncodedBytes) then
    .error (.encodedTextTooLong .title)
  else if key = Key.app && decide (value.length > maxAppBytes) then .error .appTooLong
  else if key = Key.id then
    if value.length > maxIdBytes then .error .idTooLong
    else if (value.splitOn slash).any fun segment => segment.length > maxIdSegmentBytes then
      .error .idSegmentTooLong
    else if (value.splitOn slash).length > maxIdLevels then .error .idTooDeep
    else
      match RecordId.parse value with
      | .ok parsed => .ok { fields with id := parsed, invalidId := false }
      | .error _ => .ok { fields with invalidId := true }
  else .ok fields

/-- A pair within the limits: its value, unless it is malformed. -/
def readPair [Base64] (fields : Fields) (key value : Bytes) : Except RejectReason Fields :=
  if key.isEmpty || !key.all isAsciiLowercase || !value.all valueByte then .ok fields
  else if key = Key.state then .ok { fields with state := some value }
  else if key = Key.kind then .ok { fields with kind := blockedKind value }
  else if key = Key.progress then .ok { fields with progress := progressValue value }
  else if key = Key.app then .ok { fields with app := (AppId.parse value).toOption }
  else if key = Key.msg then do
    let text ← decodeText value (maxMsgBytes + 1) .message maxMsgBytes (Nat.le_refl _)
    return { fields with msg := some text }
  else if key = Key.title then do
    let text ← decodeText value maxTitleBytes .title maxTitleBytes (by decide)
    return { fields with title := some text }
  else .ok fields

def parsePair [Base64] (fields : Fields) (pair : Bytes) : Except RejectReason Fields :=
  match pair.idxOf? 0x3d with
  | none => .ok fields
  | some equal =>
    let key := trim (pair.take equal)
    let value := trim (pair.drop (equal + 1))
    if key.length > maxKeyBytes then .error .keyTooLong
    else do
      let fields ← limitPair fields key value
      readPair fields key value

/-! ## Frames -/

/-- The status a `state` names: `idle`, `working`, `blocked`, `done` or `error`. -/
def Fields.status (fields : Fields) (state : Bytes) : Option ProgramStatus :=
  if state = [0x69, 0x64, 0x6c, 0x65] then some .idle
  else if state = [0x77, 0x6f, 0x72, 0x6b, 0x69, 0x6e, 0x67] then some (.working fields.progress)
  else if state = [0x62, 0x6c, 0x6f, 0x63, 0x6b, 0x65, 0x64] then some (.blocked fields.kind fields.progress)
  else if state = [0x64, 0x6f, 0x6e, 0x65] then some .done
  else if state = [0x65, 0x72, 0x72, 0x6f, 0x72] then some .error
  else none

/-- The report the pairs of a frame amount to. -/
def Fields.outcome (fields : Fields) : ParseOutcome :=
  if fields.invalidId then .ignored .invalidId
  else
    match fields.state with
    | none => .ignored .missingState
    | some state =>
      -- `clear`
      if state = [0x63, 0x6c, 0x65, 0x61, 0x72] then .command (.clear fields.id)
      else
        match fields.status state with
        | none => .ignored .unknownState
        | some status => .command (.replace {
            id := fields.id, status, app := fields.app
            title := fields.title.map (·.val)
            msg := fields.msg.map (·.val)
            titleLe := fun text ht => by
              obtain ⟨t, -, rfl⟩ := Option.map_eq_some_iff.mp ht
              exact t.property })

/-- The body between the introducer and the terminator. -/
def frameBody (frame : Bytes) : Option Bytes := do
  let body ← frame.dropPrefix? (esc :: bracket :: framePrefix)
  body.dropSuffix? [esc, backslash] <|> body.dropSuffix? [bel]

/-- Parse exactly one complete OSC frame. Every pair is checked before a command is
returned, even when the final state ignores that field or a duplicate overwrites it. -/
def parseFrame [Base64] (frame : Bytes) : Except RejectReason ParseOutcome :=
  if frame.length > maxFrameBytes then .error .frameTooLong
  else
    match frameBody frame with
    | none => .error .invalidFrame
    | some body =>
      if body.any fun byte => byte == esc || byte == bel then .error .invalidFrame
      else if body = [0x3f] then .ok (.command .query)
      else do
        let fields ← (body.splitOn 0x3a).foldlM parsePair {}
        return fields.outcome

/-- What a frame that parses looks like: its introducer, a body without escape or bell, its
terminator, within the frame cap. -/
theorem parseFrame_shape [Base64] {frame : Bytes} {outcome : ParseOutcome}
    (h : parseFrame frame = .ok outcome) : frame.length ≤ maxFrameBytes ∧
      ∃ body terminator, frame = esc :: bracket :: framePrefix ++ body ++ terminator ∧
        (terminator = [esc, backslash] ∨ terminator = [bel]) ∧ ∀ byte ∈ body, byte ≠ esc ∧ byte ≠ bel := by
  unfold parseFrame at h
  split at h
  · cases h
  rename_i hlen
  refine ⟨Nat.le_of_not_gt hlen, ?_⟩
  split at h
  · cases h
  rename_i body hbody
  split at h
  · cases h
  rename_i hclean
  simp only [List.any_eq_true, Bool.or_eq_true, beq_iff_eq, not_exists, not_and, not_or] at hclean
  simp only [frameBody, Option.bind_eq_bind, Option.bind_eq_some_iff, Option.orElse_eq_orElse,
    Option.orElse_eq_or, Option.or_eq_some_iff, List.dropPrefix?_eq_some_iff, List.dropSuffix?_eq_some_iff,
    beq_iff_eq] at hbody
  obtain ⟨rest, ⟨_, rfl, rfl⟩, ⟨_, rfl, rfl⟩ | ⟨-, _, rfl, rfl⟩⟩ := hbody
  · exact ⟨body, _, by simp, .inl rfl, hclean⟩
  · exact ⟨body, _, by simp, .inr rfl, hclean⟩

end TmuxAgents
