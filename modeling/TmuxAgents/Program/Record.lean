/-
The values of the program-status protocol (`program_status/mod.rs`): record
and app ids, statuses, the commands a frame carries and the events a pane's
stream delivers.

An id is kept as its UTF-8 bytes, which is how Rust's `str` measures,
compares and splits it; the borrowed and the owned form of a type
(`RecordIdRef`, `RecordId`) are one type here. A validated value carries its
validity, so every id, app, text and progress below is one the parser could
have built. Counters (`u32`, `u64`) are naturals: a `checked_add` that would
exhaust one ends the program.
-/
import Mathlib.Algebra.Order.Ring.Nat
import Mathlib.Data.List.Basic
import Mathlib.Data.List.Infix

namespace TmuxAgents

/-- A byte string, Rust's `[u8]`. -/
abbrev Bytes := List UInt8

def maxFrameBytes : Nat := 4096
def maxKeyBytes : Nat := 16
def maxMsgEncodedBytes : Nat := 2732
def maxMsgBytes : Nat := 2048
def maxTitleEncodedBytes : Nat := 256
def maxTitleBytes : Nat := 192
def maxAppBytes : Nat := 32
def maxIdBytes : Nat := 128
def maxIdSegmentBytes : Nat := 32
def maxIdLevels : Nat := 8
def maxRecords : Nat := 256

inductive ValueError
  | invalidRecordId
  | invalidAppId
  | invalidText
  | titleTooLong
  | invalidProgress
deriving DecidableEq

def isAsciiDigit (byte : UInt8) : Bool := 0x30 ≤ byte && byte ≤ 0x39
def isAsciiLowercase (byte : UInt8) : Bool := 0x61 ≤ byte && byte ≤ 0x7a
def isAsciiAlphanumeric (byte : UInt8) : Bool :=
  isAsciiDigit byte || isAsciiLowercase byte || (0x41 ≤ byte && byte ≤ 0x5a)

/-- Letters, digits, `_`, `.`, `+` and `-`. -/
def identifierByte (byte : UInt8) : Bool :=
  isAsciiAlphanumeric byte || byte == 0x5f || byte == 0x2e || byte == 0x2b || byte == 0x2d

/-! ## Record ids -/

/-- The byte of `/`. -/
def slash : UInt8 := 0x2f

/-- The grammar of a wire `id`: up to eight nonempty `/`-separated segments. -/
def recordIdOk (value : Bytes) : Bool :=
  !value.isEmpty && value.length ≤ maxIdBytes &&
    (value.splitOn slash).all (fun segment =>
      !segment.isEmpty && segment.length ≤ maxIdSegmentBytes && segment.all identifierByte) &&
    (value.splitOn slash).length ≤ maxIdLevels

/-- A record id: the explicit root, or a parsed path. -/
structure RecordId where
  str : Bytes
  valid : str = [] ∨ recordIdOk str = true
deriving DecidableEq

namespace RecordId

@[ext] theorem ext {a b : RecordId} (h : a.str = b.str) : a = b := by
  cases a; cases b; simpa using h

def root : RecordId := ⟨[], .inl rfl⟩

def parse (value : Bytes) : Except ValueError RecordId :=
  if h : recordIdOk value = true then .ok ⟨value, .inr h⟩ else .error .invalidRecordId

instance : Ord RecordId := ⟨fun a b => compare a.str b.str⟩

def isRoot (id : RecordId) : Bool := id.str.isEmpty

/-- Includes the addressed record itself, for subtree clearing. -/
def contains (self other : RecordId) : Bool :=
  self.isRoot || self == other ||
    (other.str.dropPrefix? self.str).any (fun tail => tail.head? == some slash)

theorem contains_iff {a b : RecordId} :
    a.contains b = true ↔ a.str = [] ∨ a = b ∨ ∃ tail, b.str = a.str ++ slash :: tail := by
  simp only [contains, isRoot, Bool.or_eq_true, List.isEmpty_iff, beq_iff_eq, Option.any_eq_true,
    List.dropPrefix?_eq_some_iff, List.head?_eq_some_iff, or_assoc]
  constructor
  · rintro (h | h | ⟨_, ⟨p, hb, rfl⟩, tail, rfl⟩)
    · exact .inl h
    · exact .inr (.inl h)
    · exact .inr (.inr ⟨tail, hb⟩)
  · rintro (h | h | ⟨tail, h⟩)
    · exact .inl h
    · exact .inr (.inl h)
    · exact .inr (.inr ⟨_, ⟨a.str, h, rfl⟩, tail, rfl⟩)

@[simp] theorem contains_refl (a : RecordId) : a.contains a = true := contains_iff.mpr (.inr (.inl rfl))

theorem contains_trans {a b c : RecordId} (hab : a.contains b = true) (hbc : b.contains c = true) :
    a.contains c = true := by
  rw [contains_iff] at hab hbc ⊢
  rcases hab with ha | rfl | ⟨t, ht⟩
  · exact .inl ha
  · exact hbc
  · rcases hbc with hb | rfl | ⟨u, hu⟩
    · simp [hb] at ht
    · exact .inr (.inr ⟨t, ht⟩)
    · exact .inr (.inr ⟨t ++ slash :: u, by simp [hu, ht]⟩)

theorem length_le_of_contains {a b : RecordId} (h : a.contains b = true) : a.str.length ≤ b.str.length := by
  rcases contains_iff.mp h with h | rfl | ⟨t, h⟩
  · simp [h]
  · exact Nat.le_refl _
  · simp [h]

/-- Two ids that contain a third, at the same length, are one id. -/
theorem contains_unique {a b c : RecordId} (ha : a.contains c = true) (hb : b.contains c = true)
    (hl : a.str.length = b.str.length) : a = b := by
  have pre : ∀ {x : RecordId}, x.contains c = true → x.str <+: c.str := fun {x} hx => by
    rcases contains_iff.mp hx with h | rfl | ⟨t, ht⟩
    · simp [h]
    · exact List.prefix_refl _
    · exact ⟨_, ht.symm⟩
  exact RecordId.ext ((List.prefix_of_prefix_length_le (pre ha) (pre hb) (Nat.le_of_eq hl)).eq_of_length hl)

end RecordId

/-! ## Apps, texts and progress -/

structure AppId where
  str : Bytes
  valid : (!str.isEmpty && str.length ≤ maxAppBytes && str.all identifierByte) = true
deriving DecidableEq

def AppId.parse (value : Bytes) : Except ValueError AppId :=
  if h : (!value.isEmpty && value.length ≤ maxAppBytes && value.all identifierByte) = true then
    .ok ⟨value, h⟩
  else .error .invalidAppId

/-- Rust's `char::is_control`: the general category `Cc`. -/
def isControl (c : Char) : Bool := c.val < 0x20 || (0x7f ≤ c.val && c.val ≤ 0x9f)

/-- Text without control characters, within the message cap. -/
structure SingleLineText where
  str : String
  valid : (str.utf8ByteSize ≤ maxMsgBytes && !str.toList.any isControl) = true
deriving DecidableEq

def SingleLineText.parse (value : String) : Except ValueError SingleLineText :=
  if h : (value.utf8ByteSize ≤ maxMsgBytes && !value.toList.any isControl) = true then .ok ⟨value, h⟩
  else .error .invalidText

def SingleLineText.len (text : SingleLineText) : Nat := text.str.utf8ByteSize

structure Progress where
  val : Nat
  le : val ≤ 100
deriving DecidableEq

def Progress.new (value : Nat) : Except ValueError Progress :=
  if h : value ≤ 100 then .ok ⟨value, h⟩ else .error .invalidProgress

inductive BlockedKind
  | permission
  | question
  | auth
deriving DecidableEq

inductive ProgramStatus
  | idle
  | working (progress : Option Progress)
  | blocked (kind : Option BlockedKind) (progress : Option Progress)
  | done
  | error
deriving DecidableEq

namespace ProgramStatus

def isIdle : ProgramStatus → Bool
  | idle => true
  | _ => false

def isWorking : ProgramStatus → Bool
  | working _ => true
  | _ => false

def isBlocked : ProgramStatus → Bool
  | blocked _ _ => true
  | _ => false

/-- `Done` or `Error`: the statuses that carry a result. -/
def isTerminal : ProgramStatus → Bool
  | done | error => true
  | _ => false

/-- `Working` or `Blocked`. -/
def isActive (status : ProgramStatus) : Bool := status.isWorking || status.isBlocked

end ProgramStatus

/-! ## Records, commands and events -/

/-- Only an explicit app is kept. A title has a narrower cap than a message. -/
structure Record where
  id : RecordId
  status : ProgramStatus
  app : Option AppId
  title : Option SingleLineText
  msg : Option SingleLineText
  titleLe : ∀ text ∈ title, text.len ≤ maxTitleBytes
deriving DecidableEq

def Record.new (id : RecordId) (status : ProgramStatus) : Record :=
  { id, status, app := none, title := none, msg := none, titleLe := by simp }

/-- The payload bytes of a record: its id, app, title and message. -/
def recordBytes (record : Record) : Nat :=
  record.id.str.length + (record.app.elim 0 fun app => app.str.length) +
    (record.title.elim 0 SingleLineText.len) + (record.msg.elim 0 SingleLineText.len)

inductive ProgramCommand
  | replace (record : Record)
  | clear (id : RecordId)
  | query
deriving DecidableEq

abbrev PaneId := Nat
abbrev SessionId := Nat
abbrev ConnectionEpoch := Nat
abbrev ObservationSequence := Nat

/-- Terminal history lifetime, separate from agent departure and observation loss. -/
inductive TerminalLifecycle
  | fullReset
  | shellPrompt
  | attachedProcessExit
deriving DecidableEq

inductive ObservationGap
  | disconnected
  | ownerChanged
  | paused
  | malformedTransport
  | framingLoss
  | queueOverflow
  | budgetExceeded
  | workBudgetExceeded
deriving DecidableEq

inductive ProgramEvent
  | command (command : ProgramCommand)
  | lifecycle (event : TerminalLifecycle)
  | gap (reason : ObservationGap)
deriving DecidableEq

/-- The owned payload of an event, charged to the collector's and the runtime's budgets. -/
def payloadBytes : ProgramEvent → Nat
  | .command (.replace record) => recordBytes record
  | .command (.clear id) => id.str.length
  | _ => 0

/-- Sequence numbers order events within one connection epoch. -/
structure ObservedEvent where
  pane : PaneId
  connection : ConnectionEpoch
  sequence : ObservationSequence
  event : ProgramEvent
deriving DecidableEq

end TmuxAgents
