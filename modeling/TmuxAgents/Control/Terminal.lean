/-
Terminal framing (`control/terminal.rs`): the scanner that finds OSC frames in a
pane's output, one byte at a time, independent of notification and read
boundaries.

`feed` answers the event a byte completes, with the scanner after it. The
match of the source is split by state: `feedEscape`, `feedString`, `feedLost`.
-/
import TmuxAgents.Lib.Run
import TmuxAgents.Program.Parse

namespace TmuxAgents

inductive StringKind
  | osc
  | dcs
  | apc
  | pm
  | sos
  | rename
deriving DecidableEq

inductive DcsPhase
  | unknown
  | data
  | escape
deriving DecidableEq

inductive State
  | ground
  | escape
  | dirtyEscape
  | csi
  | string (kind : StringKind) (escape suppressed : Bool)
  /-- tmux DCS consumes ESC pairs and treats CAN/SUB as data. A non-ESC byte establishes
  its possible DCS phase before ST can be trusted. -/
  | lost (phase : DcsPhase)
deriving DecidableEq

structure Scanner where
  state : State := .ground
  candidate : Bytes := []
  oversized : Bool := false
  rejected : Nat := 0
deriving DecidableEq

/-- `0x00..=0x17 | 0x19 | 0x1c..=0x1f | 0x7f..=0xff` -/
def escapeIgnored (byte : UInt8) : Bool :=
  byte ≤ 0x17 || byte == 0x19 || (0x1c ≤ byte && byte ≤ 0x1f) || 0x7f ≤ byte

/-- The string a byte introduces after an escape: `]`, `P`, `_`, `^`, `k` or `X`. -/
def StringKind.introducedBy (byte : UInt8) : Option StringKind :=
  if byte = bracket then some .osc
  else if byte = 0x50 then some .dcs
  else if byte = 0x5f then some .apc
  else if byte = 0x5e then some .pm
  else if byte = 0x6b then some .rename
  else if byte = 0x58 then some .sos
  else none

/-- `133;A` -/
def promptMark : Bytes := [0x31, 0x33, 0x33, 0x3b, 0x41]

namespace Scanner

/-- An attach does not reveal the pane's previous terminal string state. -/
def unsynchronized : Scanner := { state := .lost .unknown }

def suppressCandidate (s : Scanner) : Scanner :=
  { s with
    candidate := []
    oversized := false
    state := match s.state with
      | .string kind escape _ => .string kind escape true
      | state => state }

/-- Discard candidates without turning an open DCS/OSC into ground. A binding
boundary in an escape also suppresses the construct it was introducing. -/
def boundary (s : Scanner) : Scanner :=
  let s := s.suppressCandidate
  match s.state with
  | .escape | .dirtyEscape => { s with state := .lost .escape }
  | _ => s

def loss (s : Scanner) : Scanner := { s.boundary with state := .lost .unknown }

def pendingBytes (s : Scanner) : Nat := s.candidate.length

@[simp] theorem boundary_candidate (s : Scanner) : s.boundary.candidate = [] := by
  unfold boundary
  dsimp only
  split <;> rfl

@[simp] theorem loss_candidate (s : Scanner) : s.loss.candidate = [] := boundary_candidate s

theorem pendingBytes_of_candidate {s : Scanner} (h : s.candidate = []) : s.pendingBytes = 0 := by
  rw [pendingBytes, h]
  rfl

def push (s : Scanner) (byte : UInt8) : Scanner :=
  if s.candidate.length < maxFrameBytes then { s with candidate := s.candidate ++ [byte] }
  else { s with oversized := true }

variable [Base64]

/-- The event of a complete OSC candidate, `st` telling an ESC-backslash from a BEL. -/
def complete (s : Scanner) (st : Bool) : Option ProgramEvent × Scanner :=
  if !s.oversized && !s.candidate.contains esc &&
      (s.candidate == promptMark || (promptMark ++ [0x3b]).isPrefixOf s.candidate) then
    (some (.lifecycle .shellPrompt), s)
  else if !framePrefix.isPrefixOf s.candidate then (none, s)
  -- Include the actual terminator length in the wire-frame limit.
  else if s.oversized || decide (s.candidate.length + (if st then 4 else 3) > maxFrameBytes) then
    (none, { s with rejected := s.rejected + 1 })
  else
    let frame := esc :: bracket :: s.candidate ++ if st then [esc, backslash] else [bel]
    let s := { s with candidate := frame }
    match parseFrame frame with
    | .ok (.command command) => (some (.command command), s)
    | .ok (.ignored _) | .error _ => (none, { s with rejected := s.rejected + 1 })

/-- A byte after an escape; `suppressed` after an escape that an ignored byte dirtied. -/
def feedEscape (s : Scanner) (suppressed : Bool) (byte : UInt8) : Option ProgramEvent × Scanner :=
  match StringKind.introducedBy byte with
  | some kind => (none, { s with state := .string kind false suppressed, candidate := [], oversized := false })
  | none =>
    if byte = 0x5b then (none, { s with state := .csi })
    else if escapeIgnored byte then (none, { s with state := .dirtyEscape })
    else if byte = esc then (none, { s with state := .escape })
    else if byte = 0x63 then (some (.lifecycle .fullReset), { s with state := .ground })
    else (none, { s with state := .ground })

def feedString (s : Scanner) (kind : StringKind) (escape suppressed : Bool) (byte : UInt8) :
    Option ProgramEvent × Scanner :=
  if kind ≠ .dcs ∧ escape = true ∧ byte = 0x50 then
    -- tmux cancels these strings at ESC. Keep nested OSC opaque, but track a possible DCS
    -- so BEL/CAN/SUB cannot free it.
    (none, { s with state := .string .dcs false true, candidate := [], oversized := false })
  else if (escape = true ∧ byte = backslash) ∨ (kind = .osc ∧ byte = bel) then
    let st := escape && byte == backslash
    let pendingEscape := escape && !st
    let (event, s) :=
      if kind = .osc ∧ suppressed = false then
        complete (if st then { s with candidate := s.candidate.dropLast } else s) st
      else (none, s)
    (event, { s with state := if pendingEscape then .dirtyEscape else .ground, candidate := [] })
  else
    let s := if kind = .osc ∧ suppressed = false then s.push byte else s
    let escape :=
      if kind = .dcs then byte == esc && !escape else byte == esc || (escape && escapeIgnored byte)
    (none, { s with state := .string kind escape suppressed })

def feedLost (phase : DcsPhase) (byte : UInt8) : State :=
  if phase = .escape ∧ byte = backslash then .ground
  else if phase = .unknown ∧ byte = esc then .lost .unknown
  else if phase = .data ∧ byte = esc then .lost .escape
  else .lost .data

/-- CAN and SUB return to ground, but are data to a DCS, which a lost scanner may be in. -/
def cancels (state : State) (byte : UInt8) : Bool :=
  (byte == 0x18 || byte == 0x1a) &&
    match state with
    | .string .dcs _ _ | .lost _ => false
    | _ => true

def feed (s : Scanner) (byte : UInt8) : Option ProgramEvent × Scanner :=
  if cancels s.state byte then (none, { s with state := .ground, candidate := [] })
  else
    match s.state with
    | .ground => (none, if byte = esc then { s with state := .escape } else s)
    | .escape => s.feedEscape false byte
    | .dirtyEscape => s.feedEscape true byte
    | .csi =>
      (none,
        if 0x40 ≤ byte ∧ byte ≤ 0x7e then { s with state := .ground }
        else if byte = esc then { s with state := .escape }
        else s)
    | .string kind escape suppressed => s.feedString kind escape suppressed byte
    | .lost phase => (none, { s with state := feedLost phase byte })

/-- These bytes are all observed, so their string framing is tracked. Only the escape
already in progress at the binding boundary is unknown. -/
def feedQuarantined (s : Scanner) (byte : UInt8) : Scanner := (s.feed byte).2.suppressCandidate

/-- The event a byte completes. -/
def emits (s : Scanner) (byte : UInt8) : Option ProgramEvent := (s.feed byte).1

/-- The scanner after a byte. -/
def next (s : Scanner) (byte : UInt8) : Scanner := (s.feed byte).2

/-- The scanner after a byte string, and the events it emits on the way. -/
abbrev after (s : Scanner) (bytes : Bytes) : Scanner := Run.run next s bytes
abbrev events (s : Scanner) (bytes : Bytes) : List ProgramEvent := Run.firings next emits s bytes

end Scanner

end TmuxAgents
