/-
The per-host slot ledger: one receipt per dispatch.

A dispatch claims its slot before it fires and writes the receipt after. Every
locked read-modify-write of the ledger file is one step (`Ledger.act`) of what
the host's processes do; a claim that finds its slot in flight may take many
such passes before it answers.
-/
import Mathlib.Data.List.Sort
import TmuxAgents.Lib.Choose
import TmuxAgents.Lib.Trace

namespace TmuxAgents.Slots

/-- How long a receipt answers for its slot. -/
def ttlMs : Nat := 24 * 60 * 60 * 1000

/-- The size cap, the only thing that evicts. -/
def maxEntries : Nat := 4096

/-- What a dispatch ended as. -/
structure Receipt where
  outcome : String
  reason : Option String
  exitCode : Int
  deriving DecidableEq, Repr

/-- The receipt for a dispatch nobody can account for. -/
def Receipt.unknown : Receipt where
  outcome := "error"
  reason := some "fired-unknown"
  exitCode := 1

structure Entry where
  slot : String
  pane : String
  action : String
  device : Option String
  atMs : Nat
  pid : Int
  receipt : Option Receipt
  deriving DecidableEq, Repr

/-- A claimed slot in the hands of the process that claimed it. -/
structure SlotGuard where
  slot : String
  pid : Int
  claimedAt : Nat
  deriving DecidableEq, Repr

/-! ## The file -/

/-- A line of the ledger file. -/
inductive Line
  | record (entry : Entry)
  | blank
  | garbled
  deriving DecidableEq, Repr

/-- `at_ms` is written through an `i64` and read back as a `u64`. -/
def parseEntry : Line → Option Entry
  | .record entry => if entry.atMs < 2 ^ 63 then some entry else none
  | .blank => none
  | .garbled => none

/-- The records of a file, or the number of the first line that is not one. -/
def readLines (n : Nat) : List Line → Except Nat (List Entry)
  | [] => .ok []
  | .blank :: lines => readLines (n + 1) lines
  | line :: lines =>
    match parseEntry line with
    | none => .error n
    | some entry =>
      match readLines (n + 1) lines with
      | .error line => .error line
      | .ok entries => .ok (entry :: entries)

/-- Whether a claim made at `atMs` has aged past the TTL. -/
def isExpired (atMs nowMs : Nat) : Bool := decide (ttlMs ≤ nowMs - atMs)

/-- `sort_by_key(|e| e.at_ms)`, which is stable. -/
def sortByAt (entries : List Entry) : List Entry := entries.insertionSort fun a b => a.atMs ≤ b.atMs

/-- Expired receipts go first, then the oldest; a claim in flight stays. -/
def evict (entries : List Entry) (nowMs : Nat) : List Entry :=
  if entries.length ≤ maxEntries then entries
  else
    let entries := entries.filter fun e => e.receipt.isNone || !isExpired e.atMs nowMs
    if entries.length ≤ maxEntries then entries
    else
      let pending := entries.filter fun e => e.receipt.isNone
      let done := sortByAt (entries.filter fun e => !e.receipt.isNone)
      let room := maxEntries - pending.length
      pending ++ (if room < done.length then done.drop (done.length - room) else done)

/-- The file that replaces the ledger. -/
def render (entries : List Entry) : List Line := entries.map .record

/-! ## The ledger -/

/-- What the host's processes share and hold: the file, and the guards not yet resolved. -/
structure Ledger where
  file : List Line
  guards : List SlotGuard

/-- No file yet, and nobody holding a guard. -/
def Ledger.new : Ledger where
  file := []
  guards := []

inductive Event
  /-- `claim` returned `Claimed`. -/
  | claimed (guard : SlotGuard)
  /-- `claim` returned `Hit`, from an entry dated `atMs`. -/
  | hit (slot : String) (nowMs atMs : Nat) (receipt : Receipt)
  /-- A pass of `claim` found the slot in flight and sleeps before the next. -/
  | waiting (slot : String) (nowMs : Nat)
  /-- `claim` returned `Torn`. -/
  | torn (slot : String) (nowMs line : Nat)
  /-- A guard was written (with its receipt), or released or dropped. -/
  | resolved (guard : SlotGuard) (receipt : Option Receipt)
  /-- A write that held `held` entries left this one out. -/
  | evicted (entry : Entry) (held : Nat)
  /-- A process died, and its guards with it, unresolved. -/
  | crashed (pid : Int)
  deriving DecidableEq, Repr

namespace Ledger

def read (ledger : Ledger) : Except Nat (List Entry) := readLines 1 ledger.file

/-- `Ledger::write`, with what it evicts. -/
def write (ledger : Ledger) (entries : List Entry) (nowMs : Nat) : List Event × Ledger :=
  let kept := evict entries nowMs
  ((entries.filter fun e => decide (e ∉ kept)).map fun e => .evicted e entries.length,
    { ledger with file := render (sortByAt kept) })

/-- The end of `claim`: whatever the slot held is replaced by a claim in flight. -/
def take (ledger : Ledger) (entries : List Entry) (pid : Int) (slot pane action : String)
    (device : Option String) (nowMs : Nat) : List Event × Ledger :=
  let entry : Entry :=
    { slot := slot, pane := pane, action := action, device := device, atMs := nowMs, pid := pid, receipt := none }
  let guard : SlotGuard := { slot := slot, pid := pid, claimedAt := nowMs }
  let (evictions, ledger) := ledger.write (entries.filter (fun e => e.slot ≠ slot) ++ [entry]) nowMs
  (.claimed guard :: evictions, { ledger with guards := guard :: ledger.guards })

/-- One locked pass of `claim` by process `pid`. `waits` is whether the pass found its slot's claimer
live and itself before its own deadline. -/
def claim (ledger : Ledger) (pid : Int) (slot pane action : String) (device : Option String) (nowMs : Nat)
    (waits : Bool) : List Event × Ledger :=
  match ledger.read with
  | .error line => ([.torn slot nowMs line], ledger)
  | .ok entries =>
    match entries.find? fun e => e.slot == slot with
    | none => ledger.take entries pid slot pane action device nowMs
    | some entry =>
      match entry.receipt with
      | some receipt =>
        if !isExpired entry.atMs nowMs then ([.hit slot nowMs entry.atMs receipt], ledger)
        else ledger.take entries pid slot pane action device nowMs
      | none =>
        if waits then ([.waiting slot nowMs], ledger)
        else
          let receipt := Receipt.unknown
          let entries := Choose.modifyFirst (fun e => e.slot == slot) (fun e => { e with receipt := some receipt })
            entries
          let (evictions, ledger) := ledger.write entries nowMs
          (.hit slot nowMs entry.atMs receipt :: evictions, ledger)

end Ledger

/-- Whether an entry is the one a guard claimed. -/
def SlotGuard.ours (guard : SlotGuard) (e : Entry) : Bool :=
  e.slot == guard.slot && e.pid == guard.pid && e.atMs == guard.claimedAt

namespace Ledger

/-- `resolve`: a receipt is written, `none` drops the entry. -/
def resolve (ledger : Ledger) (guard : SlotGuard) (receipt : Option Receipt) : List Event × Ledger :=
  match ledger.read with
  | .error _ => ([], ledger)
  | .ok entries =>
    match receipt with
    | some receipt =>
      if entries.any guard.ours then
        ledger.write (Choose.modifyFirst guard.ours (fun e => { e with receipt := some receipt }) entries)
          guard.claimedAt
      else ([], ledger)
    | none =>
      if !entries.any guard.ours then ([], ledger)
      else ledger.write (entries.filter fun e => !guard.ours e) guard.claimedAt

/-- A guard is resolved once: `write`, `release` and `drop` all consume it. -/
def consume (ledger : Ledger) (guard : SlotGuard) (receipt : Option Receipt) : List Event × Ledger :=
  if guard ∈ ledger.guards then
    let (evictions, ledger) := { ledger with guards := ledger.guards.erase guard }.resolve guard receipt
    (.resolved guard receipt :: evictions, ledger)
  else ([], ledger)

end Ledger

/-- What a process on the host may do next. -/
inductive Op
  | claim (pid : Int) (slot pane action : String) (device : Option String) (nowMs : Nat) (waits : Bool)
  | write (guard : SlotGuard) (receipt : Receipt)
  | release (guard : SlotGuard)
  | drop (guard : SlotGuard)
  | crash (pid : Int)
  deriving DecidableEq, Repr

def Ledger.act (ledger : Ledger) : Op → List Event × Ledger
  | .claim pid slot pane action device nowMs waits => ledger.claim pid slot pane action device nowMs waits
  | .write guard receipt => ledger.consume guard (some receipt)
  | .release guard => ledger.consume guard none
  | .drop guard => ledger.consume guard none
  | .crash pid => ([.crashed pid], { ledger with guards := ledger.guards.filter fun g => g.pid ≠ pid })

end TmuxAgents.Slots
