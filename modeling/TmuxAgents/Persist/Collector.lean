/-
The collector's lease (`persistence.rs`, and `maintain_lease` of the daemon's `program.rs`): one
option of the server, which names the daemon that publishes what programs report.

A daemon reads the option, has the server write over it under a condition on what it read, and
takes the lease for held where the readback and its own clocks agree. Here a collector is the
life of one token: a daemon that gives its lease up draws a fresh one.
-/
import Mathlib.Logic.Function.Basic
import TmuxAgents.Persist.Codecs
import TmuxAgents.Persist.Lease
import TmuxAgents.Persist.Transaction

namespace TmuxAgents

theorem CollectorLease.encode_injective : Function.Injective CollectorLease.encode := by
  intro a b h
  obtain ⟨hexpires, htoken⟩ := Text.field_unique (Text.not_mem_decimal (by decide) _)
    (Text.not_mem_decimal (by decide) _) h
  obtain ⟨⟨text, hvalid⟩, expiresAt⟩ := a
  obtain ⟨⟨text', hvalid'⟩, expiresAt'⟩ := b
  obtain rfl : text = text' := htoken
  obtain rfl : expiresAt = expiresAt' := Text.decimal_injective hexpires
  rfl

/-- What is read of an encoded lease is that lease. -/
theorem CollectorLease.parse_encoded {lease read : CollectorLease} (h : parse lease.encode = some read) :
    read = lease := encode_injective (exact.encode_parse _ _ h)

namespace Lease

open Predicate

/-- `read_collector`, the empty text where the option is unset. -/
def readCollector (pane : Pane) : Text := pane.options.value ProgramOpt.collector

/-- A daemon's lease: as it was persisted, and the schedule it is kept by. -/
structure Held where
  persisted : CollectorLease
  schedule : LeaseSchedule

/-! ## Operations -/

/-- What is asked of the server, with the option as it was read and the clocks sampled after that. -/
inductive Operation
  | acquire (token : Token) (current : Text) (submission : LeaseTime)
  | renew (held : Held) (current : Text) (submission : LeaseTime)
  | release (token : Token)

inductive LeaseOutcome
  | won (lease : Option CollectorLease)
  | lost (lease : Option CollectorLease)
deriving DecidableEq

def LeaseOutcome.lease : LeaseOutcome → Option CollectorLease
  | .won lease => lease
  | .lost lease => lease

def confirmedLiveLease (outcome : LeaseOutcome) (now : Nat) : LeaseOutcome :=
  match outcome with
  | .won lease => if lease.any fun lease => lease.liveAt now then .won lease else .lost lease
  | .lost lease => .lost lease

/-- `#{m/r:^[0-9]+:<token>$,…}`. -/
def names (token : Token) : Predicate := fun pane =>
  let digits := (readCollector pane).takeWhile Char.isDigit
  !digits.isEmpty && decide (readCollector pane = digits ++ ':' :: token.text)

namespace Operation

def token : Operation → Token
  | .acquire token _ _ => token
  | .renew held _ _ => held.persisted.token
  | .release token => token

/-- The lease it writes. A release leaves its token, expired. -/
def value : Operation → CollectorLease
  | .acquire token _ submission => { token, expiresAt := submission.expiry }
  | .renew held _ submission => { token := held.persisted.token, expiresAt := submission.expiry }
  | .release token => { token, expiresAt := 0 }

/-- A release is one exact mutation, safe under yielding hooks. -/
def rejectsHooks : Operation → Bool
  | .release _ => false
  | _ => true

def condition : Operation → Predicate
  | .acquire _ current submission =>
    let eligible := !(CollectorLease.parse current).any fun lease => lease.liveAt submission.epochMs
    and (if eligible then always else never) (equal ProgramOpt.collector current)
  | .renew held current submission =>
    and (if held.persisted.liveAt submission.epochMs then always else never)
      (and (equal ProgramOpt.collector held.persisted.encode) (equal ProgramOpt.collector current))
  | .release token => names token

def predicate (op : Operation) : Predicate := if op.rejectsHooks then and noHooks op.condition else op.condition

/-- What `lease_operation` has the server run. -/
def run (op : Operation) (pane : Pane) : Pane :=
  conditionalGroup op.predicate [.set ProgramOpt.collector op.value.encode] pane

/-- What `lease_operation` makes of the option it reads back. -/
def outcome (op : Operation) (stored : Text) : LeaseOutcome :=
  if stored = op.value.encode then .won (CollectorLease.parse stored) else .lost (CollectorLease.parse stored)

/-- `acquire_collector`, `renew_collector` and `release_collector`, from their readback on. A renewal must be
complete before the deadline it renews. -/
def answer (op : Operation) (stored : Text) (completedAt : Nat) : LeaseOutcome :=
  match op with
  | .acquire _ _ _ => confirmedLiveLease (op.outcome stored) completedAt
  | .renew held _ _ =>
    if held.persisted.liveAt completedAt then confirmedLiveLease (op.outcome stored) completedAt
    else .lost (op.outcome stored).lease
  | .release _ => op.outcome stored

end Operation

/-! ## A collector's life -/

inductive Stage
  | idle
  | held (held : Held)
  /-- A renewal is due. -/
  | due (held : Held)
  /-- The option has been read, to renew a lease or to acquire one. -/
  | observed (lease : Option Held) (current : Text)
  | submitted (op : Operation)
  | executed (op : Operation)
  | stored (op : Operation) (text : Text)
  /-- The server has no hooks that yield. -/
  | checked (op : Operation) (text : Text)
  | answered (op : Operation) (outcome : LeaseOutcome)
  /-- The token is to be released: no more is written with it. -/
  | retiring
  | gone

/-- `maintain_lease` at the end of an operation, when it samples the clocks once more. -/
def Operation.conclude (op : Operation) (outcome : LeaseOutcome) (completion : LeaseTime) : Stage :=
  match op, outcome with
  | .acquire _ _ submission, .won (some persisted) =>
    if ((LeaseSchedule.committed submission).action completion).1 = .revoke then .retiring
    else .held { persisted, schedule := ((LeaseSchedule.committed submission).action completion).2 }
  | .renew held _ submission, .won (some persisted) =>
    if (held.schedule.confirm submission completion).1 then
      .held { persisted, schedule := (held.schedule.confirm submission completion).2 }
    else .retiring
  | .release _, _ => .gone
  | _, _ => .retiring

/-- The operation a reading was for. -/
def operation (token : Token) (lease : Option Held) (current : Text) (submission : LeaseTime) : Operation :=
  match lease with
  | none => .acquire token current submission
  | some held => .renew held current submission

/-! ## The server and its collectors -/

/-- `stray` are the operations whose collector has given up on the server's answer. -/
structure World where
  pane : Pane
  clock : LeaseTime
  /-- What the option held at first. -/
  first : Text
  stage : Token → Stage
  stray : List Operation

namespace World

def collector (world : World) : Text := readCollector world.pane

def start (pane : Pane) (clock : LeaseTime) : World :=
  { pane, clock, first := readCollector pane, stage := fun _ => .idle, stray := [] }

def setStage (world : World) (token : Token) (stage : Stage) : World :=
  { world with stage := Function.update world.stage token stage }

end World

/-- The stages of a call that may fail with the daemon alive: its lease is then given up. -/
def Stage.underway : Stage → Bool
  | .due _ => true
  | .observed _ _ => true
  | .submitted op => op.rejectsHooks
  | .executed op => op.rejectsHooks
  | .stored op _ => op.rejectsHooks
  | .checked op _ => op.rejectsHooks
  | _ => false

/-- A move of one collector, on what the server and the clocks show it. -/
inductive Move (world : World) (token : Token) : Stage → Stage → Prop
  /-- No token is drawn twice, nor one the option has held. -/
  | acquire (fresh : ∀ expiresAt, world.first ≠ CollectorLease.encode { token, expiresAt }) :
    Move world token .idle (.observed none world.collector)
  | renew {held : Held} {expiresAt : Nat} (due : (held.schedule.action world.clock).1 = .renew expiresAt) :
    Move world token (.held held) (.due held)
  | read {held : Held} : Move world token (.due held) (.observed (some held) world.collector)
  | submit {lease : Option Held} {current : Text} :
    Move world token (.observed lease current) (.submitted (operation token lease current world.clock))
  | readBack {op : Operation} : Move world token (.executed op) (.stored op world.collector)
  | check {op : Operation} {text : Text} (quiet : op.rejectsHooks = true → noHooks world.pane = true) :
    Move world token (.stored op text) (.checked op text)
  | answer {op : Operation} {text : Text} :
    Move world token (.checked op text) (.answered op (op.answer text world.clock.epochMs))
  | conclude {op : Operation} {outcome : LeaseOutcome} :
    Move world token (.answered op outcome) (op.conclude outcome world.clock)
  /-- The schedule revokes, the daemon shuts down, or its work is stopped otherwise. -/
  | lose {held : Held} : Move world token (.held held) .retiring
  | fail {stage : Stage} (underway : stage.underway = true) : Move world token stage .retiring
  | release : Move world token .retiring (.submitted (.release token))
  | die {stage : Stage} (begun : stage ≠ .idle) : Move world token stage .gone

/-- The server ran an operation's group, on the pane as it stood. -/
structure Write where
  op : Operation
  found : Pane

/-- What is shown as the server comes to an operation. -/
def Operation.shows (op : Operation) (pane : Pane) : List Write := if op.predicate pane then [{ op, found := pane }] else []

/-- `ticks` says how the clocks may move. -/
inductive World.Step (ticks : LeaseTime → LeaseTime → Prop) (world : World) : List Write → World → Prop
  | move {token : Token} {stage : Stage} (moved : Move world token (world.stage token) stage) :
    Step ticks world [] (world.setStage token stage)
  | execute {token : Token} {op : Operation} (submitted : world.stage token = .submitted op) :
    Step ticks world (op.shows world.pane) { world.setStage token (.executed op) with pane := op.run world.pane }
  /-- The command's reply is lost, and it may run yet. -/
  | abandon {token : Token} {op : Operation} (submitted : world.stage token = .submitted op) {stage : Stage}
    (given : stage = .gone ∨ op.rejectsHooks = true ∧ stage = .retiring) :
    Step ticks world [] { world.setStage token stage with stray := op :: world.stray }
  | stray {before after : List Operation} {op : Operation} (lost : world.stray = before ++ op :: after) :
    Step ticks world (op.shows world.pane) { world with pane := op.run world.pane, stray := before ++ after }
  | tick {clock : LeaseTime} (passed : ticks world.clock clock) : Step ticks world [] { world with clock }
  /-- Any other writer leaves the option to the collectors. -/
  | write {pane : Pane} (kept : readCollector pane = world.collector) : Step ticks world [] { world with pane }

end Lease

end TmuxAgents
