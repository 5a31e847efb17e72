/-
The daemon's inbound connections (`daemon/pending.rs`, `daemon/subscribers.rs` and their part of
`daemon/serve.rs`): a connection whose frame has not arrived whole is parked until it has, until its
deadline or until 32 younger ones push it out, and one frame is dispatched in a turn of the loop.

A connection is the number it was accepted under. What a drain of its socket finds, and what its peer
takes, is the world's.
-/
import TmuxAgents.Control.Pool
import TmuxAgents.Ipc.FrameFacts

namespace TmuxAgents.Daemon

open Incremental Ipc
open Control (millis)

/-- Connections parked mid-frame at the most. -/
def maxPending : Nat := 32

/-- Connections accepted in one turn at the most. -/
def maxAccepts : Nat := 32

/-- Concurrent push subscribers. -/
def maxSubscribers : Nat := 16

/-- How long a connection may stay parked. -/
def frameDeadline : Nat := millis 2000

/-! ## One connection -/

/-- A connection parked mid-frame. -/
structure Pending where
  conn : Nat
  /-- What was read of it so far. -/
  buf : Bytes := []
  deadline : Nat
deriving DecidableEq

/-- What a drain of a socket that does not block found. -/
inductive Drained
  /-- Bytes, and then nothing for now. -/
  | more (bytes : Bytes)
  /-- Bytes, and then the end. -/
  | eof (bytes : Bytes)
  /-- Bytes, and then an error. -/
  | failed (bytes : Bytes)
deriving DecidableEq

def Drained.bytes : Drained → Bytes
  | .more bytes | .eof bytes | .failed bytes => bytes

/-- No index is out of bounds (`wire_protocol`), so there is always a status. -/
def verdict (isOpen : Bool) (buf : Bytes) : Advance Inbound := (Incremental.advance parseInbound isOpen buf).getD .drop

def Pending.advance (pending : Pending) : Drained → Pending × Advance Inbound
  | .more bytes => ({ pending with buf := pending.buf ++ bytes }, verdict true (pending.buf ++ bytes))
  | .eof bytes => ({ pending with buf := pending.buf ++ bytes }, verdict false (pending.buf ++ bytes))
  | .failed bytes => ({ pending with buf := pending.buf ++ bytes }, .drop)

def Pending.isDue (pending : Pending) (now : Nat) : Bool := decide (pending.deadline ≤ now)

/-! ## Answers -/

/-- What a dispatched frame is answered with. -/
inductive Reply
  /-- An event this daemon resolved. -/
  | ack
  /-- One it did not: the client stamps for itself. -/
  | nak
  /-- The connection is retained. -/
  | subscribed
  /-- There is no room for it, or the peer is gone. -/
  | declined
  | history
deriving DecidableEq

/-- Why a connection got a NAK before it had a frame. -/
inductive Why
  /-- Its bytes are no frame, or ended before one. -/
  | refused
  /-- Its socket failed, whatever had been read. -/
  | broken
  | expired
  /-- It was the oldest, and there were 32. -/
  | evicted
deriving DecidableEq

inductive Answer
  | dispatched (inbound : Inbound) (reply : Reply)
  | nak (why : Why)
  /-- It could not be made non-blocking, and was closed. -/
  | closed
deriving DecidableEq

/-- An answered connection, as it stood. -/
structure Answered where
  pending : Pending
  /-- When. -/
  now : Nat
  answer : Answer
deriving DecidableEq

def Answer.inbound? : Answer → Option Inbound
  | .dispatched inbound _ => some inbound
  | _ => none

/-- Why a connection is dropped on what was read. -/
def Drained.why : Drained → Why
  | .more _ | .eof _ => .refused
  | .failed _ => .broken

/-- What the world has for one turn. -/
structure Peers where
  /-- The poll reported the connection, or that it hung up. -/
  readable : Nat → Bool
  drained : Nat → Drained
  /-- Whether an event is one this daemon resolves. -/
  applies : Frame → Bool
  /-- Whether a subscriber takes its first byte. -/
  acked : Nat → Bool
  /-- The connections waiting to be accepted; `false` for one that cannot be made non-blocking. -/
  waiting : List Bool

structure Connections where
  pending : List Pending := []
  subscribers : List Nat := []
  /-- The connections accepted so far. -/
  accepted : Nat := 0
  /-- What they were answered. -/
  answered : List Answered := []
  /-- The subscribers let go. -/
  dropped : List Nat := []
  /-- What was read of each, in order. -/
  reads : List (Nat × Drained) := []
deriving DecidableEq

namespace Connections

variable (peers : Peers)

/-- The connection is retained where there is room and the peer takes a byte. -/
def registerSubscriber (s : Connections) (conn : Nat) : Connections × Reply :=
  if maxSubscribers ≤ s.subscribers.length || !peers.acked conn then (s, .declined)
  else ({ s with subscribers := s.subscribers ++ [conn] }, .subscribed)

def answer (s : Connections) (pending : Pending) (now : Nat) (answer : Answer) : Connections :=
  { s with answered := s.answered ++ [{ pending, now, answer }] }

def dispatchInbound (s : Connections) (pending : Pending) (now : Nat) (inbound : Inbound) : Connections :=
  match inbound with
  | .event frame => s.answer pending now (.dispatched inbound (if peers.applies frame then .ack else .nak))
  | .subscribe =>
    let (s, reply) := s.registerSubscriber peers pending.conn
    s.answer pending now (.dispatched inbound reply)
  | .history => s.answer pending now (.dispatched inbound .history)

/-- Kept among the parked. -/
def keep (s : Connections) (pending : Pending) : Connections := { s with pending := s.pending ++ [pending] }

/-- Parked, in the place of the oldest where there are as many as may be. -/
def admitPending (s : Connections) (pending : Pending) (now : Nat) : Connections :=
  match s.pending with
  | oldest :: rest =>
    if maxPending ≤ s.pending.length then ({ s with pending := rest }.answer oldest now (.nak .evicted)).keep pending
    else s.keep pending
  | [] => s.keep pending

def read (s : Connections) (conn : Nat) (drained : Drained) : Connections :=
  { s with reads := s.reads ++ [(conn, drained)] }

/-- A turn's connections, and whether it may dispatch a frame still. -/
structure Pass where
  conns : Connections
  hookBudget : Nat := 1
deriving DecidableEq

/-- One parked connection. -/
def parkedStep (now : Nat) (pass : Pass) (conn : Pending) : Pass :=
  if pass.hookBudget = 0 then
    { pass with
      conns := if conn.isDue now then pass.conns.answer conn now (.nak .expired) else pass.conns.keep conn }
  else if !peers.readable conn.conn && !conn.isDue now then { pass with conns := pass.conns.keep conn }
  else
    let drained := peers.drained conn.conn
    let conns := pass.conns.read conn.conn drained
    match conn.advance drained with
    | (conn, .complete inbound) =>
      { conns := conns.dispatchInbound peers conn now inbound, hookBudget := pass.hookBudget - 1 }
    | (conn, .park) =>
      { pass with conns := if conn.isDue now then conns.answer conn now (.nak .expired) else conns.keep conn }
    | (conn, .drop) => { pass with conns := conns.answer conn now (.nak drained.why) }

/-- The parked connections, oldest first. -/
def parkedPass (s : Connections) (now : Nat) : Pass :=
  s.pending.foldl (parkedStep peers now) { conns := { s with pending := [] } }

/-- The next connection to be accepted. -/
def newcomer (s : Connections) (now : Nat) : Pending := { conn := s.accepted, deadline := now + frameDeadline }

/-- One connection off the queue, where a frame may be dispatched still. -/
def acceptStep (now : Nat) (pass : Pass) (nonblocking : Bool) : Pass :=
  if pass.hookBudget = 0 then pass
  else
    let conn := pass.conns.newcomer now
    let conns := { pass.conns with accepted := pass.conns.accepted + 1 }
    if !nonblocking then { pass with conns := conns.answer conn now .closed }
    else
      let drained := peers.drained conn.conn
      let conns := conns.read conn.conn drained
      match conn.advance drained with
      | (conn, .complete inbound) =>
        { conns := conns.dispatchInbound peers conn now inbound, hookBudget := pass.hookBudget - 1 }
      | (conn, .park) => { pass with conns := conns.admitPending conn now }
      | (conn, .drop) => { pass with conns := conns.answer conn now (.nak drained.why) }

def acceptPass (pass : Pass) (now : Nat) : Pass := (peers.waiting.take maxAccepts).foldl (acceptStep peers now) pass

/-- The connections' part of one turn: the parked ones, and then the ones that wait. -/
def turn (s : Connections) (now acceptNow : Nat) : Connections := (acceptPass peers (s.parkedPass peers now) acceptNow).conns

def retain (s : Connections) (stays : Nat → Bool) : Connections :=
  { s with
    subscribers := s.subscribers.filter stays
    dropped := s.dropped ++ s.subscribers.filter fun conn => !stays conn }

/-- Every subscriber takes a wake or is let go. -/
def pushSubscribers (s : Connections) (takes : Nat → Bool) : Connections := s.retain takes

/-- What the poll says of a subscriber: nothing, a hangup, or something to read. -/
inductive Hangup
  | quiet
  | hangup
  /-- Readable: an end, stray bytes and an error are all the same. -/
  | readable (wouldBlock : Bool)
deriving DecidableEq

def Hangup.keeps : Hangup → Bool
  | .quiet => true
  | .hangup => false
  | .readable wouldBlock => wouldBlock

def reapClosedSubscribers (s : Connections) (report : Nat → Hangup) : Connections := s.retain fun conn => (report conn).keeps

/-- What is left until the soonest deadline, if any is parked. -/
def nearestDeadline (s : Connections) (now : Nat) : Option Nat := (s.pending.map fun p => p.deadline - now).min?

end Connections

end TmuxAgents.Daemon
