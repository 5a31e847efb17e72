/-
The control pool (`control.rs`): which panes have had output and have not gone quiet since, the edges
their quiet emits, the sessions whose client has just attached, and how long the loop may wait.

A map is the list of its entries, in the order it is walked. Instants and durations are
nanoseconds. What a client's bytes say of a program is the collector's; here they are activity.
-/
import TmuxAgents.Lib.Assoc
import TmuxAgents.Lib.Text
import TmuxAgents.Control.Decoder

namespace TmuxAgents.Control

def millis (n : Nat) : Nat := n * 1000000

def quietThreshold : Nat := millis 1000
def seedRetry : Nat := millis 250

/-- Buffered edges at the most. -/
def maxEdges : Nat := 1024

/-- Reads of one client in one wake. -/
def maxChunksPerRead : Nat := 64

structure ActivityEdge where
  pane : Text
  /-- Epoch milliseconds. -/
  at' : Nat
deriving DecidableEq

inductive Notification
  | output (pane : Text)
  | sessionsChanged
  | lifecycle
  | exit
deriving DecidableEq

/-- `%N`. -/
def paneText (pane : PaneId) : Text := '%' :: Text.decimal pane

/-! ## One client -/

structure ControlClient where
  decoder : Decoder := {}
  serial : Nat := 0
  /-- It has produced its first byte. -/
  attached : Bool := false
  dead : Bool := false
deriving DecidableEq

/-- One `read` of a client's standard output. -/
inductive ReadResult
  | data (chunk : Bytes)
  | eof
  | wouldBlock
  | interrupted
  | failed
deriving DecidableEq

def Notification.ofDecoded : Decoded → Option Notification
  | .start pane => some (.output (paneText pane))
  | .note .sessionsChanged => some .sessionsChanged
  | .note .lifecycle => some .lifecycle
  | .note .exit => some .exit
  | _ => none

/-- The client is defunct behind this. -/
def kills : Decoded → Bool
  | .note .exit | .fatal => true
  | _ => false

namespace ControlClient

def ingest (client : ControlClient) (enabled : Bool) (data : Bytes) : ControlClient × List Notification :=
  let (items, decoder) := client.decoder.feed enabled data
  ({ client with decoder, dead := client.dead || items.any kills }, items.filterMap Notification.ofDecoded)

/-- The end of the stream; the decoder is told only where its bytes are collected. -/
def ended (client : ControlClient) (enabled : Bool) : ControlClient :=
  { client with decoder := if enabled then client.decoder.finish.2 else client.decoder, dead := true }

/-- Reads until one would block, or as many as one wake may make. -/
def readAvailable (client : ControlClient) (enabled : Bool) : Nat → List ReadResult → ControlClient × List Notification
  | 0, _ | _, [] => (client, [])
  | fuel + 1, result :: rest =>
    match result with
    | .eof | .failed => (client.ended enabled, [])
    | .wouldBlock => (client, [])
    | .interrupted => client.readAvailable enabled fuel rest
    | .data chunk =>
      let (client, notes) := { client with attached := true }.ingest enabled chunk
      let (client, more) := client.readAvailable enabled fuel rest
      (client, notes ++ more)

end ControlClient

/-! ## The pool -/

structure ControlPool where
  quietThreshold : Nat
  /-- By session. -/
  clients : List (SessionId × ControlClient) := []
  /-- Panes that are not quiet, and when each had its last output. -/
  active : List (Text × Nat) := []
  edges : List ActivityEdge := []
  /-- Sessions whose panes are owed a look. -/
  newlyAttached : List SessionId := []
  edgesEmitted : Nat := 0
  recoveries : Nat := 0
  seedRetries : Nat := 0
  everPopulated : Bool := false
  nextClient : Nat := 0
deriving DecidableEq

structure LoopEffects where
  needReconcile : Bool := false
  needSummary : Bool := false
deriving DecidableEq

namespace ControlPool

def new (quietThreshold : Nat) : ControlPool := { quietThreshold }

def setQuietThreshold (pool : ControlPool) (quietThreshold : Nat) : ControlPool := { pool with quietThreshold }

/-! ### Activity -/

def markActive (pool : ControlPool) (now : Nat) (pane : Text) : ControlPool :=
  { pool with active := Assoc.set pool.active pane now }

/-- The panes that have been silent for the threshold. -/
def quiet (pool : ControlPool) (now : Nat) : List Text :=
  (pool.active.filter fun e => decide (pool.quietThreshold ≤ now - e.2)).map Prod.fst

/-- One edge into the queue, which drops its oldest where it is full. -/
def pushEdge (edges : List ActivityEdge) (edge : ActivityEdge) : List ActivityEdge :=
  (if maxEdges ≤ edges.length then edges.tail else edges) ++ [edge]

def emitEdge (nowEpoch : Nat) (pool : ControlPool) (pane : Text) : ControlPool :=
  { pool with
    active := Assoc.remove pool.active pane
    edges := pushEdge pool.edges { pane, at' := nowEpoch }
    edgesEmitted := pool.edgesEmitted + 1 }

def checkQuietEdges (pool : ControlPool) (now nowEpoch : Nat) : ControlPool :=
  (pool.quiet now).foldl (emitEdge nowEpoch) pool

def drainEdges (pool : ControlPool) : List ActivityEdge × ControlPool := (pool.edges, { pool with edges := [] })

/-- What is left of each active pane's deadline. -/
def remaining (pool : ControlPool) (now : Nat) : List Nat :=
  pool.active.map fun e => e.2 + pool.quietThreshold - now

/-- The nearest quiet deadline, at least 10 ms and at most the sweep; a pending seed shortens it. -/
def pollTimeout (pool : ControlPool) (now sweep : Nat) : Nat :=
  let base := match (pool.remaining now).min? with
    | some rem => min (max rem (millis 10)) sweep
    | none => sweep
  if pool.newlyAttached.isEmpty then base else min base seedRetry

def tick (pool : ControlPool) (now nowEpoch sweep : Nat) : Nat × ControlPool :=
  let pool := pool.checkQuietEdges now nowEpoch
  (pool.pollTimeout now sweep, pool)

def nextTimeout (pool : ControlPool) (now sweep : Nat) : Nat := pool.pollTimeout now sweep

def markRecheck (pool : ControlPool) (panes : List Text) (now : Nat) : ControlPool :=
  panes.foldl (markActive · now) pool

/-- The panes a topology lists in the sessions that are owed a look. -/
def owed (pool : ControlPool) (topology : List (SessionId × PaneId)) : List Text :=
  (topology.filter fun e => pool.newlyAttached.contains e.1).map fun e => paneText e.2

/-- A look at every pane of a session that has just attached; a failed read defers it. -/
def seedAttached (pool : ControlPool) (topology : Option (List (SessionId × PaneId))) (now : Nat) : ControlPool :=
  if pool.newlyAttached.isEmpty then pool
  else match topology with
    | none => { pool with seedRetries := pool.seedRetries + 1 }
    | some panes => (pool.owed panes).foldl (markActive · now) { pool with newlyAttached := [] }

def pendingSeed (pool : ControlPool) : Bool := !pool.newlyAttached.isEmpty

def isEmpty (pool : ControlPool) : Bool := pool.clients.isEmpty

/-! ### Clients -/

def readClient (pool : ControlPool) (enabled : Bool) (session : SessionId) (reads : List ReadResult) :
    ControlPool × List Notification :=
  match Assoc.get? pool.clients session with
  | none => (pool, [])
  | some client =>
    let (read, notes) := client.readAvailable enabled maxChunksPerRead reads
    ({ pool with
        clients := Assoc.set pool.clients session read
        newlyAttached := if !client.attached && read.attached then pool.newlyAttached ++ [session] else pool.newlyAttached },
      notes)

def readClients (pool : ControlPool) (enabled : Bool) : List (SessionId × List ReadResult) → ControlPool × List Notification
  | [] => (pool, [])
  | (session, reads) :: rest =>
    let (pool, notes) := pool.readClient enabled session reads
    let (pool, more) := pool.readClients enabled rest
    (pool, notes ++ more)

def hasDeadClient (pool : ControlPool) : Bool := pool.clients.any fun e => e.2.dead

def dispatchNote (now : Nat) (state : ControlPool × LoopEffects) : Notification → ControlPool × LoopEffects
  | .output pane => (state.1.markActive now pane, state.2)
  | .sessionsChanged | .exit => (state.1, { state.2 with needReconcile := true })
  | .lifecycle => (state.1, { needReconcile := true, needSummary := true })

/-- Every ready client is read, and then what they said is dispatched. -/
def dispatchReady (pool : ControlPool) (enabled : Bool) (ready : List (SessionId × List ReadResult)) (now : Nat) :
    ControlPool × LoopEffects :=
  let (pool, notes) := pool.readClients enabled ready
  let (pool, effects) := notes.foldl (dispatchNote now) (pool, {})
  (pool, if pool.hasDeadClient then { effects with needReconcile := true } else effects)

/-- A client for a session that lacks one, if it can be spawned. -/
def attach (spawned : SessionId → Bool) (pool : ControlPool) (session : SessionId) : ControlPool :=
  if (Assoc.get? pool.clients session).isNone && spawned session then
    { pool with
      nextClient := pool.nextClient + 1
      clients := Assoc.set pool.clients session { serial := pool.nextClient + 1 } }
  else pool

/-- Membership follows the server's sessions. A listing that failed still reaps the dead. -/
def reconcile (pool : ControlPool) (sessions : Option (List SessionId)) (spawned : SessionId → Bool) : ControlPool :=
  let living := pool.clients.filter fun e => !e.2.dead
  match sessions with
  | none => { pool with clients := living }
  | some sessions =>
    let survivors := living.filter fun e => sessions.contains e.1
    let pool := sessions.foldl (attach spawned)
      { pool with
        clients := survivors
        recoveries := if pool.everPopulated && survivors.isEmpty && !sessions.isEmpty then pool.recoveries + 1
          else pool.recoveries }
    { pool with everPopulated := pool.everPopulated || !pool.clients.isEmpty }

end ControlPool

end TmuxAgents.Control
