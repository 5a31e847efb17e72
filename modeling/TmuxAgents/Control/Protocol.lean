/-
The collector (`control/protocol.rs`): one scanner per tracked pane, a bounded
queue of the events they emit, and the invalidations that end a pane's
observation epoch, held outside the queue.

A method that can panic (a subtraction, an `expect`) answers `none` there. The
loop of `setPayloadBudget` runs on fuel, one unit more than there are pending
bytes; it too answers `none` when the fuel runs out. `usize` and `u64` additions are
natural: a counter that would overflow one ends the program.
-/
import Mathlib.Data.Prod.Lex
import TmuxAgents.Lib.Checked
import TmuxAgents.Lib.Choose
import TmuxAgents.Lib.SortedMap
import TmuxAgents.Control.Terminal

namespace TmuxAgents

open Checked

/-- At most 1024 immediate events and 1 MiB of decoded owned payload. -/
def maxProgramEvents : Nat := 1024
def maxProgramPayloadBytes : Nat := 1024 * 1024

/-- `usize::MAX` on a 64-bit machine. -/
def usizeMax : Nat := 2 ^ 64 - 1

/-- The fresh eligible interval after process binding: events with this connection and a
sequence strictly above the floor qualify. -/
structure ObservationBoundary where
  connection : ConnectionEpoch
  sequenceFloor : ObservationSequence
deriving DecidableEq

structure ProgramStreamState where
  connection : ConnectionEpoch
  pendingGap : Option ObservationGap
deriving DecidableEq

/-- Gaps precede every observation in a drain. -/
structure ProgramDrain where
  allInvalidated : Bool := false
  invalidations : List ObservedEvent := []
  observations : List ObservedEvent := []
deriving DecidableEq

inductive Note
  | sessionsChanged
  | lifecycle
  | exit
deriving DecidableEq

/-- What the control-stream decoder hands on. -/
inductive Decoded
  | start (pane : PaneId)
  | byte (pane : PaneId) (byte : UInt8)
  | end_ (pane : PaneId)
  | pause (pane : PaneId)
  | continue_ (pane : PaneId)
  | gap (pane : Option PaneId) (reason : ObservationGap)
  | fatal
  | note (note : Note)
deriving DecidableEq

structure PaneStream where
  owner : SessionId
  client : Nat
  epoch : ConnectionEpoch
  sequence : Nat
  scanner : Scanner
  pendingGap : Option ObservedEvent
  paused : Bool
  /-- Binding during a notification must not qualify a pre-boundary escape or report
  completed later in that same notification. -/
  quarantine : Bool
deriving DecidableEq

structure Collector where
  panes : SortedMap PaneId PaneStream := .empty
  queue : List ObservedEvent := []
  queuedBytes : Nat := 0
  candidateBytes : Nat := 0
  payloadBudget : Nat := usizeMax
  epoch : Nat := 0
  topologyReady : Bool := false
  allInvalidated : Bool := false
  departed : SortedMap PaneId ObservedEvent := .empty
  overflows : Nat := 0
  retiredRejections : Nat := 0
  /-- History only, read by no method: every invalidation created, oldest first. -/
  created : List ObservedEvent := []
deriving DecidableEq

/-- The pane an item is addressed to, for the items a collector handles per pane. -/
def Decoded.pane? : Decoded → Option PaneId
  | .start pane | .byte pane _ | .end_ pane | .pause pane | .continue_ pane | .gap (some pane) _ => some pane
  | _ => none

namespace Collector

def withEpoch (epoch : Nat) : Collector := { epoch }

def owner (c : Collector) (pane : PaneId) : Option (SessionId × Nat) :=
  (c.panes.get? pane).map fun stream => (stream.owner, stream.client)

def stream (c : Collector) (pane : PaneId) : Option ProgramStreamState :=
  if !c.topologyReady || c.allInvalidated then none
  else
    (c.panes.get? pane).map fun stream =>
      { connection := stream.epoch
        pendingGap := stream.pendingGap.bind fun event =>
          match event.event with
          | .gap reason => some reason
          | _ => none }

def pendingBytes (c : Collector) : Nat := c.queuedBytes + c.candidateBytes

/-! ## Invalidation -/

def discardQueued (c : Collector) (pane : PaneId) : Collector :=
  let queue := c.queue.filter fun event => event.pane != pane
  { c with queue, queuedBytes := (queue.map fun event => payloadBytes event.event).sum }

/-- The runtime must release retained payload even if another boundary arrives before it
drains this loss, so a pending budget cause stays at the latest epoch. -/
def gapReason (pendingGap : Option ObservedEvent) (reason : ObservationGap) : ObservationGap :=
  if pendingGap.any fun event => event.event == .gap .budgetExceeded then .budgetExceeded else reason

/-- The stream an invalidation leaves, in its new epoch. -/
def invalidated (pane : PaneId) (epoch : Nat) (reason : ObservationGap) (lost : Bool) (stream : PaneStream) :
    PaneStream :=
  { stream with
    epoch
    sequence := stream.sequence + 1
    scanner := if lost then stream.scanner.loss else stream.scanner.boundary
    pendingGap := some
      { pane, connection := epoch, sequence := stream.sequence + 1
        event := .gap (gapReason stream.pendingGap reason) } }

def invalidate (c : Collector) (pane : PaneId) (reason : ObservationGap) (lost : Bool) : Option Collector :=
  match c.panes.get? pane with
  | none => some c
  | some stream => do
    let c := c.discardQueued pane
    let epoch := c.epoch + 1
    let candidateBytes ← usub c.candidateBytes stream.scanner.pendingBytes
    let stream := invalidated pane epoch reason lost stream
    return { c with
      epoch, candidateBytes
      panes := c.panes.insert pane stream
      created := c.created ++ stream.pendingGap.toList }

def invalidateAll (c : Collector) (panes : List PaneId) (reason : ObservationGap) (lost : Bool) :
    Option Collector :=
  panes.foldlM (fun c pane => c.invalidate pane reason lost) c

/-! ## Budget -/

/-- The bytes a pane holds: its candidate and its queued payloads. -/
def paneBytes (c : Collector) (pane : PaneId) (stream : PaneStream) : Nat :=
  stream.scanner.pendingBytes +
    ((c.queue.filter fun event => event.pane == pane).map fun event => payloadBytes event.event).sum

/-- The pane that holds the most, the highest of equals. -/
def victim (c : Collector) : Option PaneId :=
  (Choose.maxByKey (fun found : Nat × PaneId => toLex found)
    ((c.panes.entries.map fun (pane, stream) => (c.paneBytes pane stream, pane)).filter
      fun (bytes, _) => 0 < bytes)).map (·.2)

/-- `while pending_bytes() > available`, with the fuel left. -/
def evictPanes (available : Nat) : Nat → Collector → Option Collector
  | 0, _ => none
  | fuel + 1, c =>
    if c.pendingBytes > available then
      match c.victim with
      | none => some c
      | some pane => do
        let c ← c.invalidate pane .budgetExceeded false
        evictPanes available fuel c
    else some c

/-- Lowering the allowance immediately revokes whole affected panes, never just rows. -/
def setPayloadBudget (c : Collector) (available : Nat) : Option Collector :=
  evictPanes available (c.pendingBytes + 1) { c with payloadBudget := available }

/-! ## Topology -/

/-- On a failed topology read, stop all protocol delivery until a successful read. -/
def topologyFailed (c : Collector) : Option Collector :=
  { c with topologyReady := false }.invalidateAll c.panes.keys .framingLoss true

/-- The sessions with a client that show each pane. -/
def eligiblePanes (topology : List (SessionId × PaneId)) (clients : SortedMap SessionId Nat) :
    SortedMap PaneId (SortedMap SessionId Unit) :=
  topology.foldl (fun eligible (session, pane) =>
    if clients.contains session then
      eligible.insert pane (((eligible.get? pane).getD .empty).insert session ())
    else eligible) .empty

/-- A pane left the topology. -/
def removePane (c : Collector) (pane : PaneId) : Option Collector := do
  let c ← c.invalidate pane .ownerChanged false
  let stream ← c.panes.get? pane
  let c := { c with
    panes := c.panes.erase pane
    retiredRejections := c.retiredRejections + stream.scanner.rejected }
  if c.departed.size ≥ maxProgramEvents && !c.departed.contains pane then
    -- Only pathological topology churn without a consumer drain reaches this fallback.
    let c := { c with
      overflows := c.overflows + 1
      allInvalidated := true
      departed := .empty
      queue := []
      queuedBytes := 0 }
    c.invalidateAll c.panes.keys .queueOverflow false
  else
    match stream.pendingGap with
    | some gap => return { c with departed := c.departed.insert pane gap }
    | none => return c

/-- A pane keeps its owner while that session shows it, or takes the first. -/
def selectOwner (c : Collector) (pane : PaneId) (sessions : SortedMap SessionId Unit) : Option SessionId :=
  match (c.panes.get? pane).filter fun stream => sessions.contains stream.owner with
  | some stream => some stream.owner
  | none => sessions.keys.head?

/-- A pane of the topology, with the sessions that show it. -/
def selectPane (clients : SortedMap SessionId Nat) (c : Collector) (found : PaneId × SortedMap SessionId Unit) :
    Option Collector := do
  let pane := found.1
  let owner ← c.selectOwner pane found.2
  let client ← clients.get? owner
  match c.panes.get? pane with
  | some stream =>
    if stream.owner = owner ∧ stream.client = client then return c
    else do
      let c ← c.invalidate pane .ownerChanged true
      let stream ← c.panes.get? pane
      return { c with
        panes := c.panes.insert pane { stream with owner, client, paused := false, quarantine := false } }
  | none =>
    let epoch := c.epoch + 1
    return { c with
      epoch
      panes := c.panes.insert pane
        { owner, client, epoch, sequence := 0, scanner := .unsynchronized, pendingGap := none
          paused := false, quarantine := false } }

def reconcile (c : Collector) (topology : List (SessionId × PaneId)) (clients : SortedMap SessionId Nat) :
    Option Collector := do
  let eligible := eligiblePanes topology clients
  let removed := c.panes.keys.filter fun pane => !eligible.contains pane
  let c ← removed.foldlM removePane c
  let c ← eligible.entries.foldlM (selectPane clients) c
  return { c with topologyReady := true }

def clientGap (c : Collector) (session : SessionId) (reason : ObservationGap) : Option Collector :=
  c.invalidateAll ((c.panes.entries.filter fun (_, stream) => stream.owner == session).map (·.1)) reason true

def boundary (c : Collector) (pane : PaneId) (inPayload : Bool) :
    Option (Option ObservationBoundary × Collector) := do
  let c ← c.invalidate pane .ownerChanged false
  match c.panes.get? pane with
  | none => return (none, c)
  | some stream =>
    return (some { connection := stream.epoch, sequenceFloor := stream.sequence },
      { c with panes := c.panes.insert pane { stream with quarantine := inPayload } })

/-! ## Decoded items -/

def enqueue (c : Collector) (pane : PaneId) (event : ProgramEvent) : Option Collector := do
  let bytes := payloadBytes event
  let available ← usub c.payloadBudget c.pendingBytes
  if bytes > available then c.invalidate pane .budgetExceeded false
  else if c.queue.length ≥ maxProgramEvents ∨ c.queuedBytes + bytes > maxProgramPayloadBytes then
    let c := { c with overflows := c.overflows + 1 }
    c.invalidate pane .queueOverflow false
  else do
    let stream ← c.panes.get? pane
    let sequence := stream.sequence + 1
    return { c with
      panes := c.panes.insert pane { stream with sequence }
      queue := c.queue ++ [{ pane, connection := stream.epoch, sequence, event }]
      queuedBytes := c.queuedBytes + bytes }

/-- The collector with a pane's scanner replaced, and its candidate charged. -/
def chargeScanner (c : Collector) (pane : PaneId) (stream : PaneStream) (scanner : Scanner) : Option Collector := do
  let rest ← usub c.candidateBytes stream.scanner.pendingBytes
  return { c with
    panes := c.panes.insert pane { stream with scanner }
    candidateBytes := rest + scanner.pendingBytes }

variable [Base64]

/-- A byte of a stream that is not paused. -/
def decodedByte (c : Collector) (pane : PaneId) (stream : PaneStream) (byte : UInt8) : Option Collector :=
  if stream.quarantine then c.chargeScanner pane stream (stream.scanner.feedQuarantined byte)
  else do
    let (event, scanner) := stream.scanner.feed byte
    let c ← c.chargeScanner pane stream scanner
    if c.pendingBytes > c.payloadBudget then c.invalidate pane .budgetExceeded false
    else
      match event with
      | some event => c.enqueue pane event
      | none => return c

/-- The end of the notification a boundary fell in. -/
def decodedEnd (c : Collector) (pane : PaneId) (stream : PaneStream) : Option Collector := do
  let candidateBytes ← usub c.candidateBytes stream.scanner.pendingBytes
  return { c with
    candidateBytes
    panes := c.panes.insert pane { stream with scanner := stream.scanner.boundary, quarantine := false } }

/-- The stream an item is accepted for: a tracked pane's, from its owner's current client. -/
def accepts (c : Collector) (session : SessionId) (client : Nat) (pane : PaneId) : Option PaneStream :=
  if c.topologyReady then
    (c.panes.get? pane).filter fun stream => stream.owner == session && stream.client == client
  else none

def decoded (c : Collector) (session : SessionId) (client : Nat) (item : Decoded) : Option Collector :=
  match item with
  | .gap none reason => c.clientGap session reason
  | _ =>
    match item.pane? with
    | none => some c
    | some pane =>
      match c.accepts session client pane with
      | none => some c
      | some stream =>
        match item with
        | .pause _ => { c with panes := c.panes.insert pane { stream with paused := true } }.invalidate
            pane .paused true
        | .continue_ _ => { c with panes := c.panes.insert pane { stream with paused := false } }.invalidate
            pane .paused true
        | .gap _ reason => c.invalidate pane reason true
        | .byte _ byte => if stream.paused then some c else c.decodedByte pane stream byte
        | .end_ _ => if stream.quarantine then c.decodedEnd pane stream else some c
        | _ => some c

/-! ## Drain -/

def drain (c : Collector) : ProgramDrain × Collector :=
  ({ allInvalidated := c.allInvalidated
     invalidations := c.departed.values ++ c.panes.values.filterMap fun stream => stream.pendingGap
     observations := c.queue },
   { c with
     departed := .empty
     panes := c.panes.mapValues fun stream => { stream with pendingGap := none }
     queuedBytes := 0
     allInvalidated := false
     queue := [] })

end Collector

end TmuxAgents
