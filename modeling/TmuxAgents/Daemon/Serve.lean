/-
The daemon's loop (`daemon/serve.rs`): what one turn does to the control pool, the connections and the
repair sweep, and how long it may wait for the next.

Instants are nanoseconds of the monotone clock. How long each stretch of a turn takes, what the poll
reports and what tmux answers are the world's. The capture tier, notifications, window names and the
program service are elsewhere: here they take time, ask for another look at a pane, and shorten the
wait. A turn that ends the loop is not in a run.
-/
import TmuxAgents.Control.QuietEdges
import TmuxAgents.Daemon.Connections

namespace TmuxAgents.Daemon

open Control

/-! ## Timeouts -/

def effectiveSweep (poolEmpty : Bool) (sweep emptyPoolRecheck : Nat) : Nat :=
  if poolEmpty then min sweep emptyPoolRecheck else sweep

/-- Until the next sweep is due, and 10 ms where it is. -/
def untilSweep (lastSweep now sweep : Nat) : Nat := max (sweep - (now - lastSweep)) (millis 10)

def sweepDue (lastSweep now sweep : Nat) : Bool := decide (sweep ≤ now - lastSweep)

def boundedPollTimeout (control : Nat) (pending program : Option Nat) : Nat :=
  (pending.toList ++ program.toList).foldl min control

/-! ## One turn -/

/-- What a reload of the configuration changes. -/
structure Reload where
  quietThreshold : Nat
  sweep : Nat
  emptyPoolRecheck : Nat
  /-- The program service was replaced: membership is listed again, and the subscribers are woken. -/
  relisted : Option (Option (List SessionId)) := none

/-- What the world has for one turn, in the order the loop meets it. -/
structure Turn where
  toSweep : Nat := 0
  toTick : Nat := 0
  nowEpoch : Nat := 0
  /-- What the program service would wait, if there is one. -/
  programTick : Option Nat := none
  /-- The fold of the drained edges changed something. -/
  changed : Bool := false
  /-- Panes that are owed one more look. -/
  due : List Text := []
  toRecheck : Nat := 0
  toNext : Nat := 0
  toNearest : Nat := 0
  programPoll : Option Nat := none
  waited : Nat := 0
  /-- A signal cut the poll short. -/
  interrupted : Bool := false
  /-- No descriptor was ready. -/
  timedOut : Bool := false
  report : Nat → Connections.Hangup := fun _ => .quiet
  toReload : Nat := 0
  reload : Option Reload := none
  toReady : Nat := 0
  enabled : Bool := false
  ready : List (SessionId × List ReadResult) := []
  toSeed : Nat := 0
  topology : Option (List (SessionId × PaneId)) := none
  sessions : Option (List SessionId) := none
  spawned : SessionId → Bool := fun _ => true
  toPass : Nat := 0
  peers : Peers
  toAccept : Nat := 0
  toDue : Nat := 0
  /-- The sweep's cycle came back. -/
  swept : Bool := true
  sweepTook : Nat := 0
  /-- The subscribers that take a wake. -/
  takes : Nat → Bool := fun _ => true

namespace Turn

variable (t : Turn) (clock : Nat)

def sweepNow : Nat := clock + t.toSweep
def tickNow : Nat := t.sweepNow clock + t.toTick
def recheckNow : Nat := t.tickNow clock + t.toRecheck
def nextNow : Nat := t.recheckNow clock + t.toNext
def nearestNow : Nat := t.nextNow clock + t.toNearest
def wakeNow : Nat := t.nearestNow clock + t.waited
def reloadNow : Nat := t.wakeNow clock + t.toReload
def readyNow : Nat := t.reloadNow clock + t.toReady
def seedNow : Nat := t.readyNow clock + t.toSeed
def passNow : Nat := t.seedNow clock + t.toPass
def acceptNow : Nat := t.passNow clock + t.toAccept
def dueNow : Nat := t.acceptNow clock + t.toDue

/-- All a turn takes but its wait. -/
def work : Nat :=
  t.toSweep + t.toTick + t.toRecheck + t.toNext + t.toNearest + t.toReload + t.toReady + t.toSeed + t.toPass +
    t.toAccept + t.toDue + t.sweepTook

end Turn

structure Serve where
  pool : ControlPool
  conns : Connections := {}
  sweep : Nat
  emptyPoolRecheck : Nat
  lastSweep : Nat := 0
  clock : Nat := 0

namespace Serve

def start (quietThreshold sweep emptyPoolRecheck : Nat) : Serve := { pool := .new quietThreshold, sweep, emptyPoolRecheck }

/-- The sweep's share of the wait. -/
def iterSweep (s : Serve) (t : Turn) : Nat :=
  effectiveSweep s.pool.isEmpty (untilSweep s.lastSweep (t.sweepNow s.clock) s.sweep) s.emptyPoolRecheck

/-- Quiet edges go out before any frame comes in. A pane that is owed one more look is active again, and that
deadline counts. -/
def beforePoll (s : Serve) (t : Turn) : Serve × Nat :=
  let (timeout, pool) := s.pool.tick (t.tickNow s.clock) t.nowEpoch (s.iterSweep t)
  let timeout := boundedPollTimeout timeout none t.programTick
  let pool := pool.drainEdges.2
  let conns := if t.changed then s.conns.pushSubscribers t.takes else s.conns
  let marked := pool.markRecheck t.due (t.recheckNow s.clock)
  let (pool, timeout) :=
    if t.due.isEmpty then (pool, timeout) else (marked, marked.nextTimeout (t.nextNow s.clock) (s.iterSweep t))
  let pollTo := boundedPollTimeout timeout (conns.nearestDeadline (t.nearestNow s.clock)) t.programPoll
  ({ s with pool, conns }, pollTo)

def reloaded (s : Serve) (t : Turn) (reload : Reload) : Serve :=
  let s := match reload.relisted with
    | some sessions =>
      { s with pool := s.pool.reconcile sessions t.spawned, conns := s.conns.pushSubscribers t.takes }
    | none => s
  { s with
    pool := s.pool.setQuietThreshold reload.quietThreshold
    sweep := reload.sweep
    emptyPoolRecheck := reload.emptyPoolRecheck }

/-- The subscribers that hung up are gone, and a reload is in force. -/
def woken (s : Serve) (t : Turn) : Serve :=
  let s := { s with conns := s.conns.reapClosedSubscribers t.report }
  t.reload.elim s (s.reloaded t)

/-- The control clients' part: what they said, the look that new ones are owed, and membership. -/
def controls (t : Turn) (clock : Nat) (pool : ControlPool) : ControlPool × LoopEffects :=
  let (pool, effects) := pool.dispatchReady t.enabled t.ready (t.readyNow clock)
  let pool := pool.seedAttached t.topology (t.seedNow clock)
  (if effects.needReconcile || t.timedOut then pool.reconcile t.sessions t.spawned else pool, effects)

/-- Control data, parked connections and those that wait, then the sweep, and a wake for the subscribers where
anything they may see has changed. -/
def afterPoll (s : Serve) (t : Turn) (clock : Nat) : Serve :=
  let s := s.woken t
  let (pool, effects) := controls t clock s.pool
  let conns := s.conns.turn t.peers (t.passNow clock) (t.acceptNow clock)
  let due := sweepDue s.lastSweep (t.dueNow clock) s.sweep
  let sweptAt := t.dueNow clock + t.sweepTook
  let outward := effects.needSummary || conns.dispatched != s.conns.dispatched || (due && t.swept)
  { s with
    pool
    conns := if outward then conns.pushSubscribers t.takes else conns
    lastSweep := if due then sweptAt else s.lastSweep
    clock := if due then sweptAt else t.dueNow clock }

def turn (s : Serve) (t : Turn) : Serve :=
  let polled := (s.beforePoll t).1
  if t.interrupted then { polled with clock := t.wakeNow s.clock } else polled.afterPoll t s.clock

/-! ## What the layers below say of a turn -/

/-- The pool's share of a turn, as its own operations. -/
def poolOps (s : Serve) (t : Turn) : List PoolOp :=
  let relist (sessions : Option (List SessionId)) : PoolOp := .reconcile sessions t.spawned
  let reload := t.reload.elim [] fun reload =>
    (reload.relisted.elim [] fun sessions => [relist sessions]) ++ [.reload reload.quietThreshold]
  let ready : PoolOp := .dispatch t.enabled t.ready (t.readyNow s.clock)
  let effects := (controls t s.clock ((s.beforePoll t).1.woken t).pool).2
  [.tick (t.tickNow s.clock) t.nowEpoch (s.iterSweep t), .drain, .recheck t.due (t.recheckNow s.clock)] ++
    if t.interrupted then []
    else reload ++ [ready, .seed t.topology (t.seedNow s.clock)] ++
      if effects.needReconcile || t.timedOut then [relist t.sessions] else []

theorem beforePoll_pool (s : Serve) (t : Turn) : (s.beforePoll t).1.pool =
    [PoolOp.tick (t.tickNow s.clock) t.nowEpoch (s.iterSweep t), .drain, .recheck t.due (t.recheckNow s.clock)].foldl
      Watched.next s.pool := by
  unfold beforePoll
  dsimp only
  split
  next hdue =>
    rw [List.isEmpty_iff.mp hdue]
    rfl
  next => rfl

theorem controls_pool (t : Turn) (clock : Nat) (pool : ControlPool) : (controls t clock pool).1 =
    ([PoolOp.dispatch t.enabled t.ready (t.readyNow clock), .seed t.topology (t.seedNow clock)] ++
      if (controls t clock pool).2.needReconcile || t.timedOut then [PoolOp.reconcile t.sessions t.spawned] else []).foldl
      Watched.next pool := by
  have heffects : (controls t clock pool).2 = (pool.dispatchReady t.enabled t.ready (t.readyNow clock)).2 := rfl
  rw [heffects]
  unfold controls
  dsimp only
  split
  · rfl
  · rfl

theorem turn_pool (s : Serve) (t : Turn) : (s.turn t).pool = (s.poolOps t).foldl Watched.next s.pool := by
  unfold turn poolOps
  dsimp only
  rw [List.foldl_append, ← beforePoll_pool]
  split
  next => rfl
  next =>
    rw [List.append_assoc, List.foldl_append]
    have hwoken : ((s.beforePoll t).1.woken t).pool =
        (t.reload.elim [] fun reload =>
          (reload.relisted.elim [] fun sessions => [PoolOp.reconcile sessions t.spawned]) ++
            [.reload reload.quietThreshold]).foldl Watched.next (s.beforePoll t).1.pool := by
      unfold woken
      cases t.reload with
      | none => rfl
      | some reload =>
        dsimp only [Option.elim, reloaded]
        cases reload.relisted with
        | none => rfl
        | some sessions => rfl
    rw [← hwoken]
    exact controls_pool t s.clock ((s.beforePoll t).1.woken t).pool

/-- The pool of a running loop is the pool of a run of its operations, so what holds of every such run holds of it. -/
theorem run_pool (s : Serve) (turns : List Turn) :
    ∃ ops, (Run.run Serve.turn s turns).pool = (Run.run Watched.step { pool := s.pool, log := [] } ops).pool := by
  have hfold : ∀ (ops : List PoolOp) (w : Watched), (Run.run Watched.step w ops).pool = ops.foldl Watched.next w.pool := by
    intro ops
    induction ops with
    | nil => exact fun _ => rfl
    | cons op ops ih => exact fun w => ih (w.step op)
  induction turns using List.reverseRecOn with
  | nil => exact ⟨[], rfl⟩
  | append_singleton turns t ih =>
    obtain ⟨ops, hops⟩ := ih
    refine ⟨ops ++ (Run.run Serve.turn s turns).poolOps t, ?_⟩
    rw [Run.run_concat, Run.run_append, hfold, ← hops]
    exact turn_pool _ t

theorem connections_held {s : Serve} (h : s.conns.Held [] [] s.clock ∧ s.conns.pending.length ≤ maxPending) (t : Turn) :
    (s.turn t).conns.Held [] [] (s.turn t).clock ∧ (s.turn t).conns.pending.length ≤ maxPending := by
  obtain ⟨hheld, hlen⟩ := h
  have hpolled : (s.beforePoll t).1.conns.Held [] [] s.clock ∧
      (s.beforePoll t).1.conns.pending.length ≤ maxPending := by
    unfold beforePoll
    dsimp only
    split
    · exact ⟨hheld.retain t.takes, hlen⟩
    · exact ⟨hheld, hlen⟩
  unfold turn
  dsimp only
  split
  next =>
    refine ⟨hpolled.1.mono ?_, hpolled.2⟩
    dsimp only
    unfold Turn.wakeNow Turn.nearestNow Turn.nextNow Turn.recheckNow Turn.tickNow Turn.sweepNow
    omega
  next =>
    have hwoken : ((s.beforePoll t).1.woken t).conns.Held [] [] s.clock ∧
        ((s.beforePoll t).1.woken t).conns.pending.length ≤ maxPending := by
      unfold woken
      cases t.reload with
      | none => exact ⟨hpolled.1.retain _, hpolled.2⟩
      | some reload =>
        dsimp only [Option.elim, reloaded]
        cases reload.relisted with
        | none => exact ⟨hpolled.1.retain _, hpolled.2⟩
        | some sessions => exact ⟨(hpolled.1.retain _).retain t.takes, hpolled.2⟩
    have hclock : s.clock ≤ t.acceptNow s.clock := by
      unfold Turn.acceptNow Turn.passNow Turn.seedNow Turn.readyNow Turn.reloadNow Turn.wakeNow Turn.nearestNow Turn.nextNow
        Turn.recheckNow Turn.tickNow Turn.sweepNow
      omega
    have hturn : (((s.beforePoll t).1.woken t).conns.turn t.peers (t.passNow s.clock) (t.acceptNow s.clock)).Held [] []
        (t.acceptNow s.clock) := hwoken.1.turn t.peers hclock
    have hroom := ((s.beforePoll t).1.woken t).conns.turn_bounded t.peers (t.passNow s.clock) (t.acceptNow s.clock) hwoken.2
    have hend : t.acceptNow s.clock ≤ ((s.beforePoll t).1.afterPoll t s.clock).clock := by
      unfold afterPoll Turn.dueNow
      dsimp only
      split
      · omega
      · omega
    have hconns : ((s.beforePoll t).1.afterPoll t s.clock).conns.Held [] [] (t.acceptNow s.clock) ∧
        ((s.beforePoll t).1.afterPoll t s.clock).conns.pending.length ≤ maxPending := by
      unfold afterPoll
      dsimp only
      split
      · exact ⟨hturn.retain t.takes, hroom⟩
      · exact ⟨hturn, hroom⟩
    exact ⟨hconns.1.mono hend, hconns.2⟩

/-- The connections of a running loop are settled between its turns. -/
theorem run_settled (quietThreshold sweep emptyPoolRecheck : Nat) (turns : List Turn) :
    (Run.run Serve.turn (start quietThreshold sweep emptyPoolRecheck) turns).conns.Settled := by
  have hheld := Run.invariant Serve.turn (fun s => s.conns.Held [] [] s.clock ∧ s.conns.pending.length ≤ maxPending)
    (fun s t h => connections_held h t) (s := start quietThreshold sweep emptyPoolRecheck) (Clocked.held []) turns
  exact hheld.1.settled hheld.2

end Serve

end TmuxAgents.Daemon
