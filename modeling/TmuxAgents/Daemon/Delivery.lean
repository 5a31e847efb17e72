/-
A hook's event on its way (`DaemonSink::deliver` of `ipc.rs`, and its caller in `event.rs`): the hook
sends the event to the daemon and waits for one byte. Only an ACK is a delivery. After anything else
(a NAK, the end, no answer in time, a write that fails) the hook stamps the pane itself, as it does
where it cannot connect.

The hooks are composed here with the daemon's connections, under the numbers they are accepted by.
What the daemon has read of a hook's connection is the start of what that hook has written.
-/
import Mathlib.Logic.Function.Basic
import Mathlib.Logic.Relation
import TmuxAgents.Daemon.Connections

namespace TmuxAgents.Daemon

open Incremental Ipc

/-! ## The hooks and the daemon -/

/-- How far `deliver` has come. -/
inductive Stage
  | writing
  /-- All is written, and the answer is waited for. -/
  | awaiting
  | acked
  /-- The daemon's answer was read, and is none. -/
  | nacked
  /-- A write failed, or no answer came, in time or before the end. -/
  | gaveUp
deriving DecidableEq

/-- What `deliver` returned. -/
def Stage.delivered : Stage → Option Bool
  | .writing | .awaiting => none
  | .acked => some true
  | .nacked | .gaveUp => some false

structure Hook where
  event : Frame
  /-- What it has written so far. -/
  sent : Bytes := []
  stage : Stage := .writing

/-- The hook applies its event itself. -/
def Hook.stamps (hook : Hook) : Prop := hook.stage.delivered = some false

/-- An answer whose byte is an ACK. -/
def Answer.acks : Answer → Bool
  | .dispatched (.event _) .ack => true
  | _ => false

/-- A step of `deliver`, on what the daemon has answered so far. -/
inductive Hook.Step (conns : Connections) (conn : Nat) (hook : Hook) : Hook → Prop
  | write {piece : Bytes} (writing : hook.stage = .writing) (onward : hook.sent ++ piece <+: hook.event.encode) :
    Step conns conn hook { hook with sent := hook.sent ++ piece }
  | written (writing : hook.stage = .writing) (whole : hook.sent = hook.event.encode) :
    Step conns conn hook { hook with stage := .awaiting }
  | read {a : Answered} (awaiting : hook.stage = .awaiting) (answered : a ∈ conns.answered) (own : a.pending.conn = conn) :
    Step conns conn hook { hook with stage := if a.answer.acks then .acked else .nacked }
  | giveUp (underway : hook.stage.delivered = none) : Step conns conn hook { hook with stage := .gaveUp }

/-- The daemon, and the hooks by their connections. Any other client may hold the rest. -/
structure World where
  daemon : Clocked := {}
  hooks : Nat → Option Hook := fun _ => none

namespace World

def setHook (world : World) (conn : Nat) (hook : Hook) : World :=
  { world with hooks := Function.update world.hooks conn (some hook) }

@[simp] theorem hooks_setHook (world : World) (conn : Nat) (hook : Hook) :
    (world.setHook conn hook).hooks conn = some hook := Function.update_self ..

inductive Step (world : World) : World → Prop
  | connect {conn : Nat} (event : Frame) (waits : world.daemon.conns.accepted ≤ conn) (free : world.hooks conn = none) :
    Step world (world.setHook conn { event })
  | hook {conn : Nat} {hook hook' : Hook} (found : world.hooks conn = some hook)
    (moved : hook.Step world.daemon.conns conn hook') : Step world (world.setHook conn hook')
  /-- A socket gives what was written into it, in order. -/
  | daemon (op : ConnOp)
    (inOrder : ∀ conn hook, world.hooks conn = some hook → (world.daemon.step op).conns.received conn <+: hook.sent) :
    Step world { world with daemon := world.daemon.step op }

/-- The daemon resolved what the connection sent. -/
def Applied (world : World) (conn : Nat) : Prop :=
  ∃ a ∈ world.daemon.conns.answered, a.pending.conn = conn ∧ a.answer.acks = true

end World

/-! ## Answers stay -/

namespace Connections

variable {s : Connections}

theorem answered_answer (pending : Pending) (now : Nat) (found : Answer) :
    s.answered <+: (s.answer pending now found).answered := List.prefix_append _ _

theorem answered_dispatchInbound (peers : Peers) (pending : Pending) (now : Nat) (inbound : Inbound) :
    s.answered <+: (s.dispatchInbound peers pending now inbound).answered := by
  cases inbound with
  | event frame => exact answered_answer pending now _
  | history => exact answered_answer pending now _
  | subscribe =>
    simp only [dispatchInbound, registerSubscriber]
    split
    · exact answered_answer pending now _
    · exact List.prefix_append _ _

theorem answered_admitPending (pending : Pending) (now : Nat) :
    s.answered <+: (s.admitPending pending now).answered := by
  unfold admitPending
  split
  next oldest rest hpending =>
    split
    · exact List.prefix_append _ _
    · exact List.prefix_rfl
  next => exact List.prefix_rfl

theorem answered_parkedStep (peers : Peers) (now : Nat) (pass : Pass) (pending : Pending) :
    pass.conns.answered <+: (parkedStep peers now pass pending).conns.answered := by
  unfold parkedStep
  split
  next =>
    dsimp only
    split
    · exact answered_answer pending now _
    · exact List.prefix_rfl
  next =>
    split
    next => exact List.prefix_rfl
    next =>
      dsimp only
      generalize pending.advance (peers.drained pending.conn) = advanced
      obtain ⟨read, advance⟩ := advanced
      cases advance with
      | complete inbound =>
        dsimp only
        refine List.IsPrefix.trans ?_ (answered_dispatchInbound peers read now inbound)
        exact List.prefix_rfl
      | drop => exact List.prefix_append _ _
      | park =>
        dsimp only
        split
        · exact List.prefix_append _ _
        · exact List.prefix_rfl

theorem answered_acceptStep (peers : Peers) (now : Nat) (pass : Pass) (nonblocking : Bool) :
    pass.conns.answered <+: (acceptStep peers now pass nonblocking).conns.answered := by
  unfold acceptStep
  split
  next => exact List.prefix_rfl
  next =>
    dsimp only
    split
    next => exact List.prefix_append _ _
    next =>
      generalize (pass.conns.newcomer now).advance (peers.drained (pass.conns.newcomer now).conn) = advanced
      obtain ⟨read, advance⟩ := advanced
      cases advance with
      | complete inbound =>
        dsimp only
        refine List.IsPrefix.trans ?_ (answered_dispatchInbound peers read now inbound)
        exact List.prefix_rfl
      | drop => exact List.prefix_append _ _
      | park =>
        dsimp only
        refine List.IsPrefix.trans ?_ (answered_admitPending read now)
        exact List.prefix_rfl

theorem answered_turn (peers : Peers) (now acceptNow : Nat) : s.answered <+: (s.turn peers now acceptNow).answered := by
  have hparked : ∀ (todo : List Pending) (pass : Pass),
      pass.conns.answered <+: (todo.foldl (parkedStep peers now) pass).conns.answered := by
    intro todo
    induction todo with
    | nil => exact fun pass => List.prefix_rfl
    | cons pending todo ih => exact fun pass => (answered_parkedStep peers now pass pending).trans (ih _)
  have haccept : ∀ (waiting : List Bool) (pass : Pass),
      pass.conns.answered <+: (waiting.foldl (acceptStep peers acceptNow) pass).conns.answered := by
    intro waiting
    induction waiting with
    | nil => exact fun pass => List.prefix_rfl
    | cons nonblocking waiting ih => exact fun pass => (answered_acceptStep peers acceptNow pass nonblocking).trans (ih _)
  exact (hparked s.pending { conns := { s with pending := [] } }).trans (haccept _ _)

/-- A connection has one answer. -/
theorem Held.answered_once {clock : Nat} (h : s.Held [] [] clock) {a b : Answered} (ha : a ∈ s.answered)
    (hb : b ∈ s.answered) (hconn : a.pending.conn = b.pending.conn) : a = b := by
  have hnodup : (s.answered.map fun a => a.pending.conn).Nodup :=
    ((h.ledger.nodup_iff.mpr List.nodup_range).sublist (List.sublist_append_right _ _))
  exact List.inj_on_of_nodup_map hnodup ha hb hconn

end Connections

theorem Clocked.answered_step (s : Clocked) (op : ConnOp) : s.conns.answered <+: (s.step op).conns.answered := by
  cases op with
  | turn peers toPass toAccept => exact Connections.answered_turn peers _ _
  | push takes => exact List.prefix_rfl
  | reap report => exact List.prefix_rfl

/-! ## What holds of a hook -/

/-- What was written is the start of the event, and what was read the start of that; what the hook found is what the
daemon answered. -/
structure Hook.Sound (conns : Connections) (conn : Nat) (hook : Hook) : Prop where
  sent : hook.sent <+: hook.event.encode
  read : conns.received conn <+: hook.sent
  acked : hook.stage = .acked → ∃ a ∈ conns.answered, a.pending.conn = conn ∧ a.answer.acks = true
  nacked : hook.stage = .nacked → ∃ a ∈ conns.answered, a.pending.conn = conn ∧ a.answer.acks = false

theorem Hook.Sound.step {conns : Connections} {conn : Nat} {hook hook' : Hook} (h : hook.Sound conns conn)
    (hs : hook.Step conns conn hook') : hook'.Sound conns conn := by
  cases hs with
  | write writing onward => exact ⟨onward, h.read.trans (List.prefix_append _ _), h.acked, h.nacked⟩
  | written writing whole => exact ⟨h.sent, h.read, (nomatch ·), (nomatch ·)⟩
  | @read a awaiting answered own =>
    refine ⟨h.sent, h.read, fun hstage => ⟨a, answered, own, ?_⟩, fun hstage => ⟨a, answered, own, ?_⟩⟩
    · by_contra hacks
      simp [hacks] at hstage
    · by_contra hacks
      simp [hacks] at hstage
  | giveUp underway => exact ⟨h.sent, h.read, (nomatch ·), (nomatch ·)⟩

theorem Hook.Sound.daemon {conns conns' : Connections} {conn : Nat} {hook : Hook} (h : hook.Sound conns conn)
    (hread : conns'.received conn <+: hook.sent) (hanswered : conns.answered <+: conns'.answered) :
    hook.Sound conns' conn := by
  refine ⟨h.sent, hread, fun hstage => ?_, fun hstage => ?_⟩
  · obtain ⟨a, ha, hfound⟩ := h.acked hstage
    exact ⟨a, hanswered.subset ha, hfound⟩
  · obtain ⟨a, ha, hfound⟩ := h.nacked hstage
    exact ⟨a, hanswered.subset ha, hfound⟩

namespace World

structure Sound (world : World) : Prop where
  held : world.daemon.Held
  hooks : ∀ conn hook, world.hooks conn = some hook → hook.Sound world.daemon.conns conn

theorem Sound.start : Sound {} where
  held := Clocked.held_start
  hooks _ _ h := nomatch h

theorem Sound.setHook {world : World} (h : world.Sound) {conn : Nat} {hook : Hook}
    (hhook : hook.Sound world.daemon.conns conn) : (world.setHook conn hook).Sound := by
  refine ⟨h.held, fun other found hfound => ?_⟩
  by_cases hconn : other = conn
  · subst hconn
    simp only [World.setHook, Function.update_self] at hfound
    cases hfound
    exact hhook
  · simp only [World.setHook, Function.update_of_ne hconn] at hfound
    exact h.hooks other found hfound

theorem Sound.step {world world' : World} (h : world.Sound) (hs : world.Step world') : world'.Sound := by
  cases hs with
  | @connect conn event waits free =>
    have hnone : world.daemon.conns.received conn = [] :=
      Connections.received_of_read h.held.1.read waits
    exact h.setHook ⟨List.nil_prefix, hnone ▸ List.prefix_rfl, (nomatch ·), (nomatch ·)⟩
  | hook found moved => exact h.setHook ((h.hooks _ _ found).step moved)
  | daemon op inOrder =>
    refine ⟨h.held.step op, fun conn hook found => ?_⟩
    exact (h.hooks conn hook found).daemon (inOrder conn hook found) (world.daemon.answered_step op)

theorem Sound.reached {world : World} (h : Relation.ReflTransGen Step {} world) : world.Sound := by
  induction h with
  | refl => exact Sound.start
  | tail _ hs ih => exact ih.step hs

end World

/-- **No event is lost, and none is taken twice unawares.** In every interleaving of the daemon's turns with any number
of hooks and other clients: a hook's connection is answered once at the most, and a frame dispatched for it is the
hook's own event, whole; a hook whose `deliver` has returned had its event applied, by the daemon or by itself; and by
both only where it gave up before the daemon's answer was read. -/
theorem hook_event_settled {world : World} (h : Relation.ReflTransGen World.Step {} world) {conn : Nat} {hook : Hook}
    (found : world.hooks conn = some hook) :
    (∀ a ∈ world.daemon.conns.answered, ∀ b ∈ world.daemon.conns.answered,
      a.pending.conn = conn → b.pending.conn = conn → a = b) ∧
    (∀ a ∈ world.daemon.conns.answered, a.pending.conn = conn → ∀ inbound, a.answer.inbound? = some inbound →
      ∃ frame, inbound = .event frame ∧ Fits frame.pane frame.agent frame.kind frame.payload ∧
        (hook.event.Sendable → frame = hook.event ∧ hook.sent = hook.event.encode)) ∧
    (hook.stage.delivered = some true → world.Applied conn ∧ ¬ hook.stamps) ∧
    (hook.stage.delivered = some false → hook.stamps ∧ (world.Applied conn → hook.stage = .gaveUp)) := by
  have hsound := World.Sound.reached h
  have hhook := hsound.hooks conn hook found
  have honce : ∀ a ∈ world.daemon.conns.answered, ∀ b ∈ world.daemon.conns.answered,
      a.pending.conn = conn → b.pending.conn = conn → a = b :=
    fun a ha b hb hconn hconn' => hsound.held.1.answered_once ha hb (hconn.trans hconn'.symm)
  refine ⟨honce, fun a ha hconn inbound hinbound => ?_, fun hdelivered => ?_, fun hdelivered => ⟨hdelivered, ?_⟩⟩
  · obtain ⟨hright, hbuf, -⟩ := hsound.held.1.right a ha
    obtain ⟨reply, hanswer⟩ : ∃ reply, a.answer = .dispatched inbound reply := by
      unfold Answer.inbound? at hinbound
      split at hinbound
      · rename_i reply hanswer
        cases hinbound
        exact ⟨reply, hanswer⟩
      · cases hinbound
    unfold Answered.Right at hright
    rw [hanswer] at hright
    have hsent : a.pending.buf <+: hook.sent := hbuf ▸ hconn ▸ hhook.read
    obtain ⟨frame, hframe, hfits, hsame⟩ := dispatched_event (hsent.trans hhook.sent) hright
    refine ⟨frame, hframe, hfits, fun hsendable => ⟨(hsame hsendable).1, ?_⟩⟩
    -- all of it was read, so all of it was written
    have hwhole : hook.event.encode <+: hook.sent := (hsame hsendable).2 ▸ hsent
    exact hhook.sent.eq_of_length (Nat.le_antisymm hhook.sent.length_le hwhole.length_le)
  · have hacked : hook.stage = .acked := by
      cases hstage : hook.stage with
      | acked => rfl
      | writing | awaiting | nacked | gaveUp => simp [hstage, Stage.delivered] at hdelivered
    refine ⟨hhook.acked hacked, fun hstamps => ?_⟩
    rw [Hook.stamps, hdelivered] at hstamps
    cases hstamps
  · rintro ⟨a, ha, hconn, hacks⟩
    cases hstage : hook.stage with
    | gaveUp => rfl
    | writing | awaiting | acked => simp [hstage, Stage.delivered] at hdelivered
    | nacked =>
      obtain ⟨b, hb, hconn', hnacks⟩ := hhook.nacked hstage
      rw [honce a ha b hb hconn hconn', hnacks] at hacks
      cases hacks

/-! ## A delivery -/

/-- One connection waits, with all its bytes there, and any event is one the daemon resolves. -/
def eager (bytes : Bytes) : Peers where
  readable _ := false
  drained _ := .more bytes
  applies _ := true
  acked _ := true
  waiting := [true]

theorem turn_eager {event : Frame} (hfits : Fits event.pane event.agent event.kind event.payload) :
    ({} : Connections).turn (eager event.encode) 0 0 =
      { accepted := 1
        reads := [(0, .more event.encode)]
        answered := [{ pending := { conn := 0, buf := event.encode, deadline := frameDeadline }, now := 0,
                       answer := .dispatched (.event event) .ack }] } := by
  have hwhole : verdict true event.encode = .complete (.event event) := by
    have hparse : parseInbound event.encode = some (.complete (.event event)) :=
      parseInbound_event.mpr ⟨hfits, [], (List.append_nil _).symm⟩
    rw [verdict, Incremental.advance, hparse]
    rfl
  change (Connections.acceptStep (eager event.encode) 0 { conns := {} } true).conns = _
  unfold Connections.acceptStep
  rw [if_neg (by decide)]
  simp only [Connections.newcomer, eager, Pending.advance, List.nil_append, hwhole, Bool.not_true, Bool.false_eq_true,
    if_false, Connections.read, Connections.dispatchInbound, Connections.answer, if_true, Nat.zero_add]

/-- **An event within the caps can be delivered**: where the daemon turns to the hook and resolves its event. -/
theorem deliverable {event : Frame} (hfits : Fits event.pane event.agent event.kind event.payload) :
    ∃ world, Relation.ReflTransGen World.Step {} world ∧
      world.hooks 0 = some { event, sent := event.encode, stage := .acked } := by
  let connected : World := World.setHook {} 0 { event }
  let sent := connected.setHook 0 { event, sent := event.encode }
  let waits := sent.setHook 0 { event, sent := event.encode, stage := .awaiting }
  let turned : World := { waits with daemon := waits.daemon.step (.turn (eager event.encode) 0 0) }
  have hturn : turned.daemon.conns = ({} : Connections).turn (eager event.encode) 0 0 := rfl
  rw [turn_eager hfits] at hturn
  have hconnect : World.Step {} connected := .connect event (Nat.le_refl 0) rfl
  have hwrite : connected.Step sent := .hook (World.hooks_setHook {} 0 _) (.write rfl List.prefix_rfl)
  have hwritten : sent.Step waits := .hook (World.hooks_setHook connected 0 _) (.written rfl rfl)
  have hdaemon : waits.Step turned := by
    refine .daemon _ fun conn hook found => ?_
    by_cases hconn : conn = 0
    · subst hconn
      rw [World.hooks_setHook] at found
      cases found
      change turned.daemon.conns.received 0 <+: event.encode
      rw [hturn]
      simp [Connections.received, Drained.bytes]
    · simp [waits, sent, connected, World.setHook, hconn] at found
  obtain ⟨a, ha, hconn, hacks⟩ : ∃ a ∈ turned.daemon.conns.answered, a.pending.conn = 0 ∧ a.answer.acks = true := by
    rw [hturn]
    exact ⟨_, List.mem_singleton_self _, rfl, rfl⟩
  have hread : turned.Step (turned.setHook 0
      { event, sent := event.encode, stage := if a.answer.acks then .acked else .nacked }) :=
    .hook (World.hooks_setHook sent 0 _) (.read rfl ha hconn)
  rw [if_pos hacks] at hread
  exact ⟨_, .tail (.tail (.tail (.tail (.single hconnect) hwrite) hwritten) hdaemon) hread, World.hooks_setHook ..⟩

def stopEvent : Frame := ⟨"%1", "claude", "Stop", ""⟩

/-- The event of a turn's end is the daemon's, once. -/
theorem hook_event_settled_stop : ∃ world : World, world.Applied 0 ∧
    ∃ hook, world.hooks 0 = some hook ∧ hook.event = stopEvent ∧ ¬ hook.stamps := by
  obtain ⟨world, hreached, hfound⟩ := @deliverable stopEvent (by
    unfold Fits
    decide)
  obtain ⟨-, -, hdelivered, -⟩ := hook_event_settled hreached hfound
  exact ⟨world, (hdelivered rfl).1, _, hfound, rfl, (hdelivered rfl).2⟩

end TmuxAgents.Daemon
