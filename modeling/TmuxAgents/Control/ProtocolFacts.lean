/-
Facts about the collector: its methods as operations of one system, what each
does to the collector in a few kinds of step, and the accounts every step
keeps (`Books`).

`Admin` has the steps of topology and bookkeeping: a pane's epoch is renewed,
a pane departs, the departed overflow, a pane is tracked, a flag is set.
`Micro` adds the two of a decoded byte: a scanner moves, an event is pushed.
Every method is a sequence of such steps, so an invariant is five small
lemmas and not one per method.
-/
import Mathlib.Logic.Relation
import TmuxAgents.Control.Protocol

namespace TmuxAgents

open Checked

/-- The methods of a collector. -/
inductive CollectorOp
  | reconcile (topology : List (SessionId × PaneId)) (clients : SortedMap SessionId Nat)
  | topologyFailed
  | clientGap (session : SessionId) (reason : ObservationGap)
  | invalidate (pane : PaneId) (reason : ObservationGap) (lost : Bool)
  | boundary (pane : PaneId) (inPayload : Bool)
  | decoded (session : SessionId) (client : Nat) (item : Decoded)
  | setPayloadBudget (available : Nat)
  | drain

namespace Collector

/-- A method, with what it drains. -/
def step [Base64] (c : Collector) : CollectorOp → Option (List ProgramDrain × Collector)
  | .reconcile topology clients => (c.reconcile topology clients).map fun c => ([], c)
  | .topologyFailed => c.topologyFailed.map fun c => ([], c)
  | .clientGap session reason => (c.clientGap session reason).map fun c => ([], c)
  | .invalidate pane reason lost => (c.invalidate pane reason lost).map fun c => ([], c)
  | .boundary pane inPayload => (c.boundary pane inPayload).map fun result => ([], result.2)
  | .decoded session client item => (c.decoded session client item).map fun c => ([], c)
  | .setPayloadBudget available => (c.setPayloadBudget available).map fun c => ([], c)
  | .drain => some ([c.drain.1], c.drain.2)

/-- The drains and the collector after a list of methods. -/
abbrev exec [Base64] : Collector → List CollectorOp → Option (List ProgramDrain × Collector) := Run.exec step

/-! ## The steps -/

/-- What the end of an epoch makes of a stream. Owner, client, pause and quarantine may be set
by the way. -/
structure Renews (last : Nat) (pane : PaneId) (stream stream' : PaneStream) : Prop where
  epoch : stream'.epoch = last + 1
  sequence : stream'.sequence = stream.sequence + 1
  scanner : stream'.scanner = stream.scanner.loss ∨ stream'.scanner = stream.scanner.boundary
  gap : ∃ reason, stream'.pendingGap =
    some { pane, connection := last + 1, sequence := stream.sequence + 1, event := .gap reason }

/-- The collector with a pane's stream renewed. -/
def renewed (c : Collector) (pane : PaneId) (stream stream' : PaneStream) : Collector :=
  { c.discardQueued pane with
    epoch := c.epoch + 1
    candidateBytes := c.candidateBytes - stream.scanner.pendingBytes
    panes := c.panes.insert pane stream'
    created := c.created ++ stream'.pendingGap.toList }

/-- A pane that was just renewed and may leave: its gap is pending and it holds nothing. -/
structure Leaving (c : Collector) (pane : PaneId) (stream : PaneStream) (gap : ObservedEvent) : Prop where
  tracked : c.panes.get? pane = some stream
  gap : stream.pendingGap = some gap
  queue : ∀ e ∈ c.queue, e.pane ≠ pane
  candidate : stream.scanner.candidate = []

/-- Topology and bookkeeping. -/
inductive Admin : Collector → Collector → Prop
  | renew {c : Collector} {pane : PaneId} {stream stream' : PaneStream}
    (hs : c.panes.get? pane = some stream) (h : Renews c.epoch pane stream stream') :
    Admin c (c.renewed pane stream stream')
  | depart {c : Collector} {pane : PaneId} {stream : PaneStream} {gap : ObservedEvent}
    (h : Leaving c pane stream gap) (rejections : Nat) :
    Admin c { c with
      panes := c.panes.erase pane, retiredRejections := rejections, departed := c.departed.insert pane gap }
  | overflow {c : Collector} {pane : PaneId} {stream : PaneStream} {gap : ObservedEvent}
    (h : Leaving c pane stream gap) (rejections overflows : Nat) :
    Admin c { c with
      panes := c.panes.erase pane, retiredRejections := rejections, overflows, allInvalidated := true
      departed := .empty, queue := [], queuedBytes := 0 }
  | track {c : Collector} {pane : PaneId} (owner : SessionId) (client : Nat) (h : c.panes.get? pane = none) :
    Admin c { c with
      epoch := c.epoch + 1
      panes := c.panes.insert pane
        { owner, client, epoch := c.epoch + 1, sequence := 0, scanner := .unsynchronized, pendingGap := none
          paused := false, quarantine := false } }
  | flags {c : Collector} (topologyReady : Bool) (overflows : Nat) : Admin c { c with topologyReady, overflows }

/-- Any number of bookkeeping steps. -/
abbrev Admins : Collector → Collector → Prop := Relation.ReflTransGen Admin

/-- The collector with a pane's scanner moved, and its candidate charged. -/
def rescanned (c : Collector) (pane : PaneId) (stream stream' : PaneStream) : Collector :=
  { c with
    panes := c.panes.insert pane stream'
    candidateBytes := c.candidateBytes - stream.scanner.pendingBytes + stream'.scanner.pendingBytes }

/-- The collector with an event pushed. -/
def pushed (c : Collector) (pane : PaneId) (stream : PaneStream) (event : ProgramEvent) : Collector :=
  { c with
    panes := c.panes.insert pane { stream with sequence := stream.sequence + 1 }
    queue := c.queue ++ [{ pane, connection := stream.epoch, sequence := stream.sequence + 1, event }]
    queuedBytes := c.queuedBytes + payloadBytes event }

@[simp] theorem renewed_get? (c : Collector) (pane : PaneId) (stream stream' : PaneStream) :
    (c.renewed pane stream stream').panes.get? pane = some stream' := by
  simp [renewed]

@[simp] theorem rescanned_get? (c : Collector) (pane : PaneId) (stream stream' : PaneStream) :
    (c.rescanned pane stream stream').panes.get? pane = some stream' := by
  simp [rescanned]

@[simp] theorem pushed_get? (c : Collector) (pane : PaneId) (stream : PaneStream) (event : ProgramEvent) :
    (c.pushed pane stream event).panes.get? pane = some { stream with sequence := stream.sequence + 1 } := by
  simp [pushed]

/-- All that happens to a collector between drains. -/
inductive Micro : Collector → Collector → Prop
  | admin {c c' : Collector} (h : Admin c c') : Micro c c'
  | rescan {c : Collector} {pane : PaneId} {stream stream' : PaneStream} (hs : c.panes.get? pane = some stream)
    (h : stream' = { stream with scanner := stream'.scanner, quarantine := stream'.quarantine }) :
    Micro c (c.rescanned pane stream stream')
  | push {c : Collector} {pane : PaneId} {stream : PaneStream} {event : ProgramEvent}
    (hs : c.panes.get? pane = some stream) (hevents : c.queue.length < maxProgramEvents)
    (hpayload : c.queuedBytes + payloadBytes event ≤ maxProgramPayloadBytes) :
    Micro c (c.pushed pane stream event)
  | budget {c : Collector} (available : Nat) : Micro c { c with payloadBudget := available }

/-- Any number of steps. -/
abbrev Micros : Collector → Collector → Prop := Relation.ReflTransGen Micro

theorem Admins.micros {c c' : Collector} (h : Admins c c') : Micros c c' :=
  h.lift (fun c => c) fun _ _ => .admin

/-! ## The accounts -/

/-- The payload of a list of events. -/
def eventBytes (events : List ObservedEvent) : Nat := (events.map fun event => payloadBytes event.event).sum

/-- The counters agree with the contents, the queue holds current events of tracked panes, and
its caps are kept. -/
structure Books (c : Collector) : Prop where
  queued : c.queuedBytes = eventBytes c.queue
  candidates : c.candidateBytes = (c.panes.values.map fun stream => stream.scanner.pendingBytes).sum
  current : ∀ e ∈ c.queue, ∃ stream, c.panes.get? e.pane = some stream ∧ e.connection = stream.epoch
  events : c.queue.length ≤ maxProgramEvents
  payload : c.queuedBytes ≤ maxProgramPayloadBytes

/-- What a filter keeps and what it drops. -/
theorem eventBytes_filter_add (p : ObservedEvent → Bool) (events : List ObservedEvent) :
    eventBytes (events.filter p) + eventBytes (events.filter fun event => !p event) = eventBytes events := by
  induction events with
  | nil => rfl
  | cons event events ih =>
    cases hp : p event <;> simp only [eventBytes, List.filter_cons, hp, if_true, Bool.false_eq_true, if_false,
      Bool.not_true, Bool.not_false, List.map_cons, List.sum_cons] at ih ⊢ <;> omega

theorem eventBytes_filter_le (p : ObservedEvent → Bool) (events : List ObservedEvent) :
    eventBytes (events.filter p) ≤ eventBytes events := by
  have := eventBytes_filter_add p events
  omega

theorem Books.pending_le {c : Collector} (h : Books c) {pane : PaneId} {stream : PaneStream}
    (hs : c.panes.get? pane = some stream) : stream.scanner.pendingBytes ≤ c.candidateBytes := by
  rw [h.candidates]
  exact SortedMap.le_sum_values hs fun stream => stream.scanner.pendingBytes

/-- The candidates' sum after one stream is replaced. -/
theorem Books.candidates_insert {c : Collector} (h : Books c) {pane : PaneId} {stream : PaneStream}
    (hs : c.panes.get? pane = some stream) (stream' : PaneStream) :
    ((c.panes.insert pane stream').values.map fun stream => stream.scanner.pendingBytes).sum =
      c.candidateBytes - stream.scanner.pendingBytes + stream'.scanner.pendingBytes := by
  have hsum := SortedMap.sum_insert c.panes pane stream' fun stream => stream.scanner.pendingBytes
  have hle := h.pending_le hs
  rw [hs, Option.elim_some, ← h.candidates] at hsum
  omega

theorem Renews.candidate {last : Nat} {pane : PaneId} {stream stream' : PaneStream}
    (h : Renews last pane stream stream') : stream'.scanner.pendingBytes = 0 := by
  rcases h.scanner with hs | hs <;> exact Scanner.pendingBytes_of_candidate (by simp [hs])

theorem Books.erase {c : Collector} (h : Books c) {pane : PaneId} {stream : PaneStream} {gap : ObservedEvent}
    (hl : Leaving c pane stream gap) :
    c.candidateBytes = ((c.panes.erase pane).values.map fun stream => stream.scanner.pendingBytes).sum := by
  rw [h.candidates, SortedMap.sum_values c.panes pane, hl.tracked, Option.elim_some,
    Scanner.pendingBytes_of_candidate hl.candidate, Nat.zero_add]

/-- **Bookkeeping keeps the accounts**, and holds no more than before. -/
theorem Admin.books {c c' : Collector} (hstep : Admin c c') (h : Books c) :
    Books c' ∧ c'.pendingBytes ≤ c.pendingBytes ∧ c'.payloadBudget = c.payloadBudget := by
  cases hstep with
  | @renew pane stream stream' hs hr =>
    have hqueue := eventBytes_filter_le (fun event => event.pane != pane) c.queue
    have hsum := h.candidates_insert hs stream'
    rw [hr.candidate, Nat.add_zero] at hsum
    refine ⟨⟨rfl, hsum.symm, fun e he => ?_, (List.length_filter_le ..).trans h.events, ?_⟩, ?_, rfl⟩
    · obtain ⟨he, hne⟩ := List.mem_filter.mp he
      obtain ⟨stream₀, hs₀, hc⟩ := h.current e he
      have hne : e.pane ≠ pane := by simpa using hne
      exact ⟨stream₀, by simp [renewed, hne, hs₀], hc⟩
    · exact hqueue.trans (h.queued ▸ h.payload)
    · have : c.queuedBytes = eventBytes c.queue := h.queued
      change eventBytes (c.queue.filter fun event => event.pane != pane) +
        (c.candidateBytes - stream.scanner.pendingBytes) ≤ c.queuedBytes + c.candidateBytes
      omega
  | @depart pane stream gap hl rejections =>
    refine ⟨⟨h.queued, h.erase hl, fun e he => ?_, h.events, h.payload⟩, Nat.le_refl _, rfl⟩
    obtain ⟨stream₀, hs₀, hc⟩ := h.current e he
    exact ⟨stream₀, by simp [hl.queue e he, hs₀], hc⟩
  | @overflow pane stream gap hl rejections overflows =>
    refine ⟨⟨rfl, h.erase hl, fun e he => (by cases he), Nat.zero_le _, Nat.zero_le _⟩, ?_, rfl⟩
    exact Nat.add_le_add_right (Nat.zero_le _) _
  | @track pane owner client hnone =>
    refine ⟨⟨h.queued, ?_, fun e he => ?_, h.events, h.payload⟩, Nat.le_refl _, rfl⟩
    · have hsum := SortedMap.sum_insert c.panes pane
        { owner, client, epoch := c.epoch + 1, sequence := 0, scanner := .unsynchronized, pendingGap := none
          paused := false, quarantine := false } fun stream => stream.scanner.pendingBytes
      rw [hnone, ← h.candidates] at hsum
      exact hsum.symm
    · obtain ⟨stream₀, hs₀, hc⟩ := h.current e he
      have hne : e.pane ≠ pane := fun heq => by rw [heq, hnone] at hs₀; cases hs₀
      exact ⟨stream₀, by simp [hne, hs₀], hc⟩
  | flags topologyReady overflows =>
    exact ⟨⟨h.queued, h.candidates, h.current, h.events, h.payload⟩, Nat.le_refl _, rfl⟩

theorem Admins.books {c c' : Collector} (hsteps : Admins c c') (h : Books c) :
    Books c' ∧ c'.pendingBytes ≤ c.pendingBytes ∧ c'.payloadBudget = c.payloadBudget := by
  induction hsteps with
  | refl => exact ⟨h, Nat.le_refl _, rfl⟩
  | tail _ hstep ih =>
    obtain ⟨hb, hle, hbudget⟩ := ih
    obtain ⟨hb', hle', hbudget'⟩ := hstep.books hb
    exact ⟨hb', hle'.trans hle, hbudget'.trans hbudget⟩

/-- Every step keeps the accounts. -/
theorem Micro.books {c c' : Collector} (hstep : Micro c c') (h : Books c) : Books c' := by
  cases hstep with
  | admin ha => exact (ha.books h).1
  | budget available => exact ⟨h.queued, h.candidates, h.current, h.events, h.payload⟩
  | @rescan pane stream stream' hs hstream =>
    refine ⟨h.queued, (h.candidates_insert hs stream').symm, fun e he => ?_, h.events, h.payload⟩
    obtain ⟨stream₀, hs₀, hc⟩ := h.current e he
    by_cases hp : e.pane = pane
    · rw [hp, hs] at hs₀
      obtain rfl := Option.some.inj hs₀
      exact ⟨stream', by simp [rescanned, hp], by rw [hc, hstream]⟩
    · exact ⟨stream₀, by simp [rescanned, hp, hs₀], hc⟩
  | @push pane stream event hs hevents hpayload =>
    have hsum := h.candidates_insert hs { stream with sequence := stream.sequence + 1 }
    have hle := h.pending_le hs
    refine ⟨?_, ?_, fun e he => ?_, ?_, hpayload⟩
    · simp [pushed, eventBytes, h.queued]
    · exact (Nat.sub_add_cancel hle).symm.trans hsum.symm
    · simp only [pushed, List.mem_append, List.mem_singleton] at he
      rcases he with he | rfl
      · obtain ⟨stream₀, hs₀, hc⟩ := h.current e he
        by_cases hp : e.pane = pane
        · rw [hp, hs] at hs₀
          obtain rfl := Option.some.inj hs₀
          exact ⟨{ stream with sequence := stream.sequence + 1 }, by simp [pushed, hp], hc⟩
        · exact ⟨stream₀, by simp [pushed, hp, hs₀], hc⟩
      · exact ⟨{ stream with sequence := stream.sequence + 1 }, by simp [pushed], rfl⟩
    · simp only [pushed, List.length_append, List.length_singleton]
      exact hevents

end Collector

end TmuxAgents
