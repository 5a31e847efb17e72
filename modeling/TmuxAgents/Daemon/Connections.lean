/-
The daemon's connections over whole runs.

Every connection that was accepted is parked or answered, and answered once (`Held.ledger`); what it
was answered is the verdict on all that was read of it, unless its socket failed, its deadline had passed
or it was the oldest of 32 (`Answered.Right`). `connections_answered` says so of every run of turns.
-/
import TmuxAgents.Lib.Run
import TmuxAgents.Daemon.Pending

namespace TmuxAgents.Daemon

open Incremental Ipc

/-- The answer is the one for what was read of the connection. -/
def Answered.Right (reads : List (Nat × Drained)) (a : Answered) : Prop :=
  match a.answer with
  | .dispatched inbound _ => parseInbound a.pending.buf = some (.complete inbound)
  | .nak .refused => ∀ inbound, parseInbound a.pending.buf ≠ some (.complete inbound)
  | .nak .broken => ∃ bytes, (a.pending.conn, .failed bytes) ∈ reads
  | .nak .expired => parseInbound a.pending.buf = some .needMore ∧ a.pending.deadline ≤ a.now
  | .nak .evicted => parseInbound a.pending.buf = some .needMore
  | .closed => a.pending.buf = []

theorem Answered.Right.mono {reads reads' : List (Nat × Drained)} {a : Answered} (h : a.Right reads)
    (hsub : reads ⊆ reads') : a.Right reads' := by
  obtain ⟨pending, now, answer⟩ := a
  cases answer with
  | nak why =>
    cases why with
    | broken =>
      obtain ⟨bytes, hbytes⟩ := h
      exact ⟨bytes, hsub hbytes⟩
    | refused | expired | evicted => exact h
  | dispatched | closed => exact h

/-- The subscriber an answer retained. -/
def Answered.subscriber? (a : Answered) : Option Nat :=
  match a.answer with
  | .dispatched _ .subscribed => some a.pending.conn
  | _ => none

namespace Connections

/-- All that was read of a connection. -/
def received (s : Connections) (conn : Nat) : Bytes := (s.reads.filter fun r => r.1 = conn).flatMap fun r => r.2.bytes

/-- The connections that are parked, those still to be looked at in this turn, and those in hand. -/
structure Held (s : Connections) (hand : List Nat) (todo : List Pending) (clock : Nat) : Prop where
  /-- Each accepted connection is in one place. -/
  ledger : ((s.pending ++ todo).map Pending.conn ++ hand ++ s.answered.map fun a => a.pending.conn).Perm
    (List.range s.accepted)
  order : ((s.pending ++ todo).map Pending.conn).Pairwise (· < ·)
  sorted : ((s.pending ++ todo).map Pending.deadline).Pairwise (· ≤ ·)
  within : ∀ p ∈ s.pending ++ todo, p.deadline ≤ clock + frameDeadline
  begun : ∀ p ∈ s.pending ++ todo, parseInbound p.buf = some .needMore
  received : ∀ p ∈ s.pending ++ todo, p.buf = s.received p.conn
  read : ∀ r ∈ s.reads, r.1 < s.accepted
  right : ∀ a ∈ s.answered, a.Right s.reads ∧ a.pending.buf = s.received a.pending.conn ∧
    a.pending.deadline ≤ clock + frameDeadline
  /-- Only the oldest is pushed out, by 32 younger ones. -/
  evicted : ∀ a ∈ s.answered, a.answer = .nak .evicted →
    a.pending.conn + maxPending < s.accepted ∧ ∀ p ∈ s.pending ++ todo, a.pending.deadline ≤ p.deadline
  room : s.subscribers.length ≤ maxSubscribers
  subscribed : (s.subscribers ++ s.dropped).Perm (s.answered.filterMap Answered.subscriber?)

variable {s : Connections} {hand : List Nat} {todo : List Pending} {clock : Nat} {pending : Pending} {conn : Nat}

/-! ## What an operation leaves alone -/

theorem received_read (s : Connections) (conn other : Nat) (drained : Drained) :
    (s.read conn drained).received other = s.received other ++ if conn = other then drained.bytes else [] := by
  unfold received read
  rw [List.filter_append, List.flatMap_append]
  congr 1
  by_cases h : conn = other
  · simp [h]
  · simp [h]

theorem received_of_read (h : ∀ r ∈ s.reads, r.1 < s.accepted) {conn : Nat} (hconn : s.accepted ≤ conn) :
    s.received conn = [] := by
  have hnone : (s.reads.filter fun r => r.1 = conn) = [] := by
    refine List.filter_eq_nil_iff.mpr fun r hr => ?_
    have hlt := h r hr
    simp only [decide_eq_true_eq]
    omega
  rw [received, hnone, List.flatMap_nil]

/-! ## One move at a time -/

theorem Held.nodup (h : Held s hand todo clock) :
    ((s.pending ++ todo).map Pending.conn ++ hand ++ s.answered.map fun a => a.pending.conn).Nodup :=
  h.ledger.nodup_iff.mpr List.nodup_range

/-- The first that is still to be looked at is taken in hand. -/
theorem Held.lift (h : Held s [] (pending :: todo) clock) : Held s [pending.conn] todo clock := by
  have hsub : (s.pending ++ todo).Sublist (s.pending ++ pending :: todo) := (List.sublist_cons_self pending todo).append_left _
  refine ⟨?_, h.order.sublist (hsub.map _), h.sorted.sublist (hsub.map _), fun p hp => h.within p (hsub.subset hp),
    fun p hp => h.begun p (hsub.subset hp), fun p hp => h.received p (hsub.subset hp), h.read, h.right,
    fun a ha he => ?_, h.room, h.subscribed⟩
  · refine List.Perm.trans ?_ h.ledger
    refine List.Perm.append_right _ ?_
    rw [List.append_nil, List.map_append, List.map_append, List.map_cons, List.append_assoc]
    exact List.Perm.append_left _ (List.perm_append_singleton _ _)
  · obtain ⟨hconn, hall⟩ := h.evicted a ha he
    exact ⟨hconn, fun p hp => hall p (hsub.subset hp)⟩

/-- Reading the connection in hand. -/
theorem Held.reads (h : Held s (conn :: hand) todo clock) (drained : Drained) :
    Held (s.read conn drained) (conn :: hand) todo clock := by
  have hnodup := h.nodup
  have hother : ∀ p ∈ s.pending ++ todo, conn ≠ p.conn := by
    intro p hp heq
    have hdisjoint := (List.nodup_append.mp (List.nodup_append.mp hnodup).1).2.2
    exact hdisjoint p.conn (List.mem_map_of_mem hp) conn List.mem_cons_self heq.symm
  have hanswered : ∀ a ∈ s.answered, conn ≠ a.pending.conn := by
    intro a ha heq
    have hdisjoint := (List.nodup_append.mp hnodup).2.2
    exact hdisjoint conn (List.mem_append_right _ List.mem_cons_self) _ (List.mem_map_of_mem ha) heq
  refine ⟨h.ledger, h.order, h.sorted, h.within, h.begun, fun p hp => ?_, fun r hr => ?_, fun a ha => ?_, h.evicted,
    h.room, h.subscribed⟩
  · rw [received_read, if_neg (hother p hp), List.append_nil]
    exact h.received p hp
  · rcases List.mem_append.mp hr with hr | hr
    · exact h.read r hr
    · rw [List.mem_singleton.mp hr]
      have hmem : conn ∈ List.range s.accepted :=
        h.ledger.mem_iff.mp (List.mem_append_left _ (List.mem_append_right _ List.mem_cons_self))
      exact List.mem_range.mp hmem
  · rw [received_read, if_neg (hanswered a ha), List.append_nil]
    exact ⟨(h.right a ha).1.mono (List.subset_append_left _ _), (h.right a ha).2⟩

/-- Answering it, and retaining it or not. -/
theorem Held.answerWith (h : Held s (pending.conn :: hand) todo clock) (subscribers : List Nat) (now : Nat) (answer : Answer)
    (hright : Answered.Right s.reads { pending, now, answer }) (hreceived : pending.buf = s.received pending.conn)
    (hwithin : pending.deadline ≤ clock + frameDeadline)
    (hevicted : answer = .nak .evicted →
      pending.conn + maxPending < s.accepted ∧ ∀ p ∈ s.pending ++ todo, pending.deadline ≤ p.deadline)
    (hroom : subscribers.length ≤ maxSubscribers)
    (hsubscribed : (subscribers ++ s.dropped).Perm
      ((s.answered ++ [({ pending, now, answer } : Answered)]).filterMap Answered.subscriber?)) :
    Held ({ s with subscribers }.answer pending now answer) hand todo clock := by
  refine ⟨?_, h.order, h.sorted, h.within, h.begun, h.received, h.read, fun a ha => ?_, fun a ha he => ?_, hroom,
    hsubscribed⟩
  · refine List.Perm.trans ?_ h.ledger
    simp only [Connections.answer, List.map_append, List.map_cons, List.map_nil, List.append_assoc]
    refine List.Perm.append_left _ (List.Perm.append_left _ ?_)
    rw [← List.append_assoc]
    exact List.perm_append_singleton _ _
  · rcases List.mem_append.mp ha with ha | ha
    · exact h.right a ha
    · rw [List.mem_singleton.mp ha]
      exact ⟨hright, hreceived, hwithin⟩
  · rcases List.mem_append.mp ha with ha | ha
    · exact h.evicted a ha he
    · rw [List.mem_singleton.mp ha] at he ⊢
      exact hevicted he

/-- Answering it where it is not retained. -/
theorem Held.answer (h : Held s (pending.conn :: hand) todo clock) (now : Nat) (answer : Answer)
    (hright : Answered.Right s.reads { pending, now, answer }) (hreceived : pending.buf = s.received pending.conn)
    (hwithin : pending.deadline ≤ clock + frameDeadline)
    (hevicted : answer = .nak .evicted →
      pending.conn + maxPending < s.accepted ∧ ∀ p ∈ s.pending ++ todo, pending.deadline ≤ p.deadline)
    (hsubscribed : Answered.subscriber? { pending, now, answer } = none) :
    Held (s.answer pending now answer) hand todo clock := by
  refine h.answerWith s.subscribers now answer hright hreceived hwithin hevicted h.room ?_
  rw [List.filterMap_append, List.filterMap_cons_none hsubscribed, List.filterMap_nil, List.append_nil]
  exact h.subscribed

theorem Held.dispatchInbound (h : Held s (pending.conn :: hand) todo clock) (peers : Peers) (now : Nat) (inbound : Inbound)
    (hparse : parseInbound pending.buf = some (.complete inbound)) (hreceived : pending.buf = s.received pending.conn)
    (hwithin : pending.deadline ≤ clock + frameDeadline) :
    Held (s.dispatchInbound peers pending now inbound) hand todo clock := by
  cases inbound with
  | event frame =>
    refine h.answer now _ hparse hreceived hwithin (fun he => by cases he) ?_
    cases peers.applies frame <;> rfl
  | history => exact h.answer now _ hparse hreceived hwithin (fun he => by cases he) rfl
  | subscribe =>
    simp only [Connections.dispatchInbound, registerSubscriber]
    split
    next => exact h.answer now _ hparse hreceived hwithin (fun he => by cases he) rfl
    next hroom =>
      rw [Bool.or_eq_true, not_or, decide_eq_true_eq, Nat.not_le] at hroom
      refine h.answerWith (s.subscribers ++ [pending.conn]) now _ hparse hreceived hwithin (fun he => by cases he) ?_ ?_
      · rw [List.length_append, List.length_singleton]
        exact hroom.1
      · rw [List.filterMap_append, List.append_assoc]
        refine List.Perm.trans ?_ (List.Perm.append_right _ h.subscribed)
        rw [List.append_assoc]
        exact List.Perm.append_left _ List.perm_append_comm

/-- Putting it back among the parked. -/
theorem Held.keep (h : Held s (pending.conn :: hand) todo clock)
    (horder : ((s.pending ++ pending :: todo).map Pending.conn).Pairwise (· < ·))
    (hsorted : ((s.pending ++ pending :: todo).map Pending.deadline).Pairwise (· ≤ ·))
    (hwithin : pending.deadline ≤ clock + frameDeadline) (hbegun : parseInbound pending.buf = some .needMore)
    (hreceived : pending.buf = s.received pending.conn)
    (hevicted : ∀ a ∈ s.answered, a.answer = .nak .evicted → a.pending.deadline ≤ pending.deadline) :
    Held (s.keep pending) hand todo clock := by
  have hmem : ∀ {p}, p ∈ (s.keep pending).pending ++ todo → p ∈ s.pending ++ todo ∨ p = pending := by
    intro p hp
    simp only [Connections.keep, List.mem_append, List.mem_singleton] at hp ⊢
    tauto
  refine ⟨?_, ?_, ?_, fun p hp => ?_, fun p hp => ?_, fun p hp => ?_, h.read, h.right, fun a ha he => ?_, h.room,
    h.subscribed⟩
  · refine List.Perm.trans ?_ h.ledger
    simp only [Connections.keep, List.map_append, List.map_cons, List.map_nil, List.append_assoc]
    refine List.Perm.append_left _ ?_
    exact List.Perm.symm List.perm_middle
  · simp only [Connections.keep, List.append_assoc, List.singleton_append]
    exact horder
  · simp only [Connections.keep, List.append_assoc, List.singleton_append]
    exact hsorted
  · rcases hmem hp with hp | rfl
    · exact h.within p hp
    · exact hwithin
  · rcases hmem hp with hp | rfl
    · exact h.begun p hp
    · exact hbegun
  · rcases hmem hp with hp | rfl
    · exact h.received p hp
    · exact hreceived
  · obtain ⟨hconn, hall⟩ := h.evicted a ha he
    refine ⟨hconn, fun p hp => ?_⟩
    rcases hmem hp with hp | rfl
    · exact hall p hp
    · exact hevicted a ha he

/-! ## One read -/

theorem verdict_complete {isOpen : Bool} {buf : Bytes} {inbound : Inbound} (h : verdict isOpen buf = .complete inbound) :
    parseInbound buf = some (.complete inbound) := by
  unfold verdict Incremental.advance at h
  cases hparse : parseInbound buf with
  | none => rw [hparse] at h; cases h
  | some status =>
    rw [hparse] at h
    cases status with
    | complete found =>
      cases h
      rfl
    | invalid => cases h
    | needMore => cases isOpen <;> cases h

theorem verdict_park {isOpen : Bool} {buf : Bytes} (h : verdict isOpen buf = .park) : parseInbound buf = some .needMore := by
  unfold verdict Incremental.advance at h
  cases hparse : parseInbound buf with
  | none => rw [hparse] at h; cases h
  | some status =>
    rw [hparse] at h
    cases status with
    | needMore => rfl
    | complete found => cases h
    | invalid => cases h

theorem verdict_drop {isOpen : Bool} {buf : Bytes} (h : verdict isOpen buf = .drop) (inbound : Inbound) :
    parseInbound buf ≠ some (.complete inbound) := by
  intro hparse
  rw [verdict, Incremental.advance, hparse] at h
  cases h

theorem advance_frame (pending : Pending) (drained : Drained) :
    (pending.advance drained).1.conn = pending.conn ∧ (pending.advance drained).1.deadline = pending.deadline ∧
      (pending.advance drained).1.buf = pending.buf ++ drained.bytes := by
  cases drained with
  | more bytes => exact ⟨rfl, rfl, rfl⟩
  | eof bytes => exact ⟨rfl, rfl, rfl⟩
  | failed bytes => exact ⟨rfl, rfl, rfl⟩

/-- A read's decision is the parser's on the buffer, unless the socket failed. -/
def Decides (drained : Drained) (buf : Bytes) : Advance Inbound → Prop
  | .complete inbound => parseInbound buf = some (.complete inbound)
  | .park => parseInbound buf = some .needMore
  | .drop => drained.why = .refused → ∀ inbound, parseInbound buf ≠ some (.complete inbound)

/-- What one read decides. -/
theorem advance_decides (pending : Pending) (drained : Drained) :
    Decides drained (pending.advance drained).1.buf (pending.advance drained).2 := by
  cases drained with
  | failed bytes => exact fun hwhy => by cases hwhy
  | more bytes =>
    simp only [Pending.advance]
    cases h : verdict true (pending.buf ++ bytes) with
    | complete inbound => exact verdict_complete h
    | park => exact verdict_park h
    | drop => exact fun _ => verdict_drop h
  | eof bytes =>
    simp only [Pending.advance]
    cases h : verdict false (pending.buf ++ bytes) with
    | complete inbound => exact verdict_complete h
    | park => exact verdict_park h
    | drop => exact fun _ => verdict_drop h

/-- A connection that is dropped on what was read is refused, or its socket failed. -/
theorem right_drop {reads : List (Nat × Drained)} {read : Pending} {drained : Drained} {conn : Nat} (now : Nat)
    (hspec : Decides drained read.buf .drop) (hconn : read.conn = conn) (hread : (conn, drained) ∈ reads) :
    Answered.Right reads { pending := read, now, answer := .nak drained.why } := by
  cases drained with
  | failed bytes => exact ⟨bytes, hconn ▸ hread⟩
  | more bytes | eof bytes => exact hspec rfl

/-- Dropping it. -/
theorem Held.drop {read : Pending} (h : Held s (read.conn :: hand) todo clock) {drained : Drained} (now : Nat)
    (hspec : Decides drained read.buf .drop) (hconn : read.conn = conn) (hread : (conn, drained) ∈ s.reads)
    (hreceived : read.buf = s.received read.conn) (hwithin : read.deadline ≤ clock + frameDeadline) :
    Held (s.answer read now (.nak drained.why)) hand todo clock := by
  refine h.answer now _ (right_drop now hspec hconn hread) hreceived hwithin (fun he => ?_) rfl
  cases drained <;> cases he

theorem mem_reads (s : Connections) (conn : Nat) (drained : Drained) : (conn, drained) ∈ (s.read conn drained).reads :=
  List.mem_append_right _ List.mem_cons_self

/-! ## The parked -/

theorem Held.back (h : Held s hand (pending :: todo) clock) (hhand : Held s (pending.conn :: hand) todo clock) :
    Held (s.keep pending) hand todo clock := by
  have hmem : pending ∈ s.pending ++ pending :: todo := List.mem_append_right _ List.mem_cons_self
  exact hhand.keep h.order h.sorted (h.within _ hmem) (h.begun _ hmem) (h.received _ hmem)
    fun a ha he => (h.evicted a ha he).2 _ hmem

theorem Held.parkedStep (peers : Peers) (now : Nat) {pass : Pass} (h : Held pass.conns [] (pending :: todo) clock) :
    Held (parkedStep peers now pass pending).conns [] todo clock := by
  have hmem : pending ∈ pass.conns.pending ++ pending :: todo := List.mem_append_right _ List.mem_cons_self
  have hhand := h.lift
  unfold Connections.parkedStep
  split
  next =>
    dsimp only
    split
    next hdue =>
      exact hhand.answer now _ ⟨h.begun _ hmem, of_decide_eq_true hdue⟩ (h.received _ hmem) (h.within _ hmem)
        (fun he => by cases he) rfl
    next => exact h.back hhand
  next =>
    split
    next => exact h.back hhand
    next =>
      obtain ⟨hconn, hdeadline, hbuf⟩ := advance_frame pending (peers.drained pending.conn)
      have hspec := advance_decides pending (peers.drained pending.conn)
      have hlogged := mem_reads pass.conns pending.conn (peers.drained pending.conn)
      have hread := hhand.reads (peers.drained pending.conn)
      have hreceived : (pending.advance (peers.drained pending.conn)).1.buf =
          (pass.conns.read pending.conn (peers.drained pending.conn)).received pending.conn := by
        rw [received_read, if_pos rfl, hbuf, h.received _ hmem]
      have hwithin := h.within _ hmem
      dsimp only
      have hevicted := fun a ha he => (h.evicted a ha he).2 _ hmem
      have hanswered : (pass.conns.read pending.conn (peers.drained pending.conn)).answered = pass.conns.answered := rfl
      have hpending : (pass.conns.read pending.conn (peers.drained pending.conn)).pending = pass.conns.pending := rfl
      generalize pending.advance (peers.drained pending.conn) = advanced at *
      generalize pass.conns.read pending.conn (peers.drained pending.conn) = conns at *
      obtain ⟨read, advance⟩ := advanced
      dsimp only at hconn hdeadline hbuf hspec hreceived
      rw [← hconn] at hread hreceived
      rw [← hdeadline] at hwithin
      cases advance with
      | complete inbound => exact hread.dispatchInbound peers now inbound hspec hreceived hwithin
      | drop => exact hread.drop now hspec hconn hlogged hreceived hwithin
      | park =>
        dsimp only
        split
        next hdue =>
          exact hread.answer now (.nak .expired) ⟨hspec, of_decide_eq_true hdue⟩ hreceived hwithin
            (fun he => by cases he) rfl
        next =>
          refine hread.keep ?_ ?_ hwithin hspec hreceived fun a ha he => ?_
          · rw [hpending, List.map_append, List.map_cons, hconn, ← List.map_cons, ← List.map_append]
            exact h.order
          · rw [hpending, List.map_append, List.map_cons, hdeadline, ← List.map_cons, ← List.map_append]
            exact h.sorted
          · rw [hdeadline]
            exact hevicted a (hanswered ▸ ha) he

theorem Held.mono (h : Held s hand todo clock) {later : Nat} (hle : clock ≤ later) : Held s hand todo later :=
  ⟨h.ledger, h.order, h.sorted, fun p hp => (h.within p hp).trans (Nat.add_le_add_right hle _), h.begun, h.received, h.read,
    fun a ha => ⟨(h.right a ha).1, (h.right a ha).2.1, (h.right a ha).2.2.trans (Nat.add_le_add_right hle _)⟩, h.evicted,
    h.room, h.subscribed⟩

theorem Held.parkedSteps (peers : Peers) (now : Nat) (todo : List Pending) (pass : Pass)
    (h : Held pass.conns [] todo clock) :
    Held (todo.foldl (Connections.parkedStep peers now) pass).conns [] [] clock := by
  induction todo generalizing pass with
  | nil => exact h
  | cons pending todo ih => exact ih _ (h.parkedStep peers now)

theorem Held.parkedPass (h : Held s [] [] clock) (peers : Peers) (now : Nat) : Held (s.parkedPass peers now).conns [] [] clock := by
  refine Held.parkedSteps peers now s.pending { conns := { s with pending := [] } } ?_
  have heq : ([] : List Pending) ++ s.pending = s.pending ++ [] := (List.append_nil s.pending).symm
  exact ⟨by simp only [heq]; exact h.ledger, by simp only [heq]; exact h.order, by simp only [heq]; exact h.sorted,
    by simp only [heq]; exact h.within, by simp only [heq]; exact h.begun, by simp only [heq]; exact h.received, h.read,
    h.right, by simp only [heq]; exact h.evicted, h.room, h.subscribed⟩

/-! ## The newcomers -/

theorem add_length_le {n : Nat} : ∀ {l : List Nat} {x : Nat}, (x :: l).Pairwise (· < ·) → (∀ y ∈ x :: l, y < n) →
    x + (l.length + 1) ≤ n
  | [], x, _, hn => hn x List.mem_cons_self
  | y :: l, x, h, hn => by
    have hxy := List.rel_of_pairwise_cons h List.mem_cons_self
    have hrest := add_length_le (List.Pairwise.of_cons h) fun z hz => hn z (List.mem_cons_of_mem _ hz)
    rw [List.length_cons]
    omega

/-- The next number is in hand. -/
theorem Held.fresh (h : Held s [] [] clock) (now : Nat) :
    Held { s with accepted := s.accepted + 1 } [(s.newcomer now).conn] [] clock := by
  refine ⟨?_, h.order, h.sorted, h.within, h.begun, h.received, fun r hr => Nat.lt_succ_of_lt (h.read r hr), h.right,
    fun a ha he => ⟨Nat.lt_succ_of_lt (h.evicted a ha he).1, (h.evicted a ha he).2⟩, h.room, h.subscribed⟩
  have hledger := h.ledger
  rw [List.append_nil] at hledger
  rw [List.range_succ]
  refine List.Perm.trans ?_ (hledger.append_right [s.accepted])
  rw [List.append_assoc, List.append_assoc]
  exact List.Perm.append_left _ List.perm_append_comm

theorem Held.conn_lt (h : Held s hand todo clock) {p : Pending} (hp : p ∈ s.pending ++ todo) : p.conn < s.accepted :=
  List.mem_range.mp (h.ledger.mem_iff.mp
    (List.mem_append_left _ (List.mem_append_left _ (List.mem_map_of_mem hp))))

/-- The oldest is pushed out of a full house. -/
theorem Held.admitPending (h : Held s [pending.conn] [] clock) (now : Nat)
    (hconn : ∀ p ∈ s.pending, p.conn < pending.conn) (hdeadline : ∀ p ∈ s.pending, p.deadline ≤ pending.deadline)
    (hwithin : pending.deadline ≤ clock + frameDeadline) (hbegun : parseInbound pending.buf = some .needMore)
    (hreceived : pending.buf = s.received pending.conn)
    (hanswered : ∀ a ∈ s.answered, a.pending.deadline ≤ pending.deadline) :
    Held (s.admitPending pending now) [] [] clock := by
  have horder := h.order
  have hsorted := h.sorted
  rw [List.append_nil] at horder hsorted
  have hkeep : Held (s.keep pending) [] [] clock := by
    refine h.keep ?_ ?_ hwithin hbegun hreceived fun a ha _ => hanswered a ha
    · rw [List.map_append]
      refine List.pairwise_append.mpr ⟨horder, List.pairwise_singleton _ _, fun n hn m hm => ?_⟩
      obtain ⟨p, hp, rfl⟩ := List.mem_map.mp hn
      rw [List.mem_singleton.mp hm]
      exact hconn p hp
    · rw [List.map_append]
      refine List.pairwise_append.mpr ⟨hsorted, List.pairwise_singleton _ _, fun n hn m hm => ?_⟩
      obtain ⟨p, hp, rfl⟩ := List.mem_map.mp hn
      rw [List.mem_singleton.mp hm]
      exact hdeadline p hp
  unfold Connections.admitPending
  split
  next oldest rest hpending =>
    split
    next hfull =>
      have hmem : oldest ∈ s.pending ++ [] := by
        rw [hpending]
        exact List.mem_cons_self
      rw [hpending] at horder hsorted
      have hless : ∀ y ∈ (oldest :: rest).map Pending.conn, y < pending.conn := by
        intro y hy
        obtain ⟨p, hp, rfl⟩ := List.mem_map.mp hy
        exact hconn p (hpending ▸ hp)
      have hlast : pending.conn < s.accepted :=
        List.mem_range.mp (h.ledger.mem_iff.mp (List.mem_append_left _ (List.mem_append_right _ List.mem_cons_self)))
      have hyounger : oldest.conn + maxPending < s.accepted := by
        have hlen := add_length_le horder hless
        rw [List.length_map] at hlen
        rw [hpending, List.length_cons] at hfull
        omega
      -- The oldest is in hand, too.
      have hboth : Held { s with pending := rest } [oldest.conn, pending.conn] [] clock := by
        have hsub : ∀ p ∈ rest ++ [], p ∈ s.pending ++ [] := by
          intro p hp
          rw [List.append_nil] at hp ⊢
          rw [hpending]
          exact List.mem_cons_of_mem _ hp
        refine ⟨?_, ?_, ?_, fun p hp => h.within p (hsub p hp), fun p hp => h.begun p (hsub p hp),
          fun p hp => h.received p (hsub p hp), h.read, h.right, fun a ha he => ?_, h.room, h.subscribed⟩
        · have hledger := h.ledger
          rw [hpending] at hledger
          refine List.Perm.trans ?_ hledger
          refine List.Perm.append_right _ ?_
          rw [List.append_nil, List.append_nil, List.map_cons, List.cons_append]
          exact List.perm_middle
        · rw [List.append_nil]
          exact List.Pairwise.of_cons horder
        · rw [List.append_nil]
          exact List.Pairwise.of_cons hsorted
        · obtain ⟨hold, hall⟩ := h.evicted a ha he
          exact ⟨hold, fun p hp => hall p (hsub p hp)⟩
      have hgone : Held ({ s with pending := rest }.answer oldest now (.nak .evicted)) [pending.conn] [] clock := by
        refine hboth.answer now _ (h.begun _ hmem) (h.received _ hmem) (h.within _ hmem) (fun _ => ⟨hyounger, ?_⟩) rfl
        intro p hp
        rw [List.append_nil] at hp
        exact List.rel_of_pairwise_cons hsorted (List.mem_map_of_mem hp)
      refine hgone.keep ?_ ?_ hwithin hbegun hreceived fun a ha _ => ?_
      · rw [List.map_append]
        refine List.pairwise_append.mpr ⟨List.Pairwise.of_cons horder, List.pairwise_singleton _ _, fun n hn m hm => ?_⟩
        rw [List.mem_singleton.mp hm]
        exact hless n (List.mem_cons_of_mem _ hn)
      · rw [List.map_append]
        refine List.pairwise_append.mpr ⟨List.Pairwise.of_cons hsorted, List.pairwise_singleton _ _, fun n hn m hm => ?_⟩
        obtain ⟨p, hp, rfl⟩ := List.mem_map.mp hn
        rw [List.mem_singleton.mp hm]
        exact hdeadline p (hpending ▸ List.mem_cons_of_mem _ hp)
      · rcases List.mem_append.mp ha with ha | ha
        · exact hanswered a ha
        · rw [List.mem_singleton.mp ha]
          exact hdeadline oldest (hpending ▸ List.mem_cons_self)
    next => exact hkeep
  next => exact hkeep

theorem Held.acceptStep (peers : Peers) {now : Nat} {pass : Pass} (h : Held pass.conns [] [] now) (nonblocking : Bool) :
    Held (acceptStep peers now pass nonblocking).conns [] [] now := by
  unfold Connections.acceptStep
  split
  next => exact h
  next =>
    have hfresh := h.fresh now
    have hnone : pass.conns.received (pass.conns.newcomer now).conn = [] := received_of_read h.read (Nat.le_refl _)
    have hyounger : ∀ p ∈ pass.conns.pending, p.conn < (pass.conns.newcomer now).conn :=
      fun p hp => h.conn_lt (List.mem_append_left _ hp)
    have hsooner : ∀ p ∈ pass.conns.pending, p.deadline ≤ (pass.conns.newcomer now).deadline :=
      fun p hp => h.within p (List.mem_append_left _ hp)
    have hanswered : ∀ a ∈ pass.conns.answered, a.pending.deadline ≤ (pass.conns.newcomer now).deadline :=
      fun a ha => (h.right a ha).2.2
    have hwithin : (pass.conns.newcomer now).deadline ≤ now + frameDeadline := Nat.le_refl _
    have hempty : (pass.conns.newcomer now).buf = [] := rfl
    dsimp only
    generalize pass.conns.newcomer now = conn at *
    split
    next => exact hfresh.answer now .closed hempty (hempty.trans hnone.symm) hwithin (fun he => by cases he) rfl
    next =>
      obtain ⟨hconn, hdeadline, hbuf⟩ := advance_frame conn (peers.drained conn.conn)
      have hspec := advance_decides conn (peers.drained conn.conn)
      have hlogged := mem_reads { pass.conns with accepted := pass.conns.accepted + 1 } conn.conn (peers.drained conn.conn)
      have hread := hfresh.reads (peers.drained conn.conn)
      have hreceived : (conn.advance (peers.drained conn.conn)).1.buf =
          (({ pass.conns with accepted := pass.conns.accepted + 1 } : Connections).read conn.conn
            (peers.drained conn.conn)).received conn.conn := by
        rw [received_read, if_pos rfl, hbuf, hempty]
        exact congrArg (· ++ _) hnone.symm
      generalize conn.advance (peers.drained conn.conn) = advanced at *
      obtain ⟨read, advance⟩ := advanced
      dsimp only at hconn hdeadline hbuf hspec hreceived ⊢
      have hpending : (({ pass.conns with accepted := pass.conns.accepted + 1 } : Connections).read conn.conn
        (peers.drained conn.conn)).pending = pass.conns.pending := rfl
      have hsame : (({ pass.conns with accepted := pass.conns.accepted + 1 } : Connections).read conn.conn
        (peers.drained conn.conn)).answered = pass.conns.answered := rfl
      generalize ({ pass.conns with accepted := pass.conns.accepted + 1 } : Connections).read conn.conn
        (peers.drained conn.conn) = conns at *
      rw [← hconn] at hread hreceived hyounger
      rw [← hdeadline] at hwithin hsooner hanswered
      cases advance with
      | complete inbound => exact hread.dispatchInbound peers now inbound hspec hreceived hwithin
      | drop => exact hread.drop now hspec hconn hlogged hreceived hwithin
      | park =>
        refine hread.admitPending now ?_ ?_ hwithin hspec hreceived ?_
        · rw [hpending]
          exact hyounger
        · rw [hpending]
          exact hsooner
        · rw [hsame]
          exact hanswered

theorem Held.acceptSteps (peers : Peers) {now : Nat} (waiting : List Bool) {pass : Pass} (h : Held pass.conns [] [] now) :
    Held (waiting.foldl (Connections.acceptStep peers now) pass).conns [] [] now := by
  induction waiting generalizing pass with
  | nil => exact h
  | cons nonblocking waiting ih => exact ih (h.acceptStep peers nonblocking)

theorem Held.turn (h : Held s [] [] clock) (peers : Peers) {now acceptNow : Nat} (hle : clock ≤ acceptNow) :
    Held (s.turn peers now acceptNow) [] [] acceptNow :=
  Held.acceptSteps peers _ ((h.parkedPass peers now).mono hle)

theorem Held.retain (h : Held s [] [] clock) (stays : Nat → Bool) : Held (s.retain stays) [] [] clock := by
  refine ⟨h.ledger, h.order, h.sorted, h.within, h.begun, h.received, h.read, h.right, h.evicted,
    (List.length_filter_le _ _).trans h.room, ?_⟩
  refine List.Perm.trans ?_ h.subscribed
  have hsplit := List.filter_append_perm stays s.subscribers
  simp only [Connections.retain]
  refine List.Perm.trans ?_ (List.Perm.append_right s.dropped hsplit)
  rw [List.append_assoc]
  exact List.Perm.append_left _ List.perm_append_comm

/-! ## How many, and how late -/

theorem pending_dispatchInbound (peers : Peers) (pending : Pending) (now : Nat) (inbound : Inbound) :
    (s.dispatchInbound peers pending now inbound).pending = s.pending := by
  cases inbound with
  | event frame => rfl
  | history => rfl
  | subscribe =>
    simp only [dispatchInbound, registerSubscriber]
    split
    · rfl
    · rfl

/-- A look keeps a connection, as long as its deadline has not come, or lets it go. -/
theorem parkedStep_pending (peers : Peers) (now : Nat) (pass : Pass) (pending : Pending) :
    (parkedStep peers now pass pending).conns.pending = pass.conns.pending ∨
      ∃ kept : Pending, now < kept.deadline ∧
        (parkedStep peers now pass pending).conns.pending = pass.conns.pending ++ [kept] := by
  have hkeep : ∀ (conns : Connections) (kept : Pending), conns.pending = pass.conns.pending → ¬ kept.isDue now = true →
      ∃ found : Pending, now < found.deadline ∧ (conns.keep kept).pending = pass.conns.pending ++ [found] := by
    intro conns kept hsame hdue
    rw [Pending.isDue, decide_eq_true_eq, Nat.not_le] at hdue
    exact ⟨kept, hdue, by rw [keep, hsame]⟩
  unfold parkedStep
  split
  next =>
    dsimp only
    split
    next => exact .inl rfl
    next hdue => exact .inr (hkeep _ _ rfl hdue)
  next =>
    split
    next hquiet =>
      rw [Bool.and_eq_true, Bool.not_eq_true', Bool.not_eq_true'] at hquiet
      exact .inr (hkeep _ _ rfl (by rw [hquiet.2]; exact Bool.false_ne_true))
    next =>
      dsimp only
      generalize pending.advance (peers.drained pending.conn) = advanced
      obtain ⟨read, advance⟩ := advanced
      cases advance with
      | complete inbound => exact .inl (pending_dispatchInbound peers read now inbound)
      | drop => exact .inl rfl
      | park =>
        dsimp only
        split
        next => exact .inl rfl
        next hdue => exact .inr (hkeep _ _ rfl hdue)

/-- What the looks of a turn keep is not due, and no more than there was. -/
theorem parkedSteps_pending (peers : Peers) (now : Nat) (todo : List Pending) (pass : Pass)
    (hdue : ∀ p ∈ pass.conns.pending, now < p.deadline) :
    (∀ p ∈ (todo.foldl (parkedStep peers now) pass).conns.pending, now < p.deadline) ∧
      (todo.foldl (parkedStep peers now) pass).conns.pending.length ≤ pass.conns.pending.length + todo.length := by
  induction todo generalizing pass with
  | nil => exact ⟨hdue, Nat.le_refl _⟩
  | cons pending todo ih =>
    rw [List.foldl_cons, List.length_cons]
    rcases parkedStep_pending peers now pass pending with hsame | ⟨kept, hkept, hmore⟩
    · obtain ⟨hall, hlen⟩ := ih (parkedStep peers now pass pending) (by rw [hsame]; exact hdue)
      rw [hsame] at hlen
      exact ⟨hall, by omega⟩
    · have hdue' : ∀ p ∈ (parkedStep peers now pass pending).conns.pending, now < p.deadline := by
        intro p hp
        rw [hmore] at hp
        rcases List.mem_append.mp hp with hp | hp
        · exact hdue p hp
        · rw [List.mem_singleton.mp hp]
          exact hkept
      obtain ⟨hall, hlen⟩ := ih (parkedStep peers now pass pending) hdue'
      rw [hmore, List.length_append, List.length_singleton] at hlen
      exact ⟨hall, by omega⟩

theorem admitPending_pending (s : Connections) (pending : Pending) (now : Nat) :
    (∀ p ∈ (s.admitPending pending now).pending, p ∈ s.pending ∨ p = pending) ∧
      (s.pending.length ≤ maxPending → (s.admitPending pending now).pending.length ≤ maxPending) := by
  have hkeep : ∀ p ∈ (s.keep pending).pending, p ∈ s.pending ∨ p = pending := by
    intro p hp
    rcases List.mem_append.mp hp with hp | hp
    · exact .inl hp
    · exact .inr (List.mem_singleton.mp hp)
  unfold admitPending
  split
  next oldest rest hpending =>
    split
    next hfull =>
      refine ⟨fun p hp => ?_, fun hlen => ?_⟩
      · rcases List.mem_append.mp hp with hp | hp
        · rw [hpending]
          exact .inl (List.mem_cons_of_mem _ hp)
        · exact .inr (List.mem_singleton.mp hp)
      · rw [hpending, List.length_cons] at hlen
        simp only [keep, answer, List.length_append, List.length_singleton]
        exact hlen
    next hroom =>
      refine ⟨hkeep, fun _ => ?_⟩
      simp only [keep, List.length_append, List.length_singleton]
      omega
  next hpending =>
    refine ⟨hkeep, fun _ => ?_⟩
    simp only [keep, hpending, List.nil_append, List.length_singleton]
    exact (by decide : 1 ≤ maxPending)

theorem acceptStep_pending (peers : Peers) (now : Nat) (pass : Pass) (nonblocking : Bool) :
    (∀ p ∈ (acceptStep peers now pass nonblocking).conns.pending,
        p ∈ pass.conns.pending ∨ p.deadline = now + frameDeadline) ∧
      (pass.conns.pending.length ≤ maxPending → (acceptStep peers now pass nonblocking).conns.pending.length ≤ maxPending) := by
  unfold acceptStep
  split
  next => exact ⟨fun p hp => .inl hp, id⟩
  next =>
    dsimp only
    split
    next => exact ⟨fun p hp => .inl hp, id⟩
    next =>
      obtain ⟨-, hdeadline, -⟩ := advance_frame (pass.conns.newcomer now) (peers.drained (pass.conns.newcomer now).conn)
      generalize (pass.conns.newcomer now).advance (peers.drained (pass.conns.newcomer now).conn) = advanced at *
      obtain ⟨read, advance⟩ := advanced
      cases advance with
      | complete inbound =>
        dsimp only
        rw [pending_dispatchInbound]
        exact ⟨fun p hp => .inl hp, id⟩
      | drop => exact ⟨fun p hp => .inl hp, id⟩
      | park =>
        obtain ⟨hmem, hlen⟩ := admitPending_pending
          (({ pass.conns with accepted := pass.conns.accepted + 1 } : Connections).read (pass.conns.newcomer now).conn
            (peers.drained (pass.conns.newcomer now).conn)) read now
        refine ⟨fun p hp => ?_, hlen⟩
        rcases hmem p hp with hp | rfl
        · exact .inl hp
        · exact .inr hdeadline

/-- The frames dispatched so far. -/
def dispatched (s : Connections) : Nat := (s.answered.filter fun a => a.answer.inbound?.isSome).length

theorem dispatched_answer (s : Connections) (pending : Pending) (now : Nat) (found : Answer) :
    (s.answer pending now found).dispatched = s.dispatched + if found.inbound?.isSome then 1 else 0 := by
  unfold dispatched answer
  rw [List.filter_append, List.length_append]
  congr 1
  cases hfound : found.inbound?.isSome with
  | true => simp [hfound]
  | false => simp [hfound]

theorem dispatched_dispatchInbound (s : Connections) (peers : Peers) (pending : Pending) (now : Nat) (inbound : Inbound) :
    (s.dispatchInbound peers pending now inbound).dispatched = s.dispatched + 1 := by
  cases inbound with
  | event frame => exact dispatched_answer s pending now _
  | history => exact dispatched_answer s pending now _
  | subscribe =>
    simp only [dispatchInbound, registerSubscriber]
    split
    · exact dispatched_answer s pending now _
    · exact dispatched_answer _ pending now _

theorem dispatched_admitPending (s : Connections) (pending : Pending) (now : Nat) :
    (s.admitPending pending now).dispatched = s.dispatched := by
  unfold admitPending
  split
  next oldest rest hpending =>
    split
    · exact dispatched_answer _ oldest now (.nak .evicted)
    · rfl
  next => rfl

theorem parkedStep_dispatched (peers : Peers) (now : Nat) (pass : Pass) (pending : Pending) :
    (parkedStep peers now pass pending).conns.dispatched + (parkedStep peers now pass pending).hookBudget =
      pass.conns.dispatched + pass.hookBudget := by
  unfold parkedStep
  split
  next =>
    dsimp only
    split
    · rw [dispatched_answer]
      rfl
    · rfl
  next hbudget =>
    split
    next => rfl
    next =>
      dsimp only
      generalize pending.advance (peers.drained pending.conn) = advanced
      obtain ⟨read, advance⟩ := advanced
      cases advance with
      | complete inbound =>
        dsimp only
        rw [dispatched_dispatchInbound]
        change pass.conns.dispatched + 1 + (pass.hookBudget - 1) = pass.conns.dispatched + pass.hookBudget
        omega
      | drop =>
        dsimp only
        rw [dispatched_answer]
        rfl
      | park =>
        dsimp only
        split
        · rw [dispatched_answer]
          rfl
        · rfl

theorem acceptStep_dispatched (peers : Peers) (now : Nat) (pass : Pass) (nonblocking : Bool) :
    (acceptStep peers now pass nonblocking).conns.dispatched + (acceptStep peers now pass nonblocking).hookBudget =
      pass.conns.dispatched + pass.hookBudget := by
  unfold acceptStep
  split
  next => rfl
  next hbudget =>
    dsimp only
    split
    next =>
      rw [dispatched_answer]
      rfl
    next =>
      generalize (pass.conns.newcomer now).advance (peers.drained (pass.conns.newcomer now).conn) = advanced
      obtain ⟨read, advance⟩ := advanced
      cases advance with
      | complete inbound =>
        dsimp only
        rw [dispatched_dispatchInbound]
        change pass.conns.dispatched + 1 + (pass.hookBudget - 1) = pass.conns.dispatched + pass.hookBudget
        omega
      | drop =>
        dsimp only
        rw [dispatched_answer]
        rfl
      | park =>
        dsimp only
        rw [dispatched_admitPending]
        rfl

/-- A turn dispatches a frame at the most. -/
theorem turn_dispatched (s : Connections) (peers : Peers) (now acceptNow : Nat) :
    (s.turn peers now acceptNow).dispatched ≤ s.dispatched + 1 := by
  have hparked : ∀ (todo : List Pending) (pass : Pass),
      (todo.foldl (parkedStep peers now) pass).conns.dispatched + (todo.foldl (parkedStep peers now) pass).hookBudget =
        pass.conns.dispatched + pass.hookBudget := by
    intro todo
    induction todo with
    | nil => exact fun _ => rfl
    | cons pending todo ih => exact fun pass => (ih _).trans (parkedStep_dispatched peers now pass pending)
  have hwaiting : ∀ (waiting : List Bool) (pass : Pass),
      (waiting.foldl (acceptStep peers acceptNow) pass).conns.dispatched +
          (waiting.foldl (acceptStep peers acceptNow) pass).hookBudget = pass.conns.dispatched + pass.hookBudget := by
    intro waiting
    induction waiting with
    | nil => exact fun _ => rfl
    | cons nonblocking waiting ih => exact fun pass => (ih _).trans (acceptStep_dispatched peers acceptNow pass nonblocking)
  have hall := (hwaiting (peers.waiting.take maxAccepts) (s.parkedPass peers now)).trans (hparked s.pending _)
  have hstart : ({ s with pending := [] } : Connections).dispatched = s.dispatched := rfl
  have hturn : (s.turn peers now acceptNow).dispatched ≤
      ({ s with pending := [] } : Connections).dispatched + ({ conns := { s with pending := [] } } : Pass).hookBudget :=
    (Nat.le_add_right _ _).trans hall.le
  exact hturn

/-- After a turn no connection is parked whose deadline had come. -/
theorem turn_due (s : Connections) (peers : Peers) {now acceptNow : Nat} (hle : now ≤ acceptNow) :
    ∀ p ∈ (s.turn peers now acceptNow).pending, now < p.deadline := by
  obtain ⟨hdue, -⟩ := parkedSteps_pending peers now s.pending { conns := { s with pending := [] } }
    fun p hp => absurd hp List.not_mem_nil
  have hwaiting : ∀ (waiting : List Bool) (pass : Pass), (∀ p ∈ pass.conns.pending, now < p.deadline) →
      ∀ p ∈ (waiting.foldl (acceptStep peers acceptNow) pass).conns.pending, now < p.deadline := by
    intro waiting
    induction waiting with
    | nil => exact fun _ hdue => hdue
    | cons nonblocking waiting ih =>
      intro pass hdue
      refine ih _ fun p hp => ?_
      rcases (acceptStep_pending peers acceptNow pass nonblocking).1 p hp with hp | hp
      · exact hdue p hp
      · have hpos : 0 < frameDeadline := by decide
        omega
  exact hwaiting _ _ hdue

/-- A turn keeps the set within its bound. -/
theorem turn_bounded (s : Connections) (peers : Peers) (now acceptNow : Nat) (hlen : s.pending.length ≤ maxPending) :
    (s.turn peers now acceptNow).pending.length ≤ maxPending := by
  obtain ⟨-, hkept⟩ := parkedSteps_pending peers now s.pending { conns := { s with pending := [] } }
    fun p hp => absurd hp List.not_mem_nil
  have hwaiting : ∀ (waiting : List Bool) (pass : Pass), pass.conns.pending.length ≤ maxPending →
      (waiting.foldl (acceptStep peers acceptNow) pass).conns.pending.length ≤ maxPending := by
    intro waiting
    induction waiting with
    | nil => exact fun _ hlen => hlen
    | cons nonblocking waiting ih =>
      exact fun pass hlen => ih _ ((acceptStep_pending peers acceptNow pass nonblocking).2 hlen)
  refine hwaiting _ _ ?_
  have hnone : ({ conns := { s with pending := [] } } : Pass).conns.pending.length = 0 := rfl
  unfold parkedPass
  omega

end Connections

/-! ## Runs -/

inductive ConnOp
  /-- The parked connections, and a while later those that wait. -/
  | turn (peers : Peers) (toPass toAccept : Nat)
  | push (takes : Nat → Bool)
  | reap (report : Nat → Connections.Hangup)

/-- The connections, and the clock of the last turn. -/
structure Clocked where
  conns : Connections := {}
  clock : Nat := 0

def Clocked.step (s : Clocked) : ConnOp → Clocked
  | .turn peers toPass toAccept =>
    { conns := s.conns.turn peers (s.clock + toPass) (s.clock + toPass + toAccept), clock := s.clock + toPass + toAccept }
  | .push takes => { s with conns := s.conns.pushSubscribers takes }
  | .reap report => { s with conns := s.conns.reapClosedSubscribers report }

/-- What holds of the connections between two turns. -/
structure Connections.Settled (s : Connections) : Prop where
  /-- Each accepted connection is parked, or was answered, and is in one place. -/
  ledger : (s.pending.map Pending.conn ++ s.answered.map fun a => a.pending.conn).Perm (List.range s.accepted)
  bounded : s.pending.length ≤ maxPending
  /-- Of a parked connection the start of a frame was read, and no whole one. -/
  begun : ∀ p ∈ s.pending, p.buf = s.received p.conn ∧ parseInbound p.buf = some .needMore
  /-- An answered one was answered for all that was read of it, and nothing is read of it again. -/
  right : ∀ a ∈ s.answered, a.pending.buf = s.received a.pending.conn ∧ a.Right s.reads
  /-- Only the oldest is pushed out, by 32 younger ones, and no deadline is sooner than its own. -/
  evicted : ∀ a ∈ s.answered, a.answer = .nak .evicted →
    a.pending.conn + maxPending < s.accepted ∧ ∀ p ∈ s.pending, a.pending.deadline ≤ p.deadline
  room : s.subscribers.length ≤ maxSubscribers
  /-- A retained connection is retained still, or was let go, once. -/
  subscribed : (s.subscribers ++ s.dropped).Perm (s.answered.filterMap Answered.subscriber?)

theorem Connections.Held.settled {s : Connections} {clock : Nat} (h : s.Held [] [] clock)
    (hlen : s.pending.length ≤ maxPending) : s.Settled := by
  have hnil : ∀ {p : Pending}, p ∈ s.pending → p ∈ s.pending ++ [] := fun hp => List.mem_append_left _ hp
  refine ⟨?_, hlen, fun p hp => ⟨h.received p (hnil hp), h.begun p (hnil hp)⟩,
    fun a ha => ⟨(h.right a ha).2.1, (h.right a ha).1⟩,
    fun a ha he => ⟨(h.evicted a ha he).1, fun p hp => (h.evicted a ha he).2 p (hnil hp)⟩, h.room, h.subscribed⟩
  have hledger := h.ledger
  rw [List.append_nil, List.append_nil] at hledger
  exact hledger

/-- The invariant between two turns. -/
def Clocked.Held (s : Clocked) : Prop := s.conns.Held [] [] s.clock ∧ s.conns.pending.length ≤ maxPending

theorem Clocked.held_start : Clocked.Held {} := by
  have hnone : ∀ {α : Type} {P : α → Prop}, ∀ x ∈ ([] : List α), P x := fun x hx => absurd hx List.not_mem_nil
  exact ⟨⟨List.Perm.refl _, List.Pairwise.nil, List.Pairwise.nil, hnone, hnone, hnone, hnone, hnone, hnone,
    Nat.zero_le _, List.Perm.refl _⟩, Nat.zero_le _⟩

theorem Clocked.Held.step {s : Clocked} (h : s.Held) (op : ConnOp) : (s.step op).Held := by
  obtain ⟨hheld, hlen⟩ := h
  cases op with
  | turn peers toPass toAccept =>
    exact ⟨hheld.turn peers (by omega), s.conns.turn_bounded peers _ _ hlen⟩
  | push takes => exact ⟨hheld.retain takes, hlen⟩
  | reap report => exact ⟨hheld.retain _, hlen⟩

theorem Clocked.held (ops : List ConnOp) : (Run.run Clocked.step {} ops).Held :=
  Run.invariant Clocked.step Clocked.Held (fun _ op h => h.step op) Clocked.held_start ops

end TmuxAgents.Daemon
