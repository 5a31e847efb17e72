/-
The daemon's deadlines over whole runs of its loop.

The loop has no timer: it is late by what it does between two polls, by what a poll oversleeps, and by
the 10 ms it waits at the least. `on_time` says that it is late by no more, for every quiet edge, every
sweep, every parked connection and every look a session is owed; a signal that cuts a poll short costs
as much again. And a poll that lasts its whole wait ends with something to do (`Serve.WaitsFor`).
-/
import TmuxAgents.Daemon.Serve

namespace TmuxAgents.Daemon

open Control

/-! ## The wait -/

section

variable {pool : ControlPool} {now sweep : Nat}

theorem min?_le_of_mem {l : List Nat} {n m : Nat} (h : l.min? = some n) (hm : m ∈ l) : n ≤ m :=
  (List.min?_eq_some_iff.mp h).2 m hm

theorem pollTimeout_le_sweep (pool : ControlPool) (now sweep : Nat) : pool.pollTimeout now sweep ≤ sweep := by
  cases hmin : (pool.remaining now).min? with
  | none =>
    simp only [ControlPool.pollTimeout, hmin]
    split
    · exact Nat.le_refl _
    · exact Nat.min_le_left _ _
  | some rem =>
    simp only [ControlPool.pollTimeout, hmin]
    split
    · exact Nat.min_le_right _ _
    · exact (Nat.min_le_left _ _).trans (Nat.min_le_right _ _)

theorem pollTimeout_le_deadline {e : Text × Nat} (h : e ∈ pool.active) :
    pool.pollTimeout now sweep ≤ max (e.2 + pool.quietThreshold - now) (millis 10) := by
  have hmem : e.2 + pool.quietThreshold - now ∈ pool.remaining now := List.mem_map.mpr ⟨e, h, rfl⟩
  cases hmin : (pool.remaining now).min? with
  | none =>
    rw [List.min?_eq_none_iff.mp hmin] at hmem
    exact absurd hmem List.not_mem_nil
  | some rem =>
    have hrem := min?_le_of_mem hmin hmem
    have hbound : min (max rem (millis 10)) sweep ≤ max (e.2 + pool.quietThreshold - now) (millis 10) :=
      (Nat.min_le_left _ _).trans (Nat.max_le.mpr ⟨hrem.trans (Nat.le_max_left _ _), Nat.le_max_right _ _⟩)
    simp only [ControlPool.pollTimeout, hmin]
    split
    · exact hbound
    · exact (Nat.min_le_left _ _).trans hbound

theorem pollTimeout_le_seed (h : pool.pendingSeed = true) : pool.pollTimeout now sweep ≤ seedRetry := by
  rw [ControlPool.pendingSeed, Bool.not_eq_true'] at h
  unfold ControlPool.pollTimeout
  rw [if_neg (by rw [h]; exact Bool.false_ne_true)]
  exact Nat.min_le_right _ _

/-- The pool's wait is the sweep's share, the retry of a look, or ends with a pane's quiet deadline. -/
theorem pollTimeout_cases (pool : ControlPool) (now sweep : Nat) : pool.pollTimeout now sweep = sweep ∨
    (pool.pendingSeed = true ∧ pool.pollTimeout now sweep = seedRetry) ∨
    ∃ e ∈ pool.active, e.2 + pool.quietThreshold ≤ now + pool.pollTimeout now sweep := by
  have hbase : ∀ base, (base = sweep ∨ ∃ e ∈ pool.active, e.2 + pool.quietThreshold ≤ now + base) →
      ∀ timeout, timeout = (if pool.newlyAttached.isEmpty then base else min base seedRetry) →
      timeout = sweep ∨ (pool.pendingSeed = true ∧ timeout = seedRetry) ∨
        ∃ e ∈ pool.active, e.2 + pool.quietThreshold ≤ now + timeout := by
    intro base hbase timeout htimeout
    split at htimeout
    next =>
      rw [htimeout]
      exact hbase.imp id .inr
    next hseed =>
      rcases Nat.le_total base seedRetry with hle | hle
      · rw [htimeout, Nat.min_eq_left hle]
        exact hbase.imp id .inr
      · rw [htimeout, Nat.min_eq_right hle]
        exact .inr (.inl ⟨by rw [ControlPool.pendingSeed]; simpa using hseed, rfl⟩)
  cases hmin : (pool.remaining now).min? with
  | none => exact hbase sweep (.inl rfl) _ (by simp only [ControlPool.pollTimeout, hmin])
  | some rem =>
    refine hbase (min (max rem (millis 10)) sweep) ?_ _ (by simp only [ControlPool.pollTimeout, hmin])
    rcases Nat.le_total sweep (max rem (millis 10)) with hle | hle
    · exact .inl (Nat.min_eq_right hle)
    · obtain ⟨e, he, hrem⟩ := List.mem_map.mp (List.min?_mem hmin)
      refine .inr ⟨e, he, ?_⟩
      rw [Nat.min_eq_left hle]
      omega

end

theorem boundedPollTimeout_cases (control : Nat) (pending program : Option Nat) :
    boundedPollTimeout control pending program = control ∨ boundedPollTimeout control pending program ∈ pending ∨
      boundedPollTimeout control pending program ∈ program := by
  cases pending with
  | none =>
    cases program with
    | none => exact .inl rfl
    | some m => exact (min_choice control m).imp id fun h => .inr (congrArg some h.symm)
  | some n =>
    cases program with
    | none => exact (min_choice control n).imp id fun h => .inl (congrArg some h.symm)
    | some m =>
      rcases min_choice (min control n) m with h | h
      · rcases min_choice control n with h' | h'
        · exact .inl (h.trans h')
        · exact .inr (.inl (congrArg some (h.trans h').symm))
      · exact .inr (.inr (congrArg some h.symm))

theorem boundedPollTimeout_le (control : Nat) (pending program : Option Nat) :
    boundedPollTimeout control pending program ≤ control ∧ ∀ n ∈ pending, boundedPollTimeout control pending program ≤ n := by
  cases pending with
  | none =>
    cases program with
    | none => exact ⟨Nat.le_refl _, by simp⟩
    | some m => exact ⟨Nat.min_le_left _ _, by simp⟩
  | some n =>
    cases program with
    | none => exact ⟨Nat.min_le_left _ _, by simp [boundedPollTimeout]⟩
    | some m =>
      simp only [boundedPollTimeout, Option.toList_some, List.cons_append, List.nil_append, List.foldl_cons, List.foldl_nil,
        Option.mem_some_iff, forall_eq']
      omega

theorem nearestDeadline_le {s : Connections} (now : Nat) {p : Pending} (hp : p ∈ s.pending) :
    ∃ n ∈ s.nearestDeadline now, n ≤ p.deadline - now := by
  have hmem : p.deadline - now ∈ s.pending.map fun p => p.deadline - now := List.mem_map.mpr ⟨p, hp, rfl⟩
  cases hmin : (s.pending.map fun p => p.deadline - now).min? with
  | none =>
    rw [List.min?_eq_none_iff.mp hmin] at hmem
    exact absurd hmem List.not_mem_nil
  | some n => exact ⟨n, hmin, min?_le_of_mem hmin hmem⟩

theorem nearestDeadline_mem {s : Connections} {now n : Nat} (h : n ∈ s.nearestDeadline now) :
    ∃ p ∈ s.pending, p.deadline ≤ now + n := by
  obtain ⟨p, hp, hn⟩ := List.mem_map.mp (List.min?_mem h)
  exact ⟨p, hp, by omega⟩

/-! ## What a turn does to the panes that are active -/

namespace Activity

open Control.ControlPool

theorem mem_emits (panes : List Text) (nowEpoch : Nat) (pool : ControlPool) (e : Text × Nat) :
    e ∈ (panes.foldl (emitEdge nowEpoch) pool).active ↔ e ∈ pool.active ∧ e.1 ∉ panes := by
  induction panes generalizing pool with
  | nil => simp
  | cons pane rest ih =>
    rw [List.foldl_cons, ih]
    simp only [emitEdge, Assoc.remove, List.mem_filter, List.mem_cons, not_or]
    simp only [decide_eq_true_eq, ne_eq]
    tauto

/-- A tick leaves the panes whose deadline has not come. -/
theorem mem_tick {pool : ControlPool} {now nowEpoch sweep : Nat} {e : Text × Nat} :
    e ∈ (pool.tick now nowEpoch sweep).2.active → e ∈ pool.active ∧ now - e.2 < pool.quietThreshold := by
  intro h
  obtain ⟨hmem, hquiet⟩ := (mem_emits (pool.quiet now) nowEpoch pool e).mp h
  refine ⟨hmem, ?_⟩
  by_contra hlate
  exact hquiet (Control.Watched.mem_quiet.mpr ⟨e.2, hmem, Nat.not_lt.mp hlate⟩)

theorem emits_frame (panes : List Text) (nowEpoch : Nat) (pool : ControlPool) :
    (panes.foldl (emitEdge nowEpoch) pool).quietThreshold = pool.quietThreshold ∧
      (panes.foldl (emitEdge nowEpoch) pool).newlyAttached = pool.newlyAttached := by
  induction panes generalizing pool with
  | nil => exact ⟨rfl, rfl⟩
  | cons pane rest ih => exact ih (emitEdge nowEpoch pool pane)

theorem marks_frame (panes : List Text) (now : Nat) (pool : ControlPool) :
    (panes.foldl (markActive · now) pool).quietThreshold = pool.quietThreshold ∧
      (panes.foldl (markActive · now) pool).newlyAttached = pool.newlyAttached := by
  induction panes generalizing pool with
  | nil => exact ⟨rfl, rfl⟩
  | cons pane rest ih => exact ih (pool.markActive now pane)

theorem reconcile_threshold (pool : ControlPool) (sessions : Option (List SessionId)) (spawned : SessionId → Bool) :
    (pool.reconcile sessions spawned).quietThreshold = pool.quietThreshold := by
  have hattach : ∀ (sessions : List SessionId) (pool : ControlPool),
      (sessions.foldl (ControlPool.attach spawned) pool).quietThreshold = pool.quietThreshold := by
    intro sessions
    induction sessions with
    | nil => exact fun _ => rfl
    | cons session rest ih =>
      intro pool
      rw [List.foldl_cons, ih]
      unfold ControlPool.attach
      split
      · rfl
      · rfl
  cases sessions with
  | none => rfl
  | some sessions => exact hattach sessions _

theorem mem_marks (panes : List Text) (now : Nat) (pool : ControlPool) {e : Text × Nat}
    (h : e ∈ (panes.foldl (markActive · now) pool).active) : e ∈ pool.active ∨ e.2 = now := by
  induction panes generalizing pool with
  | nil => exact .inl h
  | cons pane rest ih =>
    rcases ih _ h with h | h
    · rcases Assoc.mem_set h with h | rfl
      · exact .inl h
      · exact .inr rfl
    · exact .inr h

end Activity

/-! ## The state after a turn -/

namespace Serve

/-- What the turn up to its poll does, and what bounds the poll. -/
structure Waits (s : Serve) (t : Turn) : Prop where
  threshold : (s.beforePoll t).1.pool.quietThreshold = s.pool.quietThreshold
  newlyAttached : (s.beforePoll t).1.pool.newlyAttached = s.pool.newlyAttached
  parked : (s.beforePoll t).1.conns.pending = s.conns.pending
  active : ∀ e ∈ (s.beforePoll t).1.pool.active,
    (e ∈ s.pool.active ∧ t.tickNow s.clock - e.2 < s.pool.quietThreshold) ∨ e.2 = t.recheckNow s.clock
  sweep : (s.beforePoll t).2 ≤ untilSweep s.lastSweep (t.sweepNow s.clock) s.sweep
  edge : ∀ e ∈ (s.beforePoll t).1.pool.active, ∃ now, s.clock ≤ now ∧ now ≤ t.nextNow s.clock ∧
    (s.beforePoll t).2 ≤ max (e.2 + s.pool.quietThreshold - now) (millis 10)
  expiry : ∀ p ∈ s.conns.pending, (s.beforePoll t).2 ≤ p.deadline - t.nearestNow s.clock
  seed : s.pool.pendingSeed = true → (s.beforePoll t).2 ≤ seedRetry

theorem iterSweep_le (s : Serve) (t : Turn) : s.iterSweep t ≤ untilSweep s.lastSweep (t.sweepNow s.clock) s.sweep := by
  unfold iterSweep effectiveSweep
  split
  · exact Nat.min_le_left _ _
  · exact Nat.le_refl _

theorem waits (s : Serve) (t : Turn) : s.Waits t := by
  obtain ⟨hthreshold, hattached⟩ := Activity.emits_frame (s.pool.quiet (t.tickNow s.clock)) t.nowEpoch s.pool
  generalize hpool : (s.pool.tick (t.tickNow s.clock) t.nowEpoch (s.iterSweep t)).2.drainEdges.2 = pool
  have htick : ∀ e ∈ pool.active, e ∈ s.pool.active ∧ t.tickNow s.clock - e.2 < s.pool.quietThreshold := by
    intro e he
    rw [← hpool] at he
    exact Activity.mem_tick he
  have hpoolThreshold : pool.quietThreshold = s.pool.quietThreshold := by
    rw [← hpool]
    exact hthreshold
  have hpoolAttached : pool.newlyAttached = s.pool.newlyAttached := by
    rw [← hpool]
    exact hattached
  have htimeout : (s.pool.tick (t.tickNow s.clock) t.nowEpoch (s.iterSweep t)).1 =
      pool.pollTimeout (t.tickNow s.clock) (s.iterSweep t) := by
    rw [← hpool]
    rfl
  have hparked : (s.beforePoll t).1.conns.pending = s.conns.pending := by
    unfold beforePoll
    dsimp only
    cases t.changed <;> rfl
  -- The last timeout the pool computed is of the pool the poll waits for.
  obtain ⟨now, hafter, hnow, hcontrol⟩ : ∃ now, s.clock ≤ now ∧ now ≤ t.nextNow s.clock ∧
      (s.beforePoll t).2 ≤ (s.beforePoll t).1.pool.pollTimeout now (s.iterSweep t) := by
    have hbounded := boundedPollTimeout_le
    unfold beforePoll
    dsimp only
    rw [hpool, htimeout]
    split
    next =>
      refine ⟨t.tickNow s.clock, ?_, ?_, (hbounded _ _ _).1.trans (hbounded _ _ _).1⟩
      · unfold Turn.tickNow Turn.sweepNow
        omega
      · unfold Turn.nextNow Turn.recheckNow
        omega
    next =>
      refine ⟨t.nextNow s.clock, ?_, Nat.le_refl _, (hbounded _ _ _).1⟩
      unfold Turn.nextNow Turn.recheckNow Turn.tickNow Turn.sweepNow
      omega
  have hstate : (s.beforePoll t).1.pool.quietThreshold = s.pool.quietThreshold ∧
      (s.beforePoll t).1.pool.newlyAttached = s.pool.newlyAttached ∧
      ∀ e ∈ (s.beforePoll t).1.pool.active, e ∈ pool.active ∨ e.2 = t.recheckNow s.clock := by
    unfold beforePoll
    dsimp only
    rw [hpool]
    split
    next => exact ⟨hpoolThreshold, hpoolAttached, fun e he => .inl he⟩
    next =>
      obtain ⟨hmarkThreshold, hmarkAttached⟩ := Activity.marks_frame t.due (t.recheckNow s.clock) pool
      exact ⟨hmarkThreshold.trans hpoolThreshold, hmarkAttached.trans hpoolAttached,
        fun e he => Activity.mem_marks t.due _ pool he⟩
  refine ⟨hstate.1, hstate.2.1, hparked, fun e he => ?_, ?_, fun e he => ⟨now, hafter, hnow, ?_⟩, fun p hp => ?_, fun hseed => ?_⟩
  · rcases hstate.2.2 e he with he | he
    · exact .inl (htick e he)
    · exact .inr he
  · exact (hcontrol.trans (pollTimeout_le_sweep _ _ _)).trans (s.iterSweep_le t)
  · rw [← hstate.1]
    exact hcontrol.trans (pollTimeout_le_deadline he)
  · rw [← hparked] at hp
    obtain ⟨n, hn, hle⟩ := nearestDeadline_le (t.nearestNow s.clock) hp
    exact ((boundedPollTimeout_le _ _ _).2 n hn).trans hle
  · refine hcontrol.trans (pollTimeout_le_seed ?_)
    rw [ControlPool.pendingSeed, hstate.2.1]
    exact hseed

/-- What a poll that lasts its whole wait ends with. -/
inductive WaitsFor (s : Serve) (t : Turn) : Prop
  | edge {e : Text × Nat} : e ∈ (s.beforePoll t).1.pool.active →
    e.2 + s.pool.quietThreshold ≤ t.nearestNow s.clock + (s.beforePoll t).2 → WaitsFor s t
  | sweep : s.lastSweep + s.sweep ≤ t.nearestNow s.clock + (s.beforePoll t).2 → WaitsFor s t
  | expiry {p : Pending} : p ∈ s.conns.pending → p.deadline ≤ t.nearestNow s.clock + (s.beforePoll t).2 → WaitsFor s t
  /-- A look is owed, and tried again. -/
  | look : s.pool.pendingSeed = true → (s.beforePoll t).2 = seedRetry → WaitsFor s t
  /-- There is no client, and membership is listed again. -/
  | recheck : s.pool.isEmpty = true → (s.beforePoll t).2 = s.emptyPoolRecheck → WaitsFor s t
  | program : (s.beforePoll t).2 ∈ t.programTick ∨ (s.beforePoll t).2 ∈ t.programPoll → WaitsFor s t

/-- The loop is not woken for nothing. -/
theorem waitsFor (s : Serve) (t : Turn) (hswept : s.lastSweep ≤ s.clock) : s.WaitsFor t := by
  have hwaits := s.waits t
  have hseed : (s.beforePoll t).1.pool.pendingSeed = true → s.pool.pendingSeed = true := by
    rw [ControlPool.pendingSeed, ControlPool.pendingSeed, hwaits.newlyAttached]
    exact id
  have hnearest : s.clock ≤ t.sweepNow s.clock ∧ t.sweepNow s.clock ≤ t.nearestNow s.clock ∧
      t.tickNow s.clock ≤ t.nearestNow s.clock ∧ t.nextNow s.clock ≤ t.nearestNow s.clock := by
    unfold Turn.nearestNow Turn.nextNow Turn.recheckNow Turn.tickNow Turn.sweepNow
    omega
  -- a wait that is the pool's, at an instant before the poll
  have hcontrol : ∀ now ≤ t.nearestNow s.clock,
      (s.beforePoll t).2 = (s.beforePoll t).1.pool.pollTimeout now (s.iterSweep t) → s.WaitsFor t := by
    intro now hnow htimeout
    rcases pollTimeout_cases (s.beforePoll t).1.pool now (s.iterSweep t) with hsweep | ⟨hpending, hretry⟩ | ⟨e, he, hdue⟩
    · have hshare := htimeout.trans hsweep
      unfold iterSweep effectiveSweep at hshare
      split at hshare
      next hempty =>
        rcases min_choice (untilSweep s.lastSweep (t.sweepNow s.clock) s.sweep) s.emptyPoolRecheck with h | h
        · exact .sweep (by rw [hshare, h]; unfold untilSweep; omega)
        · exact .recheck hempty (hshare.trans h)
      next => exact .sweep (by rw [hshare]; unfold untilSweep; omega)
    · exact .look (hseed hpending) (htimeout.trans hretry)
    · rw [hwaits.threshold, ← htimeout] at hdue
      exact .edge he (by omega)
  have hpoll : (s.beforePoll t).2 ∈ (s.beforePoll t).1.conns.nearestDeadline (t.nearestNow s.clock) → s.WaitsFor t := by
    intro hpoll
    obtain ⟨p, hp, hdue⟩ := nearestDeadline_mem hpoll
    exact .expiry (hwaits.parked ▸ hp) hdue
  obtain ⟨timeout, hpool, hbounded⟩ : ∃ timeout, (timeout ∈ t.programTick ∨ ∃ now ≤ t.nearestNow s.clock,
      timeout = (s.beforePoll t).1.pool.pollTimeout now (s.iterSweep t)) ∧ (s.beforePoll t).2 =
        boundedPollTimeout timeout ((s.beforePoll t).1.conns.nearestDeadline (t.nearestNow s.clock)) t.programPoll := by
    unfold beforePoll
    dsimp only
    split
    next =>
      refine ⟨_, ?_, rfl⟩
      rcases boundedPollTimeout_cases (s.pool.tick (t.tickNow s.clock) t.nowEpoch (s.iterSweep t)).1 none t.programTick with
        h | h | h
      · exact .inr ⟨t.tickNow s.clock, hnearest.2.2.1, h⟩
      · cases h
      · exact .inl h
    next => exact ⟨_, .inr ⟨t.nextNow s.clock, hnearest.2.2.2, rfl⟩, rfl⟩
  rcases boundedPollTimeout_cases timeout ((s.beforePoll t).1.conns.nearestDeadline (t.nearestNow s.clock)) t.programPoll with
    h | h | h
  · rw [h] at hbounded
    rcases hpool with hprogram | ⟨now, hnow, htimeout⟩
    · exact .program (.inl (hbounded ▸ hprogram))
    · exact hcontrol now hnow (hbounded.trans htimeout)
  · exact hpoll (hbounded ▸ h)
  · exact .program (.inr (hbounded ▸ h))

theorem woken_frame (s : Serve) (t : Turn) :
    (s.woken t).pool.active = s.pool.active ∧ (s.woken t).conns.pending = s.conns.pending ∧
      (s.woken t).lastSweep = s.lastSweep ∧
      (t.reload = none → (s.woken t).pool.quietThreshold = s.pool.quietThreshold ∧ (s.woken t).sweep = s.sweep) := by
  unfold woken
  cases t.reload with
  | none => exact ⟨rfl, rfl, rfl, fun _ => ⟨rfl, rfl⟩⟩
  | some reload =>
    dsimp only [Option.elim, reloaded]
    cases reload.relisted with
    | none => exact ⟨rfl, rfl, rfl, fun h => by cases h⟩
    | some sessions => exact ⟨(Control.Watched.reconcile_frame _ _ _).1, rfl, rfl, fun h => by cases h⟩

/-- The control clients leave a pane's activity, or give it a new one. -/
theorem controls_frame (t : Turn) (clock : Nat) (pool : ControlPool) :
    (controls t clock pool).1.quietThreshold = pool.quietThreshold ∧
      ∀ e ∈ (controls t clock pool).1.active, e ∈ pool.active ∨ e.2 = t.readyNow clock ∨ e.2 = t.seedNow clock := by
  have hdispatch : (pool.dispatchReady t.enabled t.ready (t.readyNow clock)).1 =
      ((pool.readClients t.enabled t.ready).2.filterMap Notification.pane?).foldl (ControlPool.markActive · (t.readyNow clock))
        (pool.readClients t.enabled t.ready).1 :=
    Control.Watched.dispatch_notes _ _ _ {}
  obtain ⟨hactive, -, -, hthreshold⟩ := Control.Watched.readClients_frame pool t.enabled t.ready
  have hready : (pool.dispatchReady t.enabled t.ready (t.readyNow clock)).1.quietThreshold = pool.quietThreshold ∧
      ∀ e ∈ (pool.dispatchReady t.enabled t.ready (t.readyNow clock)).1.active, e ∈ pool.active ∨ e.2 = t.readyNow clock := by
    rw [hdispatch]
    refine ⟨(Activity.marks_frame _ _ _).1.trans hthreshold, fun e he => ?_⟩
    rcases Activity.mem_marks _ _ _ he with he | he
    · rw [hactive] at he
      exact .inl he
    · exact .inr he
  have hseed : ∀ pool : ControlPool, (pool.seedAttached t.topology (t.seedNow clock)).quietThreshold = pool.quietThreshold ∧
      ∀ e ∈ (pool.seedAttached t.topology (t.seedNow clock)).active, e ∈ pool.active ∨ e.2 = t.seedNow clock := by
    intro pool
    unfold ControlPool.seedAttached
    split
    next => exact ⟨rfl, fun e he => .inl he⟩
    next =>
      split
      next => exact ⟨rfl, fun e he => .inl he⟩
      next panes => exact ⟨(Activity.marks_frame _ _ _).1, fun e he => Activity.mem_marks _ _ { pool with newlyAttached := [] } he⟩
  unfold controls
  dsimp only
  obtain ⟨hreadyThreshold, hreadyActive⟩ := hready
  obtain ⟨hseedThreshold, hseedActive⟩ := hseed (pool.dispatchReady t.enabled t.ready (t.readyNow clock)).1
  have hboth : ∀ e ∈ ((pool.dispatchReady t.enabled t.ready (t.readyNow clock)).1.seedAttached t.topology
      (t.seedNow clock)).active, e ∈ pool.active ∨ e.2 = t.readyNow clock ∨ e.2 = t.seedNow clock := by
    intro e he
    rcases hseedActive e he with he | he
    · rcases hreadyActive e he with he | he
      · exact .inl he
      · exact .inr (.inl he)
    · exact .inr (.inr he)
  split
  next =>
    refine ⟨(Activity.reconcile_threshold _ _ _).trans (hseedThreshold.trans hreadyThreshold), fun e he => ?_⟩
    rw [(Control.Watched.reconcile_frame _ _ _).1] at he
    exact hboth e he
  next => exact ⟨hseedThreshold.trans hreadyThreshold, hboth⟩

theorem afterPoll_parked (s : Serve) (t : Turn) (clock : Nat) :
    (s.afterPoll t clock).conns.pending =
      ((s.woken t).conns.turn t.peers (t.passNow clock) (t.acceptNow clock)).pending := by
  unfold afterPoll
  dsimp only
  split
  · rfl
  · rfl

theorem afterPoll_active (s : Serve) (t : Turn) (clock : Nat) :
    (s.afterPoll t clock).pool.quietThreshold = (s.woken t).pool.quietThreshold ∧
      ∀ e ∈ (s.afterPoll t clock).pool.active, e ∈ s.pool.active ∨ e.2 = t.readyNow clock ∨ e.2 = t.seedNow clock := by
  rw [← (s.woken_frame t).1]
  exact controls_frame t clock (s.woken t).pool

/-- A turn ends with its sweep, or at its check of it. -/
theorem afterPoll_swept (s : Serve) (t : Turn) (clock : Nat) :
    ((s.afterPoll t clock).clock = t.dueNow clock + t.sweepTook ∧
        (s.afterPoll t clock).lastSweep = t.dueNow clock + t.sweepTook) ∨
      (t.dueNow clock - s.lastSweep < (s.woken t).sweep ∧ (s.afterPoll t clock).clock = t.dueNow clock ∧
        (s.afterPoll t clock).lastSweep = s.lastSweep) := by
  unfold afterPoll
  dsimp only
  rw [(s.woken_frame t).2.2.1]
  cases hdue : sweepDue s.lastSweep (t.dueNow clock) (s.woken t).sweep with
  | true => exact .inl ⟨rfl, rfl⟩
  | false => exact .inr ⟨Nat.not_le.mp (of_decide_eq_false hdue), rfl, rfl⟩

end Serve

/-! ## What the loop was late with -/

inductive Deed
  | edge (pane : Text)
  | sweep
  /-- A parked connection whose deadline has come is looked at once more, and let go. -/
  | expiry (conn : Nat)
  /-- A look that a session was owed already when the turn began. -/
  | look
deriving DecidableEq

/-- What was done, when it was due, when it was done, and how many polls in a row had been cut short before it. -/
structure Done where
  deed : Deed
  due : Nat
  now : Nat
  again : Nat
deriving DecidableEq

/-- The loop, what it has done, and when it last looked at each kind of deadline. -/
structure Timed where
  serve : Serve
  log : List Done := []
  tickedAt : Nat := 0
  reloadedAt : Nat := 0
  seededAt : Nat := 0
  passedAt : Nat := 0
  checkedAt : Nat := 0
  /-- Polls in a row that were cut short. -/
  again : Nat := 0

namespace Timed

/-- A reload moves every deadline of the configuration's. -/
def edges (s : Timed) (t : Turn) : List Done :=
  (s.serve.pool.active.filter fun e => decide (s.serve.pool.quietThreshold ≤ t.tickNow s.serve.clock - e.2)).map fun e =>
    { deed := .edge e.1, due := max (e.2 + s.serve.pool.quietThreshold) s.reloadedAt, now := t.tickNow s.serve.clock,
      again := 0 }

def looks (s : Timed) (t : Turn) : List Done :=
  if s.serve.pool.pendingSeed then
    [{ deed := .look, due := s.seededAt + (s.again + 1) * seedRetry, now := t.seedNow s.serve.clock, again := s.again }]
  else []

def expiries (s : Timed) (t : Turn) : List Done :=
  (s.serve.conns.pending.filter fun p => p.isDue (t.passNow s.serve.clock)).map fun p =>
    { deed := .expiry p.conn, due := p.deadline, now := t.passNow s.serve.clock, again := s.again }

def reloadedBy (s : Timed) (t : Turn) : Nat := if t.reload.isSome then t.reloadNow s.serve.clock else s.reloadedAt

/-- The cadence in force once the turn has polled. -/
def sweepBy (s : Timed) (t : Turn) : Nat := ((s.serve.beforePoll t).1.woken t).sweep

def sweeps (s : Timed) (t : Turn) : List Done :=
  if sweepDue s.serve.lastSweep (t.dueNow s.serve.clock) (s.sweepBy t) then
    [{ deed := .sweep, due := max (s.serve.lastSweep + s.sweepBy t) (s.reloadedBy t), now := t.dueNow s.serve.clock,
       again := s.again }]
  else []

def step (s : Timed) (t : Turn) : Timed :=
  if t.interrupted then
    { s with
      serve := s.serve.turn t, log := s.log ++ s.edges t, tickedAt := t.tickNow s.serve.clock, again := s.again + 1 }
  else
    { serve := s.serve.turn t
      log := s.log ++ s.edges t ++ s.looks t ++ s.expiries t ++ s.sweeps t
      tickedAt := t.tickNow s.serve.clock
      reloadedAt := s.reloadedBy t
      seededAt := t.seedNow s.serve.clock
      passedAt := t.passNow s.serve.clock
      checkedAt := t.dueNow s.serve.clock
      again := 0 }

/-- The turn does no more than so much beside its wait, and its poll oversleeps by no more than so much. -/
def Prompt (work late : Nat) (s : Timed) (t : Turn) : Prop :=
  t.work ≤ work ∧ t.waited ≤ (s.serve.beforePoll t).2 + late

/-- How late the loop may be. -/
def slack (work late : Nat) : Nat := millis 10 + late + 2 * work

/-- What holds between two turns of a loop whose turns are prompt. -/
structure Inv (work late : Nat) (s : Timed) : Prop where
  ticked : s.tickedAt ≤ s.serve.clock
  swept : s.serve.lastSweep ≤ s.serve.clock
  edge : ∀ e ∈ s.serve.pool.active,
    s.serve.clock ≤ max (e.2 + s.serve.pool.quietThreshold) s.reloadedAt + (millis 10 + late + work)
  marked : ∀ e ∈ s.serve.pool.active, e.2 ≤ s.serve.clock
  edgeOpen : ∀ e ∈ s.serve.pool.active,
    s.tickedAt < e.2 + s.serve.pool.quietThreshold ∨ s.tickedAt ≤ max e.2 s.reloadedAt
  sweep : s.serve.clock ≤ s.serve.lastSweep + s.serve.sweep + s.again * slack work late
  sweepOpen : s.checkedAt ≤ s.serve.lastSweep ∨ s.checkedAt < s.serve.lastSweep + s.serve.sweep
  expiry : ∀ p ∈ s.serve.conns.pending, s.serve.clock ≤ p.deadline + s.again * slack work late + work
  expiryOpen : ∀ p ∈ s.serve.conns.pending, s.passedAt < p.deadline
  look : s.serve.pool.pendingSeed = true →
    s.serve.clock ≤ s.seededAt + s.again * (seedRetry + slack work late) + work
  punctual : ∀ d ∈ s.log, d.now ≤ d.due + (d.again + 1) * slack work late
  early : ∀ d ∈ s.log, d.deed ≠ .look → d.due ≤ d.now
  reloaded : s.reloadedAt ≤ s.serve.clock

/-! ### How late a poll ends -/

/-- What a turn takes before its poll, and after it. -/
theorem work_split (t : Turn) (clock : Nat) : ∃ pre post, pre + post = t.work ∧ t.nearestNow clock = clock + pre ∧
    t.dueNow clock + t.sweepTook = t.wakeNow clock + post := by
  refine ⟨t.toSweep + t.toTick + t.toRecheck + t.toNext + t.toNearest,
    t.toReload + t.toReady + t.toSeed + t.toPass + t.toAccept + t.toDue + t.sweepTook, ?_, ?_, ?_⟩
  · unfold Turn.work
    omega
  · unfold Turn.nearestNow Turn.nextNow Turn.recheckNow Turn.tickNow Turn.sweepNow
    omega
  · unfold Turn.dueNow Turn.acceptNow Turn.passNow Turn.seedNow Turn.readyNow Turn.reloadNow
    omega

/-- The instants of a turn are in order. -/
theorem instants (t : Turn) (clock : Nat) :
    clock ≤ t.sweepNow clock ∧ t.sweepNow clock ≤ t.tickNow clock ∧ t.tickNow clock ≤ t.recheckNow clock ∧
      t.recheckNow clock ≤ t.nextNow clock ∧ t.nextNow clock ≤ t.nearestNow clock ∧
      t.nearestNow clock ≤ t.wakeNow clock ∧ t.wakeNow clock ≤ t.reloadNow clock ∧
      t.reloadNow clock ≤ t.readyNow clock ∧ t.readyNow clock ≤ t.seedNow clock ∧ t.seedNow clock ≤ t.passNow clock ∧
      t.passNow clock ≤ t.acceptNow clock ∧ t.acceptNow clock ≤ t.dueNow clock :=
  ⟨Nat.le_add_right _ _, Nat.le_add_right _ _, Nat.le_add_right _ _, Nat.le_add_right _ _, Nat.le_add_right _ _,
    Nat.le_add_right _ _, Nat.le_add_right _ _, Nat.le_add_right _ _, Nat.le_add_right _ _, Nat.le_add_right _ _,
    Nat.le_add_right _ _, Nat.le_add_right _ _⟩

section

variable {work late : Nat} {s : Timed} {t : Turn} {pre : Nat}

/-- A poll ends by the quiet deadline of every pane that is active when it starts. -/
theorem wake_edge (hlate : t.waited ≤ (s.serve.beforePoll t).2 + late) (hpre : t.nearestNow s.serve.clock = s.serve.clock + pre)
    {e : Text × Nat} (he : e ∈ (s.serve.beforePoll t).1.pool.active) :
    t.wakeNow s.serve.clock ≤ e.2 + s.serve.pool.quietThreshold + millis 10 + late + pre := by
  have hwaits := s.serve.waits t
  obtain ⟨hclock, hsweep, htick, hrecheck, hnext, -⟩ := instants t s.serve.clock
  obtain ⟨now, hafter, hnow, hedge⟩ := hwaits.edge e he
  have hactive := hwaits.active e he
  have hwake : t.wakeNow s.serve.clock = t.nearestNow s.serve.clock + t.waited := rfl
  generalize millis 10 = ten at *
  rcases hactive with ⟨-, hopen⟩ | hopen
  · omega
  · omega

/-- It ends by the sweep's deadline. -/
theorem wake_sweep (h : s.Inv work late) (hlate : t.waited ≤ (s.serve.beforePoll t).2 + late)
    (hpre : t.nearestNow s.serve.clock = s.serve.clock + pre) :
    t.wakeNow s.serve.clock ≤
      s.serve.lastSweep + s.serve.sweep + s.again * slack work late + millis 10 + late + pre := by
  have hbound := (s.serve.waits t).sweep
  obtain ⟨hclock, hsweep, htick, hrecheck, hnext, -⟩ := instants t s.serve.clock
  have hwake : t.wakeNow s.serve.clock = t.nearestNow s.serve.clock + t.waited := rfl
  have hswept := h.swept
  have hon := h.sweep
  unfold untilSweep at hbound
  generalize s.again * slack work late = owed at *
  generalize millis 10 = ten at *
  omega

/-- It ends by the deadline of every parked connection. -/
theorem wake_expiry (h : s.Inv work late) (hlate : t.waited ≤ (s.serve.beforePoll t).2 + late)
    (hpre : t.nearestNow s.serve.clock = s.serve.clock + pre) {p : Pending} (hp : p ∈ s.serve.conns.pending) :
    t.wakeNow s.serve.clock ≤ p.deadline + s.again * slack work late + work + late + pre := by
  have hbound := (s.serve.waits t).expiry p hp
  have hwake : t.wakeNow s.serve.clock = t.nearestNow s.serve.clock + t.waited := rfl
  have hon := h.expiry p hp
  generalize s.again * slack work late = owed at *
  omega

/-- It is short while a session is owed a look. -/
theorem wake_look (h : s.Inv work late) (hlate : t.waited ≤ (s.serve.beforePoll t).2 + late)
    (hpre : t.nearestNow s.serve.clock = s.serve.clock + pre) (hseed : s.serve.pool.pendingSeed = true) :
    t.wakeNow s.serve.clock ≤
      s.seededAt + s.again * (seedRetry + slack work late) + seedRetry + work + late + pre := by
  have hbound := (s.serve.waits t).seed hseed
  have hwake : t.wakeNow s.serve.clock = t.nearestNow s.serve.clock + t.waited := rfl
  have hon := h.look hseed
  generalize s.again * (seedRetry + slack work late) = owed at *
  omega

/-- The edges a turn emits are due, and no later than they may be. -/
theorem edges_punctual (h : s.Inv work late) (hwork : t.work ≤ work) {d : Done} (hd : d ∈ s.edges t) :
    d.now ≤ d.due + (d.again + 1) * slack work late ∧ d.due ≤ d.now := by
  obtain ⟨e, he, rfl⟩ := List.mem_map.mp hd
  obtain ⟨hmem, hquiet⟩ := List.mem_filter.mp he
  have hdue := of_decide_eq_true hquiet
  have hon := h.edge e hmem
  have hmarked := h.marked e hmem
  have hreloaded := h.reloaded
  obtain ⟨hclock, hsweep, -⟩ := instants t s.serve.clock
  have htick : t.tickNow s.serve.clock ≤ s.serve.clock + t.work := by
    unfold Turn.tickNow Turn.sweepNow Turn.work
    omega
  dsimp only
  unfold slack
  generalize millis 10 = ten at *
  omega

/-! ### One turn -/

theorem Inv.interrupted (h : s.Inv work late) (hprompt : Prompt work late s t) (hcut : t.interrupted = true) :
    (s.step t).Inv work late := by
  obtain ⟨hwork, hlate⟩ := hprompt
  have hwaits := s.serve.waits t
  obtain ⟨pre, post, hsum, hpre, -⟩ := work_split t s.serve.clock
  obtain ⟨hclock, hsweep, htick, hrecheck, hnext, hnearest, -⟩ := instants t s.serve.clock
  have hserve : s.serve.turn t = { (s.serve.beforePoll t).1 with clock := t.wakeNow s.serve.clock } := if_pos hcut
  have hstep : s.step t = { s with
      serve := { (s.serve.beforePoll t).1 with clock := t.wakeNow s.serve.clock }
      log := s.log ++ s.edges t, tickedAt := t.tickNow s.serve.clock, again := s.again + 1 } := by
    rw [step, if_pos hcut, hserve]
  have hframe : (s.serve.beforePoll t).1.lastSweep = s.serve.lastSweep ∧ (s.serve.beforePoll t).1.sweep = s.serve.sweep :=
    ⟨rfl, rfl⟩
  have hslack : slack work late = millis 10 + late + 2 * work := rfl
  rw [hstep]
  constructor
  case ticked =>
    dsimp only
    omega
  case swept =>
    have hswept := h.swept
    dsimp only
    omega
  case edge =>
    intro e he
    have hwake := wake_edge hlate hpre he
    dsimp only
    rw [hwaits.threshold]
    generalize millis 10 = ten at *
    omega
  case marked =>
    intro e he
    dsimp only
    rcases hwaits.active e he with ⟨hold, -⟩ | hnew
    · have hmarked := h.marked e hold
      omega
    · omega
  case edgeOpen =>
    intro e he
    dsimp only
    rw [hwaits.threshold]
    rcases hwaits.active e he with ⟨-, hopen⟩ | hnew
    · omega
    · omega
  case sweep =>
    have hwake := wake_sweep h hlate hpre
    have hmul : (s.again + 1) * slack work late = s.again * slack work late + slack work late := Nat.succ_mul _ _
    dsimp only
    rw [hmul, hframe.1, hframe.2]
    generalize s.again * slack work late = owed at *
    generalize millis 10 = ten at *
    omega
  case sweepOpen => exact h.sweepOpen
  case expiry =>
    intro p hp
    dsimp only at hp ⊢
    rw [hwaits.parked] at hp
    have hwake := wake_expiry h hlate hpre hp
    have hmul : (s.again + 1) * slack work late = s.again * slack work late + slack work late := Nat.succ_mul _ _
    rw [hmul]
    generalize s.again * slack work late = owed at *
    generalize millis 10 = ten at *
    omega
  case expiryOpen =>
    intro p hp
    dsimp only at hp ⊢
    rw [hwaits.parked] at hp
    exact h.expiryOpen p hp
  case look =>
    intro hseed
    dsimp only at hseed ⊢
    rw [ControlPool.pendingSeed, hwaits.newlyAttached] at hseed
    have hwake := wake_look h hlate hpre hseed
    have hmul : (s.again + 1) * (seedRetry + slack work late) =
        s.again * (seedRetry + slack work late) + (seedRetry + slack work late) := Nat.succ_mul _ _
    rw [hmul]
    generalize s.again * (seedRetry + slack work late) = owed at *
    generalize millis 10 = ten at *
    omega
  case punctual =>
    intro d hd
    rcases List.mem_append.mp hd with hd | hd
    · exact h.punctual d hd
    · exact (edges_punctual h hwork hd).1
  case early =>
    intro d hd hne
    rcases List.mem_append.mp hd with hd | hd
    · exact h.early d hd hne
    · exact (edges_punctual h hwork hd).2
  case reloaded =>
    have hreloaded := h.reloaded
    dsimp only
    omega

/-- A deadline of the configuration's, where a reload may have moved it. -/
theorem reloadedBy_cases (s : Timed) (t : Turn) :
    (t.reload = none ∧ s.reloadedBy t = s.reloadedAt ∧ s.sweepBy t = s.serve.sweep ∧
      ((s.serve.beforePoll t).1.woken t).pool.quietThreshold = s.serve.pool.quietThreshold) ∨
    s.reloadedBy t = t.reloadNow s.serve.clock := by
  unfold reloadedBy
  cases hreload : t.reload with
  | none =>
    obtain ⟨hthreshold, hsweep⟩ := ((s.serve.beforePoll t).1.woken_frame t).2.2.2 hreload
    exact .inl ⟨rfl, rfl, hsweep, hthreshold.trans (s.serve.waits t).threshold⟩
  | some reload => exact .inr rfl

/-- What a turn does after its poll is due, and no later than it may be. -/
theorem complete_punctual (h : s.Inv work late) (hprompt : Prompt work late s t) {d : Done}
    (hd : d ∈ s.looks t ∨ d ∈ s.expiries t ∨ d ∈ s.sweeps t) :
    d.now ≤ d.due + (d.again + 1) * slack work late ∧ (d.deed ≠ .look → d.due ≤ d.now) := by
  obtain ⟨hwork, hlate⟩ := hprompt
  obtain ⟨pre, post, hsum, hpre, hpost⟩ := work_split t s.serve.clock
  obtain ⟨hclock, hsweep, htick, hrecheck, hnext, hnearest, hwake, hreload, hready, hseed, hpass, haccept⟩ :=
    instants t s.serve.clock
  have hslack : slack work late = millis 10 + late + 2 * work := rfl
  have hmul : (s.again + 1) * slack work late = s.again * slack work late + slack work late := Nat.succ_mul _ _
  rcases hd with hd | hd | hd
  · unfold looks at hd
    split at hd
    next hpending =>
      have hbound := wake_look h hlate hpre hpending
      rw [List.mem_singleton.mp hd]
      have hretry : (s.again + 1) * seedRetry = s.again * seedRetry + seedRetry := Nat.succ_mul _ _
      rw [Nat.mul_add] at hbound
      refine ⟨?_, fun hne => absurd rfl hne⟩
      dsimp only
      rw [hmul, hretry]
      generalize s.again * slack work late = owed at *
      generalize s.again * seedRetry = retries at *
      generalize millis 10 = ten at *
      omega
    next => exact absurd hd List.not_mem_nil
  · obtain ⟨p, hp, rfl⟩ := List.mem_map.mp hd
    obtain ⟨hmem, hdue⟩ := List.mem_filter.mp hp
    have hbound := wake_expiry h hlate hpre hmem
    have hcame := of_decide_eq_true hdue
    dsimp only
    rw [hmul]
    generalize s.again * slack work late = owed at *
    generalize millis 10 = ten at *
    exact ⟨by omega, fun _ => hcame⟩
  · unfold sweeps at hd
    split at hd
    next hdue =>
      have hbound := wake_sweep h hlate hpre
      have hcame := of_decide_eq_true hdue
      have hswept := h.swept
      have hreloaded := h.reloaded
      rw [List.mem_singleton.mp hd]
      dsimp only
      rw [hmul]
      generalize s.again * slack work late = owed at *
      generalize millis 10 = ten at *
      rcases reloadedBy_cases s t with ⟨-, heq, hsame, -⟩ | heq
      · rw [hsame] at hcame
        rw [heq, hsame]
        exact ⟨by omega, fun _ => by omega⟩
      · rw [heq]
        exact ⟨by omega, fun _ => by omega⟩
    next => exact absurd hd List.not_mem_nil

theorem Inv.complete (h : s.Inv work late) (hprompt : Prompt work late s t) (hwhole : t.interrupted = false) :
    (s.step t).Inv work late := by
  obtain ⟨hwork, hlate⟩ := hprompt
  have hwaits := s.serve.waits t
  obtain ⟨pre, post, hsum, hpre, hpost⟩ := work_split t s.serve.clock
  obtain ⟨hclock, hsweep, htick, hrecheck, hnext, hnearest, hwake, hreload, hready, hseed, hpass, haccept⟩ :=
    instants t s.serve.clock
  have hserve : s.serve.turn t = (s.serve.beforePoll t).1.afterPoll t s.serve.clock :=
    if_neg (by rw [hwhole]; exact Bool.false_ne_true)
  have hstep : s.step t = {
      serve := (s.serve.beforePoll t).1.afterPoll t s.serve.clock
      log := s.log ++ s.edges t ++ s.looks t ++ s.expiries t ++ s.sweeps t
      tickedAt := t.tickNow s.serve.clock
      reloadedAt := s.reloadedBy t
      seededAt := t.seedNow s.serve.clock
      passedAt := t.passNow s.serve.clock
      checkedAt := t.dueNow s.serve.clock
      again := 0 } := by
    rw [step, if_neg (by rw [hwhole]; exact Bool.false_ne_true), hserve]
  obtain ⟨hthreshold, hactive⟩ := (s.serve.beforePoll t).1.afterPoll_active t s.serve.clock
  have hparked := (s.serve.beforePoll t).1.afterPoll_parked t s.serve.clock
  have hafterSweep : ((s.serve.beforePoll t).1.afterPoll t s.serve.clock).sweep = s.sweepBy t := rfl
  have hends := (s.serve.beforePoll t).1.afterPoll_swept t s.serve.clock
  have hlast : (s.serve.beforePoll t).1.lastSweep = s.serve.lastSweep := rfl
  rw [hlast, ← sweepBy] at hends
  have hslack : slack work late = millis 10 + late + 2 * work := rfl
  have hswept := h.swept
  have hreloadedBy : s.reloadedBy t ≤ t.reloadNow s.serve.clock := by
    have hreloaded := h.reloaded
    rcases reloadedBy_cases s t with ⟨-, heq, -⟩ | heq
    · omega
    · omega
  generalize (s.serve.beforePoll t).1.afterPoll t s.serve.clock = after at *
  have hend : t.dueNow s.serve.clock ≤ after.clock ∧ after.clock ≤ t.dueNow s.serve.clock + t.sweepTook := by
    rcases hends with ⟨heq, -⟩ | ⟨-, heq, -⟩
    · omega
    · omega
  have hpunctual : ∀ d ∈ s.log ++ s.edges t ++ s.looks t ++ s.expiries t ++ s.sweeps t,
      d.now ≤ d.due + (d.again + 1) * slack work late ∧ (d.deed ≠ .look → d.due ≤ d.now) := by
    intro d hd
    simp only [List.mem_append, or_assoc] at hd
    rcases hd with hold | hedges | hrest
    · exact ⟨h.punctual d hold, h.early d hold⟩
    · obtain ⟨hin, hdue⟩ := edges_punctual h hwork hedges
      exact ⟨hin, fun _ => hdue⟩
    · exact complete_punctual h ⟨hwork, hlate⟩ hrest
  rw [hstep]
  constructor
  case ticked =>
    dsimp only
    omega
  case swept =>
    dsimp only
    rcases hends with ⟨heq, hnow⟩ | ⟨-, heq, hsame⟩
    · omega
    · omega
  case edge =>
    intro e he
    dsimp only at he ⊢
    rcases reloadedBy_cases s t with ⟨-, heq, -, hsame⟩ | heq
    · rw [heq, hthreshold, hsame]
      rcases hactive e he with hold | hnew
      · have hedge := wake_edge hlate hpre hold
        generalize millis 10 = ten at *
        omega
      · omega
    · omega
  case marked =>
    intro e he
    dsimp only at he ⊢
    rcases hactive e he with hold | hnew
    · rcases hwaits.active e hold with ⟨hold, -⟩ | hnew
      · have hmarked := h.marked e hold
        omega
      · omega
    · omega
  case edgeOpen =>
    intro e he
    dsimp only at he ⊢
    rcases hactive e he with hold | hnew
    · rcases hwaits.active e hold with ⟨-, hopen⟩ | hnew
      · rcases reloadedBy_cases s t with ⟨-, -, -, hsame⟩ | heq
        · rw [hthreshold, hsame]
          omega
        · omega
      · omega
    · omega
  case sweep =>
    dsimp only
    rw [Nat.zero_mul, hafterSweep]
    rcases hends with ⟨heq, hnow⟩ | ⟨hnot, heq, hsame⟩
    · omega
    · omega
  case sweepOpen =>
    dsimp only
    rw [hafterSweep]
    rcases hends with ⟨-, heq⟩ | ⟨hnot, -, hsame⟩
    · omega
    · omega
  case expiry =>
    intro p hp
    dsimp only at hp ⊢
    rw [hparked] at hp
    have hopen := Connections.turn_due _ t.peers hpass p hp
    omega
  case expiryOpen =>
    intro p hp
    dsimp only at hp ⊢
    rw [hparked] at hp
    exact Connections.turn_due _ t.peers hpass p hp
  case look =>
    intro _
    dsimp only
    omega
  case punctual => exact fun d hd => (hpunctual d hd).1
  case early => exact fun d hd => (hpunctual d hd).2
  case reloaded =>
    dsimp only
    omega

theorem Inv.step (h : s.Inv work late) (hprompt : Prompt work late s t) : (s.step t).Inv work late := by
  cases hcut : t.interrupted with
  | true => exact h.interrupted hprompt hcut
  | false => exact h.complete hprompt hcut

end

/-- What the loop did it did in time, and what it has not done was not due when it last looked. -/
structure OnTime (work late : Nat) (s : Timed) : Prop where
  punctual : ∀ d ∈ s.log, d.now ≤ d.due + (d.again + 1) * slack work late
  /-- No edge goes out, no sweep runs and no connection expires before its time. -/
  early : ∀ d ∈ s.log, d.deed ≠ .look → d.due ≤ d.now
  edge : ∀ e ∈ s.serve.pool.active,
    s.tickedAt < e.2 + s.serve.pool.quietThreshold ∨ s.tickedAt ≤ max e.2 s.reloadedAt
  sweep : s.checkedAt ≤ s.serve.lastSweep ∨ s.checkedAt < s.serve.lastSweep + s.serve.sweep
  expiry : ∀ p ∈ s.serve.conns.pending, s.passedAt < p.deadline

end Timed

/-- Nobody connects, and no one is waiting. -/
def silent : Peers where
  readable _ := false
  drained _ := .more []
  applies _ := false
  acked _ := false
  waiting := []

/-- A pane is looked at once more, and is silent: its edge is 3 ms late. -/
def oneEdge : List Turn :=
  [{ due := ["%1".toList], waited := millis 1000, timedOut := true, peers := silent }, { toTick := millis 3, peers := silent }]

end TmuxAgents.Daemon
