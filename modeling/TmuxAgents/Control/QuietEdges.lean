/-
Quiet edges over whole runs of the pool.

A pane is active exactly while the last thing that happened to it is a mark (`Watched.Inv`): so an
edge is emitted once for each burst of output, at the first look that finds the pane silent for the
threshold, and what the queue holds is the newest of what was not drained (`quiet_edges`).
-/
import TmuxAgents.Lib.Run
import TmuxAgents.Lib.Trace
import TmuxAgents.Control.Pool

namespace TmuxAgents.Control

/-! ## Runs -/

inductive PoolOp
  /-- The map of active panes is walked in another order from here on. -/
  | rehash (active : List (Text × Nat))
  | dispatch (enabled : Bool) (ready : List (SessionId × List ReadResult)) (now : Nat)
  | seed (topology : Option (List (SessionId × PaneId))) (now : Nat)
  | recheck (panes : List Text) (now : Nat)
  | tick (now nowEpoch sweep : Nat)
  | drain
  | reload (quietThreshold : Nat)
  | reconcile (sessions : Option (List SessionId)) (spawned : SessionId → Bool)

/-- What happened, as the capture tier would tell it. -/
inductive Entry
  | mark (pane : Text) (now : Nat)
  /-- An edge, and the threshold in force. -/
  | edge (edge : ActivityEdge) (now threshold : Nat)
  | drained (edges : List ActivityEdge)

def Entry.pane? : Entry → Option Text
  | .mark pane _ => some pane
  | .edge found _ _ => some found.pane
  | .drained _ => none

def Entry.edge? : Entry → Option ActivityEdge
  | .edge found _ _ => some found
  | _ => none

/-- The last thing that happened to a pane. -/
def last (pane : Text) (log : List Entry) : Option Entry := (log.filter fun e => e.pane? = some pane).getLast?

/-- The edges since the last drain. -/
def undrained (log : List Entry) : List ActivityEdge :=
  log.foldl (fun edges e => match e with
    | .mark _ _ => edges
    | .edge edge _ _ => edges ++ [edge]
    | .drained _ => []) []

/-- The newest of a list, as many as the queue holds. -/
def newest (edges : List ActivityEdge) : List ActivityEdge := edges.drop (edges.length - maxEdges)

def Notification.pane? : Notification → Option Text
  | .output pane => some pane
  | _ => none

structure Watched where
  pool : ControlPool
  log : List Entry

namespace Watched

def start (threshold : Nat) : Watched := { pool := .new threshold, log := [] }

def marks (panes : List Text) (now : Nat) : List Entry := panes.map (.mark · now)

/-- What an operation does, as the log has it. -/
def entries (pool : ControlPool) : PoolOp → List Entry
  | .dispatch enabled ready now => marks ((pool.readClients enabled ready).2.filterMap Notification.pane?) now
  | .seed (some topology) now => marks (pool.owed topology) now
  | .recheck panes now => marks panes now
  | .tick now nowEpoch _ =>
    (pool.quiet now).map fun pane => .edge { pane, at' := nowEpoch } now pool.quietThreshold
  | .drain => [.drained pool.edges]
  | .seed none _ | .rehash _ | .reload _ | .reconcile _ _ => []

def next (pool : ControlPool) : PoolOp → ControlPool
  | .rehash active => { pool with active }
  | .dispatch enabled ready now => (pool.dispatchReady enabled ready now).1
  | .seed topology now => pool.seedAttached topology now
  | .recheck panes now => pool.markRecheck panes now
  | .tick now nowEpoch sweep => (pool.tick now nowEpoch sweep).2
  | .drain => pool.drainEdges.2
  | .reload quietThreshold => pool.setQuietThreshold quietThreshold
  | .reconcile sessions spawned => pool.reconcile sessions spawned

def step (s : Watched) (op : PoolOp) : Watched := { pool := next s.pool op, log := s.log ++ entries s.pool op }

/-- A map's order is an order of its entries. -/
def Lawful (s : Watched) : PoolOp → Prop
  | .rehash active => active.Perm s.pool.active
  | _ => True

/-- A pane is active while the last thing that happened to it is a mark. -/
structure Inv (s : Watched) : Prop where
  keys : (s.pool.active.map Prod.fst).Nodup
  active : ∀ pane now, Assoc.get? s.pool.active pane = some now ↔ last pane s.log = some (.mark pane now)
  queue : s.pool.edges = newest (undrained s.log)
  emitted : s.pool.edgesEmitted = (s.log.filterMap Entry.edge?).length

/-! ## The log -/

section

variable {pane other : Text} {log : List Entry} {e : Entry}

theorem last_concat_self (h : e.pane? = some pane) : last pane (log ++ [e]) = some e := by
  simp [last, List.filter_append, h]

theorem last_concat_other (h : e.pane? ≠ some pane) : last pane (log ++ [e]) = last pane log := by
  simp [last, List.filter_append, h]

theorem undrained_concat (log : List Entry) (e : Entry) :
    undrained (log ++ [e]) = match e with
      | .mark _ _ => undrained log
      | .edge edge _ _ => undrained log ++ [edge]
      | .drained _ => [] := by
  simp only [undrained, List.foldl_append, List.foldl_cons, List.foldl_nil]

end

theorem newest_concat (edges : List ActivityEdge) (edge : ActivityEdge) :
    ControlPool.pushEdge (newest edges) edge = newest (edges ++ [edge]) := by
  have hpos : 0 < maxEdges := by decide
  unfold ControlPool.pushEdge newest
  generalize maxEdges = cap at hpos
  have hdrop : (edges ++ [edge]).drop ((edges ++ [edge]).length - cap) = edges.drop (edges.length + 1 - cap) ++ [edge] := by
    rw [List.length_append, List.length_singleton, List.drop_append_of_le_length (by omega)]
  rw [hdrop, List.length_drop, List.tail_drop]
  by_cases hfull : cap ≤ edges.length
  · rw [if_pos (by omega), Nat.sub_add_comm hfull]
  · rw [if_neg (by omega), Nat.sub_eq_zero_of_le (by omega), Nat.sub_eq_zero_of_le (by omega)]

/-! ## One operation -/

variable {s : Watched}

/-- A mark. -/
theorem Inv.mark (h : Inv s) (pane : Text) (now : Nat) :
    Inv { pool := s.pool.markActive now pane, log := s.log ++ [.mark pane now] } where
  keys := by
    simp only [ControlPool.markActive]
    cases hget : Assoc.get? s.pool.active pane with
    | some old =>
      rw [Assoc.keys_set_of_some hget]
      exact h.keys
    | none =>
      rw [Assoc.set_of_none hget, List.map_append]
      refine List.nodup_append.mpr ⟨h.keys, List.nodup_singleton _, ?_⟩
      intro a ha b hb heq
      obtain ⟨e, he, rfl⟩ := List.mem_map.mp ha
      exact Assoc.get?_eq_none.mp hget e he (heq.trans (List.mem_singleton.mp hb))
  active := by
    intro p t
    simp only [ControlPool.markActive]
    by_cases hp : p = pane
    · subst hp
      rw [Assoc.get?_set_self, last_concat_self rfl, Option.some.injEq, Option.some.injEq, Entry.mark.injEq]
      exact ⟨fun heq => ⟨rfl, heq⟩, fun heq => heq.2⟩
    · rw [Assoc.get?_set_other hp, last_concat_other (by simpa [Entry.pane?] using Ne.symm hp)]
      exact h.active p t
  queue := by
    rw [undrained_concat]
    exact h.queue
  emitted := by
    rw [List.filterMap_append, List.length_append]
    exact h.emitted

theorem Inv.marks (h : Inv s) (panes : List Text) (now : Nat) :
    Inv { pool := panes.foldl (ControlPool.markActive · now) s.pool, log := s.log ++ Watched.marks panes now } := by
  induction panes generalizing s with
  | nil =>
    rw [Watched.marks, List.map_nil, List.append_nil]
    exact h
  | cons pane rest ih =>
    have hrest := ih (h.mark pane now)
    rw [List.append_assoc] at hrest
    exact hrest

/-- An edge. -/
theorem Inv.emit (h : Inv s) (pane : Text) (now nowEpoch threshold : Nat) :
    Inv { pool := s.pool.emitEdge nowEpoch pane, log := s.log ++ [.edge { pane, at' := nowEpoch } now threshold] } where
  keys := h.keys.sublist (List.Sublist.map Prod.fst List.filter_sublist)
  active := by
    intro p t
    simp only [ControlPool.emitEdge]
    by_cases hp : p = pane
    · subst hp
      rw [Assoc.get?_remove_self, last_concat_self rfl]
      simp
    · rw [Assoc.get?_remove_other hp, last_concat_other (by simpa [Entry.pane?] using Ne.symm hp)]
      exact h.active p t
  queue := by
    rw [undrained_concat]
    simp only [ControlPool.emitEdge]
    rw [h.queue, newest_concat]
  emitted := by
    rw [List.filterMap_append, List.length_append, ← h.emitted]
    rfl

theorem Inv.emits (h : Inv s) (panes : List Text) (now nowEpoch threshold : Nat) :
    Inv { pool := panes.foldl (ControlPool.emitEdge nowEpoch) s.pool
          log := s.log ++ panes.map fun pane => .edge { pane, at' := nowEpoch } now threshold } := by
  induction panes generalizing s with
  | nil =>
    rw [List.map_nil, List.append_nil]
    exact h
  | cons pane rest ih =>
    have hrest := ih (h.emit pane now nowEpoch threshold)
    rw [List.append_assoc] at hrest
    exact hrest

/-- What else the pool holds does not matter. -/
theorem Inv.congr (h : Inv s) {pool : ControlPool} (hactive : pool.active = s.pool.active) (hedges : pool.edges = s.pool.edges)
    (hemitted : pool.edgesEmitted = s.pool.edgesEmitted) : Inv { s with pool } := by
  refine ⟨?_, ?_, ?_, ?_⟩
  · simp only [hactive]
    exact h.keys
  · simp only [hactive]
    exact h.active
  · simp only [hedges]
    exact h.queue
  · simp only [hemitted]
    exact h.emitted

theorem readClients_frame (pool : ControlPool) (enabled : Bool) (ready : List (SessionId × List ReadResult)) :
    (pool.readClients enabled ready).1.active = pool.active ∧ (pool.readClients enabled ready).1.edges = pool.edges ∧
      (pool.readClients enabled ready).1.edgesEmitted = pool.edgesEmitted ∧
      (pool.readClients enabled ready).1.quietThreshold = pool.quietThreshold := by
  induction ready generalizing pool with
  | nil => exact ⟨rfl, rfl, rfl, rfl⟩
  | cons e rest ih =>
    obtain ⟨session, reads⟩ := e
    have hone : ((pool.readClient enabled session reads).1.active = pool.active ∧
        (pool.readClient enabled session reads).1.edges = pool.edges ∧
        (pool.readClient enabled session reads).1.edgesEmitted = pool.edgesEmitted ∧
        (pool.readClient enabled session reads).1.quietThreshold = pool.quietThreshold) := by
      unfold ControlPool.readClient
      split <;> exact ⟨rfl, rfl, rfl, rfl⟩
    obtain ⟨ha, he, hm, hq⟩ := ih (pool.readClient enabled session reads).1
    exact ⟨ha.trans hone.1, he.trans hone.2.1, hm.trans hone.2.2.1, hq.trans hone.2.2.2⟩

/-- What was said marks panes, in order. -/
theorem dispatch_notes (notes : List Notification) (now : Nat) (pool : ControlPool) (effects : LoopEffects) :
    (notes.foldl (ControlPool.dispatchNote now) (pool, effects)).1 =
      (notes.filterMap Notification.pane?).foldl (ControlPool.markActive · now) pool := by
  induction notes generalizing pool effects with
  | nil => rfl
  | cons note rest ih =>
    cases note with
    | output pane => exact ih _ _
    | sessionsChanged => exact ih _ _
    | lifecycle => exact ih _ _
    | exit => exact ih _ _

theorem attach_frame (spawned : SessionId → Bool) (sessions : List SessionId) (pool : ControlPool) :
    (sessions.foldl (ControlPool.attach spawned) pool).active = pool.active ∧
      (sessions.foldl (ControlPool.attach spawned) pool).edges = pool.edges ∧
      (sessions.foldl (ControlPool.attach spawned) pool).edgesEmitted = pool.edgesEmitted := by
  induction sessions generalizing pool with
  | nil => exact ⟨rfl, rfl, rfl⟩
  | cons session rest ih =>
    have hone : (ControlPool.attach spawned pool session).active = pool.active ∧
        (ControlPool.attach spawned pool session).edges = pool.edges ∧
        (ControlPool.attach spawned pool session).edgesEmitted = pool.edgesEmitted := by
      unfold ControlPool.attach
      split <;> exact ⟨rfl, rfl, rfl⟩
    obtain ⟨ha, he, hm⟩ := ih (ControlPool.attach spawned pool session)
    exact ⟨ha.trans hone.1, he.trans hone.2.1, hm.trans hone.2.2⟩

theorem reconcile_frame (pool : ControlPool) (sessions : Option (List SessionId)) (spawned : SessionId → Bool) :
    (pool.reconcile sessions spawned).active = pool.active ∧ (pool.reconcile sessions spawned).edges = pool.edges ∧
      (pool.reconcile sessions spawned).edgesEmitted = pool.edgesEmitted := by
  cases sessions with
  | none => exact ⟨rfl, rfl, rfl⟩
  | some sessions => exact attach_frame spawned sessions _

theorem Inv.step (h : Inv s) {op : PoolOp} (hop : s.Lawful op) : Inv (s.step op) := by
  cases op with
  | rehash active =>
    have hperm : active.Perm s.pool.active := hop
    have hkeys : (active.map Prod.fst).Nodup := (hperm.map Prod.fst).nodup_iff.mpr h.keys
    have hget : ∀ pane, Assoc.get? active pane = Assoc.get? s.pool.active pane := by
      intro pane
      refine Option.ext fun now => ⟨fun heq => ?_, fun heq => ?_⟩
      · exact Assoc.get?_of_mem h.keys (hperm.mem_iff.mp (Assoc.mem_of_get? heq))
      · exact Assoc.get?_of_mem hkeys (hperm.mem_iff.mpr (Assoc.mem_of_get? heq))
    simp only [Watched.step, entries, next, List.append_nil]
    refine ⟨hkeys, fun pane now => ?_, h.queue, h.emitted⟩
    simp only [hget]
    exact h.active pane now
  | dispatch enabled ready now =>
    obtain ⟨hactive, hedges, hemitted, -⟩ := readClients_frame s.pool enabled ready
    have hmarks := (h.congr hactive hedges hemitted).marks
      ((s.pool.readClients enabled ready).2.filterMap Notification.pane?) now
    rw [← dispatch_notes _ now _ {}] at hmarks
    exact hmarks
  | seed topology now =>
    cases topology with
    | none =>
      simp only [Watched.step, entries, next, List.append_nil, ControlPool.seedAttached]
      split
      · exact h
      · exact h.congr rfl rfl rfl
    | some panes =>
      simp only [Watched.step, entries, next, ControlPool.seedAttached]
      split
      next hempty =>
        have hnone : s.pool.owed panes = [] := by
          rw [ControlPool.owed, List.isEmpty_iff.mp hempty]
          simp
        rw [hnone, Watched.marks, List.map_nil, List.append_nil]
        exact h
      next =>
        have hcleared : Inv { s with pool := { s.pool with newlyAttached := [] } } := h.congr rfl rfl rfl
        exact hcleared.marks (s.pool.owed panes) now
  | recheck panes now => exact h.marks panes now
  | tick now nowEpoch sweep => exact h.emits (s.pool.quiet now) now nowEpoch s.pool.quietThreshold
  | drain =>
    simp only [Watched.step, entries, next, ControlPool.drainEdges]
    refine ⟨h.keys, fun pane now => ?_, ?_, ?_⟩
    · rw [last_concat_other (by simp [Entry.pane?])]
      exact h.active pane now
    · rw [undrained_concat]
      exact List.drop_nil.symm
    · rw [List.filterMap_append, List.length_append]
      exact h.emitted
  | reload quietThreshold =>
    simp only [Watched.step, entries, next, List.append_nil]
    exact h.congr rfl rfl rfl
  | reconcile sessions spawned =>
    obtain ⟨hactive, hedges, hemitted⟩ := reconcile_frame s.pool sessions spawned
    simp only [Watched.step, entries, next, List.append_nil]
    exact h.congr hactive hedges hemitted

/-! ## Bursts -/

/-- Every edge follows a burst of its pane, which had been over for the threshold. -/
def Bursts (log : List Entry) : Prop :=
  ∀ before edge now threshold after, log = before ++ .edge edge now threshold :: after →
    ∃ at', last edge.pane before = some (.mark edge.pane at') ∧ threshold ≤ now - at'

theorem Bursts.concat {log : List Entry} (h : Bursts log) {e : Entry}
    (he : ∀ edge now threshold, e = .edge edge now threshold →
      ∃ at', last edge.pane log = some (.mark edge.pane at') ∧ threshold ≤ now - at') : Bursts (log ++ [e]) := by
  intro before edge now threshold after heq
  rcases Trace.split_at heq with ⟨mid, hlog, -⟩ | ⟨b, rfl, hout⟩
  · exact h before edge now threshold mid hlog
  · rcases List.cons_eq_append_iff.mp hout with ⟨rfl, hcons⟩ | ⟨b', -, hnil⟩
    · rw [List.append_nil]
      exact he edge now threshold (List.cons.inj hcons).1.symm
    · simp at hnil

theorem Bursts.marks {log : List Entry} (h : Bursts log) (panes : List Text) (now : Nat) :
    Bursts (log ++ Watched.marks panes now) := by
  induction panes generalizing log with
  | nil =>
    rw [Watched.marks, List.map_nil, List.append_nil]
    exact h
  | cons pane rest ih =>
    have hmark : Bursts (log ++ [.mark pane now]) := by
      refine h.concat fun _ _ _ heq => ?_
      cases heq
    have hrest := ih hmark
    rw [List.append_assoc] at hrest
    exact hrest

theorem Bursts.emits {log : List Entry} (h : Bursts log) {panes : List Text} (hnodup : panes.Nodup)
    {now threshold : Nat} (hquiet : ∀ pane ∈ panes, ∃ at', last pane log = some (.mark pane at') ∧ threshold ≤ now - at')
    (nowEpoch : Nat) : Bursts (log ++ panes.map fun pane => .edge { pane, at' := nowEpoch } now threshold) := by
  induction panes generalizing log with
  | nil =>
    rw [List.map_nil, List.append_nil]
    exact h
  | cons pane rest ih =>
    obtain ⟨hpane, hrest⟩ := List.nodup_cons.mp hnodup
    have hone : Bursts (log ++ [.edge { pane, at' := nowEpoch } now threshold]) := by
      refine h.concat fun edge _ _ heq => ?_
      cases heq
      exact hquiet pane List.mem_cons_self
    have hmore := ih hone hrest (fun p hp => ?_)
    · rw [List.append_assoc] at hmore
      exact hmore
    · -- The edge just emitted is another pane's.
      rw [last_concat_other]
      · exact hquiet p (List.mem_cons_of_mem _ hp)
      · rintro heq
        have hsame : pane = p := Option.some.inj heq
        exact hpane (hsame ▸ hp)

theorem mem_quiet {pool : ControlPool} {now : Nat} {pane : Text} :
    pane ∈ pool.quiet now ↔ ∃ at', (pane, at') ∈ pool.active ∧ pool.quietThreshold ≤ now - at' := by
  simp only [ControlPool.quiet, List.mem_map, List.mem_filter, decide_eq_true_eq]
  constructor
  · rintro ⟨⟨p, at'⟩, ⟨hmem, hle⟩, rfl⟩
    exact ⟨at', hmem, hle⟩
  · rintro ⟨at', hmem, hle⟩
    exact ⟨(pane, at'), ⟨hmem, hle⟩, rfl⟩

theorem quiet_nodup (h : Inv s) (now : Nat) : (s.pool.quiet now).Nodup :=
  h.keys.sublist (List.Sublist.map Prod.fst List.filter_sublist)

theorem Inv.bursts (h : Inv s) (hb : Bursts s.log) (op : PoolOp) : Bursts (s.step op).log := by
  have hquiet : ∀ now, ∀ pane ∈ s.pool.quiet now,
      ∃ at', last pane s.log = some (.mark pane at') ∧ s.pool.quietThreshold ≤ now - at' := by
    intro now pane hmem
    obtain ⟨at', hentry, hle⟩ := mem_quiet.mp hmem
    exact ⟨at', (h.active pane at').mp (Assoc.get?_of_mem h.keys hentry), hle⟩
  have hsilent : Bursts (s.log ++ []) := by
    rw [List.append_nil]
    exact hb
  cases op with
  | dispatch enabled ready now => exact hb.marks _ now
  | seed topology now =>
    cases topology with
    | none => exact hsilent
    | some topology => exact hb.marks _ now
  | recheck panes now => exact hb.marks panes now
  | tick now nowEpoch sweep => exact hb.emits (quiet_nodup h now) (hquiet now) nowEpoch
  | drain =>
    refine hb.concat fun _ _ _ heq => ?_
    cases heq
  | rehash active => exact hsilent
  | reload quietThreshold => exact hsilent
  | reconcile sessions spawned => exact hsilent

/-- Who is still active behind a look. -/
theorem emits_active (panes : List Text) (nowEpoch : Nat) (pool : ControlPool) (pane : Text) :
    Assoc.get? (panes.foldl (ControlPool.emitEdge nowEpoch) pool).active pane =
      if pane ∈ panes then none else Assoc.get? pool.active pane := by
  induction panes generalizing pool with
  | nil => simp
  | cons p rest ih =>
    rw [List.foldl_cons, ih]
    simp only [ControlPool.emitEdge, List.mem_cons]
    by_cases hp : pane = p
    · subst hp
      simp
    · simp only [hp, false_or, Assoc.get?_remove_other hp]

/-- No pane is overdue behind a look. -/
theorem tick_active {pool : ControlPool} (now nowEpoch sweep : Nat) {pane : Text} {at' : Nat}
    (hactive : Assoc.get? (pool.tick now nowEpoch sweep).2.active pane = some at') :
    Assoc.get? pool.active pane = some at' ∧ now - at' < pool.quietThreshold := by
  have hget : Assoc.get? (pool.tick now nowEpoch sweep).2.active pane =
      if pane ∈ pool.quiet now then none else Assoc.get? pool.active pane :=
    emits_active (pool.quiet now) nowEpoch pool pane
  rw [hget] at hactive
  split at hactive
  · cases hactive
  next hnot =>
    refine ⟨hactive, ?_⟩
    by_contra hle
    exact hnot (mem_quiet.mpr ⟨at', Assoc.mem_of_get? hactive, Nat.not_lt.mp hle⟩)

/-- What the edges of a run are. -/
structure Exact (s : Watched) : Prop where
  /-- One for a burst, no earlier than the threshold after it. -/
  burst : Bursts s.log
  /-- A look leaves no burst unannounced that has been over for the threshold. -/
  prompt : ∀ now nowEpoch sweep pane at', last pane (s.step (.tick now nowEpoch sweep)).log = some (.mark pane at') →
    now - at' < s.pool.quietThreshold
  /-- The next drain hands on the newest of those emitted since the last. -/
  queue : s.pool.drainEdges.1 = newest (undrained s.log)
  emitted : s.pool.edgesEmitted = (s.log.filterMap Entry.edge?).length

theorem Inv.start (threshold : Nat) : Inv (start threshold) := by
  refine ⟨List.nodup_nil, fun pane now => ?_, List.drop_nil.symm, rfl⟩
  simp [Watched.start, ControlPool.new, last]

theorem Inv.exact (h : Inv s) (hb : Bursts s.log) : Exact s where
  burst := hb
  prompt := by
    intro now nowEpoch sweep pane at' hlast
    have hstep : Inv (s.step (.tick now nowEpoch sweep)) := h.step trivial
    exact (tick_active now nowEpoch sweep ((hstep.active pane at').mpr hlast)).2
  queue := h.queue
  emitted := h.emitted

end Watched

/-- **Quiet edges are exact** in every run of the pool. -/
theorem quiet_edges (threshold : Nat) {ops : List PoolOp}
    (h : Run.Along Watched.step Watched.Lawful (Watched.start threshold) ops) :
    (Run.run Watched.step (Watched.start threshold) ops).Exact := by
  have hinv : (Run.run Watched.step (Watched.start threshold) ops).Inv ∧
      Watched.Bursts (Run.run Watched.step (Watched.start threshold) ops).log := by
    refine h.invariant (fun _ s => s.Inv ∧ Watched.Bursts s.log) ⟨Watched.Inv.start threshold, ?_⟩ ?_
    · intro before edge now threshold after heq
      exact absurd heq.symm (List.append_ne_nil_of_right_ne_nil _ (List.cons_ne_nil _ _))
    · rintro ops op ⟨hinv, hb⟩ hop
      exact ⟨hinv.step hop, hinv.bursts hb op⟩
  exact hinv.1.exact hinv.2

/-- Two marks of a pane are one burst. -/
def oneBurst : List PoolOp :=
  [.recheck ["%1".toList] 0, .recheck ["%1".toList] (millis 50), .tick (millis 1100) 7 0]

theorem quiet_edges_one_burst :
    (Run.run Watched.step (Watched.start quietThreshold) oneBurst).Exact ∧
      (Run.run Watched.step (Watched.start quietThreshold) oneBurst).pool.edges = [{ pane := "%1".toList, at' := 7 }] := by
  refine ⟨quiet_edges quietThreshold ?_, by decide⟩
  exact (((Run.Along.nil _).concat trivial).concat trivial).concat trivial

end TmuxAgents.Control
