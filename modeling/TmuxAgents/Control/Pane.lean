/-
One pane's side of the collector, as a small system of its own: its stream, its
departure gap, its part of the queue, and the last epoch given out.

Each step of the collector is a step of every pane's side (`Micro.view`), and
a drain is a drain of every side (`Keyed.drain`), so a fact about the events
of one pane is proved on its side and holds of the collector (`view_invariant`).
-/
import TmuxAgents.Control.Accounts

namespace TmuxAgents

/-- What a collector holds of one pane. -/
structure PaneView where
  stream : Option PaneStream
  departed : Option ObservedEvent
  queue : List ObservedEvent
  epoch : Nat
  allInvalidated : Bool
  created : List ObservedEvent

/-- What a drain says about one pane. -/
structure PaneDrain where
  allInvalidated : Bool
  invalidations : List ObservedEvent
  observations : List ObservedEvent

namespace PaneView

def gap (v : PaneView) : Option ObservedEvent := v.stream.bind fun stream => stream.pendingGap

/-- What a drain would say now. -/
def outgoing (v : PaneView) : PaneDrain :=
  { allInvalidated := v.allInvalidated
    invalidations := v.departed.toList ++ v.gap.toList
    observations := v.queue }

def drained (v : PaneView) : PaneView :=
  { v with
    stream := v.stream.map fun stream => { stream with pendingGap := none }
    departed := none
    queue := []
    allInvalidated := false }

/-- The steps of one pane's side. -/
inductive Step (pane : PaneId) : PaneView → PaneView → Prop
  | renew {v : PaneView} {stream stream' : PaneStream} (hs : v.stream = some stream)
    (h : Collector.Renews v.epoch pane stream stream') :
    Step pane v { v with
      stream := some stream', queue := [], epoch := v.epoch + 1
      created := v.created ++ stream'.pendingGap.toList }
  | depart {v : PaneView} {stream : PaneStream} {gap : ObservedEvent} (hs : v.stream = some stream)
    (hgap : stream.pendingGap = some gap) (hq : v.queue = []) :
    Step pane v { v with stream := none, departed := some gap }
  /-- The departed overflow, as this pane leaves or as another does. -/
  | overflow {v : PaneView} {stream : Option PaneStream} (h : stream = none ∨ stream = v.stream) :
    Step pane v { v with stream, departed := none, queue := [], allInvalidated := true }
  | track {v : PaneView} (owner : SessionId) (client : Nat) (hs : v.stream = none) :
    Step pane v { v with
      epoch := v.epoch + 1
      stream := some
        { owner, client, epoch := v.epoch + 1, sequence := 0, scanner := .unsynchronized, pendingGap := none
          paused := false, quarantine := false } }
  | elsewhere {v : PaneView} {epoch : Nat} (h : v.epoch ≤ epoch) : Step pane v { v with epoch }
  | rescan {v : PaneView} {stream stream' : PaneStream} (hs : v.stream = some stream)
    (h : stream' = { stream with scanner := stream'.scanner, quarantine := stream'.quarantine }) :
    Step pane v { v with stream := some stream' }
  | push {v : PaneView} {stream : PaneStream} (hs : v.stream = some stream) (event : ProgramEvent) :
    Step pane v { v with
      stream := some { stream with sequence := stream.sequence + 1 }
      queue := v.queue ++ [{ pane, connection := stream.epoch, sequence := stream.sequence + 1, event }] }

end PaneView

/-- A drain's part about one pane. -/
def ProgramDrain.about (drain : ProgramDrain) (pane : PaneId) : PaneDrain :=
  { allInvalidated := drain.allInvalidated
    invalidations := drain.invalidations.filter fun event => event.pane == pane
    observations := drain.observations.filter fun event => event.pane == pane }

namespace Collector

/-- One pane's side. -/
def view (c : Collector) (pane : PaneId) : PaneView :=
  { stream := c.panes.get? pane
    departed := c.departed.get? pane
    queue := c.queuedOf pane
    epoch := c.epoch
    allInvalidated := c.allInvalidated
    created := c.createdOf pane }

/-! ## The simulation -/

theorem Admin.view {c c' : Collector} (h : Admin c c') (q : PaneId) : PaneView.Step q (c.view q) (c'.view q) := by
  cases h with
  | @renew pane stream stream' hs hr =>
    by_cases hq : q = pane
    · subst hq
      convert PaneView.Step.renew (v := c.view q) hs hr using 1
      simp [Collector.view, renewed, discardQueued, queuedOf, createdOf, List.filter_append, hr.createdOf]
    · convert PaneView.Step.elsewhere (v := c.view q) (Nat.le_succ c.epoch) using 1
      rw [Collector.view, (kept_renewed hr hq).stream, (kept_renewed hr hq).queue, (kept_renewed hr hq).created]
      rfl
  | @depart pane stream gap hl rejections =>
    by_cases hq : q = pane
    · subst hq
      have hnone : (c.view q).queue = [] := List.filter_eq_nil_iff.mpr fun e he => by simpa using hl.queue e he
      convert PaneView.Step.depart (v := c.view q) hl.tracked hl.gap hnone using 1
      simp [Collector.view, queuedOf, createdOf]
    · convert PaneView.Step.elsewhere (v := c.view q) (Nat.le_refl c.epoch) using 1
      simp [Collector.view, queuedOf, createdOf, hq]
  | @overflow pane stream gap hl rejections overflows =>
    refine .overflow ?_
    by_cases hq : q = pane
    · exact .inl (by simp [hq])
    · exact .inr (by simp [hq, Collector.view])
  | @track pane owner client hnone =>
    by_cases hq : q = pane
    · subst hq
      convert PaneView.Step.track (v := c.view q) owner client hnone using 1
      simp [Collector.view, queuedOf, createdOf]
    · convert PaneView.Step.elsewhere (v := c.view q) (Nat.le_succ c.epoch) using 1
      simp [Collector.view, queuedOf, createdOf, hq]
  | flags topologyReady overflows => exact .elsewhere (v := c.view q) (Nat.le_refl c.epoch)

/-- **A step of the collector is a step of every pane's side.** -/
theorem Micro.view {c c' : Collector} (h : Micro c c') (q : PaneId) : PaneView.Step q (c.view q) (c'.view q) := by
  cases h with
  | admin ha => exact ha.view q
  | budget available => exact .elsewhere (v := c.view q) (Nat.le_refl c.epoch)
  | @rescan pane stream stream' hs hstream =>
    by_cases hq : q = pane
    · subst hq
      convert PaneView.Step.rescan (v := c.view q) hs hstream using 1
      simp [Collector.view, queuedOf, createdOf, rescanned]
    · convert PaneView.Step.elsewhere (v := c.view q) (Nat.le_refl c.epoch) using 1
      simp [Collector.view, queuedOf, createdOf, rescanned, hq]
  | @push pane stream event hs hevents hpayload =>
    by_cases hq : q = pane
    · subst hq
      convert PaneView.Step.push (v := c.view q) hs event using 1
      simp [Collector.view, queuedOf, createdOf, pushed]
    · convert PaneView.Step.elsewhere (v := c.view q) (Nat.le_refl c.epoch) using 1
      simp [Collector.view, queuedOf, createdOf, pushed, hq, Ne.symm hq]

/-! ## Drains -/

end Collector

/-- A pane's gaps name it. -/
structure PaneView.Keyed (pane : PaneId) (v : PaneView) : Prop where
  departed : ∀ gap, v.departed = some gap → gap.pane = pane
  gap : ∀ gap, v.gap = some gap → gap.pane = pane

theorem PaneView.Keyed.step {pane : PaneId} {v v' : PaneView} (h : v.Keyed pane) (hstep : Step pane v v') :
    v'.Keyed pane := by
  obtain ⟨hd, hg⟩ := h
  cases hstep with
  | renew hs hr =>
    obtain ⟨reason, hgap⟩ := hr.gap
    refine ⟨hd, fun gap h => ?_⟩
    obtain rfl : _ = gap := Option.some.inj (hgap.symm.trans h)
    rfl
  | @depart stream gap hs hgap hq =>
    refine ⟨fun g h => ?_, fun g h => (by cases h)⟩
    obtain rfl : gap = g := Option.some.inj h
    exact hg gap (by simpa [PaneView.gap, hs] using hgap)
  | overflow h =>
    refine ⟨fun g h => (by cases h), fun g hgap => ?_⟩
    rcases h with rfl | rfl
    · cases hgap
    · exact hg g hgap
  | track owner client hs => exact ⟨hd, fun g h => (by cases h)⟩
  | elsewhere h => exact ⟨hd, hg⟩
  | rescan hs h =>
    refine ⟨hd, fun g hgap => hg g ?_⟩
    rw [PaneView.gap, Option.bind_some, h] at hgap
    simpa [PaneView.gap, hs] using hgap
  | push hs event => exact ⟨hd, fun g hgap => hg g (by simpa [PaneView.gap, hs] using hgap)⟩

namespace Collector

/-- What a drain says about a pane is what its side would say. -/
theorem drain_about {c : Collector} (h : ∀ pane, (c.view pane).Keyed pane) (q : PaneId) :
    c.drain.1.about q = (c.view q).outgoing := by
  have hdeparted : c.departed.values.filter (fun event => event.pane == q) = (c.departed.get? q).toList := by
    rw [← List.filterMap_eq_filter, SortedMap.filterMap_values (k := q) fun k gap hk hne => ?_]
    · cases hg : c.departed.get? q with
      | none => rfl
      | some gap => simp [(h q).departed gap hg]
    · have := (h k).departed gap hk
      simp [this, hne]
  have hgaps : (c.panes.values.filterMap fun stream => stream.pendingGap).filter (fun event => event.pane == q) =
      (c.view q).gap.toList := by
    rw [List.filter_filterMap, SortedMap.filterMap_values (k := q) fun k stream hk hne => ?_]
    · cases hs : c.panes.get? q with
      | none => simp [PaneView.gap, view, hs]
      | some stream =>
        cases hg : stream.pendingGap with
        | none => simp [PaneView.gap, view, hs, hg]
        | some gap =>
          have := (h q).gap gap (by simp [PaneView.gap, view, hs, hg])
          simp [PaneView.gap, view, hs, hg, this]
    · cases hg : stream.pendingGap with
      | none => rfl
      | some gap =>
        have := (h k).gap gap (by simp [PaneView.gap, view, hk, hg])
        simp [this, hne]
  simp only [ProgramDrain.about, drain, List.filter_append, hdeparted, hgaps]
  rfl

theorem drain_view (c : Collector) (q : PaneId) : c.drain.2.view q = (c.view q).drained := by
  simp [view, drain, queuedOf, createdOf, PaneView.drained]

/-- **The rule of one pane.** An invariant of the steps and drains of a pane's side, with what
was drained about it so far, holds after every run. -/
theorem view_invariant [Base64] (pane : PaneId) (J : List PaneDrain → PaneView → Prop)
    (hstep : ∀ history v v', J history v → PaneView.Step pane v v' → J history v')
    (hdrain : ∀ history v, J history v → J (history ++ [v.outgoing]) v.drained) {c : Collector} (hc : Sound c)
    (hkeyed : ∀ q, (c.view q).Keyed q) (h : J [] (c.view pane)) {ops : List CollectorOp}
    {drains : List ProgramDrain} {c' : Collector} (he : c.exec ops = some (drains, c')) :
    (∀ q, (c'.view q).Keyed q) ∧ J (drains.map fun drain => drain.about pane) (c'.view pane) := by
  refine (exec_invariant (fun drains c => (∀ q, (c.view q).Keyed q) ∧
    J (drains.map fun drain => drain.about pane) (c.view pane)) ?_ ?_ hc ⟨hkeyed, h⟩ he).2
  · intro drains c c' _ hI hmicro
    exact ⟨fun q => (hI.1 q).step (hmicro.view q), hstep _ _ _ hI.2 (hmicro.view pane)⟩
  · intro drains c _ hI
    refine ⟨fun q => ?_, ?_⟩
    · rw [drain_view]
      refine ⟨fun gap h => (by cases h), fun gap h => ?_⟩
      cases hs : (c.view q).stream <;> simp [PaneView.gap, PaneView.drained, hs] at h
    · rw [List.map_append, List.map_singleton, drain_about hI.1, drain_view]
      exact hdrain _ _ hI.2

end Collector

end TmuxAgents
