/-
What a step of the collector means for one pane: its stream stays as it is, or
its epoch ends (`Turn`).

Where a stream survives, its queue, its history of invalidations and the topology
that lets it be heard survive with it; where it does not, an invalidation of it
was created, and what is tracked under its name later is of a newer epoch.
-/
import TmuxAgents.Control.ProtocolFacts

namespace TmuxAgents

namespace Collector

/-- The invalidations created of a pane. -/
def createdOf (c : Collector) (pane : PaneId) : List ObservedEvent :=
  c.created.filter fun event => event.pane == pane

/-- The queued events of a pane. -/
def queuedOf (c : Collector) (pane : PaneId) : List ObservedEvent :=
  c.queue.filter fun event => event.pane == pane

/-- The pane's stream is left alone. -/
structure Kept (pane : PaneId) (c c' : Collector) : Prop where
  stream : c'.panes.get? pane = c.panes.get? pane
  queue : c'.queuedOf pane = c.queuedOf pane
  created : c'.createdOf pane = c.createdOf pane
  ready : c.topologyReady = true → c'.topologyReady = true

/-- The pane's epoch, if it had one, is over. -/
structure Ended (pane : PaneId) (c c' : Collector) : Prop where
  stream : ∀ stream, c'.panes.get? pane = some stream → c.epoch < stream.epoch
  created : c.panes.contains pane = true → ∃ gap ∈ c'.createdOf pane, c.epoch < gap.connection

/-- What happens to a pane in a step. -/
structure Turn (pane : PaneId) (c c' : Collector) : Prop where
  epoch : c.epoch ≤ c'.epoch
  created : c.created <+: c'.created
  either : Kept pane c c' ∨ Ended pane c c'

theorem Kept.refl (pane : PaneId) (c : Collector) : Kept pane c c := ⟨rfl, rfl, rfl, id⟩

theorem Kept.trans {pane : PaneId} {a b c : Collector} (h₁ : Kept pane a b) (h₂ : Kept pane b c) : Kept pane a c :=
  ⟨h₂.stream.trans h₁.stream, h₂.queue.trans h₁.queue, h₂.created.trans h₁.created, fun h => h₂.ready (h₁.ready h)⟩

theorem Turn.refl (pane : PaneId) (c : Collector) : Turn pane c c :=
  ⟨Nat.le_refl _, List.prefix_refl _, .inl (.refl pane c)⟩

theorem createdOf_subset {a b : Collector} (h : a.created <+: b.created) (pane : PaneId) :
    a.createdOf pane ⊆ b.createdOf pane := fun _ hg =>
  List.mem_filter.mpr ⟨h.subset (List.mem_filter.mp hg).1, (List.mem_filter.mp hg).2⟩

theorem contains_eq_of_get? {a b : Collector} {pane : PaneId} (h : b.panes.get? pane = a.panes.get? pane) :
    b.panes.contains pane = a.panes.contains pane := by
  simp only [SortedMap.contains, h]

/-- An end is an end of what came before. -/
theorem Turn.trans_ended {pane : PaneId} {a b c : Collector} (h₁ : Turn pane a b) (hcreated : b.created <+: c.created)
    (h₂ : Ended pane b c) : Ended pane a c := by
  refine ⟨fun stream hs => Nat.lt_of_le_of_lt h₁.epoch (h₂.stream stream hs), fun ht => ?_⟩
  rcases h₁.either with hk | he
  · obtain ⟨gap, hg, hlt⟩ := h₂.created (by rw [contains_eq_of_get? hk.stream, ht])
    exact ⟨gap, hg, Nat.lt_of_le_of_lt h₁.epoch hlt⟩
  · obtain ⟨gap, hg, hlt⟩ := he.created ht
    exact ⟨gap, createdOf_subset hcreated pane hg, hlt⟩

/-- What is over stays over. -/
theorem Ended.trans_turn {pane : PaneId} {a b c : Collector} (h₁ : Ended pane a b) (hle : a.epoch ≤ b.epoch)
    (h₂ : Turn pane b c) : Ended pane a c := by
  refine ⟨fun stream hs => ?_, fun ht => ?_⟩
  · rcases h₂.either with hk | he
    · exact h₁.stream stream (hk.stream ▸ hs)
    · exact Nat.lt_of_le_of_lt hle (he.stream stream hs)
  · obtain ⟨gap, hg, hlt⟩ := h₁.created ht
    exact ⟨gap, createdOf_subset h₂.created pane hg, hlt⟩

theorem Turn.trans {pane : PaneId} {a b c : Collector} (h₁ : Turn pane a b) (h₂ : Turn pane b c) : Turn pane a c := by
  refine ⟨h₁.epoch.trans h₂.epoch, h₁.created.trans h₂.created, ?_⟩
  rcases h₁.either with hk₁ | he₁
  · rcases h₂.either with hk₂ | he₂
    · exact .inl (hk₁.trans hk₂)
    · exact .inr (h₁.trans_ended h₂.created he₂)
  · exact .inr (he₁.trans_turn h₁.epoch h₂)

/-- An end counted from an earlier state that tracked no more. -/
theorem Ended.of_le {pane : PaneId} {a b c : Collector} (h : Ended pane b c) (hle : a.epoch ≤ b.epoch)
    (ht : a.panes.contains pane = true → b.panes.contains pane = true) : Ended pane a c := by
  refine ⟨fun stream hs => Nat.lt_of_le_of_lt hle (h.stream stream hs), fun hc => ?_⟩
  obtain ⟨gap, hg, hlt⟩ := h.created (ht hc)
  exact ⟨gap, hg, Nat.lt_of_le_of_lt hle hlt⟩

/-- A pane whose epoch is over may be forgotten. -/
theorem Ended.forget {pane : PaneId} {a b c : Collector} (h : Ended pane a b) (hs : c.panes.get? pane = none)
    (hcreated : b.created <+: c.created) : Ended pane a c := by
  refine ⟨fun stream hs' => ?_, fun ht => ?_⟩
  · rw [hs] at hs'
    cases hs'
  · obtain ⟨gap, hg, hlt⟩ := h.created ht
    exact ⟨gap, createdOf_subset hcreated pane hg, hlt⟩

/-! ## Turns of single steps -/

theorem queuedOf_filter_of_ne (c : Collector) {pane q : PaneId} (h : q ≠ pane) :
    (c.queue.filter fun event => event.pane != pane).filter (fun event => event.pane == q) = c.queuedOf q := by
  rw [List.filter_filter]
  refine List.filter_congr fun event _ => ?_
  by_cases hq : event.pane = q
  · simp [hq, h]
  · simp [hq]

theorem Renews.createdOf {last : Nat} {pane q : PaneId} {stream stream' : PaneStream}
    (h : Renews last pane stream stream') :
    stream'.pendingGap.toList.filter (fun event => event.pane == q) =
      if q = pane then stream'.pendingGap.toList else [] := by
  obtain ⟨reason, hgap⟩ := h.gap
  rw [hgap]
  by_cases hq : q = pane
  · simp [hq]
  · simp [hq, Ne.symm hq]

/-- A renewal ends its pane's epoch. -/
theorem ended_renewed {c : Collector} {pane : PaneId} {stream stream' : PaneStream}
    (h : Renews c.epoch pane stream stream') : Ended pane c (c.renewed pane stream stream') := by
  obtain ⟨reason, hgap⟩ := h.gap
  refine ⟨fun s hs => ?_, fun _ => ⟨_, List.mem_filter.mpr ⟨List.mem_append_right _ (Option.mem_toList.mpr hgap), ?_⟩,
    Nat.lt_succ_self _⟩⟩
  · obtain rfl : stream' = s := by simpa [renewed] using hs
    exact h.epoch ▸ Nat.lt_succ_self _
  · simp

/-- A renewal leaves the other panes alone. -/
theorem kept_renewed {c : Collector} {pane q : PaneId} {stream stream' : PaneStream}
    (h : Renews c.epoch pane stream stream') (hq : q ≠ pane) : Kept q c (c.renewed pane stream stream') := by
  refine ⟨by simp [renewed, hq], queuedOf_filter_of_ne c hq, ?_, id⟩
  rw [createdOf, renewed, List.filter_append, h.createdOf, if_neg hq, List.append_nil]
  rfl

theorem turn_renewed {c : Collector} {pane : PaneId} {stream stream' : PaneStream}
    (h : Renews c.epoch pane stream stream') (q : PaneId) : Turn q c (c.renewed pane stream stream') := by
  refine ⟨Nat.le_succ _, List.prefix_append .., ?_⟩
  by_cases hq : q = pane
  · subst hq
    exact .inr (ended_renewed h)
  · exact .inl (kept_renewed h hq)

/-- What a byte does to one pane leaves the others alone. -/
theorem kept_rescanned {c : Collector} {pane q : PaneId} {stream stream' : PaneStream} (hq : q ≠ pane) :
    Kept q c (c.rescanned pane stream stream') := ⟨by simp [rescanned, hq], rfl, rfl, id⟩

theorem kept_pushed {c : Collector} {pane q : PaneId} {stream : PaneStream} {event : ProgramEvent} (hq : q ≠ pane) :
    Kept q c (c.pushed pane stream event) :=
  ⟨by simp [pushed, hq], by simp [pushed, queuedOf, Ne.symm hq], rfl, id⟩

theorem turn_track {c : Collector} {pane : PaneId} (owner : SessionId) (client : Nat)
    (h : c.panes.get? pane = none) (q : PaneId) :
    Turn q c { c with
      epoch := c.epoch + 1
      panes := c.panes.insert pane
        { owner, client, epoch := c.epoch + 1, sequence := 0, scanner := .unsynchronized, pendingGap := none
          paused := false, quarantine := false } } := by
  refine ⟨Nat.le_succ _, List.prefix_refl _, ?_⟩
  by_cases hq : q = pane
  · subst hq
    refine .inr ⟨fun stream hs => ?_, fun ht => ?_⟩
    · simp only [SortedMap.get?_insert, if_true, Option.some.injEq] at hs
      exact hs ▸ Nat.lt_succ_self _
    · rw [SortedMap.contains_eq_false.mpr h] at ht
      cases ht
  · exact .inl ⟨by simp [hq], rfl, rfl, id⟩

/-- A pane that is not tracked, before or after, has nothing to end. -/
theorem ended_of_untracked {pane : PaneId} {c c' : Collector} (h : c.panes.get? pane = none)
    (h' : c'.panes.get? pane = none) : Ended pane c c' := by
  refine ⟨fun stream hs => ?_, fun ht => ?_⟩
  · rw [h'] at hs
    cases hs
  · rw [SortedMap.contains_eq_false.mpr h] at ht
    cases ht

end Collector

end TmuxAgents
