/-
What the runtime and its collector do in one step, and what every step keeps
(`Ready`).

A step of the runtime (`RuntimeStep`) says once what may happen to a pane: it
stays bound to the episode it had, or that episode is over and released, and
what the pane is bound to next is an episode of its own. A `Move` is such a
step, steps of the collector, a drain, or a note of what was handed out. Every
call is a sequence of moves, so an invariant over runs is a lemma about each.
-/
import TmuxAgents.Control.Epochs
import TmuxAgents.Program.Episode
import TmuxAgents.Runtime.Batch
import TmuxAgents.Runtime.Estimate

namespace TmuxAgents

open Checked Collector

/-! ## Histories -/

def RuntimeEvent.drain? : RuntimeEvent → Option ProgramDrain
  | .drained drain => some drain
  | _ => none

def RuntimeEvent.acceptedEvents : RuntimeEvent → List ObservedEvent
  | .accepted observations => observations
  | _ => []

def RuntimeEvent.applied? : RuntimeEvent → Option AppliedObservation
  | .applied observation => some observation
  | _ => none

/-- The drains of a history. -/
def drainsOf (history : List RuntimeEvent) : List ProgramDrain := history.filterMap RuntimeEvent.drain?

/-- The observations batches accepted. -/
def acceptedOf (history : List RuntimeEvent) : List ObservedEvent := history.flatMap RuntimeEvent.acceptedEvents

/-- The observations applied. -/
def appliedOf (history : List RuntimeEvent) : List AppliedObservation := history.filterMap RuntimeEvent.applied?

section Histories

variable (history history' : List RuntimeEvent) (releases : List ProgramRelease)

@[simp] theorem drainsOf_append : drainsOf (history ++ history') = drainsOf history ++ drainsOf history' :=
  List.filterMap_append ..

@[simp] theorem acceptedOf_append : acceptedOf (history ++ history') = acceptedOf history ++ acceptedOf history' :=
  List.flatMap_append ..

@[simp] theorem appliedOf_append : appliedOf (history ++ history') = appliedOf history ++ appliedOf history' :=
  List.filterMap_append ..

@[simp] theorem drainsOf_released : drainsOf (releases.map .released) = [] := by
  simp [drainsOf, RuntimeEvent.drain?, Function.comp_def]

@[simp] theorem acceptedOf_released : acceptedOf (releases.map .released) = [] := by
  simp [acceptedOf, RuntimeEvent.acceptedEvents, List.flatMap_map]

@[simp] theorem appliedOf_released : appliedOf (releases.map .released) = [] := by
  simp [appliedOf, RuntimeEvent.applied?, Function.comp_def]

end Histories

/-! ## Bindings -/

/-- How far a binding has come: its connection, and the last sequence it saw there. -/
def Binding.cursor (binding : Binding) : ConnectionEpoch ×ₗ ObservationSequence :=
  toLex (binding.boundary.connection, binding.sequence)

/-- A binding that goes on where `prior` was. -/
structure Binding.Follows (prior binding : Binding) : Prop where
  identity : binding.identity = prior.identity
  connection : binding.boundary.connection = prior.boundary.connection
  sequence : prior.sequence ≤ binding.sequence

theorem Binding.Follows.refl (binding : Binding) : binding.Follows binding := ⟨rfl, rfl, Nat.le_refl _⟩

theorem Binding.Follows.trans {a b c : Binding} (h₁ : a.Follows b) (h₂ : b.Follows c) : a.Follows c :=
  ⟨h₂.identity.trans h₁.identity, h₂.connection.trans h₁.connection, h₁.sequence.trans h₂.sequence⟩

theorem Binding.Follows.cursor_le {prior binding : Binding} (h : prior.Follows binding) :
    prior.cursor ≤ binding.cursor := by
  rw [Binding.cursor, Binding.cursor, h.connection, Prod.Lex.toLex_le_toLex]
  exact .inr ⟨rfl, h.sequence⟩

/-- The binding is beyond everything accepted of its pane. -/
def Binding.Beyond (binding : Binding) (accepted : List ObservedEvent) (pane : PaneId) : Prop :=
  ∀ e ∈ accepted, e.pane = pane → e.stamp ≤ binding.cursor

/-! ## Steps of the runtime -/

namespace ProgramRuntime

/-- The payload bytes of every store. -/
def storedBytes (r : ProgramRuntime) : Nat := (r.panes.values.map fun entry => entry.store.retainedBytes).sum

/-- A pane's store is driven one episode at a time: the episode of its binding, while it has one. -/
def Stored (r : ProgramRuntime) : Prop := ∀ pane entry, r.panes.get? pane = some entry →
  RecordStore.OneEpisode (entry.binding.map Binding.live) entry.store

/-- A new episode of a pane. -/
structure Starts (accepted : List ObservedEvent) (pane : PaneId) (r r' : ProgramRuntime) (binding : Binding) :
    Prop where
  owner : r.nextOwner < binding.owner
  issued : (pane, binding.owner) ∈ r'.owners
  chain : binding.identity.chain ≠ [] ∨ ∃ prior, r.binding pane = some prior ∧ binding.identity = prior.identity
  floor : binding.boundary.sequenceFloor ≤ binding.sequence
  progress : (∃ prior, r.binding pane = some prior ∧ prior.Follows binding) ∨ binding.Beyond accepted pane

/-- What a step does to a pane's binding: the episode goes on, or it is released. -/
inductive BindingStep (accepted : List ObservedEvent) (pane : PaneId) (r r' : ProgramRuntime)
    (releases : List ProgramRelease) : Prop
  | kept (sequence : ObservationSequence)
    (hbinding : r'.binding pane = (r.binding pane).map fun binding => { binding with sequence })
    (hsequence : ∀ binding, r.binding pane = some binding → binding.sequence ≤ sequence)
    (hreleases : ∀ release ∈ releases, release.pane = pane → ∀ owner, release.owner = some owner →
      release.reason = .bindingBoundary)
  | turned
    (hreleased : ∀ binding, r.binding pane = some binding → ∃ release ∈ releases, release.pane = pane ∧
      release.owner = some binding.owner)
    (hstarts : ∀ binding, r'.binding pane = some binding → Starts accepted pane r r' binding)

/-- A step of the runtime, with the releases it hands out. -/
structure RuntimeStep (accepted : List ObservedEvent) (r r' : ProgramRuntime) (releases : List ProgramRelease) :
    Prop where
  accounts : r.retainedBytes = r.storedBytes → r'.retainedBytes = r'.storedBytes
  room : r'.retainedBytes ≤ r.retainedBytes ∨ r'.retainedBytes ≤ maxProgramBytes
  owners : (r'.owners = r.owners ∧ r'.nextOwner = r.nextOwner) ∨
    ∃ pane, r'.owners = r.owners ++ [(pane, r.nextOwner + 1)] ∧ r'.nextOwner = r.nextOwner + 1
  named : ∀ release ∈ releases, ∀ owner, release.owner = some owner → ∃ binding,
    r.binding release.pane = some binding ∧ binding.owner = owner
  binding : ∀ pane, BindingStep accepted pane r r' releases
  stored : r.Stored → r'.Stored

/-- What a step makes of a binding. -/
theorem RuntimeStep.progress {accepted : List ObservedEvent} {r r' : ProgramRuntime}
    {releases : List ProgramRelease} (h : RuntimeStep accepted r r' releases) {pane : PaneId} {binding : Binding}
    (hb : r'.binding pane = some binding) :
    (∃ prior, r.binding pane = some prior ∧ prior.Follows binding) ∨ binding.Beyond accepted pane := by
  cases h.binding pane with
  | kept sequence hbinding hsequence hreleases =>
    rw [hb] at hbinding
    obtain ⟨prior, hprior, rfl⟩ := Option.map_eq_some_iff.mp hbinding.symm
    exact .inl ⟨prior, hprior, rfl, rfl, hsequence prior hprior⟩
  | turned hreleased hstarts => exact (hstarts binding hb).progress

/-- A recognized ancestry is never empty. -/
def Chained (r : ProgramRuntime) : Prop := ∀ pane binding, r.binding pane = some binding → binding.identity.chain ≠ []

/-- A binding has seen its own boundary. -/
def Floored (r : ProgramRuntime) : Prop :=
  ∀ pane binding, r.binding pane = some binding → binding.boundary.sequenceFloor ≤ binding.sequence

theorem RuntimeStep.chained {accepted : List ObservedEvent} {r r' : ProgramRuntime}
    {releases : List ProgramRelease} (h : RuntimeStep accepted r r' releases) (hr : r.Chained) : r'.Chained := by
  intro pane binding hb
  cases h.binding pane with
  | kept sequence hbinding hsequence hreleases =>
    rw [hb] at hbinding
    obtain ⟨prior, hprior, rfl⟩ := Option.map_eq_some_iff.mp hbinding.symm
    exact hr pane prior hprior
  | turned hreleased hstarts =>
    rcases (hstarts binding hb).chain with hchain | ⟨prior, hprior, heq⟩
    · exact hchain
    · exact heq ▸ hr pane prior hprior

theorem RuntimeStep.floored {accepted : List ObservedEvent} {r r' : ProgramRuntime}
    {releases : List ProgramRelease} (h : RuntimeStep accepted r r' releases) (hr : r.Floored) : r'.Floored := by
  intro pane binding hb
  cases h.binding pane with
  | kept sequence hbinding hsequence hreleases =>
    rw [hb] at hbinding
    obtain ⟨prior, hprior, rfl⟩ := Option.map_eq_some_iff.mp hbinding.symm
    exact (hr pane prior hprior).trans (hsequence prior hprior)
  | turned hreleased hstarts => exact (hstarts binding hb).floor

end ProgramRuntime

/-! ## Moves -/

/-- A pane of the batch was recognized so in both samples. -/
def BatchInput.Sampled (input : BatchInput) (pane : PaneId) (identity : Recognized) : Prop :=
  ∃ found ∈ input.panes, found.pane = pane ∧ ∃ before after prior, input.before = .ok before ∧ input.after = .ok after ∧
    recognize found before input.manifests prior = .ok identity ∧
    recognize found after input.manifests (some identity) = .ok identity

/-- What is checked of an observation before it is applied: the pane is bound, the connection
is the binding's and the stream's, the sequence is new, and both samples agreed. -/
structure AppliedObservation.Checked (a : AppliedObservation) (f : Fleet) : Prop where
  accepted : a.observed ∈ acceptedOf f.history
  bound : f.runtime.binding a.observed.pane = some a.binding
  connection : a.observed.connection = a.binding.boundary.connection
  sequence : a.binding.sequence < a.observed.sequence
  stream : a.stream = f.collector.stream a.observed.pane
  current : ∃ state, a.stream = some state ∧ state.connection = a.binding.boundary.connection
  sampled : a.input.Sampled a.observed.pane a.binding.identity

/-- What may be noted of a fleet. -/
inductive Fleet.Notes (f : Fleet) : RuntimeEvent → Prop
  | prepared {retained pending : Nat} (h : retained + pending ≤ maxProgramBytes) : Notes f (.prepared retained pending)
  | accepted {observations : List ObservedEvent}
    (h : ∀ e ∈ observations, ∃ drain ∈ drainsOf f.history, e ∈ drain.observations) : Notes f (.accepted observations)
  | stepped {step : ProgramStep}
    (h : ∀ decision, step.decision = some decision → ∃ pane, f.runtime.decision pane = some decision) :
    Notes f (.stepped f.runtime step)
  | decided {pane : PaneId} {decision : ProgramDecision} (h : f.runtime.decision pane = some decision) :
    Notes f (.decided decision)
  | returned {batch : ProgramBatch} (h : batch.steps.flatMap (·.releases) ++ batch.unstreamedReleases = batch.releases) :
    Notes f (.returned batch)
  | answered : Notes f (.answered f.runtime)

/-- One step of a fleet. Its batch is whatever the running call makes of it. -/
inductive Move (f : Fleet) : Fleet → Prop
  | runtime {r' : ProgramRuntime} {releases : List ProgramRelease} (applied : Option AppliedObservation)
    (h : ProgramRuntime.RuntimeStep (acceptedOf f.history) f.runtime r' releases)
    (happlied : ∀ a, applied = some a → a.Checked f ∧ ∀ binding, r'.binding a.observed.pane = some binding →
      a.observed.stamp ≤ binding.cursor) (batch : ProgramBatch) :
    Move f { f with
      runtime := r', batch
      history := f.history ++ releases.map .released ++ applied.toList.map .applied }
  | collector {c' : Collector} (h : Micros f.collector c') (hs : Sound c') (batch : ProgramBatch) :
    Move f { f with collector := c', batch }
  | drain (batch : ProgramBatch) :
    Move f { f with
      collector := f.collector.drain.2, batch, history := f.history ++ [.drained f.collector.drain.1] }
  | note {event : RuntimeEvent} (h : f.Notes event) (batch : ProgramBatch) :
    Move f { f with batch, history := f.history ++ [event] }

abbrev Moves : Fleet → Fleet → Prop := Relation.ReflTransGen Move

theorem Move.history {f f' : Fleet} (h : Move f f') : f.history <+: f'.history := by
  cases h with
  | runtime applied h happlied batch => exact (List.prefix_append ..).trans (List.prefix_append ..)
  | collector h hs batch => exact List.prefix_refl _
  | drain batch => exact List.prefix_append ..
  | note h batch => exact List.prefix_append ..

theorem Moves.history {f f' : Fleet} (h : Moves f f') : f.history <+: f'.history := by
  induction h with
  | refl => exact List.prefix_refl _
  | tail _ hmove ih => exact ih.trans hmove.history

theorem acceptedOf_subset {history history' : List RuntimeEvent} (h : history <+: history') :
    acceptedOf history ⊆ acceptedOf history' := by
  obtain ⟨rest, rfl⟩ := h
  rw [acceptedOf_append]
  exact List.subset_append_left ..

/-- **Where a binding comes from**: from the one the pane had, or from beyond all accepted. -/
theorem Moves.progress {f f' : Fleet} (h : Moves f f') {pane : PaneId} {binding : Binding}
    (hb : f'.runtime.binding pane = some binding) :
    (∃ prior, f.runtime.binding pane = some prior ∧ prior.Follows binding) ∨
      binding.Beyond (acceptedOf f.history) pane := by
  induction h generalizing binding with
  | refl => exact .inl ⟨binding, hb, .refl binding⟩
  | @tail f₁ f₂ hmoves hmove ih =>
    have hfollowed : (∃ prior, f₁.runtime.binding pane = some prior ∧ prior.Follows binding) ∨
        binding.Beyond (acceptedOf f₁.history) pane := by
      cases hmove with
      | runtime applied h happlied batch => exact h.progress hb
      | collector h hs batch => exact .inl ⟨binding, hb, .refl binding⟩
      | drain batch => exact .inl ⟨binding, hb, .refl binding⟩
      | note h batch => exact .inl ⟨binding, hb, .refl binding⟩
    rcases hfollowed with ⟨prior, hprior, hfollows⟩ | hbeyond
    · rcases ih hprior with ⟨first, hfirst, hf⟩ | hbeyond
      · exact .inl ⟨first, hfirst, hf.trans hfollows⟩
      · exact .inr fun e he hp => (hbeyond e he hp).trans hfollows.cursor_le
    · exact .inr fun e he hp => hbeyond e (acceptedOf_subset (Moves.history hmoves) he) hp

/-! ## What every move keeps -/

/-- What calls rely on: agreeing accounts within the budget, a sound collector, and drained
events that rise. -/
structure Ready (f : Fleet) : Prop where
  sound : Sound f.collector
  keyed : ∀ pane, (f.collector.view pane).Keyed pane
  ordered : ∀ pane, PaneView.Ordered (PaneView.told ((drainsOf f.history).map fun drain => drain.about pane)
    (f.collector.view pane)) (f.collector.view pane)
  accounts : f.runtime.retainedBytes = f.runtime.storedBytes
  room : f.runtime.retainedBytes ≤ maxProgramBytes
  chained : f.runtime.Chained
  floored : f.runtime.Floored
  accepted : ∀ e ∈ acceptedOf f.history, ∃ drain ∈ drainsOf f.history, e ∈ drain.observations

theorem ready_withEpoch (epoch : Nat) : Ready (.withEpoch epoch) := by
  refine ⟨sound_withEpoch epoch, keyed_withEpoch epoch, fun pane => (disciplined_withEpoch epoch pane).ordered, rfl,
    Nat.zero_le _, fun pane binding h => ?_, fun pane binding h => ?_, fun e he => (by cases he)⟩
  all_goals simp [Fleet.withEpoch, ProgramRuntime.binding] at h

/-- A step that drains nothing. -/
theorem Ready.of_drains {f f' : Fleet} (h : Ready f) (hcollector : f'.collector = f.collector)
    (hdrains : drainsOf f'.history = drainsOf f.history) (haccounts : f'.runtime.retainedBytes = f'.runtime.storedBytes)
    (hroom : f'.runtime.retainedBytes ≤ maxProgramBytes) (hchained : f'.runtime.Chained)
    (hfloored : f'.runtime.Floored)
    (haccepted : ∀ e ∈ acceptedOf f'.history, ∃ drain ∈ drainsOf f.history, e ∈ drain.observations) : Ready f' := by
  refine ⟨?_, ?_, ?_, haccounts, hroom, hchained, hfloored, ?_⟩
  · rw [hcollector]
    exact h.sound
  · rw [hcollector]
    exact h.keyed
  · rw [hcollector, hdrains]
    exact h.ordered
  · rw [hdrains]
    exact haccepted

theorem Move.ready {f f' : Fleet} (hmove : Move f f') (h : Ready f) : Ready f' := by
  cases hmove with
  | runtime applied hstep happlied batch =>
    have haccepted : acceptedOf (applied.toList.map RuntimeEvent.applied) = [] := by cases applied <;> rfl
    have hdrains : drainsOf (applied.toList.map RuntimeEvent.applied) = [] := by cases applied <;> rfl
    refine h.of_drains rfl (by simp [hdrains]) (hstep.accounts h.accounts) ?_ (hstep.chained h.chained)
      (hstep.floored h.floored) ?_
    · have hroom := h.room
      rcases hstep.room with hle | hle
      · exact hle.trans hroom
      · exact hle
    · simpa [haccepted] using h.accepted
  | @collector c' hmicros hs batch =>
    have hview : (∀ pane, (c'.view pane).Keyed pane) ∧
        ∀ pane, PaneView.Ordered (PaneView.told ((drainsOf f.history).map fun drain => drain.about pane)
          (c'.view pane)) (c'.view pane) := by
      clear hs
      induction hmicros with
      | refl => exact ⟨h.keyed, h.ordered⟩
      | tail _ hmicro ih =>
        exact ⟨fun pane => (ih.1 pane).step (hmicro.view pane), fun pane => (ih.2 pane).step (hmicro.view pane)⟩
    exact ⟨hs, hview.1, hview.2, h.accounts, h.room, h.chained, h.floored, h.accepted⟩
  | drain batch =>
    have hdrained : drainsOf (f.history ++ [.drained f.collector.drain.1]) =
        drainsOf f.history ++ [f.collector.drain.1] := by
      rw [drainsOf_append]
      rfl
    refine ⟨h.sound.drain, fun pane => ?_, fun pane => ?_, h.accounts, h.room, h.chained, h.floored, fun e he => ?_⟩
    · dsimp only
      rw [drain_view]
      refine ⟨fun gap hgap => (by cases hgap), fun gap hgap => ?_⟩
      rw [PaneView.drained_gap] at hgap
      cases hgap
    · dsimp only
      rw [drain_view, hdrained, List.map_append, List.map_singleton, drain_about h.keyed]
      exact (h.ordered pane).drain
    · rw [acceptedOf_append] at he
      rcases List.mem_append.mp he with he | he
      · obtain ⟨drain, hd, ho⟩ := h.accepted e he
        exact ⟨drain, by rw [hdrained]; exact List.mem_append_left _ hd, ho⟩
      · cases he
  | @note event hnote batch =>
    have hdrains : drainsOf [event] = [] := by cases hnote <;> rfl
    refine h.of_drains rfl (by simp [hdrains]) h.accounts h.room h.chained h.floored fun e he => ?_
    rw [acceptedOf_append] at he
    rcases List.mem_append.mp he with he | he
    · exact h.accepted e he
    · cases hnote with
      | accepted haccepted => exact haccepted e (by simpa [acceptedOf, RuntimeEvent.acceptedEvents] using he)
      | prepared _ | stepped _ | decided _ | returned _ | answered => cases he

theorem Moves.ready {f f' : Fleet} (h : Moves f f') (hf : Ready f) : Ready f' := by
  induction h with
  | refl => exact hf
  | tail _ hmove ih => exact hmove.ready ih

/-- **Every store of a run** is driven one episode at a time. -/
theorem Moves.stored {f f' : Fleet} (h : Moves f f') (hf : f.runtime.Stored) : f'.runtime.Stored := by
  induction h with
  | refl => exact hf
  | tail _ hmove ih =>
    cases hmove with
    | runtime applied hstep happlied batch => exact hstep.stored ih
    | collector | drain | note => exact ih

theorem stored_withEpoch (epoch : Nat) : (Fleet.withEpoch epoch).runtime.Stored := by
  intro pane entry h
  simp [Fleet.withEpoch] at h

/-- An accepted observation was told before now. -/
theorem Ready.told {f : Fleet} (h : Ready f) {e : ObservedEvent} (he : e ∈ acceptedOf f.history) :
    e ∈ ((drainsOf f.history).map fun drain => drain.about e.pane).flatMap PaneDrain.events := by
  obtain ⟨drain, hd, ho⟩ := h.accepted e he
  refine List.mem_flatMap.mpr ⟨drain.about e.pane, List.mem_map_of_mem hd, List.mem_append_right _ ?_⟩
  exact List.mem_filter.mpr ⟨ho, by simp⟩

/-- Nothing accepted is newer than the collector's epoch. -/
theorem Ready.accepted_epoch {f : Fleet} (h : Ready f) {e : ObservedEvent} (he : e ∈ acceptedOf f.history) :
    e.connection ≤ f.collector.epoch :=
  (h.ordered e.pane).epoch e (List.mem_append_left _ (h.told he))

/-- A gap to be drained is newer than everything accepted of its pane. -/
theorem Ready.gap_newer {f : Fleet} (h : Ready f) {gap : ObservedEvent}
    (hgap : gap ∈ f.collector.drain.1.invalidations) {e : ObservedEvent} (he : e ∈ acceptedOf f.history)
    (hp : e.pane = gap.pane) : e.stamp < gap.stamp := by
  have htold := h.told he
  rw [hp] at htold
  refine (List.pairwise_append.mp (h.ordered gap.pane).rising).2.2 e htold gap (List.mem_append_left _ ?_)
  rw [← drain_about h.keyed]
  exact List.mem_filter.mpr ⟨hgap, by simp⟩

end TmuxAgents
