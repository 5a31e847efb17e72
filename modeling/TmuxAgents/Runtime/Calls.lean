/-
The fleet's methods as moves: what a running call does (`Advances`), and what it
does before its observations, when nothing is bound anew (`Retains`).

The loops go through `Returns.foldlM`; each lemma is a triple on a fleet that is
`Ready`.
-/
import TmuxAgents.Runtime.Steps

namespace TmuxAgents

open Checked Collector ProgramRuntime

namespace Fleet

/-- What a method of the running call does to the fleet and to its batch. -/
structure Advances (f f' : Fleet) : Prop where
  moves : Moves f f'
  steps : f'.batch.steps = f.batch.steps
  callbackReleases : f'.batch.callbackReleases = f.batch.callbackReleases
  releases : f.batch.releases <+: f'.batch.releases
  accepted : acceptedOf f'.history = acceptedOf f.history

/-- A method that binds no pane to another process. -/
structure Retains (f f' : Fleet) : Prop extends Advances f f' where
  identity : ∀ pane binding, f'.runtime.binding pane = some binding →
    ∃ prior, f.runtime.binding pane = some prior ∧ prior.identity = binding.identity

theorem Advances.refl (f : Fleet) : Advances f f := ⟨.refl, rfl, rfl, List.prefix_refl _, rfl⟩

theorem Advances.trans {a b c : Fleet} (h₁ : Advances a b) (h₂ : Advances b c) : Advances a c :=
  ⟨h₁.moves.trans h₂.moves, h₂.steps.trans h₁.steps, h₂.callbackReleases.trans h₁.callbackReleases,
    h₁.releases.trans h₂.releases, h₂.accepted.trans h₁.accepted⟩

theorem Advances.ready {f f' : Fleet} (h : Advances f f') (hf : Ready f) : Ready f' := h.moves.ready hf

theorem Retains.refl (f : Fleet) : Retains f f := ⟨.refl f, fun _ binding h => ⟨binding, h, rfl⟩⟩

theorem Retains.trans {a b c : Fleet} (h₁ : Retains a b) (h₂ : Retains b c) : Retains a c := by
  refine ⟨h₁.toAdvances.trans h₂.toAdvances, fun pane binding hb => ?_⟩
  obtain ⟨prior, hp, heq⟩ := h₂.identity pane binding hb
  obtain ⟨first, hf, heq'⟩ := h₁.identity pane prior hp
  exact ⟨first, hf, heq'.trans heq⟩

/-- A method that leaves the runtime alone. -/
theorem Advances.retains {f f' : Fleet} (h : Advances f f') (hruntime : f'.runtime = f.runtime) : Retains f f' :=
  ⟨h, fun _ binding hb => ⟨binding, hruntime ▸ hb, rfl⟩⟩

/-! ## The collector -/

theorem advances_collector {f : Fleet} {c' : Collector} (h : Micros f.collector c') (hs : Sound c') :
    Advances f { f with collector := c' } :=
  ⟨.single (.collector h hs f.batch), rfl, rfl, List.prefix_refl _, rfl⟩

theorem invalidateStream_retains {f : Fleet} (hf : Ready f) (pane : PaneId) (reason : ObservationGap) :
    Returns (f.invalidateStream pane reason) fun f' => Retains f f' ∧ f'.runtime = f.runtime := by
  refine Returns.bind (invalidate_quiet hf.sound.books pane reason false) fun c' h => ?_
  refine ⟨_, rfl, (advances_collector h.1.steps.micros (hf.sound.admins h.1.steps)).retains rfl, rfl⟩

/-- **A collection is prepared** within the budget. -/
theorem prepareCollection_retains {f : Fleet} (hf : Ready f) :
    Returns f.prepareCollection fun f' => Retains f f' ∧ f'.runtime = f.runtime ∧
      f'.runtime.retainedBytes + f'.collector.pendingBytes ≤ maxProgramBytes := by
  have hroom := hf.room
  have hset : Returns (f.collector.setPayloadBudget (maxProgramBytes - f.runtime.retainedBytes)) fun c' =>
      Sound c' ∧ Micros f.collector c' ∧ c'.pendingBytes ≤ maxProgramBytes - f.runtime.retainedBytes := by
    obtain ⟨c', heq, hs, hquiet⟩ := hf.sound.setPayloadBudget (maxProgramBytes - f.runtime.retainedBytes)
    refine ⟨c', heq, hs, .head (.budget _) hquiet.steps.micros, ?_⟩
    exact ((setPayloadBudget_steps hf.sound.books _).of_eq heq).2
  refine Returns.bind (P := fun available => available = maxProgramBytes - f.runtime.retainedBytes) (.usub hroom rfl)
    fun available h => ?_
  subst h
  refine Returns.bind hset fun c' h => ?_
  obtain ⟨hs, hmicros, hle⟩ := h
  have htotal : f.runtime.retainedBytes + c'.pendingBytes ≤ maxProgramBytes := by omega
  refine ⟨_, rfl, ?_, rfl, htotal⟩
  have hset := advances_collector hmicros hs
  refine (hset.trans ⟨.single (.note (.prepared htotal) f.batch), rfl, rfl, List.prefix_refl _, ?_⟩).retains rfl
  rw [acceptedOf_append]
  exact List.append_nil _

theorem drainCollector_retains (f : Fleet) : Retains f f.drainCollector := by
  refine Advances.retains ⟨.single (.drain f.batch), rfl, rfl, List.prefix_refl _, ?_⟩ rfl
  change acceptedOf (f.history ++ _) = _
  rw [acceptedOf_append]
  exact List.append_nil _

/-! ## Steps of the runtime -/

/-- A step of the runtime, its releases pushed to the batch. -/
theorem advances_push {f : Fleet} {r' : ProgramRuntime} {releases : List ProgramRelease}
    (h : RuntimeStep (acceptedOf f.history) f.runtime r' releases) :
    Advances f ({ f with runtime := r' }.push releases) := by
  refine ⟨?_, rfl, rfl, List.prefix_append .., ?_⟩
  · have hmove := Move.runtime none h (fun a ha => (by cases ha))
      { f.batch with releases := f.batch.releases ++ releases }
    rw [Option.toList_none, List.map_nil, List.append_nil] at hmove
    exact .single hmove
  · change acceptedOf (f.history ++ _) = _
    rw [acceptedOf_append, acceptedOf_released, List.append_nil]

/-- A step that hands out nothing. -/
theorem advances_runtime {f : Fleet} {r' : ProgramRuntime} (h : RuntimeStep (acceptedOf f.history) f.runtime r' []) :
    Advances f { f with runtime := r' } := by
  have hpush := advances_push h
  simpa [push] using hpush

/-- What a step leaves of a pane it revokes. -/
structure Revokes (pane : PaneId) (f f' : Fleet) : Prop extends Retains f f' where
  unbound : f'.runtime.binding pane = none
  elsewhere : Elsewhere pane f.runtime f'.runtime

theorem revokes_push {f : Fleet} {r' : ProgramRuntime} {releases : List ProgramRelease} {pane : PaneId}
    (h : RuntimeStep (acceptedOf f.history) f.runtime r' releases) (hunbound : r'.binding pane = none)
    (helsewhere : Elsewhere pane f.runtime r') : Revokes pane f ({ f with runtime := r' }.push releases) := by
  refine ⟨⟨advances_push h, fun q binding hb => ?_⟩, hunbound, helsewhere⟩
  by_cases hq : q = pane
  · change r'.binding q = some binding at hb
    rw [hq, hunbound] at hb
    cases hb
  · exact ⟨binding, (helsewhere q hq).symm.trans hb, rfl⟩

theorem Revokes.trans {pane : PaneId} {a b c : Fleet} (h₁ : Revokes pane a b) (h₂ : Retains b c)
    (hruntime : c.runtime = b.runtime) : Revokes pane a c :=
  ⟨h₁.toRetains.trans h₂, by rw [hruntime, h₁.unbound], by rw [hruntime]; exact h₁.elsewhere⟩

theorem revoke_revokes {f : Fleet} (hf : Ready f) (pane : PaneId) (reason : RecoveryReason) (departure : Bool) :
    Returns (f.revoke pane reason departure) (Revokes pane f) := by
  refine Returns.bind (revoke_step hf.accounts (acceptedOf f.history) pane reason departure) fun result h => ?_
  exact ⟨_, rfl, revokes_push h.1 h.2.1 h.2.2⟩

theorem revokeStream_revokes {f : Fleet} (hf : Ready f) (pane : PaneId) (reason : RecoveryReason) (departure : Bool)
    (gap : ObservationGap) : Returns (f.revokeStream pane reason departure gap) (Revokes pane f) := by
  refine Returns.bind (revoke_revokes hf pane reason departure) fun f₁ h₁ => ?_
  exact (invalidateStream_retains (h₁.ready hf) pane gap).mono fun f₂ h₂ => h₁.trans h₂.1 h₂.2

theorem removePane_revokes {f : Fleet} (hf : Ready f) (pane : PaneId) :
    Returns (f.removePane pane) (Revokes pane f) := by
  unfold removePane
  cases hentry : f.runtime.panes.get? pane with
  | none =>
    refine ⟨f, rfl, .refl f, ?_, fun q hq => rfl⟩
    unfold ProgramRuntime.binding
    rw [hentry]
    rfl
  | some entry =>
    refine Returns.bind (removePane_step hf.accounts (acceptedOf f.history) pane hentry) fun result h => ?_
    have hpush := revokes_push h.1 h.2.1 h.2.2
    exact (invalidateStream_retains (hpush.ready hf) pane .ownerChanged).mono fun f₂ h₂ => hpush.trans h₂.1 h₂.2

/-- A loop that revokes panes. -/
theorem foldlM_revokes {α : Type} {m : Fleet → α → Option Fleet} {pane : α → PaneId}
    (hm : ∀ f a, Ready f → Returns (m f a) (Revokes (pane a) f)) {f : Fleet} (hf : Ready f) (l : List α) :
    Returns (l.foldlM m f) fun f' => Retains f f' ∧ ∀ a ∈ l, f'.runtime.binding (pane a) = none := by
  have hloop := Returns.foldlM (fun rest f' => Retains f f' ∧ ∀ a ∈ l, a ∈ rest ∨ f'.runtime.binding (pane a) = none)
    (f := m) (l := l) (b := f) (fun a rest f₁ h₁ => ?_) ⟨.refl f, fun a ha => .inl ha⟩
  · exact hloop.mono fun f' h => ⟨h.1, fun a ha => (h.2 a ha).resolve_left List.not_mem_nil⟩
  · obtain ⟨hretains, hdone⟩ := h₁
    refine (hm f₁ a (hretains.ready hf)).mono fun f₂ h₂ => ⟨hretains.trans h₂.toRetains, fun a' ha' => ?_⟩
    by_cases hp : pane a' = pane a
    · exact .inr (hp ▸ h₂.unbound)
    · rcases hdone a' ha' with hmem | hnone
      · rcases List.mem_cons.mp hmem with rfl | hmem
        · exact absurd rfl hp
        · exact .inl hmem
      · exact .inr ((h₂.elsewhere _ hp).trans hnone)

theorem applyGap_retains {f : Fleet} (hf : Ready f) {observed : ObservedEvent}
    (hnewer : ∀ e ∈ acceptedOf f.history, e.pane = observed.pane → e.stamp ≤ observed.stamp) :
    Returns (f.applyGap observed) (Retains f) := by
  refine Returns.bind (applyGap_step hf.accounts (acceptedOf f.history) hnewer) fun result h => ?_
  obtain ⟨r₁, hfirst, hsecond, hidentity⟩ := h
  have h₁ := advances_runtime hfirst
  exact ⟨_, rfl, h₁.trans (advances_push hsecond), hidentity⟩

/-- The gaps of a drain, newer than everything accepted. -/
theorem applyGaps_retains {f : Fleet} (hf : Ready f) {gaps : List ObservedEvent}
    (hnewer : ∀ gap ∈ gaps, ∀ e ∈ acceptedOf f.history, e.pane = gap.pane → e.stamp ≤ gap.stamp) :
    Returns (gaps.foldlM applyGap f) (Retains f) := by
  refine (Returns.foldlM (fun rest f' => Retains f f' ∧ ∀ gap ∈ rest, gap ∈ gaps) (fun gap rest f₁ h => ?_)
    ⟨.refl f, fun gap h => h⟩).mono fun f' h => h.1
  obtain ⟨h₁, hmem⟩ := h
  refine (applyGap_retains (h₁.ready hf) ?_).mono fun f₂ h₂ => ⟨h₁.trans h₂, fun gap' h => hmem gap' (.tail _ h)⟩
  rw [h₁.accepted]
  exact hnewer gap (hmem gap List.mem_cons_self)

/-! ## Binding and confirming -/

/-- A boundary of a tracked pane is in a new epoch. -/
theorem programBoundary_steps {c : Collector} (hc : Sound c) (inPayload : SessionId → Nat → PaneId → Bool)
    (pane : PaneId) : Returns (c.programBoundary inPayload pane) fun result => Managed c result.2 ∧
      ∀ boundary, result.1 = some boundary → boundary.connection = c.epoch + 1 := by
  unfold programBoundary
  cases hs : c.panes.get? pane with
  | none =>
    simp only [owner, hs, Option.map_none]
    exact ⟨_, rfl, .refl c, fun boundary h => (by cases h)⟩
  | some stream =>
    simp only [owner, hs, Option.map_some]
    have heq := boundary_some hc.books hs (inPayload stream.owner stream.client pane)
    refine ⟨_, heq, (boundary_steps hc.books pane _).of_eq heq, fun boundary h => ?_⟩
    cases h
    rfl

/-- A pane of the batch was recognized so in the first sample. -/
def SampledBefore (input : BatchInput) (before : ProcessSnapshot) (pane : PaneId) (identity : Recognized) : Prop :=
  ∃ found ∈ input.panes, found.pane = pane ∧ ∃ prior, recognize found before input.manifests prior = .ok identity

theorem bindPane_advances {f : Fleet} (hf : Ready f) {input : BatchInput} (before : ProcessSnapshot)
    {pane : ProgramPane} (hpane : pane ∈ input.panes) : Returns (bindPane input before f pane) fun f' =>
      Advances f f' ∧ Elsewhere pane.pane f.runtime f'.runtime ∧ ∀ binding, f'.runtime.binding pane.pane = some binding →
        SampledBefore input before pane.pane binding.identity := by
  unfold bindPane
  dsimp only
  cases hrecognized : recognize pane before input.manifests ((f.runtime.binding pane.pane).map (·.identity)) with
  | error reason =>
    refine (revokeStream_revokes hf pane.pane reason true .ownerChanged).mono fun f' h =>
      ⟨h.toAdvances, h.elsewhere, fun binding hb => ?_⟩
    rw [h.unbound] at hb
    cases hb
  | ok identity =>
    have hsampled : SampledBefore input before pane.pane identity := ⟨pane, hpane, rfl, _, hrecognized⟩
    dsimp only
    split
    · rename_i hsame
      refine ⟨f, rfl, .refl f, fun q hq => rfl, fun binding hb => ?_⟩
      rw [hb] at hsame
      have : binding.identity = identity := by simpa using hsame
      exact this ▸ hsampled
    · -- The releases are pushed, the boundary taken and the entry bound: one step of each part.
      refine Returns.bind (programBoundary_steps hf.sound input.inPayload pane.pane) fun result h => ?_
      obtain ⟨boundary, collector⟩ := result
      obtain ⟨hmanaged, hconnection⟩ := h
      refine Returns.bind (bind_step hf.accounts (acceptedOf f.history) pane.pane (recognize_chain hrecognized)
        (fun b hb e he _ => ?_) rfl) fun r' h' => ?_
      · refine ObservedEvent.stamp_le_iff.mpr (.inl ?_)
        rw [hconnection b hb]
        exact Nat.lt_succ_of_le (hf.accepted_epoch he)
      · have hpush := advances_push h'.1
        have hsound := hf.sound.admins hmanaged.steps
        exact ⟨_, rfl, hpush.trans (advances_collector hmanaged.steps.micros hsound), h'.2.1, fun binding hb => (h'.2.2 binding hb).symm ▸ hsampled⟩

/-- Every pane bound after the first sample was recognized in it. -/
theorem bindPanes_advances {f : Fleet} (hf : Ready f) {input : BatchInput} (before : ProcessSnapshot)
    (hlive : ∀ pane binding, f.runtime.binding pane = some binding → pane ∈ input.panes.map (·.pane)) :
    Returns (input.panes.foldlM (bindPane input before) f) fun f' => Advances f f' ∧
      ∀ pane binding, f'.runtime.binding pane = some binding → SampledBefore input before pane binding.identity := by
  have hloop := Returns.foldlM (fun rest f' => Advances f f' ∧ (∀ pane ∈ rest, pane ∈ input.panes) ∧
      ∀ pane binding, f'.runtime.binding pane = some binding →
        pane ∈ rest.map (·.pane) ∨ SampledBefore input before pane binding.identity)
    (f := bindPane input before) (l := input.panes) (b := f) (fun pane rest f₁ h₁ => ?_)
    ⟨.refl f, fun _ h => h, fun pane binding hb => .inl (hlive pane binding hb)⟩
  · exact hloop.mono fun f' h => ⟨h.1, fun pane binding hb => (h.2.2 pane binding hb).resolve_left List.not_mem_nil⟩
  · obtain ⟨hadvances, hmem, hsampled⟩ := h₁
    refine (bindPane_advances (hadvances.ready hf) before (hmem pane List.mem_cons_self)).mono fun f₂ h₂ => ?_
    obtain ⟨h₂, helsewhere, hnew⟩ := h₂
    refine ⟨hadvances.trans h₂, fun p hp => hmem p (.tail _ hp), fun q binding hb => ?_⟩
    by_cases hq : q = pane.pane
    · subst hq
      exact .inr (hnew binding hb)
    · rw [helsewhere q hq] at hb
      refine (hsampled q binding hb).imp (fun hin => ?_) id
      rw [List.map_cons, List.mem_cons] at hin
      exact hin.resolve_left hq

theorem confirmPane_retains {f : Fleet} (hf : Ready f) (input : BatchInput) (pane : ProgramPane) :
    Returns (confirmPane input f pane) fun f' => Retains f f' ∧ Elsewhere pane.pane f.runtime f'.runtime ∧
      ∀ binding, f'.runtime.binding pane.pane = some binding → ∃ after, input.after = .ok after ∧
        recognize pane after input.manifests (some binding.identity) = .ok binding.identity := by
  unfold confirmPane
  cases hb : f.runtime.binding pane.pane with
  | none =>
    refine ⟨f, rfl, .refl f, fun q hq => rfl, fun binding h => ?_⟩
    rw [hb] at h
    cases h
  | some binding =>
    have hrevoked := (revokeStream_revokes hf pane.pane .processChangedDuringBatch true .ownerChanged).mono
      (Q := fun f' => Retains f f' ∧ Elsewhere pane.pane f.runtime f'.runtime ∧
        ∀ binding, f'.runtime.binding pane.pane = some binding → ∃ after, input.after = .ok after ∧
          recognize pane after input.manifests (some binding.identity) = .ok binding.identity) fun f' h =>
      ⟨h.toRetains, h.elsewhere, fun binding' hb' => by rw [h.unbound] at hb'; cases hb'⟩
    dsimp only
    cases hafter : input.after with
    | error reason =>
      rw [hafter] at hrevoked
      exact hrevoked
    | ok after =>
      rw [hafter] at hrevoked
      dsimp only
      split
      · rename_i hagrees
        refine ⟨f, rfl, .refl f, fun q hq => rfl, fun binding' h => ⟨after, rfl, ?_⟩⟩
        obtain rfl : binding = binding' := Option.some.inj (hb.symm.trans h)
        unfold Binding.agrees at hagrees
        split at hagrees
        · rename_i identity hrecognized
          have hsame : identity = binding.identity := by simpa using hagrees
          rw [hrecognized, hsame]
        · cases hagrees
      · exact hrevoked

/-- Every pane of the batch still bound was recognized in the second sample. -/
theorem confirmPanes_retains {f : Fleet} (hf : Ready f) (input : BatchInput) :
    Returns (input.panes.foldlM (confirmPane input) f) fun f' => Retains f f' ∧
      ∀ found ∈ input.panes, ∀ binding, f'.runtime.binding found.pane = some binding → ∃ after,
        input.after = .ok after ∧ recognize found after input.manifests (some binding.identity) = .ok binding.identity := by
  have hloop := Returns.foldlM (fun rest f' => Retains f f' ∧ ∀ found ∈ input.panes, found ∈ rest ∨
      ∀ binding, f'.runtime.binding found.pane = some binding → ∃ after, input.after = .ok after ∧
        recognize found after input.manifests (some binding.identity) = .ok binding.identity)
    (f := confirmPane input) (l := input.panes) (b := f) (fun pane rest f₁ h₁ => ?_)
    ⟨.refl f, fun found h => .inl h⟩
  · exact hloop.mono fun f' h => ⟨h.1, fun found hm => (h.2 found hm).resolve_left List.not_mem_nil⟩
  · obtain ⟨hretains, hdone⟩ := h₁
    refine (confirmPane_retains (hretains.ready hf) input pane).mono fun f₂ h₂ => ?_
    obtain ⟨h₂, helsewhere, hagrees⟩ := h₂
    refine ⟨hretains.trans h₂, fun found hfound => ?_⟩
    by_cases heq : found ∈ rest
    · exact .inl heq
    refine .inr fun binding hb => ?_
    rcases hdone found hfound with hmem | hconfirmed
    · rcases List.mem_cons.mp hmem with rfl | hmem
      · exact hagrees binding hb
      · exact absurd hmem heq
    · -- Another listing of the pane keeps its binding or revokes it.
      obtain ⟨prior, hprior, hsame⟩ := h₂.identity found.pane binding hb
      exact hsame ▸ hconfirmed prior hprior

end Fleet

end TmuxAgents
