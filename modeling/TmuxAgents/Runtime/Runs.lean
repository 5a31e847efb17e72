/-
A batch and the other calls as moves, and the runs of a fleet.

A callback is any function that moves a fleet that is `Ready`; a batch with such
callbacks is one again, so the calls made from within a callback are covered by
induction on the call. Each release of a batch is passed to the callback once,
in order, or is left unstreamed (`ProgramBatch.Streams`).
-/
import TmuxAgents.Runtime.Observe

namespace TmuxAgents

open Checked Collector ProgramRuntime

/-! ## Streaming -/

/-- What the callback was passed so far is the front of the releases, and is counted. -/
structure ProgramBatch.Streams (batch : ProgramBatch) : Prop where
  delivered : batch.steps.flatMap (·.releases) <+: batch.releases
  count : batch.callbackReleases = (batch.steps.flatMap (·.releases)).length

/-- Everything was passed to the callback. -/
structure ProgramBatch.Streamed (batch : ProgramBatch) : Prop where
  delivered : batch.steps.flatMap (·.releases) = batch.releases
  count : batch.callbackReleases = batch.releases.length

theorem ProgramBatch.Streamed.streams {batch : ProgramBatch} (h : batch.Streamed) : batch.Streams :=
  ⟨h.delivered ▸ List.prefix_refl _, by rw [h.delivered, h.count]⟩

theorem ProgramBatch.Streams.exact {batch : ProgramBatch} (h : batch.Streams) :
    batch.steps.flatMap (·.releases) ++ batch.unstreamedReleases = batch.releases := by
  obtain ⟨rest, hrest⟩ := h.delivered
  rw [unstreamedReleases, h.count, ← hrest, List.drop_left]

namespace Fleet

theorem Advances.streams {f f' : Fleet} (h : Advances f f') (hs : f.batch.Streams) : f'.batch.Streams := by
  refine ⟨?_, ?_⟩
  · rw [h.steps]
    exact hs.delivered.trans h.releases
  · rw [h.steps, h.callbackReleases, hs.count]

/-- A callback that moves the fleet it is given. -/
def Moving (callbacks : List (Fleet → Option Fleet)) : Prop :=
  ∀ k ∈ callbacks, ∀ f, Ready f → Returns (k f) (Moves f)

/-- The running call's batch is its own. -/
theorem move_batch {f : Fleet} (hf : Ready f) (batch : ProgramBatch) : Move f { f with batch } :=
  .collector .refl hf.sound batch

theorem loseScope_retains {f : Fleet} (hf : Ready f) (input : BatchInput) (allInvalidated : Bool) :
    Returns (f.loseScope input allInvalidated) (Retains f) := by
  unfold loseScope
  split
  · exact (foldlM_revokes (fun f pane hf => revokeStream_revokes hf pane.pane .scopeLost false .queueOverflow) hf
      input.panes).mono fun f' h => h.1
  · exact ⟨f, rfl, .refl f⟩

theorem loseSample_retains {f : Fleet} (hf : Ready f) (input : BatchInput) (reason : ProcessUnavailable) :
    Returns (f.loseSample input reason) (Retains f) := by
  refine Returns.bind (foldlM_revokes (fun f pane hf =>
    revokeStream_revokes hf pane.pane (.processUnavailable reason) false .ownerChanged) hf input.panes) fun f₁ h₁ => ?_
  have hf₁ := h₁.1.ready hf
  have hdrain := drainCollector_retains f₁
  refine Returns.bind (applyGaps_retains (hdrain.ready hf₁) fun gap hgap e he hp => ?_) fun f₂ h₂ => ?_
  · rw [hdrain.accepted] at he
    exact (hf₁.gap_newer hgap he hp).le
  · have h := (h₁.1.trans hdrain).trans h₂
    exact (prepareCollection_retains (h.ready hf)).mono fun f₃ h₃ => h.trans h₃.1

/-- What both samples recognized may be observed. -/
theorem admits_of_sampled {f : Fleet} {input : BatchInput} {before : ProcessSnapshot} (hbefore : input.before = .ok before)
    (hsampled : ∀ pane binding, f.runtime.binding pane = some binding → SampledBefore input before pane binding.identity)
    (hconfirmed : ∀ found ∈ input.panes, ∀ binding, f.runtime.binding found.pane = some binding → ∃ after,
      input.after = .ok after ∧ recognize found after input.manifests (some binding.identity) = .ok binding.identity)
    (observed : ObservedEvent) : f.Admits input observed := by
  intro binding hb hconnection hsequence
  obtain ⟨found, hfound, hpane, prior, hfirst⟩ := hsampled observed.pane binding hb
  obtain ⟨after, hafter, hsecond⟩ := hconfirmed found hfound binding (hpane ▸ hb)
  exact ⟨found, hfound, hpane, before, after, prior, hbefore, hafter, hfirst, hsecond⟩

variable {callbacks : List (Fleet → Option Fleet)} (hcallbacks : Moving callbacks)

include hcallbacks

theorem onStep_moves {f : Fleet} (hf : Ready f) {step : ProgramStep}
    (hdecision : ∀ decision, step.decision = some decision → ∃ pane, f.runtime.decision pane = some decision) :
    Returns (f.onStep callbacks step) fun f' => Moves f f' ∧ f'.batch = { f.batch with
      steps := f.batch.steps ++ [step], callbackReleases := f.batch.callbackReleases + step.releases.length } := by
  have hnote : Moves f (f.note [.stepped f.runtime step]) := .single (.note (.stepped hdecision) f.batch)
  have hcallback : Returns (callbacks.getD f.batch.steps.length some (f.note [.stepped f.runtime step]))
      (Moves (f.note [.stepped f.runtime step])) := by
    rw [List.getD_eq_getElem?_getD]
    cases hk : callbacks[f.batch.steps.length]? with
    | none => exact ⟨_, rfl, .refl⟩
    | some k => exact hcallbacks k (List.mem_of_getElem? hk) _ (hnote.ready hf)
  refine Returns.bind hcallback fun after hafter => ?_
  have hmoves := hnote.trans hafter
  exact ⟨_, rfl, hmoves.tail (move_batch (Moves.ready hmoves hf) _), rfl⟩

/-- The releases before a batch's first observation, one by one. -/
theorem deliverReleases_moves {f : Fleet} (hf : Ready f) (hsteps : f.batch.steps = [])
    (hcount : f.batch.callbackReleases = 0) (checkedProcesses : ProcessSnapshot) :
    Returns (f.batch.releases.foldlM (deliverRelease callbacks checkedProcesses) f) fun f' =>
      Moves f f' ∧ f'.batch.Streamed := by
  have hloop := Returns.foldlM (fun rest f' => Moves f f' ∧ f'.batch.releases = f.batch.releases ∧
      f'.batch.steps.flatMap (·.releases) ++ rest = f.batch.releases ∧
      f'.batch.callbackReleases = (f'.batch.steps.flatMap (·.releases)).length)
    (f := deliverRelease callbacks checkedProcesses) (l := f.batch.releases) (b := f)
    (fun release rest f₁ h₁ => ?_) ⟨.refl, rfl, by rw [hsteps]; rfl, by rw [hsteps, hcount]; rfl⟩
  · refine hloop.mono fun f' h => ⟨h.1, ?_⟩
    obtain ⟨-, hreleases, hdelivered, hcount⟩ := h
    rw [List.append_nil] at hdelivered
    exact ⟨hdelivered.trans hreleases.symm, by rw [hcount, hdelivered, hreleases]⟩
  · obtain ⟨hmoves, hreleases, hdelivered, hcount⟩ := h₁
    refine (onStep_moves hcallbacks (hmoves.ready hf) fun decision h => (by cases h)).mono fun f₂ h₂ => ?_
    obtain ⟨hmoves₂, hbatch⟩ := h₂
    refine ⟨hmoves.trans hmoves₂, ?_, ?_, ?_⟩
    · rw [hbatch]
      exact hreleases
    · rw [hbatch, List.flatMap_append, List.flatMap_singleton, List.append_assoc]
      exact hdelivered
    · rw [hbatch, List.flatMap_append, List.flatMap_singleton, List.length_append, ← hcount]

/-- A step of the callback after an observation, if it did anything. -/
theorem deliverObservation_moves {f f₁ : Fleet} (hf : Ready f) (h₁ : Advances f f₁) (hs : f.batch.Streamed)
    (checkedProcesses : ProcessSnapshot) (observed : ObservedEvent) :
    Returns (f₁.deliverObservation callbacks checkedProcesses f.batch observed) fun f' =>
      Moves f₁ f' ∧ f'.batch.Streamed := by
  obtain ⟨new, hnew⟩ := h₁.releases
  unfold deliverObservation
  split
  · refine (onStep_moves hcallbacks (h₁.ready hf) fun decision h => ⟨observed.pane, h⟩).mono fun f₂ h₂ => ?_
    obtain ⟨hmoves, hbatch⟩ := h₂
    have hdrop : f₁.batch.releases.drop f.batch.releases.length = new := by rw [← hnew, List.drop_left]
    refine ⟨hmoves, ?_, ?_⟩
    · rw [hbatch, List.flatMap_append, List.flatMap_singleton, h₁.steps, hs.delivered]
      dsimp only
      rw [hdrop, hnew]
    · rw [hbatch]
      dsimp only
      rw [hdrop, h₁.callbackReleases, hs.count, ← hnew, List.length_append]
  · rename_i hnone
    rw [not_or, not_not, not_not] at hnone
    have hsame : f₁.batch.releases = f.batch.releases := by
      rw [← hnew, List.length_append] at hnone
      have hnil : new = [] := List.eq_nil_of_length_eq_zero (by omega)
      rw [← hnew, hnil, List.append_nil]
    exact ⟨f₁, rfl, .refl, by rw [h₁.steps, hs.delivered, hsame], by rw [h₁.callbackReleases, hs.count, hsame]⟩

/-- **The accepted observations**, in order: the bytes still to come never run out. -/
theorem applyAccepted_moves {f : Fleet} (hf : Ready f) {input : BatchInput} (checkedProcesses : ProcessSnapshot)
    {accepted : List ObservedEvent} (haccepted : ∀ e ∈ accepted, e ∈ acceptedOf f.history ∧ f.Admits input e)
    (hs : f.batch.Streamed) {remaining : Nat}
    (hremaining : remaining = (accepted.map fun observed => payloadBytes observed.event).sum) :
    Returns (applyAccepted callbacks input checkedProcesses accepted remaining f) fun f' =>
      Moves f f' ∧ f'.batch.Streamed := by
  induction accepted generalizing f remaining with
  | nil => exact ⟨f, rfl, .refl, hs⟩
  | cons observed accepted ih =>
    rw [List.map_cons, List.sum_cons] at hremaining
    obtain ⟨hmem, hadmits⟩ := haccepted observed List.mem_cons_self
    refine Returns.bind (P := fun rest => rest = (accepted.map fun observed => payloadBytes observed.event).sum)
      (.usub (by omega) (by omega)) fun rest hrest => ?_
    refine Returns.bind (applyObservation_advances hf hmem hadmits rest) fun f₁ h₁ => ?_
    refine Returns.bind (deliverObservation_moves hcallbacks hf h₁ hs checkedProcesses observed) fun f₂ h₂ => ?_
    have hmoves := h₁.moves.trans h₂.1
    refine (ih (Moves.ready hmoves hf) (fun e he => ?_) h₂.2 hrest).mono fun f₃ h₃ => ⟨hmoves.trans h₃.1, h₃.2⟩
    obtain ⟨hmem, hadmits⟩ := haccepted e (.tail _ he)
    exact ⟨acceptedOf_subset (Moves.history hmoves) hmem, hadmits.moves hmoves hmem⟩

/-! ## Batches -/

/-- **A drain processed**: its losses, its gaps, and what it observed of confirmed panes. -/
theorem processDrain_moves {f : Fleet} (hf : Ready f) (hsteps : f.batch.steps = [])
    (hcount : f.batch.callbackReleases = 0) {input : BatchInput} {before : ProcessSnapshot}
    (hbefore : input.before = .ok before)
    (hsampled : ∀ pane binding, f.runtime.binding pane = some binding → SampledBefore input before pane binding.identity) :
    Returns (f.drainCollector.processDrain callbacks input f.collector.drain.1) fun f' =>
      Moves f f' ∧ f'.batch.Streams := by
  have hdrain := drainCollector_retains f
  refine Returns.bind (loseScope_retains (hdrain.ready hf) input _) fun f₁ h₁ => ?_
  have hretains₁ := hdrain.trans h₁
  refine Returns.bind (applyGaps_retains (hretains₁.ready hf) fun gap hgap e he hp => ?_) fun f₂ h₂ => ?_
  · rw [hretains₁.accepted] at he
    exact (hf.gap_newer hgap he hp).le
  have hretains₂ := hretains₁.trans h₂
  -- What is accepted is noted; it was drained in this batch.
  have hnoted : ∀ e ∈ f.collector.drain.1.observations.filter f₂.runtime.accepts,
      ∃ drain ∈ drainsOf f₂.history, e ∈ drain.observations := by
    intro e he
    have hprefix := Moves.history (h₁.moves.trans h₂.moves)
    refine ⟨f.collector.drain.1, List.mem_filterMap.mpr ⟨.drained f.collector.drain.1, hprefix.subset ?_, rfl⟩, (List.mem_filter.mp he).1⟩
    exact List.mem_append_right _ (List.mem_singleton_self _)
  obtain ⟨accepted, haccepted⟩ : ∃ accepted, accepted = f.collector.drain.1.observations.filter f₂.runtime.accepts :=
    ⟨_, rfl⟩
  have hmoves₃ : Moves f (f₂.note [.accepted accepted]) :=
    hretains₂.moves.tail (.note (.accepted (haccepted ▸ hnoted)) f₂.batch)
  dsimp only
  rw [← haccepted]
  have hf₃ := Moves.ready hmoves₃ hf
  refine Returns.bind (confirmPanes_retains hf₃ input) fun f₄ h₄ => ?_
  obtain ⟨hretains₄, hconfirmed⟩ := h₄
  have hmoves₄ := hmoves₃.trans hretains₄.moves
  have hf₄ := Moves.ready hmoves₄ hf
  have hsteps₄ : f₄.batch.steps = [] := hretains₄.steps.trans (hretains₂.steps.trans hsteps)
  have hcount₄ : f₄.batch.callbackReleases = 0 := hretains₄.callbackReleases.trans (hretains₂.callbackReleases.trans hcount)
  cases hafter : input.after with
  | error reason =>
    refine (prepareCollection_retains hf₄).mono fun f₅ h₅ => ⟨hmoves₄.trans h₅.1.moves, h₅.1.toAdvances.streams ?_⟩
    refine ⟨?_, ?_⟩
    · rw [hsteps₄]
      exact List.nil_prefix
    · rw [hsteps₄, hcount₄]
      rfl
  | ok after =>
    refine Returns.bind (deliverReleases_moves hcallbacks hf₄ hsteps₄ hcount₄ after) fun f₅ h₅ => ?_
    obtain ⟨hmoves₅, hstreamed₅⟩ := h₅
    have hf₅ := Moves.ready hmoves₅ hf₄
    have hadmits₄ := admits_of_sampled (f := f₄) hbefore (fun pane binding hb => ?_) hconfirmed
    · have hmem₄ : ∀ e ∈ accepted, e ∈ acceptedOf f₄.history := by
        intro e he
        refine acceptedOf_subset (Moves.history hretains₄.moves) ?_
        refine List.mem_flatMap.mpr ⟨.accepted accepted, ?_, he⟩
        exact List.mem_append_right _ (List.mem_singleton_self _)
      refine Returns.bind (applyAccepted_moves hcallbacks hf₅ after (fun e he => ?_) hstreamed₅ rfl) fun f₆ h₆ => ?_
      · exact ⟨acceptedOf_subset (Moves.history hmoves₅) (hmem₄ e he), (hadmits₄ e).moves hmoves₅ (hmem₄ e he)⟩
      · obtain ⟨hmoves₆, hstreamed₆⟩ := h₆
        have hmoves := (hmoves₄.trans hmoves₅).trans hmoves₆
        refine (prepareCollection_retains (Moves.ready hmoves hf)).mono fun f₇ h₇ =>
          ⟨hmoves.trans h₇.1.moves, h₇.1.toAdvances.streams hstreamed₆.streams⟩
    · -- A pane bound here was bound after the first sample, to the same process.
      obtain ⟨prior₃, hprior₃, hidentity₃⟩ := hretains₄.identity pane binding hb
      obtain ⟨prior, hprior, hidentity⟩ := hretains₂.identity pane prior₃ hprior₃
      rw [← hidentity₃, ← hidentity]
      exact hsampled pane prior hprior

theorem processPanes_moves {f : Fleet} (hf : Ready f) (hsteps : f.batch.steps = [])
    (hcount : f.batch.callbackReleases = 0) {input : BatchInput}
    (hlive : ∀ pane binding, f.runtime.binding pane = some binding → pane ∈ input.panes.map (·.pane)) :
    Returns (f.processPanes callbacks input) fun f' => Moves f f' ∧ f'.batch.Streams := by
  have hstreams : f.batch.Streams := by
    refine ⟨?_, ?_⟩
    · rw [hsteps]
      exact List.nil_prefix
    · rw [hsteps, hcount]
      rfl
  unfold processPanes
  cases hpanes : input.panes with
  | nil =>
    exact (prepareCollection_retains hf).mono fun f' h => ⟨h.1.moves, h.1.toAdvances.streams hstreams⟩
  | cons first rest =>
    dsimp only
    cases hbefore : input.before with
    | error reason =>
      exact (loseSample_retains hf input reason).mono fun f' h => ⟨h.moves, h.toAdvances.streams hstreams⟩
    | ok before =>
      dsimp only
      rw [← hpanes]
      refine Returns.bind (bindPanes_advances hf before hlive) fun f₁ h₁ => ?_
      obtain ⟨hadvances, hsampled⟩ := h₁
      have hf₁ := hadvances.ready hf
      refine Returns.bind (prepareCollection_retains hf₁) fun f₂ h₂ => ?_
      obtain ⟨hretains, hruntime, -⟩ := h₂
      rw [← hruntime] at hsampled
      refine (processDrain_moves hcallbacks (hretains.ready hf₁)
        (hretains.steps.trans (hadvances.steps.trans hsteps))
        (hretains.callbackReleases.trans (hadvances.callbackReleases.trans hcount)) hbefore hsampled).mono fun f₃ h₃ => ?_
      exact ⟨(hadvances.moves.trans hretains.moves).trans h₃.1, h₃.2⟩

/-- **A batch** moves the fleet, and streams or returns each of its releases. -/
theorem processBatchWith_moves {f : Fleet} (hf : Ready f) (input : BatchInput) :
    Returns (f.processBatchWith callbacks input) (Moves f) := by
  have hbegin := move_batch hf {}
  refine Returns.bind (foldlM_revokes (fun f pane hf => removePane_revokes hf pane) (hbegin.ready hf) _) fun f₁ h₁ => ?_
  obtain ⟨hretains, hremoved⟩ := h₁
  have hmoves₁ := Relation.ReflTransGen.head hbegin hretains.moves
  refine Returns.bind (processPanes_moves hcallbacks (Moves.ready hmoves₁ hf) hretains.steps hretains.callbackReleases
    fun pane binding hb => ?_) fun f₂ h₂ => ?_
  · -- A bound pane that is not of the batch was removed.
    by_contra hgone
    obtain ⟨prior, hprior, -⟩ := hretains.identity pane binding hb
    obtain ⟨entry, hentry, -⟩ := Option.bind_eq_some_iff.mp hprior
    have hmem : pane ∈ f.runtime.panes.keys.filter fun pane => !(input.panes.map (·.pane)).contains pane := by
      refine List.mem_filter.mpr ⟨SortedMap.mem_keys.mpr ⟨entry, hentry⟩, ?_⟩
      simpa using hgone
    rw [hremoved pane hmem] at hb
    cases hb
  · exact ⟨_, rfl, (hmoves₁.trans h₂.1).tail (.note (.returned h₂.2.exact) f₂.batch)⟩

end Fleet

/-! ## The other calls -/

namespace Fleet

theorem invalidate_moves {f : Fleet} (hf : Ready f) (pane : PaneId) (reason : RecoveryReason) :
    Returns (f.invalidate pane reason) (Moves f) := by
  have hbegin := move_batch hf {}
  refine Returns.bind (revokeStream_revokes (hbegin.ready hf) pane reason false _) fun f₁ h₁ => ?_
  have hmoves := Relation.ReflTransGen.head hbegin h₁.moves
  exact (prepareCollection_retains (Moves.ready hmoves hf)).mono fun f₂ h₂ => hmoves.trans h₂.1.moves

theorem dropStream_moves {f : Fleet} (hf : Ready f) (pane : PaneId) (intact : Bool) :
    Returns (f.dropStream pane intact) (Moves f) := by
  unfold dropStream
  split
  · exact (invalidateStream_retains hf pane .ownerChanged).mono fun f' h => h.1.moves
  · exact ⟨f, rfl, .refl⟩

theorem recheck_moves {f : Fleet} (hf : Ready f) (decision : ProgramDecision) (pane : ProgramPane)
    (manifests : Manifests) (snapshot : ProcessSnapshot) :
    Returns (f.recheck decision pane manifests snapshot) fun result => Moves f result.2 := by
  unfold recheck
  split
  · exact ⟨_, rfl, .refl⟩
  rename_i hcurrent
  rw [not_not] at hcurrent
  dsimp only
  split
  · exact ⟨_, rfl, .refl⟩
  obtain ⟨-, binding, hbound, howner⟩ := decision_some hcurrent
  have hreleases := revoke_releases hf.accounts decision.pane
    ((streamLoss f.collector decision.pane decision.boundary.connection).getD .identityChanged)
    (streamLoss f.collector decision.pane decision.boundary.connection).isNone
  refine Returns.bind (hreleases.and (revoke_step hf.accounts (acceptedOf f.history) decision.pane _ _))
    fun result h => ?_
  obtain ⟨heq, hstep, -⟩ := h
  rw [heq, hbound, Option.toList_some, List.map_singleton, ← howner] at hstep
  have hmove := Move.runtime none hstep (fun a ha => (by cases ha)) f.batch
  rw [Option.toList_none, List.map_nil, List.append_nil, List.map_singleton] at hmove
  refine Returns.bind (dropStream_moves (hmove.ready hf) decision.pane _) fun f₁ h₁ => ?_
  have hmoves := Relation.ReflTransGen.head hmove h₁
  refine Returns.bind (prepareCollection_retains (Moves.ready hmoves hf)) fun f₂ h₂ => ?_
  exact ⟨_, rfl, hmoves.trans h₂.1.moves⟩

/-- Every stream of the runtime, invalidated. -/
theorem invalidateAll_steps {c : Collector} (hc : Sound c) (panes : List PaneId) :
    Returns (panes.foldlM (fun c pane => c.invalidate pane .ownerChanged false) c) fun c' =>
      Micros c c' ∧ Sound c' := by
  refine Returns.foldlM (fun _ c' => Micros c c' ∧ Sound c') (fun pane rest c₁ h₁ => ?_) ⟨.refl, hc⟩
  refine (invalidate_quiet h₁.2.books pane .ownerChanged false).mono fun c₂ h₂ => ?_
  exact ⟨h₁.1.trans h₂.1.steps.micros, h₁.2.admins h₂.1.steps⟩

/-- Every pane forgotten, and released. -/
theorem reset_step {r : ProgramRuntime} (accepted : List ObservedEvent) :
    RuntimeStep accepted r { r with panes := .empty, retainedBytes := 0 } (r.panes.entries.map fun (pane, entry) =>
      { pane, owner := entry.binding.map (·.owner), reason := .disabled }) := by
  have hbinding : ∀ {pane entry}, (pane, entry) ∈ r.panes.entries → r.binding pane = entry.binding := by
    intro pane entry h
    rw [ProgramRuntime.binding, SortedMap.mem_entries.mp h, Option.bind_some]
  refine ⟨fun _ => rfl, .inl (Nat.zero_le _), issues_none rfl rfl, fun release hr owner ho => ?_, fun pane =>
    .ended rfl fun binding hb => ?_, fun _ pane entry h => ?_⟩
  · obtain ⟨⟨pane, entry⟩, hmem, rfl⟩ := List.mem_map.mp hr
    obtain ⟨binding, hb, rfl⟩ := Option.map_eq_some_iff.mp ho
    exact ⟨binding, (hbinding hmem).trans hb, rfl⟩
  · obtain ⟨entry, hentry, hbound⟩ := Option.bind_eq_some_iff.mp hb
    refine ⟨_, List.mem_map_of_mem (SortedMap.mem_entries.mpr hentry), rfl, ?_⟩
    dsimp only
    rw [hbound, Option.map_some]
  · simp at h

theorem reset_moves {f : Fleet} (hf : Ready f) : Returns f.reset (Moves f) := by
  have hbegin := move_batch hf {}
  refine Returns.bind (invalidateAll_steps hf.sound _) fun c' h => ?_
  obtain ⟨hmicros, hsound⟩ := h
  have hcollector := Move.collector (f := { f with batch := {} }) hmicros hsound {}
  have hpush := advances_push (f := { f with batch := {}, collector := c' }) (reset_step (acceptedOf f.history))
  have hdrain := hpush.trans (drainCollector_retains _).toAdvances
  have hmoves := ((Relation.ReflTransGen.single hbegin).tail hcollector).trans hdrain.moves
  exact (prepareCollection_retains (Moves.ready hmoves hf)).mono fun f' h => hmoves.trans h.1.moves

theorem request_moves {f : Fleet} (hf : Ready f) (request : Request) : Returns (f.request request) (Moves f) := by
  cases request with
  | recheck decision pane manifests snapshot =>
    obtain ⟨result, heq, hmoves⟩ := recheck_moves hf decision pane manifests snapshot
    exact ⟨result.2, by rw [Fleet.request, heq, Option.map_some], hmoves⟩
  | invalidate pane reason => exact invalidate_moves hf pane reason
  | removePane pane =>
    have hbegin := move_batch hf {}
    exact (removePane_revokes (hbegin.ready hf) pane).mono fun f' h => .head hbegin h.moves
  | reset => exact reset_moves hf
  | markPresented decision =>
    obtain ⟨result, heq, hstep⟩ := recordPresentation_step hf.accounts (acceptedOf f.history) hf.chained decision none
    exact ⟨_, by rw [Fleet.request, markPresented, heq, Option.map_some], (advances_runtime hstep).moves⟩
  | reconcileResult decision disposition =>
    obtain ⟨result, heq, hstep⟩ :=
      recordPresentation_step hf.accounts (acceptedOf f.history) hf.chained decision (some disposition)
    exact ⟨_, by rw [Fleet.request, reconcileResult, heq, Option.map_some], (advances_runtime hstep).moves⟩
  | acknowledge pane result =>
    exact ⟨_, rfl, (advances_runtime (acknowledge_step hf.accounts (acceptedOf f.history) pane result)).moves⟩
  | decision pane =>
    refine ⟨_, rfl, ?_⟩
    cases hdecision : f.runtime.decision pane with
    | none => simpa [Fleet.note] using Relation.ReflTransGen.refl (r := Move) (a := f)
    | some decision => exact .single (.note (.decided hdecision) f.batch)

end Fleet

/-! ## Runs -/

theorem Fleet.answer_moves {f : Fleet} {x : Option Fleet} (h : Returns x (Moves f)) :
    Returns (x.map Fleet.answer) (Moves f) := by
  obtain ⟨f', rfl, hmoves⟩ := h
  exact ⟨_, rfl, hmoves.tail (.note .answered f'.batch)⟩

mutual

/-- **A call moves the fleet**, whatever is called from within its callbacks. -/
theorem RuntimeCall.run_moves : ∀ (call : RuntimeCall) {f : Fleet}, Ready f → Returns (call.run f) (Moves f)
  | .request r, f, hf => by
    rw [RuntimeCall.run]
    exact Fleet.answer_moves (Fleet.request_moves hf r)
  | .processBatch input, f, hf => by
    rw [RuntimeCall.run]
    refine Fleet.answer_moves (Returns.bind (Fleet.processBatchWith_moves (fun k hk => (by cases hk)) hf input)
      fun f₁ h₁ => ?_)
    exact ⟨_, rfl, Relation.ReflTransGen.tail h₁ (Fleet.move_batch (Moves.ready h₁ hf) _)⟩
  | .processBatchWith input callbacks, f, hf => by
    rw [RuntimeCall.run]
    exact Fleet.answer_moves (Fleet.processBatchWith_moves (RuntimeCall.callbacks_moving callbacks) hf input)

theorem RuntimeCall.callbacks_moving : ∀ callbacks : List (List RuntimeCall),
    Fleet.Moving (RuntimeCall.callbacks callbacks)
  | [] => fun k hk => (by simp [RuntimeCall.callbacks] at hk)
  | calls :: rest => fun k hk f hf => by
    rw [RuntimeCall.callbacks, List.mem_cons] at hk
    rcases hk with rfl | hk
    · exact RuntimeCall.runAll_moves calls hf
    · exact RuntimeCall.callbacks_moving rest k hk f hf

theorem RuntimeCall.runAll_moves : ∀ (calls : List RuntimeCall) {f : Fleet}, Ready f →
    Returns (RuntimeCall.runAll calls f) (Moves f)
  | [], f, hf => ⟨f, by rw [RuntimeCall.runAll], .refl⟩
  | call :: calls, f, hf => by
    rw [RuntimeCall.runAll]
    refine Returns.bind (call.run_moves hf) fun f₁ h₁ => ?_
    exact (RuntimeCall.runAll_moves calls (Moves.ready h₁ hf)).mono fun f₂ h₂ => h₁.trans h₂

end

namespace Fleet

variable [Base64]

/-- Control clients read between calls. -/
theorem control_moves {f : Fleet} (hf : Ready f) (ops : List CollectorOp) :
    Returns ((f.collector.exec ops).map fun (drains, collector) =>
      { f with collector }.note (drains.map .drained)) (Moves f) := by
  obtain ⟨drains, c', heq, -⟩ := hf.sound.exec ops
  have hbegin : Sound f.collector ∧ Moves f ({ f with collector := f.collector }.note ([].map .drained)) := by
    refine ⟨hf.sound, ?_⟩
    simpa [Fleet.note] using Relation.ReflTransGen.refl (r := Move) (a := f)
  have hrun := Run.exec_invariant (fun drains c => Sound c ∧
    Moves f ({ f with collector := c }.note (drains.map .drained))) ?_ hbegin heq
  · rw [heq, Option.map_some]
    exact ⟨_, rfl, hrun.2⟩
  · intro drains c op out c' ⟨hs, hmoves⟩ hstep
    obtain ⟨hs', hacts⟩ := (hs.step op).of_eq hstep
    refine ⟨hs', ?_⟩
    rcases hacts.micros hs with hdrain | ⟨hnil, hmicros⟩
    · cases hdrain
      have hmove := Move.drain (f := { f with collector := c }.note (drains.map .drained)) f.batch
      refine hmoves.tail ?_
      rw [List.map_append]
      simpa [Fleet.note] using hmove
    · dsimp only at hnil hmicros
      rw [hnil, List.append_nil]
      exact hmoves.tail (.collector (f := { f with collector := c }.note (drains.map .drained)) hmicros hs' f.batch)

/-- **One operation** on a fleet. -/
theorem step_moves {f : Fleet} (hf : Ready f) (op : FleetOp) : Returns (f.step op) (Moves f) := by
  cases op with
  | control ops => exact control_moves hf ops
  | call call => exact call.run_moves hf

/-- **Every run** returns, by moves. -/
theorem run_moves {f : Fleet} (hf : Ready f) (ops : List FleetOp) : Returns (f.run ops) (Moves f) := by
  refine Returns.foldlM (fun _ f' => Moves f f') (fun op rest f₁ h₁ => ?_) .refl
  exact (step_moves (Moves.ready h₁ hf) op).mono fun f₂ h₂ => h₁.trans h₂

end Fleet

end TmuxAgents
