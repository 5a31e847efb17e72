/-
An accepted observation as moves: what is checked before it is applied, and what
applying it does to its pane.
-/
import TmuxAgents.Runtime.Calls

namespace TmuxAgents

open Checked Collector ProgramRuntime

namespace Fleet

/-- The fleet once an event of `observed` was applied to `entry`. -/
def concluded (f : Fleet) (input : BatchInput) (observed : ObservedEvent) (binding : Binding) (old : Nat)
    (entry : PaneProgram) : Fleet :=
  let covered := entry.cover observed.pane observed.event.clearedSubtree
  { f with
    runtime := { f.runtime with
      panes := f.runtime.panes.insert observed.pane covered.1
      retainedBytes := f.runtime.retainedBytes - old + covered.1.store.retainedBytes }
    batch := { f.batch with
      releases := f.batch.releases ++ covered.2, appliedEvents := f.batch.appliedEvents + 1 }
    history := f.history ++ covered.2.map .released ++
      [.applied { observed, binding, stream := f.collector.stream observed.pane, input }] }

theorem conclude_eq {f : Fleet} {old : Nat} (h : old ≤ f.runtime.retainedBytes) (input : BatchInput)
    (observed : ObservedEvent) (binding : Binding) (entry : PaneProgram) :
    f.conclude input observed binding old entry = some (f.concluded input observed binding old entry) := by
  simp only [conclude, update_eq h]
  rfl

/-- A step of the runtime that applied an observation. -/
theorem advances_applied (f : Fleet) {r : ProgramRuntime} (releases : List ProgramRelease) {a : AppliedObservation}
    (h : RuntimeStep (acceptedOf f.history) f.runtime r releases) (hchecked : a.Checked f)
    (hcursor : ∀ binding, r.binding a.observed.pane = some binding → a.observed.stamp ≤ binding.cursor) (events : Nat) :
    Advances f { f with
      runtime := r
      batch := { f.batch with releases := f.batch.releases ++ releases, appliedEvents := events }
      history := f.history ++ releases.map .released ++ [.applied a] } := by
  refine ⟨.single (.runtime (some a) h (fun a' ha => ?_) _), rfl, rfl, List.prefix_append .., ?_⟩
  · obtain rfl : a = a' := Option.some.inj ha
    exact ⟨hchecked, hcursor⟩
  · dsimp only
    rw [acceptedOf_append, acceptedOf_append, acceptedOf_released, List.append_nil]
    exact List.append_nil _

/-- What is known when an observation reaches its pane's store. -/
structure Reaches (f : Fleet) (input : BatchInput) (observed : ObservedEvent) (entry : PaneProgram)
    (binding : Binding) : Prop where
  ready : Ready f
  found : f.runtime.panes.get? observed.pane = some entry
  checked : AppliedObservation.Checked
    { observed, binding, stream := f.collector.stream observed.pane, input } f

section Reached

variable {f : Fleet} {input : BatchInput} {observed : ObservedEvent} {entry : PaneProgram} {binding : Binding}
  (h : Reaches f input observed entry binding)

include h

theorem Reaches.entry_eq : f.runtime.entry observed.pane = entry := entry_of_get? h.found

theorem Reaches.count_le : entry.store.retainedBytes ≤ f.runtime.retainedBytes := by
  have := ProgramRuntime.count_le h.ready.accounts observed.pane
  rwa [h.entry_eq] at this

/-- The observation is the cursor of a binding that saw it. -/
theorem Reaches.stamp_le {next : Binding} (hconnection : next.boundary.connection = binding.boundary.connection)
    (hsequence : next.sequence = observed.sequence) : observed.stamp ≤ next.cursor := by
  refine ObservedEvent.stamp_le_iff.mpr (.inr ⟨?_, hsequence ▸ Nat.le_refl _⟩)
  rw [hconnection]
  exact h.checked.connection

theorem exceedBudget_advances {entry' : PaneProgram} (hstore : entry'.store = entry.store) :
    Returns (f.exceedBudget observed.pane binding entry') (Advances f) := by
  have hbound := h.checked.bound
  have hle : entry'.store.retainedBytes ≤ f.runtime.retainedBytes := hstore ▸ h.count_le
  simp only [exceedBudget, update_eq hle]
  have hpush : Advances f ({ f with runtime := { f.runtime with
      panes := f.runtime.panes.insert observed.pane { entry' with
        store := .new, binding := none, coverage := .recovering (.observation .budgetExceeded) }
      retainedBytes := f.runtime.retainedBytes - entry'.store.retainedBytes + RecordStore.new.retainedBytes } }.push
      [{ pane := observed.pane, owner := some binding.owner, reason := .observation .budgetExceeded }]) := by
    refine advances_push (.of_insert rfl (by rw [h.entry_eq, hstore]) (.inl (Nat.zero_le _)) h.ready.accounts
      (issues_none rfl rfl) (fun release hr => ?_) (.ended (by rw [binding_insert rfl, if_pos rfl]) fun b hb => ?_)
      fun _ => RecordStore.oneEpisode_new)
    · rw [List.mem_singleton.mp hr]
      exact ⟨rfl, fun owner ho => ⟨binding, hbound, Option.some.inj ho⟩⟩
    · obtain rfl : binding = b := Option.some.inj (hbound.symm.trans hb)
      exact ⟨_, List.mem_singleton_self _, rfl, rfl⟩
  exact (invalidateStream_retains (hpush.ready h.ready) observed.pane .budgetExceeded).mono fun f' h' =>
    hpush.trans h'.1.toAdvances

theorem applyCommand_advances (command : ProgramCommand) (remaining : Nat) :
    Returns (f.applyCommand input observed binding
      { entry with binding := some { binding with sequence := observed.sequence } } command remaining) (Advances f) := by
  have hbound := h.checked.bound
  unfold applyCommand
  dsimp only
  refine Returns.bind (RecordStore.replacementBytes_suffices entry.store command input.at_ (some binding.live))
    fun new hnew => ?_
  refine Returns.bind (P := fun rest => rest = f.runtime.retainedBytes - entry.store.retainedBytes)
    (.usub h.count_le rfl) fun rest hrest => ?_
  split
  · exact exceedBudget_advances h rfl
  · rename_i hfits
    rw [conclude_eq h.count_le]
    refine ⟨_, rfl, advances_applied f _ ?_ h.checked (fun b hb => ?_) _⟩
    · refine .of_insert rfl (by rw [h.entry_eq]) (.inr ?_) h.ready.accounts (issues_none rfl rfl)
        (fun release hr => ?_) (.kept observed.sequence ?_ (fun b hb => ?_) fun release hr _ _ _ => ?_) fun hs => ?_
      · dsimp only
        rw [PaneProgram.cover_store]
        dsimp only
        omega
      · obtain ⟨-, b, hb, rfl⟩ := PaneProgram.cover_releases hr
        cases hb
        exact ⟨rfl, fun owner ho => ⟨binding, hbound, Option.some.inj ho⟩⟩
      · rw [binding_insert rfl, if_pos rfl, PaneProgram.cover_binding, hbound]
        rfl
      · obtain rfl : binding = b := Option.some.inj (hbound.symm.trans hb)
        exact h.checked.sequence.le
      · obtain ⟨-, b, -, rfl⟩ := PaneProgram.cover_releases hr
        rfl
      · rw [PaneProgram.cover_store, PaneProgram.cover_binding]
        rw [entry_binding, hbound, h.entry_eq] at hs
        exact hs.apply command input.at_ (.inr rfl)
    · rw [binding_insert rfl, if_pos rfl, PaneProgram.cover_binding] at hb
      cases hb
      exact h.stamp_le rfl rfl

theorem applyLifecycle_advances (event : TerminalLifecycle) :
    Returns (f.applyLifecycle input observed binding
      { entry with binding := some { binding with sequence := observed.sequence } } event) (Advances f) := by
  have hbound := h.checked.bound
  -- The binding the episode's end leaves, if any.
  obtain ⟨next, hnext⟩ : ∃ next : Option Binding, next =
      if event = TerminalLifecycle.attachedProcessExit then none
      else some { binding with
        owner := f.runtime.nextOwner + 1
        cycleFloor := (entry.store.lifecycle event).workCycle
        boundary := { binding.boundary with sequenceFloor := observed.sequence }
        sequence := observed.sequence } := ⟨_, rfl⟩
  have hkeeps : ∀ b, next = some b → b.identity = binding.identity ∧
      b.boundary.connection = binding.boundary.connection ∧ b.sequence = observed.sequence ∧
      b.boundary.sequenceFloor = observed.sequence ∧ b.owner = f.runtime.nextOwner + 1 := by
    intro b hb
    rw [hnext] at hb
    split at hb
    · cases hb
    · cases hb
      exact ⟨rfl, rfl, rfl, rfl, rfl⟩
  have hstep : ∀ entry' : PaneProgram, entry'.binding = next → entry'.store = entry.store.lifecycle event →
      entry'.coverage = .recovering (.ofLifecycle event) → ∀ release : ProgramRelease, release.pane = observed.pane →
      release.owner = some binding.owner →
      Advances f (concluded { (f.push [release]) with runtime := f.runtime.advanceOwner observed.pane } input observed
        binding entry.store.retainedBytes entry') := by
    intro entry' hbinding hstore hcoverage release hpane howner
    have hcover : (entry'.cover observed.pane observed.event.clearedSubtree).2 = [] := by
      refine List.eq_nil_iff_forall_not_mem.mpr fun release hr => ?_
      obtain ⟨hactive, -⟩ := PaneProgram.cover_releases hr
      rw [hcoverage] at hactive
      cases hactive
    have hadvances := advances_applied f [release]
      (r := { f.runtime.advanceOwner observed.pane with
        panes := f.runtime.panes.insert observed.pane (entry'.cover observed.pane observed.event.clearedSubtree).1
        retainedBytes := f.runtime.retainedBytes - entry.store.retainedBytes +
          (entry'.cover observed.pane observed.event.clearedSubtree).1.store.retainedBytes })
      ?_ h.checked (fun b hb => ?_) (f.batch.appliedEvents + 1)
    · unfold concluded
      simp only [hcover, List.append_nil, List.map_nil]
      exact hadvances
    · refine .of_insert rfl (by rw [h.entry_eq]) (.inl ?_) h.ready.accounts (.inr ⟨observed.pane, rfl, rfl⟩)
        (fun rel hr => ?_) (.turned (fun b hb => ?_) fun b hb => ?_) fun hs => ?_
      · rw [PaneProgram.cover_store, hstore, h.entry_eq]
        exact RecordStore.retainedBytes_lifecycle ..
      · rw [List.mem_singleton.mp hr]
        exact ⟨hpane, fun owner ho => ⟨binding, hbound, Option.some.inj (howner.symm.trans ho)⟩⟩
      · obtain rfl : binding = b := Option.some.inj (hbound.symm.trans hb)
        exact ⟨release, List.mem_singleton_self _, hpane, howner⟩
      · rw [binding_insert rfl, if_pos rfl, PaneProgram.cover_binding, hbinding] at hb
        obtain ⟨hidentity, hconnection, hsequence, hfloor, hownerEq⟩ := hkeeps b hb
        refine ⟨by rw [hownerEq]; exact Nat.lt_succ_self _, ?_, .inr ⟨binding, hbound, hidentity⟩, ?_,
          .inl ⟨binding, hbound, hidentity, hconnection, ?_⟩⟩
        · rw [hownerEq]
          exact List.mem_append_right _ (List.mem_singleton_self _)
        · rw [hfloor, hsequence]
        · rw [hsequence]
          exact h.checked.sequence.le
      · rw [PaneProgram.cover_store, hstore]
        rw [h.entry_eq] at hs
        exact hs.lifecycle event _
    · rw [binding_insert rfl, if_pos rfl, PaneProgram.cover_binding, hbinding] at hb
      obtain ⟨-, hconnection, hsequence, -⟩ := hkeeps b hb
      exact h.stamp_le hconnection hsequence
  unfold applyLifecycle
  simp only [Option.bind_eq_bind, Option.pure_def]
  rw [conclude_eq (by exact h.count_le), Option.bind_some]
  have hadvances := hstep
    { entry with
      store := entry.store.lifecycle event
      binding := next
      coverage := .recovering (.ofLifecycle event)
      presented := if event = TerminalLifecycle.fullReset then none else entry.presented
      presentedChain := if event = TerminalLifecycle.fullReset then [] else entry.presentedChain }
    rfl rfl rfl
    { pane := observed.pane
      owner := some binding.owner
      reason := .ofLifecycle event
      historyInvalidation := if event = TerminalLifecycle.fullReset then some .all else none } rfl rfl
  rw [hnext] at hadvances
  by_cases hexit : event = TerminalLifecycle.attachedProcessExit
  · rw [if_pos hexit] at hadvances ⊢
    rw [if_pos hexit]
    exact (invalidateStream_retains (hadvances.ready h.ready) observed.pane .ownerChanged).mono fun f' h' =>
      hadvances.trans h'.1.toAdvances
  · rw [if_neg hexit] at hadvances ⊢
    rw [if_neg hexit]
    exact ⟨_, rfl, hadvances⟩

end Reached

/-- What makes a binding's process the batch's own: if an observation could still be applied
under it, both samples recognized it. -/
def Admits (f : Fleet) (input : BatchInput) (observed : ObservedEvent) : Prop :=
  ∀ binding, f.runtime.binding observed.pane = some binding → observed.connection = binding.boundary.connection →
    binding.sequence < observed.sequence → input.Sampled observed.pane binding.identity

/-- Moves admit what was admitted: a binding begun since is beyond everything accepted. -/
theorem Admits.moves {f f' : Fleet} {input : BatchInput} {observed : ObservedEvent} (h : f.Admits input observed)
    (hmoves : Moves f f') (haccepted : observed ∈ acceptedOf f.history) : f'.Admits input observed := by
  intro binding hb hconnection hsequence
  rcases hmoves.progress hb with ⟨prior, hprior, hfollows⟩ | hbeyond
  · rw [hfollows.identity]
    exact h prior hprior (hfollows.connection ▸ hconnection) (hfollows.sequence.trans_lt hsequence)
  · have hle := hbeyond observed haccepted rfl
    rcases ObservedEvent.stamp_le_iff.mp hle with hlt | ⟨-, hle⟩
    · exact absurd hconnection hlt.ne
    · exact absurd hsequence (Nat.not_lt_of_le hle)

/-- **An accepted observation** moves the fleet, and is checked before it is applied. -/
theorem applyObservation_advances {f : Fleet} (hf : Ready f) {input : BatchInput} {observed : ObservedEvent}
    (haccepted : observed ∈ acceptedOf f.history) (hadmits : f.Admits input observed) (remaining : Nat) :
    Returns (f.applyObservation input observed remaining) (Advances f) := by
  unfold applyObservation
  cases hentry : f.runtime.panes.get? observed.pane with
  | none => exact ⟨f, rfl, .refl f⟩
  | some entry =>
    dsimp only
    cases hbinding : entry.binding with
    | none => exact ⟨f, rfl, .refl f⟩
    | some binding =>
      have hbound : f.runtime.binding observed.pane = some binding := by
        rw [← entry_binding, entry_of_get? hentry, hbinding]
      dsimp only
      cases hloss : streamLoss f.collector observed.pane binding.boundary.connection with
      | some reason =>
        exact (revoke_revokes hf observed.pane reason false).mono fun f' h => h.toAdvances
      | none =>
        dsimp only
        split
        · exact ⟨f, rfl, .refl f⟩
        rename_i hnew
        rw [not_or, not_not, Nat.not_le] at hnew
        obtain ⟨hconnection, hsequence⟩ := hnew
        have hcurrent : ∃ state, f.collector.stream observed.pane = some state ∧
            state.connection = binding.boundary.connection := by
          unfold streamLoss at hloss
          split at hloss
          · rename_i current hstream
            split at hloss
            · rename_i hsame
              exact ⟨current, hstream, hsame⟩
            · cases hloss
          · cases hloss
        have hreaches : Reaches f input observed entry binding :=
          ⟨hf, hentry, haccepted, hbound, hconnection, hsequence, rfl, hcurrent,
            hadmits binding hbound hconnection hsequence⟩
        cases hevent : observed.event with
        | command command => exact applyCommand_advances hreaches command remaining
        | lifecycle event => exact applyLifecycle_advances hreaches event
        | gap reason =>
          refine ⟨_, rfl, advances_runtime (.of_insert rfl ?_ (.inl (by rw [hreaches.entry_eq])) hf.accounts
            (issues_none rfl rfl) (fun _ h => (by cases h)) (.kept observed.sequence ?_ (fun b hb => ?_)
              fun _ h => (by cases h)) fun hs => ?_)⟩
          · have hle := hreaches.count_le
            rw [hreaches.entry_eq]
            dsimp only
            omega
          · rw [binding_insert rfl, if_pos rfl, hbound]
            rfl
          · obtain rfl : binding = b := Option.some.inj (hbound.symm.trans hb)
            exact hsequence.le
          · rw [entry_binding, hbound, hreaches.entry_eq] at hs
            exact hs

end Fleet

end TmuxAgents
