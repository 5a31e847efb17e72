/-
The runtime's own methods as steps (`RuntimeStep`).

Each lemma is a triple: on a runtime whose count agrees with its stores the
method returns, and what it returns is a step with the releases it answers.
-/
import TmuxAgents.Program.ProjectFacts
import TmuxAgents.Runtime.Moves

namespace TmuxAgents

open Checked

theorem PaneProgram.cover_store (entry : PaneProgram) (pane : PaneId) (history : Option HistoryInvalidation) :
    (entry.cover pane history).1.store = entry.store := by
  unfold cover
  repeat' split
  all_goals rfl

theorem PaneProgram.cover_binding (entry : PaneProgram) (pane : PaneId) (history : Option HistoryInvalidation) :
    (entry.cover pane history).1.binding = entry.binding := by
  unfold cover
  repeat' split
  all_goals rfl

/-- Only a selection that was active is released, and by the owner it has. -/
theorem PaneProgram.cover_releases {entry : PaneProgram} {pane : PaneId} {history : Option HistoryInvalidation}
    {release : ProgramRelease} (h : release ∈ (entry.cover pane history).2) : entry.coverage = .active ∧
      ∃ binding, entry.binding = some binding ∧
        release = { pane, owner := some binding.owner, reason := .bindingBoundary, historyInvalidation := history } := by
  unfold cover at h
  split at h
  · cases h
  rename_i binding hbinding
  split at h
  · cases h
  split at h
  · rename_i hactive
    exact ⟨hactive, binding, hbinding, List.mem_singleton.mp h⟩
  · cases h

namespace ProgramRuntime

/-! ## Accounts -/

theorem entry_bytes (r : ProgramRuntime) (pane : PaneId) : (r.entry pane).store.retainedBytes =
    (r.panes.get? pane).elim 0 fun entry => entry.store.retainedBytes := by
  unfold entry
  cases r.panes.get? pane <;> rfl

theorem entry_binding (r : ProgramRuntime) (pane : PaneId) : (r.entry pane).binding = r.binding pane := by
  unfold entry binding
  cases r.panes.get? pane <;> rfl

theorem entry_of_get? {r : ProgramRuntime} {pane : PaneId} {entry : PaneProgram} (h : r.panes.get? pane = some entry) :
    r.entry pane = entry := by
  simp [ProgramRuntime.entry, h]

theorem bytes_le (r : ProgramRuntime) (pane : PaneId) : (r.entry pane).store.retainedBytes ≤ r.storedBytes := by
  rw [entry_bytes]
  cases h : r.panes.get? pane with
  | none => exact Nat.zero_le _
  | some entry => exact SortedMap.le_sum_values h fun entry => entry.store.retainedBytes

theorem storedBytes_insert {r r' : ProgramRuntime} {pane : PaneId} {entry : PaneProgram}
    (h : r'.panes = r.panes.insert pane entry) :
    r'.storedBytes + (r.entry pane).store.retainedBytes = r.storedBytes + entry.store.retainedBytes := by
  have hsum := SortedMap.sum_insert r.panes pane entry fun entry => entry.store.retainedBytes
  rw [← entry_bytes] at hsum
  rw [storedBytes, h]
  exact hsum

theorem storedBytes_erase {r r' : ProgramRuntime} {pane : PaneId} (h : r'.panes = r.panes.erase pane) :
    r'.storedBytes + (r.entry pane).store.retainedBytes = r.storedBytes := by
  have hsum := SortedMap.sum_values r.panes pane fun entry => entry.store.retainedBytes
  rw [← entry_bytes] at hsum
  rw [storedBytes, storedBytes, h, Nat.add_comm]
  exact hsum.symm

/-- A pane the runtime does not know has an empty store, and no episode. -/
theorem Stored.entry {r : ProgramRuntime} (h : r.Stored) (pane : PaneId) :
    RecordStore.OneEpisode ((r.entry pane).binding.map Binding.live) (r.entry pane).store := by
  unfold ProgramRuntime.entry
  cases hentry : r.panes.get? pane with
  | none => exact RecordStore.oneEpisode_new
  | some entry => exact h pane entry hentry

theorem Stored.insert {r r' : ProgramRuntime} (h : r.Stored) {pane : PaneId} {entry : PaneProgram}
    (hpanes : r'.panes = r.panes.insert pane entry)
    (hentry : RecordStore.OneEpisode (entry.binding.map Binding.live) entry.store) : r'.Stored := by
  intro q found hq
  rw [hpanes, SortedMap.get?_insert] at hq
  split at hq
  · cases hq
    exact hentry
  · exact h q found hq

theorem binding_insert {r r' : ProgramRuntime} {pane : PaneId} {entry : PaneProgram}
    (h : r'.panes = r.panes.insert pane entry) (q : PaneId) :
    r'.binding q = if q = pane then entry.binding else r.binding q := by
  unfold binding
  rw [h, SortedMap.get?_insert]
  split <;> rfl

theorem binding_erase {r r' : ProgramRuntime} {pane : PaneId} (h : r'.panes = r.panes.erase pane) (q : PaneId) :
    r'.binding q = if q = pane then none else r.binding q := by
  unfold binding
  rw [h, SortedMap.get?_erase]
  split <;> rfl

theorem update_eq {r : ProgramRuntime} {old : Nat} (h : old ≤ r.retainedBytes) (pane : PaneId) (entry : PaneProgram) :
    r.update pane old entry = some { r with
      panes := r.panes.insert pane entry, retainedBytes := r.retainedBytes - old + entry.store.retainedBytes } := by
  simp only [update, usub_of_le h]
  rfl

/-! ## Building steps -/

/-- A pane whose binding is left alone, and that is not released. -/
theorem BindingStep.unchanged {accepted : List ObservedEvent} {pane : PaneId} {r r' : ProgramRuntime}
    {releases : List ProgramRelease} (h : r'.binding pane = r.binding pane)
    (hreleases : ∀ release ∈ releases, release.pane ≠ pane) : BindingStep accepted pane r r' releases := by
  cases hb : r.binding pane with
  | none =>
    refine .kept 0 (by rw [h, hb, Option.map_none]) (fun binding h => ?_) fun release hr hp => absurd hp (hreleases release hr)
    rw [hb] at h
    cases h
  | some binding =>
    refine .kept binding.sequence (by rw [h, hb, Option.map_some]) (fun b h => ?_) fun release hr hp =>
      absurd hp (hreleases release hr)
    obtain rfl : binding = b := Option.some.inj (hb.symm.trans h)
    exact Nat.le_refl _

/-- A pane left bound to nothing, what it was bound to released. -/
theorem BindingStep.ended {accepted : List ObservedEvent} {pane : PaneId} {r r' : ProgramRuntime}
    {releases : List ProgramRelease} (h : r'.binding pane = none)
    (hreleased : ∀ binding, r.binding pane = some binding → ∃ release ∈ releases, release.pane = pane ∧
      release.owner = some binding.owner) : BindingStep accepted pane r r' releases := by
  refine .turned hreleased fun binding hb => ?_
  rw [h] at hb
  cases hb

/-- How the owners of a step were issued. -/
def Issues (r r' : ProgramRuntime) : Prop :=
  (r'.owners = r.owners ∧ r'.nextOwner = r.nextOwner) ∨
    ∃ pane, r'.owners = r.owners ++ [(pane, r.nextOwner + 1)] ∧ r'.nextOwner = r.nextOwner + 1

theorem issues_none {r r' : ProgramRuntime} (h : r'.owners = r.owners) (h' : r'.nextOwner = r.nextOwner) : Issues r r' :=
  .inl ⟨h, h'⟩

/-- A step that replaces one pane's entry. -/
theorem RuntimeStep.of_insert {accepted : List ObservedEvent} {r r' : ProgramRuntime} {releases : List ProgramRelease}
    {pane : PaneId} {entry : PaneProgram} (hpanes : r'.panes = r.panes.insert pane entry)
    (hretained : r'.retainedBytes = r.retainedBytes - (r.entry pane).store.retainedBytes + entry.store.retainedBytes)
    (hroom : entry.store.retainedBytes ≤ (r.entry pane).store.retainedBytes ∨ r'.retainedBytes ≤ maxProgramBytes)
    (hcount : r.retainedBytes = r.storedBytes) (howners : Issues r r')
    (hnamed : ∀ release ∈ releases, release.pane = pane ∧ ∀ owner, release.owner = some owner →
      ∃ binding, r.binding pane = some binding ∧ binding.owner = owner)
    (hbinding : BindingStep accepted pane r r' releases)
    (hepisode : RecordStore.OneEpisode ((r.entry pane).binding.map Binding.live) (r.entry pane).store →
      RecordStore.OneEpisode (entry.binding.map Binding.live) entry.store) : RuntimeStep accepted r r' releases := by
  have hstored := storedBytes_insert hpanes
  have hle := r.bytes_le pane
  refine ⟨fun _ => by omega, hroom.imp (fun h => by omega) id, howners, fun release hr owner ho => ?_, fun q => ?_,
    fun h => h.insert hpanes (hepisode (h.entry pane))⟩
  · obtain ⟨hp, hn⟩ := hnamed release hr
    rw [hp]
    exact hn owner ho
  · by_cases hq : q = pane
    · rw [hq]
      exact hbinding
    · refine .unchanged (by rw [binding_insert hpanes, if_neg hq]) fun release hr hp => ?_
      exact hq (hp.symm.trans (hnamed release hr).1)

/-- The other panes of a step on one. -/
def Elsewhere (pane : PaneId) (r r' : ProgramRuntime) : Prop := ∀ q, q ≠ pane → r'.binding q = r.binding q

theorem elsewhere_insert {r r' : ProgramRuntime} {pane : PaneId} {entry : PaneProgram}
    (h : r'.panes = r.panes.insert pane entry) : Elsewhere pane r r' := fun q hq => by
  rw [binding_insert h, if_neg hq]

/-- A decision shows the owner its pane is bound to, and is for that pane. -/
theorem decision_some {r : ProgramRuntime} {pane : PaneId} {decision : ProgramDecision}
    (h : r.decision pane = some decision) : decision.pane = pane ∧ ∃ binding, r.binding pane = some binding ∧
      decision.selection.authority.owner = binding.owner := by
  simp only [ProgramRuntime.decision, Option.bind_eq_bind, Option.bind_eq_some_iff, Option.pure_def] at h
  obtain ⟨entry, hentry, -, -, binding, hbinding, selection, hselect, heq⟩ := h
  cases heq
  obtain ⟨-, -, -, -, howner, -⟩ := RecordStore.select_some hselect
  refine ⟨rfl, binding, ?_, howner⟩
  rw [ProgramRuntime.binding, hentry, Option.bind_some, hbinding]

/-! ## The methods -/

variable {r : ProgramRuntime} (hcount : r.retainedBytes = r.storedBytes) (accepted : List ObservedEvent)

include hcount

theorem count_le (pane : PaneId) : (r.entry pane).store.retainedBytes ≤ r.retainedBytes := hcount ▸ r.bytes_le pane

theorem revoke_step (pane : PaneId) (reason : RecoveryReason) (departure : Bool) :
    Returns (r.revoke pane reason departure) fun result => RuntimeStep accepted r result.2 result.1 ∧
      result.2.binding pane = none ∧ Elsewhere pane r result.2 := by
  have hlower : (if reason = .observation .budgetExceeded then RecordStore.new
      else if departure then (r.entry pane).store.lifecycle .attachedProcessExit
      else (r.entry pane).store.invalidateEpisode).retainedBytes ≤ (r.entry pane).store.retainedBytes := by
    repeat' split
    · exact Nat.zero_le _
    · exact RecordStore.retainedBytes_lifecycle ..
    · exact RecordStore.retainedBytes_invalidateEpisode ..
  unfold revoke
  simp only [update_eq (count_le hcount pane)]
  refine ⟨_, rfl, ?_, ?_, elsewhere_insert rfl⟩
  · refine .of_insert rfl rfl (.inl hlower) hcount (issues_none rfl rfl) (fun release hr => ?_)
      (.ended ?_ fun binding hb => ?_) fun h => ?_
    · obtain ⟨binding, hb, rfl⟩ := List.mem_map.mp hr
      rw [entry_binding, Option.mem_toList] at hb
      refine ⟨rfl, fun owner ho => ⟨binding, hb, Option.some.inj ho⟩⟩
    · rw [binding_insert rfl, if_pos rfl]
    · refine ⟨_, List.mem_map_of_mem (a := binding) ?_, rfl, rfl⟩
      rw [entry_binding, hb]
      exact List.mem_singleton_self _
    · dsimp only
      repeat' split
      · exact RecordStore.oneEpisode_new
      · exact h.lifecycle _ none
      · exact h.invalidateEpisode none
  · dsimp only
    rw [binding_insert rfl, if_pos rfl]

/-- What a revocation releases: the owner, if the pane has one. -/
theorem revoke_releases (pane : PaneId) (reason : RecoveryReason) (departure : Bool) :
    Returns (r.revoke pane reason departure) fun result => result.1 =
      (r.binding pane).toList.map fun binding => { pane, owner := some binding.owner, reason } := by
  unfold revoke
  simp only [update_eq (count_le hcount pane)]
  exact ⟨_, rfl, by rw [entry_binding]⟩

theorem unchanged_step : RuntimeStep accepted r r [] :=
  ⟨fun _ => hcount, .inl (Nat.le_refl _), issues_none rfl rfl, fun _ h => (by cases h), fun _ =>
    .unchanged rfl fun _ h => (by cases h), id⟩

/-- An eviction of the store alone. -/
theorem evictStore_step (pane : PaneId) {entry : PaneProgram} (hentry : r.panes.get? pane = some entry)
    (reason : ObservationGap) : Returns (r.evictStore pane entry reason) fun result =>
      RuntimeStep accepted r result.2 [] ∧ result.1.binding = entry.binding ∧
        result.2.panes.get? pane = some result.1 ∧ ∀ q, result.2.binding q = r.binding q := by
  have hr := entry_of_get? hentry
  have hbound : r.binding pane = entry.binding := by rw [← entry_binding, hr]
  unfold evictStore
  split
  · have hle := count_le hcount pane
    rw [hr] at hle
    rw [update_eq hle]
    refine ⟨_, rfl, ?_, rfl, by simp, fun q => ?_⟩
    · refine .of_insert rfl (by rw [hr]) (.inl (Nat.zero_le _)) hcount (issues_none rfl rfl) (fun _ h => (by cases h))
        (.unchanged ?_ fun _ h => (by cases h)) fun _ => RecordStore.oneEpisode_new.begin _
      rw [binding_insert rfl, if_pos rfl, hbound]
    · dsimp only
      rw [binding_insert rfl]
      split
      · rename_i hq
        rw [hq, hbound]
      · rfl
  · refine ⟨_, rfl, ?_, rfl, hentry, fun q => rfl⟩
    exact unchanged_step hcount accepted

/-- A gap beyond everything accepted of its pane. -/
theorem applyGap_step {observed : ObservedEvent}
    (hnewer : ∀ e ∈ accepted, e.pane = observed.pane → e.stamp ≤ observed.stamp) :
    Returns (r.applyGap observed) fun result => ∃ r₁, RuntimeStep accepted r r₁ [] ∧
      RuntimeStep accepted r₁ result.2 result.1 ∧ ∀ q binding, result.2.binding q = some binding →
        ∃ prior, r.binding q = some prior ∧ prior.identity = binding.identity := by
  have hnothing : Returns (some (([] : List ProgramRelease), r)) fun result => ∃ r₁, RuntimeStep accepted r r₁ [] ∧
      RuntimeStep accepted r₁ result.2 result.1 ∧ ∀ q binding, result.2.binding q = some binding →
        ∃ prior, r.binding q = some prior ∧ prior.identity = binding.identity :=
    ⟨_, rfl, r, unchanged_step hcount accepted, unchanged_step hcount accepted, fun q binding hb => ⟨binding, hb, rfl⟩⟩
  unfold applyGap
  cases observed.event with
  | command command => exact hnothing
  | lifecycle event => exact hnothing
  | gap reason =>
    dsimp only
    cases hentry : r.panes.get? observed.pane with
    | none => exact hnothing
    | some entry =>
      refine Returns.bind (evictStore_step hcount accepted observed.pane hentry reason) fun evicted h => ?_
      obtain ⟨entry₁, r₁⟩ := evicted
      obtain ⟨hstep, hbinding, hentry₁, hsame⟩ := h
      dsimp only at hbinding hentry₁ hsame hstep
      have hcount₁ := hstep.accounts hcount
      have hkeeps : ∀ q binding, r₁.binding q = some binding → ∃ prior, r.binding q = some prior ∧
          prior.identity = binding.identity := fun q binding hb => ⟨binding, by rw [← hsame, hb], rfl⟩
      dsimp only
      cases hb : entry₁.binding with
      | none => exact ⟨_, rfl, r₁, hstep, unchanged_step hcount₁ accepted, hkeeps⟩
      | some binding =>
        dsimp only
        split
        · exact ⟨_, rfl, r₁, hstep, unchanged_step hcount₁ accepted, hkeeps⟩
        have hr₁ := entry_of_get? hentry₁
        have hbound : r₁.binding observed.pane = some binding := by rw [← entry_binding, hr₁, hb]
        have hle : entry₁.store.retainedBytes ≤ (r₁.advanceOwner observed.pane).retainedBytes := by
          have := count_le hcount₁ observed.pane
          rw [hr₁] at this
          exact this
        simp only [update_eq hle]
        refine ⟨_, rfl, r₁, hstep, ?_, fun q b hq => ?_⟩
        · refine .of_insert rfl (by rw [hr₁]; rfl) (.inl ?_) hcount₁ (.inr ⟨observed.pane, rfl, rfl⟩) (fun release hr => ?_)
            (.turned (fun b hb' => ?_) fun b hb' => ?_) fun h => ?_
          · rw [hr₁]
            exact RecordStore.retainedBytes_invalidateEpisode _
          · rw [List.mem_singleton.mp hr]
            exact ⟨rfl, fun owner ho => ⟨binding, hbound, Option.some.inj ho⟩⟩
          · obtain rfl : binding = b := Option.some.inj (hbound.symm.trans hb')
            exact ⟨_, List.mem_singleton_self _, rfl, rfl⟩
          · rw [binding_insert rfl, if_pos rfl] at hb'
            cases hb'
            refine ⟨Nat.lt_succ_self _, List.mem_append_right _ (List.mem_singleton_self _),
              .inr ⟨binding, hbound, rfl⟩, Nat.le_refl _, .inr hnewer⟩
          · rw [hr₁] at h
            exact h.invalidateEpisode _
        · dsimp only at hq
          rw [binding_insert rfl] at hq
          by_cases hp : q = observed.pane
          · rw [if_pos hp] at hq
            cases hq
            refine ⟨binding, ?_, rfl⟩
            rw [hp, ← hsame, hbound]
          · rw [if_neg hp] at hq
            exact hkeeps q b hq

theorem removePane_step (pane : PaneId) {entry : PaneProgram} (hentry : r.panes.get? pane = some entry) :
    Returns (r.removePane pane entry) fun result => RuntimeStep accepted r result.2 result.1 ∧
      result.2.binding pane = none ∧ Elsewhere pane r result.2 := by
  have hr := entry_of_get? hentry
  have hbound : r.binding pane = entry.binding := by rw [← entry_binding, hr]
  have hle := count_le hcount pane
  rw [hr] at hle
  simp only [removePane, usub_of_le hle]
  refine ⟨_, rfl, ⟨fun _ => ?_, .inl (Nat.sub_le ..), issues_none rfl rfl, fun release hm owner ho => ?_, fun q => ?_,
    fun h q found hq => ?_⟩, by rw [binding_erase rfl, if_pos rfl], fun q hq => by rw [binding_erase rfl, if_neg hq]⟩
  · have hstored : storedBytes { r with
        panes := r.panes.erase pane, retainedBytes := r.retainedBytes - entry.store.retainedBytes } +
        (r.entry pane).store.retainedBytes = r.storedBytes := storedBytes_erase rfl
    rw [hr] at hstored
    dsimp only at hstored ⊢
    omega
  · rw [List.mem_singleton.mp hm] at ho ⊢
    obtain ⟨binding, hb, rfl⟩ := Option.map_eq_some_iff.mp ho
    exact ⟨binding, hbound.trans hb, rfl⟩
  · by_cases hq : q = pane
    · refine .ended (by rw [binding_erase rfl, if_pos hq]) fun binding hb => ⟨_, List.mem_singleton_self _, hq.symm, ?_⟩
      rw [hq, hbound] at hb
      dsimp only
      rw [hb, Option.map_some]
    · refine .unchanged (by rw [binding_erase rfl, if_neg hq]) fun release hm hp => ?_
      rw [List.mem_singleton.mp hm] at hp
      exact hq hp.symm
  · dsimp only at hq
    rw [SortedMap.get?_erase] at hq
    split at hq
    · cases hq
    · exact h q found hq

/-- A pane bound at a boundary beyond everything accepted of it. -/
theorem bind_step (pane : PaneId) {identity : Recognized} (hidentity : identity.chain ≠ [])
    {boundary : Option ObservationBoundary} (hbeyond : ∀ b, boundary = some b → ∀ e ∈ accepted, e.pane = pane →
      e.stamp ≤ toLex (b.connection, b.sequenceFloor)) {releases : List ProgramRelease}
    (hreleases : releases = (r.binding pane).toList.map fun binding =>
      { pane, owner := some binding.owner, reason := .identityChanged }) :
    Returns (r.bind pane identity boundary) fun r' => RuntimeStep accepted r r' releases ∧ Elsewhere pane r r' ∧
      ∀ binding, r'.binding pane = some binding → binding.identity = identity := by
  have hnamed : ∀ release ∈ releases, release.pane = pane ∧ ∀ owner, release.owner = some owner →
      ∃ binding, r.binding pane = some binding ∧ binding.owner = owner := by
    intro release hr
    rw [hreleases] at hr
    obtain ⟨binding, hb, rfl⟩ := List.mem_map.mp hr
    exact ⟨rfl, fun owner ho => ⟨binding, Option.mem_toList.mp hb, Option.some.inj ho⟩⟩
  have hreleased : ∀ binding, r.binding pane = some binding → ∃ release ∈ releases, release.pane = pane ∧
      release.owner = some binding.owner := by
    intro binding hb
    rw [hreleases, hb]
    exact ⟨_, List.mem_singleton_self _, rfl, rfl⟩
  have hlower := RecordStore.retainedBytes_invalidateEpisode (r.entry pane).store
  unfold bind
  cases boundary with
  | none =>
    dsimp only
    rw [update_eq (count_le hcount pane)]
    refine ⟨_, rfl, ?_, elsewhere_insert rfl, fun binding hb => ?_⟩
    · exact .of_insert rfl rfl (.inl hlower) hcount (issues_none rfl rfl) hnamed
        (.ended (by rw [binding_insert rfl, if_pos rfl]) hreleased) fun h => h.invalidateEpisode none
    · rw [binding_insert rfl, if_pos rfl] at hb
      cases hb
  | some boundary =>
    have hle : (r.entry pane).store.retainedBytes ≤ (r.advanceOwner pane).retainedBytes := count_le hcount pane
    dsimp only
    rw [update_eq hle]
    refine ⟨_, rfl, ?_, elsewhere_insert rfl, fun binding hb => ?_⟩
    · refine .of_insert rfl rfl (.inl hlower) hcount (.inr ⟨pane, rfl, rfl⟩) hnamed (.turned hreleased fun binding hb => ?_)
        fun h => h.invalidateEpisode _
      rw [binding_insert rfl, if_pos rfl] at hb
      cases hb
      exact ⟨Nat.lt_succ_self _, List.mem_append_right _ (List.mem_singleton_self _), .inl hidentity, Nat.le_refl _,
        .inr (hbeyond boundary rfl)⟩
    · rw [binding_insert rfl, if_pos rfl] at hb
      cases hb
      rfl

/-- A step that only writes a pane's store and presentation back, with as many bytes. -/
theorem rewrite_step {pane : PaneId} {entry entry' : PaneProgram} (hentry : r.panes.get? pane = some entry)
    (hbinding : entry'.binding = entry.binding) (hbytes : entry'.store.retainedBytes = entry.store.retainedBytes)
    (hepisode : ∀ cur, RecordStore.OneEpisode cur entry.store → RecordStore.OneEpisode cur entry'.store) :
    RuntimeStep accepted r { r with panes := r.panes.insert pane entry' } [] := by
  have hr := entry_of_get? hentry
  have hle := count_le hcount pane
  refine .of_insert rfl ?_ (.inl (by rw [hr, hbytes])) hcount (issues_none rfl rfl) (fun _ h => (by cases h))
    (.unchanged ?_ fun _ h => (by cases h)) fun h => ?_
  · rw [hr] at hle ⊢
    dsimp only
    omega
  · rw [binding_insert rfl, if_pos rfl, hbinding, ← hr, entry_binding]
  · rw [hr] at h
    rw [hbinding]
    exact hepisode _ h

theorem recordPresentation_step (hchained : r.Chained) (decision : ProgramDecision)
    (disposition : Option ResultDisposition) : Returns (r.recordPresentation decision disposition) fun result =>
      RuntimeStep accepted r result.2 [] := by
  unfold recordPresentation
  cases hentry : r.panes.get? decision.pane with
  | none => exact ⟨_, rfl, unchanged_step hcount accepted⟩
  | some entry =>
    dsimp only
    cases hb : entry.binding with
    | none => exact ⟨_, rfl, unchanged_step hcount accepted⟩
    | some binding =>
      dsimp only
      split
      · exact ⟨_, rfl, unchanged_step hcount accepted⟩
      have hbytes : (present entry.store decision.selection binding.live disposition).2.retainedBytes =
          entry.store.retainedBytes := by
        cases disposition with
        | none => exact RecordStore.retainedBytes_markPresented ..
        | some disposition => exact RecordStore.retainedBytes_reconcileResult ..
      have hepisode : ∀ cur, RecordStore.OneEpisode cur entry.store → RecordStore.OneEpisode cur
          (present entry.store decision.selection binding.live disposition).2 := by
        intro cur h
        cases disposition with
        | none =>
          have hstep : RecordStore.OneEpisode cur (entry.store.step (.markPresented decision.selection binding.live)) :=
            h.presentation rfl
          exact hstep
        | some disposition =>
          have hstep : RecordStore.OneEpisode cur
            (entry.store.step (.reconcileResult decision.selection binding.live disposition)) := h.presentation rfl
          exact hstep
      have hbound : r.binding decision.pane = some binding := by
        rw [← entry_binding, entry_of_get? hentry, hb]
      rcases hp : present entry.store decision.selection binding.live disposition with ⟨_ | _, store⟩
      · rw [hp] at hbytes hepisode
        exact ⟨_, rfl, rewrite_step hcount accepted hentry hb.symm hbytes hepisode⟩
      · rw [hp] at hbytes hepisode
        have hne := hchained _ _ hbound
        simp only [List.getLast?_eq_some_getLast hne]
        exact ⟨_, rfl, rewrite_step hcount accepted hentry hb.symm hbytes hepisode⟩

theorem acknowledge_step (pane : PaneId) (result : ResultIdentity) :
    RuntimeStep accepted r (r.acknowledge pane result).2 [] := by
  unfold acknowledge
  cases hentry : r.panes.get? pane with
  | none => exact unchanged_step hcount accepted
  | some entry =>
    have hbytes := RecordStore.retainedBytes_acknowledge entry.store result
    have hepisode : ∀ cur, RecordStore.OneEpisode cur entry.store →
        RecordStore.OneEpisode cur (entry.store.step (.acknowledge result)) := fun cur h => h.presentation rfl
    rw [RecordStore.step] at hepisode
    dsimp only
    rcases ha : entry.store.acknowledge result with ⟨_ | _, store⟩
    · rw [ha] at hbytes hepisode
      exact rewrite_step hcount accepted hentry rfl hbytes hepisode
    · rw [ha] at hbytes hepisode
      exact rewrite_step hcount accepted hentry rfl hbytes hepisode

end ProgramRuntime

end TmuxAgents
