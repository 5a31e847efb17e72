/-
Runs with one live episode between boundaries, which is how the runtime
drives a store: it binds a pane to an episode, applies every command in it,
and ends the binding with a boundary.

In such a run the ownership pass has nothing left to do: every owner is what
a pass would compute (`Reconciled`), because one pass over stale owners is
already closed. And every result of the owner that is not superseded belongs
to the current cycle.
-/
import TmuxAgents.Program.Authority

namespace TmuxAgents

/-- The callers' discipline, with the segment's episode as the mode: every command since
the last boundary is applied in that episode. -/
def StoreOp.InEpisode : Option LiveEpisode → StoreOp → Option LiveEpisode → Prop
  | cur, .apply _ _ episode, next => (cur = none ∨ cur = episode) ∧ episode ≠ none ∧ next = episode
  | _, .lifecycle _, next | _, .invalidateEpisode, next => next = none
  | cur, _, next => next = cur

theorem StoreOp.InEpisode.of_boundary {cur next : Option LiveEpisode} {op : StoreOp}
    (h : op.InEpisode cur next) (hb : op.isBoundary = true) : next = none := by
  cases op with
  | apply _ _ _ | markPresented _ _ | acknowledge _ | reconcileResult _ _ _ => cases hb
  | lifecycle event => exact h
  | invalidateEpisode => exact h

theorem StoreOp.InEpisode.of_presentation {cur next : Option LiveEpisode} {op : StoreOp}
    (h : op.InEpisode cur next) (hp : op.isPresentation = true) : next = cur := by
  cases op with
  | apply _ _ _ | lifecycle _ | invalidateEpisode => cases hp
  | markPresented _ _ | acknowledge _ | reconcileResult _ _ _ => exact h

namespace RecordStore

/-- A run in which every segment between boundaries has one episode. -/
abbrev EpisodeRun := Run.Guarded StoreOp.InEpisode

/-- The ownership pass would change nothing. -/
def Reconciled (s : RecordStore) (live : LiveEpisode) : Prop :=
  ∀ e ∈ s.records, e.owner = s.reconciledOwner live e

/-! ## One ownership pass is closed -/

section Settle

variable {s : RecordStore} {live : LiveEpisode} {wasActive : Bool} {reported : Reported}

theorem settle_records : (s.settle live wasActive reported).records =
    (s.reconcileOwnership live).records.map (StoredRecord.joinResult live
      ((s.reconcileOwnership live).startsCycle live wasActive reported)
      (s.settle live wasActive reported).cycle) := rfl

theorem settle_cycle : (s.settle live wasActive reported).cycle =
    if (s.reconcileOwnership live).startsCycle live wasActive reported then s.cycle + 1 else s.cycle := rfl

theorem effectiveApp_reconcileOwnership (id : RecordId) :
    (s.reconcileOwnership live).effectiveApp id = s.effectiveApp id :=
  effectiveApp_map (g := fun e => { e with owner := s.reconciledOwner live e }) rfl (fun _ => rfl) id

/-- An owner the pass gives is an owner the pass found: an anchor of the pass is below an
anchor of the store. -/
theorem hasAnchor_reconcileOwnership {id : RecordId} (h : (s.reconcileOwnership live).hasAnchor id live = true) :
    s.hasAnchor id live = true := by
  obtain ⟨e', he', hc, hobs, hh, ha⟩ := hasAnchor_iff.mp h
  obtain ⟨e, he, rfl⟩ := List.mem_map.mp he'
  rcases ha with howner | happ
  · obtain ⟨-, -, -, -, hanchor | hown⟩ :=
      reconciledOwner_some (show s.reconciledOwner live e = some live.owner from howner)
    · obtain ⟨a, ha, hca, hia⟩ := hasAnchor_iff.mp hanchor
      exact hasAnchor_iff.mpr ⟨a, ha, RecordId.contains_trans hca hc, hia⟩
    · exact hasAnchor_iff.mpr ⟨e, he, hc, hobs, hh, .inl hown⟩
  · exact hasAnchor_iff.mpr ⟨e, he, hc, hobs, hh, .inr happ⟩

theorem reconciled_reconcileOwnership : Reconciled (s.reconcileOwnership live) live := by
  intro e' he'
  obtain ⟨e, -, rfl⟩ := List.mem_map.mp he'
  change s.reconciledOwner live e = _
  by_cases hr : s.reconciledOwner live e = some live.owner
  · obtain ⟨-, hh, hobs, happ, -⟩ := reconciledOwner_some hr
    rw [hr]
    symm
    refine reconciledOwner_iff.mpr ⟨hh, hobs, ?_, .inr rfl⟩
    rw [effectiveApp_reconcileOwnership]
    exact happ
  · rw [reconciledOwner_eq_none hr]
    symm
    refine reconciledOwner_eq_none fun hr' => hr ?_
    obtain ⟨-, hh, hobs, happ, ha⟩ := reconciledOwner_some hr'
    rw [effectiveApp_reconcileOwnership] at happ
    refine reconciledOwner_iff.mpr ⟨hh, hobs, happ, ?_⟩
    rcases ha with ha | ha
    · exact .inl (hasAnchor_reconcileOwnership ha)
    · cases ha

theorem reconciled_settle : Reconciled (s.settle live wasActive reported) live := by
  intro e' he'
  rw [settle_records] at he'
  obtain ⟨e, he, rfl⟩ := List.mem_map.mp he'
  rw [reconciledOwner_map settle_records (keepsOwner_joinResult ..)]
  exact reconciled_reconcileOwnership e he

end Settle

/-- What joining a result does: supersede the owner's, adopt an anonymous one, or nothing. -/
theorem joinResult_cases {live : LiveEpisode} {starts : Bool} {cycle : WorkCycle} {e : StoredRecord}
    {m' : ResultMemory} (h : m' ∈ (e.joinResult live starts cycle).result) : ∃ m ∈ e.result,
      (m.owner = some live.owner ∧ starts = true ∧ m' = { m with superseded := true }) ∨
      (m.owner = none ∧ e.owner = some live.owner ∧ m' = { m with owner := some live.owner, cycle }) ∨
      (m' = m ∧ (m.owner = some live.owner → starts = false) ∧ (m.owner = none → e.owner ≠ some live.owner)) := by
  simp only [StoredRecord.joinResult, Option.mem_def, Option.map_eq_some_iff] at h
  obtain ⟨m, hm, rfl⟩ := h
  refine ⟨m, hm, ?_⟩
  by_cases h₁ : m.owner = some live.owner ∧ starts = true
  · exact .inl ⟨h₁.1, h₁.2, by simp [h₁.1, h₁.2]⟩
  have h₁' : (m.owner == some live.owner && starts) = false := by simpa using h₁
  rw [h₁']
  by_cases h₂ : m.owner = none ∧ e.owner = some live.owner
  · exact .inr (.inl ⟨h₂.1, h₂.2, by simp [h₂.1, h₂.2]⟩)
  · have h₂' : (m.owner == none && e.owner == some live.owner) = false := by simpa using h₂
    rw [h₂']
    exact .inr (.inr ⟨rfl, fun ho => by simpa [ho] using h₁, fun hn he => h₂ ⟨hn, he⟩⟩)

/-! ## What a one-episode run keeps -/

/-- The invariant of a one-episode run, with the segment's episode. -/
structure OneEpisode (cur : Option LiveEpisode) (s : RecordStore) : Prop where
  wf : WF s
  /-- What is not history was observed in the segment's episode. -/
  observed : ∀ e ∈ s.records, e.historical = false → ∃ live, cur = some live ∧ e.observedOwner = some live.owner
  reconciled : ∀ live, cur = none ∨ cur = some live → Reconciled s live
  /-- An owned result that nothing superseded belongs to the current cycle. -/
  current : ∀ e ∈ s.records, ∀ m ∈ e.result, m.owner ≠ none → m.superseded = false → m.cycle = s.cycle

theorem oneEpisode_new : OneEpisode none new :=
  ⟨wf_new, by simp [new], fun live _ => by simp [Reconciled, new], by simp [new]⟩

/-- Where no episode runs all is history, and any may begin. -/
theorem OneEpisode.begin {s : RecordStore} (h : OneEpisode none s) (cur : Option LiveEpisode) : OneEpisode cur s := by
  refine ⟨h.wf, fun e he hh => ?_, fun live _ => h.reconciled live (.inl rfl), h.current⟩
  obtain ⟨live, hnone, -⟩ := h.observed e he hh
  cases hnone

/-- After a boundary nothing is owned, so any episode may follow. -/
theorem oneEpisode_boundary {s : RecordStore} {op : StoreOp} (hwf : WF s) (hb : op.isBoundary = true) :
    OneEpisode none (s.step op) := by
  have hdisowned := disowned_of_isBoundary (s := s) hb
  have hwf' := wf_step hwf op
  refine ⟨hwf', fun e he hh => ?_, fun live _ e he => ?_, fun e he m hm ho _ => ?_⟩
  · rw [(hdisowned e he).2] at hh
    cases hh
  · rw [(hdisowned e he).1, reconciledOwner]
    simp [(hdisowned e he).2]
  · obtain ⟨o, ho⟩ := Option.ne_none_iff_exists'.mp ho
    have := ((hwf'.ok e he).resultOwner m hm o ho).2
    rw [(hdisowned e he).2] at this
    cases this

theorem OneEpisode.lifecycle {cur : Option LiveEpisode} {s : RecordStore} (h : OneEpisode cur s)
    (event : TerminalLifecycle) (next : Option LiveEpisode) : OneEpisode next (s.lifecycle event) := by
  have hboundary : OneEpisode none (s.step (.lifecycle event)) := oneEpisode_boundary h.wf rfl
  exact hboundary.begin next

theorem OneEpisode.invalidateEpisode {cur : Option LiveEpisode} {s : RecordStore} (h : OneEpisode cur s)
    (next : Option LiveEpisode) : OneEpisode next s.invalidateEpisode := by
  have hboundary : OneEpisode none (s.step .invalidateEpisode) := oneEpisode_boundary h.wf rfl
  exact hboundary.begin next

theorem OneEpisode.presentation {cur : Option LiveEpisode} {s : RecordStore} (h : OneEpisode cur s) {op : StoreOp}
    (hp : op.isPresentation = true) : OneEpisode cur (s.step op) := by
  have hwf := wf_step h.wf op
  obtain ⟨g, hg, hs⟩ := presentation_eq h.wf hp
  rw [hs] at hwf ⊢
  refine ⟨hwf, fun e' he' hh => ?_, fun live hl e' he' => ?_, fun e' he' m' hm' ho hsup => ?_⟩
  · obtain ⟨e, he, rfl⟩ := List.mem_map.mp he'
    rw [hg.observedOwner]
    exact h.observed e he (hg.historical e ▸ hh)
  · obtain ⟨e, he, rfl⟩ := List.mem_map.mp he'
    rw [hg.owner, reconciledOwner_map rfl hg.toKeepsOwner]
    exact h.reconciled live hl e he
  · obtain ⟨e, he, rfl⟩ := List.mem_map.mp he'
    obtain ⟨m, hm, hmo, hmc, hr⟩ := hg.result e m' hm'
    rw [hmc]
    refine h.current e he m hm (hmo ▸ ho) ?_
    by_contra hsup'
    rw [hr.superseded (by simpa using hsup')] at hsup
    cases hsup

/-- Before the episode half, an owned result that nothing superseded is still current. -/
theorem current_unsettled {cur : Option LiveEpisode} {s : RecordStore} (h : OneEpisode cur s)
    (command : ProgramCommand) (at_ : Nat) (episode : Option LiveEpisode) :
    ∀ e ∈ (s.unsettled command at_ episode).1.records, ∀ m ∈ e.result, m.owner ≠ none →
      m.superseded = false → m.cycle = s.cycle := by
  intro e he m hm ho hsup
  rcases mem_unsettled he with he | ⟨record, rfl, rfl⟩
  · exact h.current e he m hm ho hsup
  · rcases pushed_cases s record at_ episode with ⟨-, hr⟩ | ⟨old, hold, -, hr | ⟨-, hr⟩⟩
    · rw [hr m hm] at ho
      exact absurd rfl ho
    · exact h.current old (mem_lineage hold).1 m (hr ▸ hm) ho hsup
    · rw [hr m hm] at ho
      exact absurd rfl ho

theorem unsettled_cycle (s : RecordStore) (command : ProgramCommand) (at_ : Nat) (episode : Option LiveEpisode) :
    (s.unsettled command at_ episode).1.cycle = s.cycle := by
  cases command <;> simp [unsettled]

theorem OneEpisode.apply {cur : Option LiveEpisode} {s : RecordStore} (h : OneEpisode cur s)
    (command : ProgramCommand) (at_ : Nat) {live : LiveEpisode} (hl : cur = none ∨ cur = some live) :
    OneEpisode (some live) (s.apply command at_ (some live)) := by
  have hsegment : ∀ e ∈ s.records, e.historical = false → e.observedOwner = some live.owner := by
    intro e he hh
    obtain ⟨live', rfl, hobs⟩ := h.observed e he hh
    rcases hl with hl | hl
    · cases hl
    · rw [hobs, Option.some.inj hl]
  by_cases hq : command = .query
  · subst hq
    refine ⟨h.wf, fun e he hh => ⟨live, rfl, hsegment e he hh⟩, fun live' hl' => ?_, h.current⟩
    rcases hl' with hl' | hl'
    · cases hl'
    · rw [← Option.some.inj hl']
      exact h.reconciled live hl
  have hwf := h.wf.apply command at_ (some live)
  rw [apply_some hq] at hwf ⊢
  refine ⟨hwf, fun e' he' hh => ?_, fun live' hl' => ?_, fun e' he' m' hm' ho hsup => ?_⟩
  · obtain ⟨e, he, rfl⟩ := mem_settle he'
    refine ⟨live, rfl, ?_⟩
    rcases mem_unsettled he with he | ⟨record, rfl, rfl⟩
    · exact hsegment e he hh
    · rfl
  · rcases hl' with hl' | hl'
    · cases hl'
    · rw [← Option.some.inj hl']
      exact reconciled_settle
  · -- A result kept its owner in this segment: that owner is the segment's.
    have hown : ∀ o, m'.owner = some o → o = live.owner := by
      intro o ho
      obtain ⟨hobs, hh⟩ := (hwf.ok e' he').resultOwner m' hm' o ho
      obtain ⟨e, he, rfl⟩ := mem_settle he'
      rcases mem_unsettled he with he | ⟨record, rfl, rfl⟩
      · exact Option.some.inj (hobs.symm.trans (hsegment e he hh))
      · exact Option.some.inj (hobs.symm.trans rfl)
    have hcur := current_unsettled h command at_ (some live)
    rw [settle_records] at he'
    obtain ⟨e₁, he₁, rfl⟩ := List.mem_map.mp he'
    obtain ⟨e, he, rfl⟩ := List.mem_map.mp he₁
    rcases joinResult_cases hm' with ⟨m, hm, hcase⟩
    rcases hcase with ⟨-, -, rfl⟩ | ⟨-, -, rfl⟩ | ⟨rfl, hstarts, -⟩
    · cases hsup
    · rfl
    · obtain ⟨o, hoo⟩ := Option.ne_none_iff_exists'.mp ho
      rw [settle_cycle, hstarts (by rw [hoo, hown o hoo])]
      simp only [Bool.false_eq_true, if_false, unsettled_cycle]
      exact hcur e he m' hm ho hsup

theorem oneEpisode_step {cur next : Option LiveEpisode} {s : RecordStore} {op : StoreOp}
    (hop : op.InEpisode cur next) (h : OneEpisode cur s) : OneEpisode next (s.step op) := by
  by_cases hb : op.isBoundary = true
  · rw [hop.of_boundary hb]
    exact oneEpisode_boundary h.wf hb
  by_cases hp : op.isPresentation = true
  · rw [hop.of_presentation hp]
    exact h.presentation hp
  cases op with
  | lifecycle _ | invalidateEpisode => simp [StoreOp.isBoundary] at hb
  | markPresented _ _ | acknowledge _ | reconcileResult _ _ _ => simp [StoreOp.isPresentation] at hp
  | apply command at_ episode =>
    obtain ⟨hcur, hne, rfl⟩ := hop
    obtain ⟨live, rfl⟩ := Option.ne_none_iff_exists'.mp hne
    exact h.apply command at_ hcur

/-- Every store of a one-episode run. -/
theorem oneEpisode_run {cur : Option LiveEpisode} {ops : List StoreOp} (h : EpisodeRun none ops cur) :
    OneEpisode cur (new.run ops) :=
  h.invariant step OneEpisode (fun _ _ _ _ hop hs => oneEpisode_step hop hs) oneEpisode_new

end RecordStore

end TmuxAgents
