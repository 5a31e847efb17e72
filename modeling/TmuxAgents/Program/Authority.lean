/-
Where authority comes from: a record an episode may show was reported, or
has an ancestor that was reported, by that episode under one of its own app
names since the last boundary.

Ownership is inherited (through anchors, through the entry a report
continues, from stale owners), so the invariant speaks of both sources at
once: an owned entry and an explicitly matching entry are each anchored in
the history of the run.
-/
import TmuxAgents.Program.Eligibility

namespace TmuxAgents

namespace RecordStore

/-- Since the last boundary the episode reported, under an app of its own, a record that
contains `id`. -/
def Anchored (live : LiveEpisode) (ops : List StoreOp) (id : RecordId) : Prop :=
  ∃ before record at_ after, ops = before ++ .apply (.replace record) at_ (some live) :: after ∧
    record.app.any live.matches = true ∧ record.id.contains id = true ∧ ∀ op ∈ after, op.isBoundary = false

theorem Anchored.concat {live : LiveEpisode} {ops : List StoreOp} {id : RecordId} (h : Anchored live ops id)
    {op : StoreOp} (hop : op.isBoundary = false) : Anchored live (ops ++ [op]) id := by
  obtain ⟨before, record, at_, after, rfl, happ, hc, hafter⟩ := h
  refine ⟨before, record, at_, after ++ [op], by simp, happ, hc, fun op' hop' => ?_⟩
  rcases List.mem_append.mp hop' with h | h
  · exact hafter op' h
  · rw [List.mem_singleton.mp h]
    exact hop

theorem Anchored.contains {live : LiveEpisode} {ops : List StoreOp} {a b : RecordId} (h : Anchored live ops a)
    (hab : a.contains b = true) : Anchored live ops b := by
  obtain ⟨before, record, at_, after, rfl, happ, hc, hafter⟩ := h
  exact ⟨before, record, at_, after, rfl, happ, RecordId.contains_trans hc hab, hafter⟩

theorem anchored_report {live : LiveEpisode} (ops : List StoreOp) {record : Record} (at_ : Nat)
    (h : record.app.any live.matches = true) :
    Anchored live (ops ++ [.apply (.replace record) at_ (some live)]) record.id :=
  ⟨ops, record, at_, [], rfl, h, RecordId.contains_refl _, by simp⟩

/-- Every way an entry can lend ownership to the episode is anchored. -/
structure Provenance (live : LiveEpisode) (ops : List StoreOp) (s : RecordStore) : Prop where
  owned : ∀ e ∈ s.records, e.owner = some live.owner → Anchored live ops e.id
  explicit : ∀ e ∈ s.records, e.observedOwner = some live.owner → e.historical = false →
    e.record.app.any live.matches = true → Anchored live ops e.id

theorem Provenance.of_hasAnchor {live : LiveEpisode} {ops : List StoreOp} {s : RecordStore}
    (h : Provenance live ops s) {id : RecordId} (ha : s.hasAnchor id live = true) : Anchored live ops id := by
  obtain ⟨e, he, hc, hobs, hh, howner | happ⟩ := hasAnchor_iff.mp ha
  · exact (h.owned e he howner).contains hc
  · exact (h.explicit e he hobs hh happ).contains hc

/-- The ownership pass lends nothing that is not anchored. -/
theorem Provenance.settle {live live' : LiveEpisode} {ops : List StoreOp} {s : RecordStore}
    (h : Provenance live ops s) (hlive : live'.owner = live.owner → live' = live) (wasActive : Bool)
    (reported : Reported) : Provenance live ops (s.settle live' wasActive reported) := by
  refine ⟨fun e' he' howner => ?_, fun e' he' hobs hh happ => ?_⟩
  · obtain ⟨e, he, rfl⟩ := mem_settle he'
    obtain ⟨hl, -, -, -, ha⟩ := reconciledOwner_some (show s.reconciledOwner live' e = some live.owner from howner)
    obtain rfl := hlive hl.symm
    rcases ha with ha | ha
    · exact h.of_hasAnchor ha
    · exact h.owned e he ha
  · obtain ⟨e, he, rfl⟩ := mem_settle he'
    exact h.explicit e he hobs hh happ

/-- What a command writes before the ownership pass is anchored by the command itself, or
carried over. -/
theorem Provenance.unsettled {live : LiveEpisode} {ops : List StoreOp} {s : RecordStore}
    (h : Provenance live ops s) (command : ProgramCommand) (at_ : Nat) (episode : Option LiveEpisode)
    (hlive : ∀ live', episode = some live' → live'.owner = live.owner → live' = live) :
    Provenance live (ops ++ [.apply command at_ episode]) (s.unsettled command at_ episode).1 := by
  refine ⟨fun e he howner => ?_, fun e he hobs hh happ => ?_⟩
  · rcases mem_unsettled he with he | ⟨record, rfl, rfl⟩
    · exact (h.owned e he howner).concat rfl
    · rw [pushed_owner, Option.bind_eq_some_iff] at howner
      obtain ⟨old, hold, howner⟩ := howner
      obtain ⟨hmem, hid, -, -⟩ := mem_lineage hold
      have hold := (h.owned old hmem howner).concat (show
        (StoreOp.apply (.replace record) at_ episode).isBoundary = false from rfl)
      rwa [hid] at hold
  · rcases mem_unsettled he with he | ⟨record, rfl, rfl⟩
    · exact (h.explicit e he hobs hh happ).concat rfl
    · rw [pushed_observedOwner, Option.map_eq_some_iff] at hobs
      obtain ⟨live', rfl, hl⟩ := hobs
      obtain rfl := hlive live' rfl hl
      exact anchored_report ops at_ happ

theorem provenance_of_disowned {live : LiveEpisode} {ops : List StoreOp} {s : RecordStore}
    (h : ∀ e ∈ s.records, e.owner = none ∧ e.historical = true) : Provenance live ops s := by
  refine ⟨fun e he howner => ?_, fun e he _ hh _ => ?_⟩
  · rw [(h e he).1] at howner
    cases howner
  · rw [(h e he).2] at hh
    cases hh

/-- After a boundary everything kept is history, owned by nobody. -/
theorem disowned_of_isBoundary {s : RecordStore} {op : StoreOp} (hop : op.isBoundary = true) :
    ∀ e ∈ (s.step op).records, e.owner = none ∧ e.historical = true := by
  intro e' he'
  cases op with
  | apply _ _ _ | markPresented _ _ | acknowledge _ | reconcileResult _ _ _ => cases hop
  | lifecycle event =>
    cases event with
    | fullReset => cases he'
    | shellPrompt | attachedProcessExit =>
      obtain ⟨e, -, rfl⟩ := List.mem_map.mp he'
      exact ⟨rfl, rfl⟩
  | invalidateEpisode =>
    obtain ⟨e, -, rfl⟩ := List.mem_map.mp he'
    exact ⟨rfl, rfl⟩

/-- One call, for an episode whose apps never change. -/
theorem Provenance.step {live : LiveEpisode} {ops : List StoreOp} {s : RecordStore} (hwf : WF s)
    (h : Provenance live ops s) (op : StoreOp)
    (hlive : ∀ command at_ live', op = .apply command at_ (some live') → live'.owner = live.owner → live' = live) :
    Provenance live (ops ++ [op]) (s.step op) := by
  by_cases hb : op.isBoundary = true
  · exact provenance_of_disowned (disowned_of_isBoundary hb)
  by_cases hp : op.isPresentation = true
  · obtain ⟨g, hg, hs⟩ := presentation_eq hwf hp
    rw [hs]
    refine ⟨fun e' he' howner => ?_, fun e' he' hobs hh happ => ?_⟩
    · obtain ⟨e, he, rfl⟩ := List.mem_map.mp he'
      rw [hg.toKeepsOwner.id]
      exact (h.owned e he (hg.owner e ▸ howner)).concat (by simpa using hb)
    · obtain ⟨e, he, rfl⟩ := List.mem_map.mp he'
      rw [hg.toKeepsOwner.id]
      exact (h.explicit e he (hg.observedOwner e ▸ hobs) (hg.historical e ▸ hh)
        (hg.record e ▸ happ)).concat (by simpa using hb)
  cases op with
  | lifecycle _ | invalidateEpisode => simp [StoreOp.isBoundary] at hb
  | markPresented _ _ | acknowledge _ | reconcileResult _ _ _ => simp [StoreOp.isPresentation] at hp
  | apply command at_ episode =>
    have hu := h.unsettled command at_ episode fun live' he => hlive command at_ live' (by rw [he])
    change Provenance live _ (s.apply command at_ episode)
    cases episode with
    | none =>
      rw [apply_none]
      exact hu
    | some live' =>
      by_cases hq : command = .query
      · subst hq
        exact hu
      · rw [apply_some hq]
        exact hu.settle (hlive command at_ live' rfl) _ _

theorem provenance_run {live : LiveEpisode} (ops : List StoreOp)
    (h : ∀ command at_ live', StoreOp.apply command at_ (some live') ∈ ops → live'.owner = live.owner →
      live' = live) : Provenance live ops (new.run ops) := by
  induction ops using List.reverseRecOn with
  | nil => exact ⟨by simp [new], by simp [new]⟩
  | append_singleton ops op ih =>
    rw [run, Run.run_concat]
    refine (ih fun command at_ live' hm => h command at_ live' (by simp [hm])).step (wf_run ops) op ?_
    rintro command at_ live' rfl
    exact h command at_ live' (by simp)

/-- **Authority provenance.** Over any run in which the episode's apps never change, a
record it may show was reported, itself or an ancestor, by the episode under an app of
its own since the last boundary. -/
theorem select_has_provenance (ops : List StoreOp) (live : LiveEpisode)
    (h : ∀ command at_ live', StoreOp.apply command at_ (some live') ∈ ops → live'.owner = live.owner →
      live' = live) :
    ((∃ selection, (new.run ops).select live = some selection) ↔
      ∃ e ∈ (new.run ops).records, (new.run ops).eligible e live = true) ∧
    (∀ selection, (new.run ops).select live = some selection → Anchored live ops selection.recordId) ∧
    ∀ e ∈ (new.run ops).records, (new.run ops).eligible e live = true → Anchored live ops e.id := by
  have heligible : ∀ e ∈ (new.run ops).records, (new.run ops).eligible e live = true → Anchored live ops e.id :=
    fun e he hel => (provenance_run ops h).owned e he (eligible_iff.mp hel).2.1
  refine ⟨?_, fun selection hsel => ?_, heligible⟩
  · have hnone : (new.run ops).select live = none ↔ _ := select_eq_none
    cases hs : (new.run ops).select live with
    | none =>
      rw [hs] at hnone
      simpa using hnone.mp rfl
    | some selection =>
      obtain ⟨e, he, hel, -⟩ := select_some hs
      exact ⟨fun _ => ⟨e, he, hel⟩, fun _ => ⟨selection, rfl⟩⟩
  · obtain ⟨e, he, hel, -, -, hid, -⟩ := select_some hsel
    rw [hid]
    exact heligible e he hel

/-- The sample agent's own report, after a boundary, is where its selection comes from. -/
theorem select_has_provenance_sample :
    Anchored sampleLive [sampleReport .idle, .invalidateEpisode, sampleReport .done] .root :=
  (select_has_provenance [sampleReport .idle, .invalidateEpisode, sampleReport .done] sampleLive
    (by
      intro command at_ live' hm _
      simp only [sampleReport, List.mem_cons, StoreOp.apply.injEq, Option.some.injEq, List.not_mem_nil,
        or_false, reduceCtorEq, false_or] at hm
      rcases hm with ⟨-, -, rfl⟩ | ⟨-, -, rfl⟩ <;> rfl)).2.1
    (sampleSelection 2 2 0) (by decide)

end RecordStore

end TmuxAgents
