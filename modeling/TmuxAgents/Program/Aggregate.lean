/-
Settling an aggregate: presenting one result of a settled episode retires
every other, so acknowledging it leaves nothing to show.

`markPresented` supersedes by cycle, and takes the cycle from the selection
it was handed, which may be older than the store. `Issued` follows a selection
from the `select` that made it: as long as its entry is neither replaced nor
disowned, the cycle it carries is the cycle of the result it shows. In a
one-episode run that is the current cycle, and no result of the owner has a
later one.
-/
import TmuxAgents.Program.Episode

namespace TmuxAgents

namespace RecordStore

/-! ## A selection and the result it was made of -/

/-- The selection's entry, while it is the entry the selection was made of, is history or
still has the result shown, in its cycle. -/
structure Issued (selection : ProgramSelection) (s : RecordStore) : Prop where
  updatedLe : selection.updated ≤ s.ordinal
  result : ∀ e ∈ s.records, e.id = selection.recordId → e.updated = selection.updated → e.historical = false →
    ∀ m ∈ e.result, ∀ r ∈ selection.result, m.owner ≠ none ∧ m.cycle = r.cycle

theorem issued_of_select {s : RecordStore} (h : WF s) {live : LiveEpisode} {selection : ProgramSelection}
    (hsel : s.select live = some selection) : Issued selection s := by
  obtain ⟨e, he, hel, -, -, hid, hupd, -⟩ := select_some hsel
  refine ⟨hupd ▸ (h.ok e he).updatedLe, fun e' he' hid' _ _ m hm r hr => ?_⟩
  have heq : e' = e := h.eq_of_id he' he (hid'.trans hid)
  subst heq
  obtain ⟨-, e₁, he₁, -, hid₁, -, m₁, hm₁, -, -, hc, -⟩ := select_result hsel hr
  have heq₁ : e₁ = e' := h.eq_of_id he₁ he' (hid₁.symm.trans hid)
  subst heq₁
  obtain rfl : m = m₁ := Option.mem_unique hm hm₁
  exact ⟨by rw [h.joined e₁ he' m hm live.owner (eligible_iff.mp hel).2.1]; simp, hc.symm⟩

theorem Issued.apply {selection : ProgramSelection} {s : RecordStore} (h : Issued selection s)
    (command : ProgramCommand) (at_ : Nat) (episode : Option LiveEpisode) :
    Issued selection (s.apply command at_ episode) := by
  have hle := h.updatedLe
  refine ⟨hle.trans (ordinal_le_step s (.apply command at_ episode)), fun e' he' hid hupd hh m' hm' r hr => ?_⟩
  -- A pushed entry is newer than every selection; an old one kept its result's owner and cycle.
  have hold : ∀ e ∈ (s.unsettled command at_ episode).1.records, e.id = selection.recordId →
      e.updated = selection.updated → e.historical = false → ∀ m ∈ e.result, m.owner ≠ none ∧ m.cycle = r.cycle := by
    intro e he hid hupd hh m hm
    rcases mem_unsettled he with he | ⟨record, rfl, rfl⟩
    · exact h.result e he hid hupd hh m hm r hr
    · rw [pushed_updated] at hupd
      omega
  cases episode with
  | none =>
    rw [apply_none] at he'
    exact hold e' he' hid hupd hh m' hm'
  | some live =>
    by_cases hq : command = .query
    · subst hq
      exact h.result e' he' hid hupd hh m' hm' r hr
    · rw [apply_some hq] at he'
      obtain ⟨e, he, rfl⟩ := mem_settle he'
      obtain ⟨m, hm, ⟨-, -, rfl⟩ | ⟨hnone, -, -⟩ | ⟨rfl, -⟩⟩ := joinResult_cases hm'
      · exact hold e he hid hupd hh m hm
      · exact absurd hnone (hold e he hid hupd hh m hm).1
      · exact hold e he hid hupd hh m' hm

theorem Issued.step {selection : ProgramSelection} {s : RecordStore} (hwf : WF s) (h : Issued selection s)
    (op : StoreOp) : Issued selection (s.step op) := by
  by_cases hb : op.isBoundary = true
  · refine ⟨h.updatedLe.trans (ordinal_le_step s op), fun e' he' _ _ hh => ?_⟩
    rw [(disowned_of_isBoundary hb e' he').2] at hh
    cases hh
  by_cases hp : op.isPresentation = true
  · obtain ⟨g, hg, hs⟩ := presentation_eq hwf hp
    rw [hs]
    refine ⟨h.updatedLe, fun e' he' hid hupd hh m' hm' r hr => ?_⟩
    obtain ⟨e, he, rfl⟩ := List.mem_map.mp he'
    obtain ⟨m, hm, hmo, hmc, -⟩ := hg.result e m' hm'
    rw [hmo, hmc]
    exact h.result e he (hg.toKeepsOwner.id e ▸ hid) (hg.updated e ▸ hupd) (hg.historical e ▸ hh) m hm r hr
  cases op with
  | lifecycle _ | invalidateEpisode => simp [StoreOp.isBoundary] at hb
  | markPresented _ _ | acknowledge _ | reconcileResult _ _ _ => simp [StoreOp.isPresentation] at hp
  | apply command at_ episode => exact h.apply command at_ episode

theorem Issued.run {selection : ProgramSelection} {s : RecordStore} (hwf : WF s) (h : Issued selection s)
    (ops : List StoreOp) : Issued selection (s.run ops) :=
  (Run.invariant RecordStore.step (fun s => WF s ∧ Issued selection s) (fun _ op h => ⟨wf_step h.1 op, h.2.step h.1 op⟩)
    ⟨hwf, h⟩ ops).2

/-! ## Presenting retires the rest -/

/-- Every result of the owner is superseded, but the presented one `identity` names. -/
def Retired (s : RecordStore) (identity : ResultIdentity) : Prop :=
  ∀ e ∈ s.records, ∀ m ∈ e.result, m.owner = some identity.owner →
    m.superseded = true ∨ e.id = identity.record ∧ m.generation = identity.generation ∧ m.presented = true

/-- An accepted presentation of a selection of this run retires every other result. -/
theorem retired_markPresented {cur : Option LiveEpisode} {s : RecordStore} (h : OneEpisode cur s)
    {selection : ProgramSelection} (hi : Issued selection s) {live : LiveEpisode}
    (ha : (s.markPresented selection live).1 = true) :
    ∃ r ∈ selection.result, r.identity.owner = live.owner ∧ Retired (s.markPresented selection live).2 r.identity ∧
      ∃ e ∈ (s.markPresented selection live).2.records, e.owner = some r.identity.owner ∧
        e.id = r.identity.record ∧ ∃ m ∈ e.result, m.generation = r.identity.generation ∧ m.presented = true := by
  rcases markPresented_cases s selection live with hm | ⟨effect, he, hp, hm⟩
  · simp [hm] at ha
  obtain ⟨hres, -⟩ := pendingResult_some he
  obtain ⟨-, -, current, hsel, hid, hupd, r, hr, -, hri⟩ := presentable_some he hp
  obtain ⟨-, e, hmem, hel, hcid, hcupd, m, hmres, hfresh, hident, -, -⟩ := select_result hsel hr
  obtain ⟨hh, howner, -⟩ := eligible_iff.mp hel
  have hmo := h.wf.joined e hmem m hmres live.owner howner
  have heff : effect.identity = ⟨live.owner, e.id, m.generation⟩ := hri.symm.trans hident
  have hcycle : effect.cycle = s.cycle := by
    have hissued := hi.result e hmem (hcid.symm.trans hid) (hcupd.symm.trans hupd) hh m hmres effect hres
    rw [← hissued.2]
    exact h.current e hmem m hmres hissued.1 (ResultMemory.fresh_iff.mp hfresh).2
  refine ⟨effect, hres, by rw [heff], ?_, ?_⟩
  · rw [hm]
    intro e' he' m' hm' hmo'
    obtain ⟨e₀, he₀, rfl⟩ := List.mem_map.mp he'
    simp only [StoredRecord.present, Option.mem_def, Option.map_eq_some_iff] at hm'
    obtain ⟨m₀, hm₀, rfl⟩ := hm'
    have hmo₀ : m₀.owner = some effect.identity.owner := by
      revert hmo'
      split
      · split
        · exact fun h => h
        · split <;> exact fun h => h
      · exact fun h => h
    rw [if_pos (by simpa using hmo₀)]
    by_cases hnamed : (e₀.id == effect.identity.record && m₀.generation == effect.identity.generation) = true
    · rw [if_pos hnamed]
      simp only [Bool.and_eq_true, beq_iff_eq] at hnamed
      exact .inr ⟨hnamed.1, hnamed.2, rfl⟩
    · rw [if_neg hnamed]
      cases hsup : m₀.superseded with
      | true =>
        left
        split
        · rfl
        · exact hsup
      | false =>
        have hcur := h.current e₀ he₀ m₀ hm₀ (by rw [hmo₀]; simp) hsup
        rw [if_pos (by rw [hcur, hcycle])]
        exact .inl rfl
  · rw [hm]
    refine ⟨e.present effect, List.mem_map_of_mem hmem, by rw [heff]; exact howner, by rw [heff]; rfl,
      { m with presented := true }, ?_, by rw [heff], rfl⟩
    simp only [StoredRecord.present, Option.mem_def, Option.map_eq_some_iff]
    exact ⟨m, hmres, by simp [hmo, heff]⟩

/-- An entry that is presented under an identity is acknowledged under it. -/
theorem acknowledge_presented {s : RecordStore} (h : WF s) {identity : ResultIdentity} {e : StoredRecord}
    (he : e ∈ s.records) (ho : e.owner = some identity.owner) (hid : e.id = identity.record)
    (hm : ∃ m ∈ e.result, m.generation = identity.generation ∧ m.presented = true) :
    s.acknowledge identity = (true, { s with records := s.records.map (acknowledgeNamed identity) }) := by
  rcases acknowledge_eq h identity with ha | ⟨-, ha⟩
  · exfalso
    simp only [acknowledge] at ha
    split at ha
    · rename_i hnone
      have := List.find?_eq_none.mp hnone e he
      simp [ho, hid] at this
    · rename_i entry hfind
      have hentry : entry = e := by
        refine h.eq_of_id (List.mem_of_find?_eq_some hfind) he ?_
        have hnamed := List.find?_some hfind
        simp only [Bool.and_eq_true, beq_iff_eq] at hnamed
        exact hnamed.2.trans hid.symm
      subst hentry
      obtain ⟨m, hm, hg, hp⟩ := hm
      rw [if_pos (by rw [Option.any_eq_true]; exact ⟨m, hm, by simp [hg, hp]⟩)] at ha
      simp at ha
  · exact ha

/-! ## Nothing left to show -/

/-- No result of the owner's entries can be shown. -/
def Settled (live : LiveEpisode) (s : RecordStore) : Prop :=
  ∀ e ∈ s.records, e.owner = some live.owner → ∀ m ∈ e.result, m.fresh = false

theorem Settled.select {live : LiveEpisode} {s : RecordStore} (h : Settled live s) {selection : ProgramSelection}
    (hsel : s.select live = some selection) : selection.result = none := by
  cases hr : selection.result with
  | none => rfl
  | some r =>
    obtain ⟨-, e, he, hel, -, -, m, hm, hfresh, -⟩ := select_result hsel hr
    rw [h e he (eligible_iff.mp hel).2.1 m hm] at hfresh
    cases hfresh

/-- Only a command makes a result the owner may show. -/
theorem Settled.step {live : LiveEpisode} {s : RecordStore} (hwf : WF s) (h : Settled live s) {op : StoreOp}
    (hop : op.isBoundary = true ∨ op.isPresentation = true) : Settled live (s.step op) := by
  intro e' he' ho m' hm'
  rcases hop with hb | hp
  · rw [(disowned_of_isBoundary hb e' he').1] at ho
    cases ho
  · obtain ⟨g, hg, hs⟩ := presentation_eq hwf hp
    rw [hs] at he'
    obtain ⟨e, he, rfl⟩ := List.mem_map.mp he'
    obtain ⟨m, hm, -, -, hr⟩ := hg.result e m' hm'
    have hold := h e he (hg.owner e ▸ ho) m hm
    have hack := hr.acknowledged
    have hsup := hr.superseded
    cases ha : m.acknowledged <;> cases hsu : m.superseded <;> simp_all [ResultMemory.fresh]

theorem Settled.run {live : LiveEpisode} {s : RecordStore} (hwf : WF s) (h : Settled live s) {ops : List StoreOp}
    (hops : ∀ op ∈ ops, op.isBoundary = true ∨ op.isPresentation = true) : Settled live (s.run ops) := by
  induction ops generalizing s with
  | nil => exact h
  | cons op ops ih =>
    exact ih (wf_step hwf op) (h.step hwf (hops op List.mem_cons_self)) fun op' hm => hops op' (List.mem_cons_of_mem _ hm)

theorem settled_acknowledge {s : RecordStore} (h : WF s) {identity : ResultIdentity} {live : LiveEpisode}
    (hl : identity.owner = live.owner) (hret : Retired s identity) :
    Settled live { s with records := s.records.map (acknowledgeNamed identity) } := by
  intro e' he' ho m' hm'
  obtain ⟨e, he, rfl⟩ := List.mem_map.mp he'
  have howner : e.owner = some live.owner := ((presents_acknowledgeNamed identity).owner e).symm.trans ho
  unfold acknowledgeNamed at hm'
  split at hm'
  · obtain ⟨m, hm, rfl⟩ := Option.map_eq_some_iff.mp hm'
    simp [ResultMemory.fresh]
  · rename_i hne
    rcases hret e he m' hm' (by rw [hl]; exact h.joined e he m' hm' live.owner howner) with hsup | ⟨hid, -, -⟩
    · simp [ResultMemory.fresh, hsup]
    · exact absurd (by simpa using hid) hne

/-- **Settling an aggregate.** In a one-episode run, when `mark_presented` accepts a selection
of the run it retires every other result of the owner; acknowledging the identity then
succeeds, and until a later command no selection for the episode shows a result.
`reconcile_result` with an acknowledgement does both or nothing. -/
theorem presentation_settles {before after : List StoreOp} {cur₀ cur : Option LiveEpisode}
    {live₀ : LiveEpisode} {selection : ProgramSelection} (hbefore : EpisodeRun none before cur₀)
    (hselect : (new.run before).select live₀ = some selection) (hafter : EpisodeRun cur₀ after cur)
    (live : LiveEpisode) :
    let s := new.run (before ++ after)
    let presented := (s.markPresented selection live).2
    ((s.markPresented selection live).1 = true → ∃ r ∈ selection.result, Retired presented r.identity ∧
      (presented.acknowledge r.identity).1 = true ∧
      ∀ later, (∀ op ∈ later, op.isBoundary = true ∨ op.isPresentation = true) → ∀ shown,
        ((presented.acknowledge r.identity).2.run later).select live = some shown → shown.result = none) ∧
    (s.reconcileResult selection live .acknowledged = (false, s) ∨
      (s.markPresented selection live).1 = true ∧ ∃ r ∈ selection.result,
        s.reconcileResult selection live .acknowledged = (true, (presented.acknowledge r.identity).2)) := by
  intro s presented
  have hone : OneEpisode cur s := oneEpisode_run (hbefore.append hafter)
  have hissued : Issued selection s := by
    have := (issued_of_select (wf_run before) hselect).run (wf_run before) after
    rwa [run, ← Run.run_append] at this
  have hsettle : (s.markPresented selection live).1 = true → ∃ r ∈ selection.result,
      Retired presented r.identity ∧ (presented.acknowledge r.identity).1 = true ∧
        Settled live (presented.acknowledge r.identity).2 := by
    intro ha
    obtain ⟨r, hr, hlive, hret, e, he, ho, hid, hm⟩ := retired_markPresented hone hissued ha
    have hwf : WF presented := hone.wf.markPresented selection live
    have hack := acknowledge_presented hwf he ho hid hm
    refine ⟨r, hr, hret, by rw [hack], ?_⟩
    rw [hack]
    exact settled_acknowledge hwf hlive hret
  refine ⟨fun ha => ?_, ?_⟩
  · obtain ⟨r, hr, hret, hack, hsettled⟩ := hsettle ha
    have hwf : WF (presented.acknowledge r.identity).2 := (hone.wf.markPresented selection live).acknowledge _
    exact ⟨r, hr, hret, hack, fun later hlater shown hshown => (hsettled.run hwf hlater).select hshown⟩
  · cases ha : (s.markPresented selection live).1 with
    | false =>
      left
      rcases markPresented_cases s selection live with hm | ⟨effect, -, -, hm⟩
      · simp only [reconcileResult, hm]
      · simp [hm] at ha
    | true =>
      right
      obtain ⟨r, hr, -, hack, -⟩ := hsettle ha
      refine ⟨rfl, r, hr, ?_⟩
      have hpair : s.markPresented selection live = (true, presented) := Prod.ext ha rfl
      simp only [reconcileResult, hpair, show selection.result = some r from hr, Option.elim_some]
      exact Prod.ext hack rfl

/-- The sample agent's completion, shown and then presented. -/
theorem presentation_settles_sample :
    let s := new.run [sampleReport .done]
    let presented := (s.markPresented (sampleSelection 1 1 0) sampleLive).2
    ∃ r ∈ (sampleSelection 1 1 0).result, Retired presented r.identity ∧
      (presented.acknowledge r.identity).1 = true ∧
      ∀ later, (∀ op ∈ later, op.isBoundary = true ∨ op.isPresentation = true) → ∀ shown,
        ((presented.acknowledge r.identity).2.run later).select sampleLive = some shown → shown.result = none :=
  (presentation_settles (.cons ⟨.inl rfl, by simp, rfl⟩ (.nil _) : EpisodeRun none [sampleReport .done] (some sampleLive))
    (show (new.run [sampleReport .done]).select sampleLive = some (sampleSelection 1 1 0) by decide)
    (.nil _) sampleLive).1 (by decide)

end RecordStore

end TmuxAgents
