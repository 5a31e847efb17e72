/-
What ownership depends on. `effectiveApp` reads the records' ids and apps;
`hasAnchor`, `reconciledOwner` and `eligible` read, besides, who observed and
who owns each entry. None of them reads a result, so the calls that only
write results leave every one of them alone.
-/
import TmuxAgents.Program.ProjectFacts

namespace TmuxAgents

namespace RecordStore

/-! ## The nearest explicit app -/

theorem mem_explicit {s : RecordStore} {id : RecordId} {found : Nat × AppId} :
    found ∈ (s.records.filter fun entry => entry.id.contains id).filterMap
        (fun entry => entry.record.app.map fun app => (entry.id.str.length, app)) ↔
      ∃ e ∈ s.records, e.id.contains id = true ∧ e.record.app = some found.2 ∧ e.id.str.length = found.1 := by
  simp only [List.mem_filterMap, List.mem_filter, Option.map_eq_some_iff, and_assoc]
  constructor
  · rintro ⟨e, he, hc, app, ha, rfl⟩
    exact ⟨e, he, hc, ha, rfl⟩
  · rintro ⟨e, he, hc, ha, hl⟩
    exact ⟨e, he, hc, found.2, ha, by rw [hl]⟩

/-- The app found is that of an explicit ancestor, and no explicit ancestor is nearer. -/
theorem effectiveApp_some {s : RecordStore} {id : RecordId} {app : AppId} (h : s.effectiveApp id = some app) :
    ∃ e ∈ s.records, e.id.contains id = true ∧ e.record.app = some app ∧
      ∀ e' ∈ s.records, e'.id.contains id = true → e'.record.app ≠ none → e'.id.str.length ≤ e.id.str.length := by
  obtain ⟨⟨n, app'⟩, hmax, rfl⟩ := Option.map_eq_some_iff.mp h
  obtain ⟨e, he, hc, ha, hl⟩ := mem_explicit.mp (Choose.maxByKey_mem hmax)
  refine ⟨e, he, hc, ha, fun e' he' hc' ha' => ?_⟩
  obtain ⟨app'', ha''⟩ := Option.ne_none_iff_exists'.mp ha'
  have hle := Choose.maxByKey_le hmax (e'.id.str.length, app'') (mem_explicit.mpr ⟨e', he', hc', ha'', rfl⟩)
  simpa [hl] using hle

theorem effectiveApp_none {s : RecordStore} {id : RecordId} (h : s.effectiveApp id = none) :
    ∀ e ∈ s.records, e.id.contains id = true → e.record.app = none := by
  intro e he hc
  cases ha : e.record.app with
  | none => rfl
  | some app =>
    have hmem : (e.id.str.length, app) ∈ _ := mem_explicit.mpr ⟨e, he, hc, ha, rfl⟩
    simp only [effectiveApp, Option.map_eq_none_iff, Choose.maxByKey_eq_none] at h
    rw [h] at hmem
    cases hmem

/-- Ids are distinct, so the nearest explicit ancestor is the only one at its length. -/
theorem effectiveApp_of_nearest {s : RecordStore} (hids : (s.records.map StoredRecord.id).Nodup) {id : RecordId}
    {e : StoredRecord} {app : AppId} (he : e ∈ s.records) (hc : e.id.contains id = true)
    (ha : e.record.app = some app)
    (hnear : ∀ e' ∈ s.records, e'.id.contains id = true → e'.record.app ≠ none →
      e'.id.str.length ≤ e.id.str.length) : s.effectiveApp id = some app := by
  cases hx : s.effectiveApp id with
  | none =>
    have := effectiveApp_none hx e he hc
    simp [ha] at this
  | some app' =>
    obtain ⟨e', he', hc', ha', hnear'⟩ := effectiveApp_some hx
    have hlen : e'.id.str.length = e.id.str.length :=
      Nat.le_antisymm (hnear e' he' hc' (by simp [ha'])) (hnear' e he hc (by simp [ha]))
    have heq : e' = e := List.inj_on_of_nodup_map hids he' he (RecordId.contains_unique hc' hc hlen)
    rw [← ha', heq, ha]

/-- Only the ancestors' records matter. -/
theorem effectiveApp_congr {s s' : RecordStore} {id : RecordId}
    (h : (s'.records.filter fun entry => entry.id.contains id).map StoredRecord.record =
      (s.records.filter fun entry => entry.id.contains id).map StoredRecord.record) :
    s'.effectiveApp id = s.effectiveApp id := by
  have hshape : ∀ t : RecordStore, ((t.records.filter fun entry => entry.id.contains id).filterMap
      fun entry => entry.record.app.map fun app => (entry.id.str.length, app)) =
      ((t.records.filter fun entry => entry.id.contains id).map StoredRecord.record).filterMap
        fun record => record.app.map fun app => (record.id.str.length, app) := fun t => by
    rw [List.filterMap_map]
    rfl
  simp only [effectiveApp, hshape, h]

/-! ## Anchors -/

/-- A lineage anchor: an entry the episode reported, owned or explicitly its own. -/
def IsAnchor (live : LiveEpisode) (e : StoredRecord) : Prop :=
  e.observedOwner = some live.owner ∧ e.historical = false ∧
    (e.owner = some live.owner ∨ e.record.app.any live.matches = true)

theorem hasAnchor_iff {s : RecordStore} {id : RecordId} {live : LiveEpisode} :
    s.hasAnchor id live = true ↔ ∃ e ∈ s.records, e.id.contains id = true ∧ IsAnchor live e := by
  simp only [hasAnchor, IsAnchor, List.any_eq_true, Bool.and_eq_true, Bool.or_eq_true, beq_iff_eq,
    Bool.not_eq_true']
  constructor
  · rintro ⟨e, he, ⟨⟨ho, hh⟩, hc⟩, ha⟩
    exact ⟨e, he, hc, ho, hh, ha⟩
  · rintro ⟨e, he, hc, ho, hh, ha⟩
    exact ⟨e, he, ⟨⟨ho, hh⟩, hc⟩, ha⟩

/-- Who owns an entry after the ownership pass. -/
theorem reconciledOwner_iff {s : RecordStore} {live : LiveEpisode} {e : StoredRecord} :
    s.reconciledOwner live e = some live.owner ↔
      e.historical = false ∧ e.observedOwner = some live.owner ∧
        (s.effectiveApp e.id).all live.matches = true ∧
        (s.hasAnchor e.id live = true ∨ e.owner = some live.owner) := by
  constructor
  · exact fun h => (reconciledOwner_some h).2
  · rintro ⟨hh, ho, happ, ha⟩
    unfold reconciledOwner
    have hforeign : ((s.effectiveApp e.id).any fun app => !live.matches app) = false := by
      cases hx : s.effectiveApp e.id with
      | none => rfl
      | some app => simpa [hx] using happ
    simp only [hh, ho, hforeign, bne_self_eq_false, Bool.or_self, Bool.false_eq_true, if_false]
    rw [if_pos (by simpa using ha)]

theorem reconciledOwner_eq_none {s : RecordStore} {live : LiveEpisode} {e : StoredRecord}
    (h : s.reconciledOwner live e ≠ some live.owner) : s.reconciledOwner live e = none := by
  cases hr : s.reconciledOwner live e with
  | none => rfl
  | some o =>
    obtain ⟨rfl, -⟩ := reconciledOwner_some hr
    exact absurd hr h

/-! ## Rewriting results -/

section Map

variable {s s' : RecordStore} {g : StoredRecord → StoredRecord}

theorem effectiveApp_map (h : s'.records = s.records.map g) (hg : ∀ e, (g e).record = e.record) (id : RecordId) :
    s'.effectiveApp id = s.effectiveApp id := by
  refine effectiveApp_congr ?_
  have hp : ∀ e, (g e).id.contains id = e.id.contains id := fun e => by rw [StoredRecord.id, hg]
  rw [h, List.filter_map, List.map_map]
  refine (List.map_congr_left fun e _ => hg e).trans ?_
  congr 2
  exact funext hp

/-- The entry rewritten up to its result. -/
structure KeepsOwner (g : StoredRecord → StoredRecord) : Prop where
  record : ∀ e, (g e).record = e.record
  observedOwner : ∀ e, (g e).observedOwner = e.observedOwner
  historical : ∀ e, (g e).historical = e.historical
  owner : ∀ e, (g e).owner = e.owner

theorem KeepsOwner.id (hg : KeepsOwner g) (e : StoredRecord) : (g e).id = e.id := by
  rw [StoredRecord.id, hg.record]

theorem hasAnchor_map (h : s'.records = s.records.map g) (hg : KeepsOwner g) (id : RecordId)
    (live : LiveEpisode) : s'.hasAnchor id live = s.hasAnchor id live := by
  simp only [hasAnchor, h, List.any_map, Function.comp_def, hg.observedOwner, hg.historical, hg.owner, hg.id,
    hg.record]

theorem reconciledOwner_map (h : s'.records = s.records.map g) (hg : KeepsOwner g) (live : LiveEpisode)
    (e : StoredRecord) : s'.reconciledOwner live (g e) = s.reconciledOwner live e := by
  simp only [reconciledOwner, hg.historical, hg.observedOwner, hg.owner, hg.id,
    effectiveApp_map h hg.record, hasAnchor_map h hg]

theorem eligible_map (h : s'.records = s.records.map g) (hg : KeepsOwner g) (live : LiveEpisode)
    (e : StoredRecord) : s'.eligible (g e) live = s.eligible e live := by
  simp only [eligible, hg.historical, hg.owner, hg.id, effectiveApp_map h hg.record]

theorem hasActivity_map (h : s'.records = s.records.map g) (hg : KeepsOwner g) (live : LiveEpisode) :
    s'.hasActivity live = s.hasActivity live := by
  simp only [hasActivity, h, List.any_map, Function.comp_def, eligible_map h hg, hg.record]

end Map

theorem keepsOwner_joinResult (live : LiveEpisode) (starts : Bool) (cycle : WorkCycle) :
    KeepsOwner (StoredRecord.joinResult live starts cycle) := ⟨fun _ => rfl, fun _ => rfl, fun _ => rfl, fun _ => rfl⟩

/-! ## The presentation calls write results only -/

/-- What a presentation call does to an entry: it raises the result's flags. -/
structure Presents (g : StoredRecord → StoredRecord) : Prop extends KeepsOwner g where
  updated : ∀ e, (g e).updated = e.updated
  continues : ∀ e : StoredRecord, e.Continues (g e)
  result : ∀ e, ∀ m' ∈ (g e).result, ∃ m ∈ e.result, m'.owner = m.owner ∧ m'.cycle = m.cycle ∧
    ResultMemory.Rises m m'

theorem presents_refl : Presents fun e => e :=
  { record := fun _ => rfl, observedOwner := fun _ => rfl, historical := fun _ => rfl, owner := fun _ => rfl
    updated := fun _ => rfl, continues := .refl, result := fun _ m hm => ⟨m, hm, rfl, rfl, .refl m⟩ }

theorem Presents.comp {g₁ g₂ : StoredRecord → StoredRecord} (h₂ : Presents g₂) (h₁ : Presents g₁) :
    Presents (g₂ ∘ g₁) where
  record e := (h₂.record _).trans (h₁.record e)
  observedOwner e := (h₂.observedOwner _).trans (h₁.observedOwner e)
  historical e := (h₂.historical _).trans (h₁.historical e)
  owner e := (h₂.owner _).trans (h₁.owner e)
  updated e := (h₂.updated _).trans (h₁.updated e)
  continues e := (h₁.continues e).trans (h₂.continues _)
  result e m' hm' := by
    obtain ⟨m₁, hm₁, ho₁, hc₁, hr₁⟩ := h₂.result _ m' hm'
    obtain ⟨m, hm, ho, hc, hr⟩ := h₁.result e m₁ hm₁
    exact ⟨m, hm, ho₁.trans ho, hc₁.trans hc, hr.trans hr₁⟩

/-- Raising a result's flags, whatever decides which. -/
theorem presents_of_map {g : StoredRecord → StoredRecord} (f : StoredRecord → ResultMemory → ResultMemory)
    (hg : ∀ e, g e = { e with result := e.result.map (f e) })
    (hf : ∀ e m, (f e m).owner = m.owner ∧ (f e m).cycle = m.cycle ∧ ResultMemory.Rises m (f e m)) :
    Presents g where
  record e := by rw [hg]
  observedOwner e := by rw [hg]
  historical e := by rw [hg]
  owner e := by rw [hg]
  updated e := by rw [hg]
  continues e := StoredRecord.continues_of_map (f e) (by rw [hg]) (by rw [hg]) (by rw [hg]) fun m => (hf e m).2.2
  result e m' hm' := by
    rw [hg] at hm'
    obtain ⟨m, hm, rfl⟩ := Option.map_eq_some_iff.mp hm'
    exact ⟨m, hm, hf e m⟩

theorem presents_present (effect : ProgramResult) : Presents (StoredRecord.present effect) := by
  refine presents_of_map _ (fun _ => rfl) fun e m => ?_
  split
  · split
    · exact ⟨rfl, rfl, rfl, fun _ => rfl, fun h => h, fun h => h⟩
    · split
      · exact ⟨rfl, rfl, rfl, fun h => h, fun h => h, fun _ => rfl⟩
      · exact ⟨rfl, rfl, .refl m⟩
  · exact ⟨rfl, rfl, .refl m⟩

/-- In a store of distinct ids, what `acknowledge` rewrites. -/
def acknowledgeNamed (identity : ResultIdentity) (e : StoredRecord) : StoredRecord :=
  if e.id == identity.record then e.acknowledge else e

theorem presents_acknowledgeNamed (identity : ResultIdentity) : Presents (acknowledgeNamed identity) := by
  refine presents_of_map (fun e m => if e.id == identity.record then { m with acknowledged := true } else m)
    (fun e => ?_) fun e m => ?_
  · unfold acknowledgeNamed
    split <;> simp [StoredRecord.acknowledge]
  · split
    · exact ⟨rfl, rfl, rfl, fun h => h, fun _ => rfl, fun h => h⟩
    · exact ⟨rfl, rfl, .refl m⟩

theorem acknowledge_eq {s : RecordStore} (h : WF s) (identity : ResultIdentity) :
    s.acknowledge identity = (false, s) ∨
      (∃ e ∈ s.records, e.owner = some identity.owner ∧ e.id = identity.record ∧
        ∃ m ∈ e.result, m.generation = identity.generation ∧ m.presented = true) ∧
      s.acknowledge identity = (true, { s with records := s.records.map (acknowledgeNamed identity) }) := by
  rcases acknowledge_cases s identity with ha | ⟨l₁, e, l₂, hl, ⟨ho, hid⟩, hm, ha⟩
  · exact .inl ha
  refine .inr ⟨⟨e, by simp [hl], ho, hid, hm⟩, ?_⟩
  have hids := h.ids
  simp only [hl, List.map_append, List.map_cons, List.nodup_append, List.nodup_cons, List.mem_map,
    List.mem_cons] at hids
  have hother : ∀ l : List StoredRecord, (∀ x ∈ l, x.id ≠ e.id) → l.map (acknowledgeNamed identity) = l := by
    intro l hl
    refine List.map_congr_left (g := id) (fun x hx => ?_) |>.trans (List.map_id l)
    have : (x.id == identity.record) = false := by
      rw [← hid]
      simpa using hl x hx
    simp [acknowledgeNamed, this]
  have h₁ := hother l₁ fun x hx heq => hids.2.2 _ ⟨x, hx, rfl⟩ _ (.inl rfl) heq
  have h₂ := hother l₂ fun x hx heq => hids.2.1.1 ⟨x, hx, heq⟩
  have he : acknowledgeNamed identity e = e.acknowledge := by simp [acknowledgeNamed, hid]
  rw [ha, hl, List.map_append, List.map_cons, h₁, h₂, he]

/-- A presentation call rewrites the results, or nothing. -/
theorem presentation_eq {s : RecordStore} (h : WF s) {op : StoreOp} (hop : op.isPresentation = true) :
    ∃ g, Presents g ∧ s.step op = { s with records := s.records.map g } := by
  have hmark : ∀ (selection : ProgramSelection) (live : LiveEpisode), ∃ g, Presents g ∧
      s.step (.markPresented selection live) = { s with records := s.records.map g } := by
    intro selection live
    rcases markPresented_cases s selection live with hm | ⟨effect, -, -, hm⟩
    · exact ⟨_, presents_refl, by simp [step, hm]⟩
    · exact ⟨_, presents_present effect, by simp [step, hm]⟩
  have hack : ∀ {t : RecordStore}, WF t → ∀ identity, ∃ g, Presents g ∧
      t.step (.acknowledge identity) = { t with records := t.records.map g } := by
    intro t ht identity
    rcases acknowledge_eq ht identity with ha | ⟨-, ha⟩
    · exact ⟨_, presents_refl, by simp [step, ha]⟩
    · exact ⟨_, presents_acknowledgeNamed identity, by simp [step, ha]⟩
  cases op with
  | apply _ _ _ | lifecycle _ | invalidateEpisode => cases hop
  | markPresented selection live => exact hmark selection live
  | acknowledge identity => exact hack h identity
  | reconcileResult selection live disposition =>
    rcases step_reconcileResult s selection live disposition with hr | ⟨identity, hr⟩
    · rw [hr]
      exact hmark selection live
    · obtain ⟨g₁, hg₁, h₁⟩ := hmark selection live
      obtain ⟨g₂, hg₂, h₂⟩ := hack (wf_step h (.markPresented selection live)) identity
      refine ⟨g₂ ∘ g₁, hg₂.comp hg₁, ?_⟩
      rw [hr, h₂, h₁, List.map_map]

/-! ## The same ancestors -/

/-- Two stores that agree on the ancestors of an id. -/
def SameAncestors (s t : RecordStore) (id : RecordId) : Prop :=
  ∀ x : StoredRecord, x.id.contains id = true → (x ∈ t.records ↔ x ∈ s.records)

section SameAncestors

variable {s t : RecordStore} {id : RecordId}

theorem effectiveApp_of_sameAncestors (hs : (s.records.map StoredRecord.id).Nodup) (h : SameAncestors s t id) :
    t.effectiveApp id = s.effectiveApp id := by
  cases hx : t.effectiveApp id with
  | none =>
    cases hy : s.effectiveApp id with
    | none => rfl
    | some app =>
      obtain ⟨e, he, hc, ha, -⟩ := effectiveApp_some hy
      have := effectiveApp_none hx e ((h e hc).mpr he) hc
      simp [ha] at this
  | some app =>
    obtain ⟨e, he, hc, ha, hnear⟩ := effectiveApp_some hx
    exact (effectiveApp_of_nearest hs ((h e hc).mp he) hc ha
      fun e' he' hc' => hnear e' ((h e' hc').mpr he') hc').symm

theorem hasAnchor_of_sameAncestors (h : SameAncestors s t id) (live : LiveEpisode) :
    t.hasAnchor id live = s.hasAnchor id live := by
  rw [Bool.eq_iff_iff, hasAnchor_iff, hasAnchor_iff]
  constructor
  · rintro ⟨e, he, hc, ha⟩
    exact ⟨e, (h e hc).mp he, hc, ha⟩
  · rintro ⟨e, he, hc, ha⟩
    exact ⟨e, (h e hc).mpr he, hc, ha⟩

theorem reconciledOwner_of_sameAncestors {e : StoredRecord} (hs : (s.records.map StoredRecord.id).Nodup)
    (h : SameAncestors s t e.id) (live : LiveEpisode) : t.reconciledOwner live e = s.reconciledOwner live e := by
  simp only [reconciledOwner, effectiveApp_of_sameAncestors hs h, hasAnchor_of_sameAncestors h]

theorem eligible_of_sameAncestors {e : StoredRecord} (hs : (s.records.map StoredRecord.id).Nodup)
    (h : SameAncestors s t e.id) (live : LiveEpisode) : t.eligible e live = s.eligible e live := by
  simp only [eligible, effectiveApp_of_sameAncestors hs h]

end SameAncestors

end RecordStore

end TmuxAgents
