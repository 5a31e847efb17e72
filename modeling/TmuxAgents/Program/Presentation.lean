/-
A result is presented at most once.

A result's identity is its record and its generation, whoever owns it at the
time: `step_origin` keeps both, and a generation that is not an old entry's
is newer than every ordinal the store has given out. So what was accepted
under an identity stays presented for the rest of the run, across dialogs,
foreign replacements, cycles and boundaries, and `Run.firings_nodup` does
the rest.
-/
import TmuxAgents.Program.ProjectFacts

namespace TmuxAgents

namespace RecordStore

/-- The identity a call gets accepted for presentation: by `mark_presented`, or by
the `mark_presented` inside `reconcile_result`. -/
def accepts (s : RecordStore) : StoreOp → Option ResultIdentity
  | .markPresented selection live | .reconcileResult selection live _ =>
    if (s.markPresented selection live).1 then selection.result.map (·.identity) else none
  | _ => none

/-- The identity a call acknowledges. -/
def acknowledges (s : RecordStore) : StoreOp → Option ResultIdentity
  | .acknowledge identity => if (s.acknowledge identity).1 then some identity else none
  | .reconcileResult selection live .acknowledged =>
    if (s.reconcileResult selection live .acknowledged).1 then selection.result.map (·.identity) else none
  | _ => none

/-- Every result the store still holds under an identity satisfies `P`, and no later
report can start that generation over. -/
structure Spent (P : ResultMemory → Prop) (i : ResultIdentity) (s : RecordStore) : Prop where
  le : i.generation ≤ s.ordinal
  spent : ∀ e ∈ s.records, e.id = i.record → e.generation = i.generation → ∃ m ∈ e.result, P m

/-- What rises with a result stays spent. -/
theorem Spent.step {P : ResultMemory → Prop} (hP : ∀ m m', ResultMemory.Rises m m' → P m → P m')
    {i : ResultIdentity} {s : RecordStore} (h : Spent P i s) (op : StoreOp) : Spent P i (s.step op) := by
  refine ⟨h.le.trans (ordinal_le_step s op), fun e' he' hid hg => ?_⟩
  rcases step_origin he' with ⟨e, he, hc⟩ | hnew
  · obtain ⟨m, hm, hPm⟩ := h.spent e he (hc.id ▸ hid) (hc.generation ▸ hg)
    obtain ⟨m', hm', hr⟩ := hc.result m hm
    exact ⟨m', hm', hP m m' hr hPm⟩
  · rw [hg] at hnew
    exact absurd h.le (Nat.not_le.mpr hnew)

/-- An accepted presentation names an entry's fresh, unpresented result. -/
theorem accepts_pending {s : RecordStore} (h : WF s) {selection : ProgramSelection} {live : LiveEpisode}
    {effect : ProgramResult} (he : selection.pendingResult = some effect)
    (hp : s.presentable selection live = true) :
    ∃ e ∈ s.records, e.id = effect.identity.record ∧ e.generation = effect.identity.generation ∧
      ∃ m ∈ e.result, m.presented = false ∧ m.generation = effect.identity.generation ∧
        m.owner = some effect.identity.owner := by
  obtain ⟨-, -, current, hsel, -, -, r, hr, hpend, hi⟩ := presentable_some he hp
  obtain ⟨-, e, hmem, hel, -, -, m, hm, -, hri, -, hrp⟩ := select_result hsel hr
  have hgen := (h.ok e hmem).generation m hm
  have howner := h.joined e hmem m hm live.owner (eligible_iff.mp hel).2.1
  rw [hri] at hi
  refine ⟨e, hmem, by rw [← hi], by rw [← hi, hgen], m, hm, ?_, by rw [← hi], by rw [← hi, howner]⟩
  rw [hpend] at hrp
  simpa using hrp.symm

/-- An accepted presentation spends its identity. -/
theorem spent_markPresented {s : RecordStore} (h : WF s) {selection : ProgramSelection} {live : LiveEpisode}
    {i : ResultIdentity} (ha : (s.markPresented selection live).1 = true)
    (hi : selection.result.map (·.identity) = some i) :
    Spent (fun m => m.presented = true) i (s.markPresented selection live).2 := by
  rcases markPresented_cases s selection live with hm | ⟨effect, he, hp, hm⟩
  · simp [hm] at ha
  obtain ⟨hres, -⟩ := pendingResult_some he
  simp only [hres, Option.map_some, Option.some.injEq] at hi
  subst hi
  obtain ⟨e, hmem, hid, hg, m, hmres, -, hmg, hmo⟩ := accepts_pending h he hp
  rw [hm]
  refine ⟨hg ▸ (h.ok e hmem).generationLe, fun e' he' hid' hg' => ?_⟩
  obtain ⟨e₀, he₀, rfl⟩ := List.mem_map.mp he'
  -- The ids are distinct, so the entry that carries the identity is the one that was shown.
  have heq : e₀ = e := h.eq_of_id he₀ hmem (hid'.trans hid.symm)
  subst heq
  refine ⟨{ m with presented := true }, ?_, rfl⟩
  simp only [StoredRecord.present, Option.mem_def, Option.map_eq_some_iff]
  exact ⟨m, hmres, by simp [hmo, hid, hmg]⟩

/-- An accepted acknowledgement spends its identity for every selection. -/
theorem spent_acknowledge {s : RecordStore} (h : WF s) {i : ResultIdentity} (ha : (s.acknowledge i).1 = true) :
    Spent (fun m => m.acknowledged = true) i (s.acknowledge i).2 := by
  have hwf := h.acknowledge i
  rcases acknowledge_cases s i with hf | ⟨l₁, entry, l₂, hl, ⟨-, hid⟩, ⟨m, hm, hmg, -⟩, hf⟩
  · simp [hf] at ha
  have hentry : entry ∈ s.records := by simp [hl]
  have hg : entry.generation = i.generation := ((h.ok entry hentry).generation m hm).symm.trans hmg
  have hack : entry.acknowledge ∈ (s.acknowledge i).2.records := by simp [hf]
  refine ⟨?_, fun e' he' hid' _ => ?_⟩
  · rw [hf, ← hg]
    exact (h.ok entry hentry).generationLe
  · have heq : e' = entry.acknowledge := hwf.eq_of_id he' hack (hid'.trans hid.symm)
    subst heq
    exact ⟨{ m with acknowledged := true }, Option.map_eq_some_iff.mpr ⟨m, hm, rfl⟩, rfl⟩

theorem presented_rises (m m' : ResultMemory) (hr : ResultMemory.Rises m m') (h : m.presented = true) :
    m'.presented = true := hr.presented h

theorem acknowledged_rises (m m' : ResultMemory) (hr : ResultMemory.Rises m m') (h : m.acknowledged = true) :
    m'.acknowledged = true := hr.acknowledged h

theorem spent_of_accepts {s : RecordStore} (h : WF s) {op : StoreOp} {i : ResultIdentity}
    (ha : s.accepts op = some i) : Spent (fun m => m.presented = true) i (s.step op) := by
  cases op with
  | apply _ _ _ | lifecycle _ | invalidateEpisode | acknowledge _ => simp [accepts] at ha
  | markPresented selection live =>
    simp only [accepts, Option.ite_none_right_eq_some] at ha
    exact spent_markPresented h ha.1 ha.2
  | reconcileResult selection live disposition =>
    simp only [accepts, Option.ite_none_right_eq_some] at ha
    have hs := spent_markPresented h ha.1 ha.2
    rcases step_reconcileResult s selection live disposition with hr | ⟨identity, hr⟩
    · rw [hr]; exact hs
    · rw [hr]; exact hs.step presented_rises (.acknowledge identity)

theorem spent_of_acknowledges {s : RecordStore} (h : WF s) {op : StoreOp} {i : ResultIdentity}
    (ha : s.acknowledges op = some i) : Spent (fun m => m.acknowledged = true) i (s.step op) := by
  cases op with
  | apply _ _ _ | lifecycle _ | invalidateEpisode | markPresented _ _ => simp [acknowledges] at ha
  | acknowledge identity =>
    simp only [acknowledges, Option.ite_none_right_eq_some, Option.some.injEq] at ha
    obtain ⟨ha, rfl⟩ := ha
    exact spent_acknowledge h ha
  | reconcileResult selection live disposition =>
    cases disposition with
    | presented => simp [acknowledges] at ha
    | acknowledged =>
      simp only [acknowledges, Option.ite_none_right_eq_some, Option.map_eq_some_iff] at ha
      obtain ⟨ha, r, hr, rfl⟩ := ha
      have hwf := h.markPresented selection live
      simp only [step, reconcileResult] at ha ⊢
      rcases hm : s.markPresented selection live with ⟨_ | _, t⟩
      · simp [hm] at ha
      · simp only [hm, hr, Option.elim_some] at ha hwf ⊢
        exact spent_acknowledge hwf ha

/-- A selection's result is fresh, and under its identity the store holds that result. -/
theorem select_not_spent {P : ResultMemory → Prop} {i : ResultIdentity} {s : RecordStore} (h : WF s)
    (hs : Spent P i s) {live : LiveEpisode} {selection : ProgramSelection} {r : ProgramResult}
    (hsel : s.select live = some selection) (hr : selection.result = some r) (hi : r.identity = i) :
    ∃ m, P m ∧ m.acknowledged = false ∧ r.pending = !m.presented := by
  obtain ⟨-, e, he, -, -, -, m, hm, hfresh, hri, -, hrp⟩ := select_result hsel hr
  have hrec : e.id = i.record := by rw [← hi, hri]
  have hgen : e.generation = i.generation := by
    rw [← hi, hri]
    exact ((h.ok e he).generation m hm).symm
  obtain ⟨m', hm', hP⟩ := hs.spent e he hrec hgen
  obtain rfl : m = m' := Option.mem_unique hm hm'
  exact ⟨m, hP, (ResultMemory.fresh_iff.mp hfresh).1, hrp⟩

/-- A presented identity is not accepted again. -/
theorem not_accepts_of_spent {s : RecordStore} (h : WF s) {op : StoreOp} {i : ResultIdentity}
    (hs : Spent (fun m => m.presented = true) i s) : s.accepts op ≠ some i := by
  intro ha
  have hmark : ∀ (selection : ProgramSelection) (live : LiveEpisode),
      (s.markPresented selection live).1 = true → selection.result.map (·.identity) = some i → False := by
    intro selection live ha hi
    rcases markPresented_cases s selection live with hm | ⟨effect, he, hp, -⟩
    · simp [hm] at ha
    obtain ⟨hres, -⟩ := pendingResult_some he
    simp only [hres, Option.map_some, Option.some.injEq] at hi
    obtain ⟨e, hmem, hid, hg, m, hm, hfalse, -⟩ := accepts_pending h he hp
    obtain ⟨m', hm', htrue⟩ := hs.spent e hmem (hi ▸ hid) (hi ▸ hg)
    obtain rfl : m = m' := Option.mem_unique hm hm'
    simp [hfalse] at htrue
  cases op with
  | apply _ _ _ | lifecycle _ | invalidateEpisode | acknowledge _ => simp [accepts] at ha
  | markPresented selection live | reconcileResult selection live disposition =>
    simp only [accepts, Option.ite_none_right_eq_some] at ha
    exact hmark selection live ha.1 ha.2

/-- **At most once.** Over any run of a store, no identity is accepted for presentation
twice; once accepted, no selection for any episode shows it as pending again; once
acknowledged, no selection shows it at all. -/
theorem presented_at_most_once (ops : List StoreOp) :
    (Run.firings step accepts new ops).Nodup ∧
    (∀ i ∈ Run.firings step accepts new ops, ∀ live selection r,
      (new.run ops).select live = some selection → selection.result = some r → r.identity = i →
        r.pending = false) ∧
    (∀ i ∈ Run.firings step acknowledges new ops, ∀ live selection r,
      (new.run ops).select live = some selection → selection.result = some r → r.identity ≠ i) := by
  refine ⟨?_, fun i hi live selection r hsel hr hri => ?_, fun i hi live selection r hsel hr hri => ?_⟩
  · exact Run.firings_nodup WF (Spent fun m => m.presented = true) (fun _ op h => wf_step h op)
      (fun _ _ _ h ha => spent_of_accepts h ha) (fun _ op _ _ hs => hs.step presented_rises op)
      (fun _ _ _ h hs => not_accepts_of_spent h hs) wf_new ops
  · have hs := Run.spent_of_mem_firings WF (Spent fun m => m.presented = true) (fun _ op h => wf_step h op)
      (fun _ _ _ h ha => spent_of_accepts h ha) (fun _ op _ _ hs => hs.step presented_rises op) wf_new hi
    obtain ⟨m, hpresented, -, hpend⟩ := select_not_spent (wf_run ops) hs hsel hr hri
    simp [hpend, hpresented]
  · have hs := Run.spent_of_mem_firings WF (Spent fun m => m.acknowledged = true) (fun _ op h => wf_step h op)
      (fun _ _ _ h ha => spent_of_acknowledges h ha) (fun _ op _ _ hs => hs.step acknowledged_rises op) wf_new hi
    obtain ⟨m, hacked, hfresh, -⟩ := select_not_spent (wf_run ops) hs hsel hr hri
    simp [hfresh] at hacked

/-- The first completion is presented and acknowledged; the second one is another identity. -/
theorem presented_at_most_once_sample :
    (∀ r ∈ (({ sampleSelection 1 1 0 with
        result := some ⟨⟨1, .root, 1⟩, .completion, 0, false⟩ } : ProgramSelection)).result, r.pending = false) ∧
    ∀ r ∈ (sampleSelection 3 2 1).result, r.identity ≠ ⟨1, .root, 1⟩ := by
  refine ⟨fun r hr => ?_, fun r hr => ?_⟩
  · exact (presented_at_most_once [sampleReport .done, .markPresented (sampleSelection 1 1 0) sampleLive]).2.1
      ⟨1, .root, 1⟩ (by decide) sampleLive
      { sampleSelection 1 1 0 with result := some ⟨⟨1, .root, 1⟩, .completion, 0, false⟩ } r
      (by decide) hr (by cases hr; rfl)
  · exact (presented_at_most_once [sampleReport .done, .markPresented (sampleSelection 1 1 0) sampleLive,
      .acknowledge ⟨1, .root, 1⟩, sampleReport (.working none), sampleReport .done]).2.2
      ⟨1, .root, 1⟩ (by decide) sampleLive (sampleSelection 3 2 1) r (by decide) hr

end RecordStore

end TmuxAgents
