/-
The shape of every reachable store (`WF`): ids are distinct, an owner is the
episode its entry was reported in, and an owned entry's result belongs to the
same owner.

`Ok` and `Joined` speak of one entry, so each call is one lemma about the
entry it writes. `WF.step` puts them together.
-/
import TmuxAgents.Program.StoreFacts

namespace TmuxAgents

namespace RecordStore

/-- An owner, of an entry or of its result, is the episode the entry was reported in,
never one from before a boundary. A result has its entry's generation. -/
structure Ok (ordinal : Nat) (e : StoredRecord) : Prop where
  owner : ∀ o, e.owner = some o → e.observedOwner = some o ∧ e.historical = false
  resultOwner : ∀ m ∈ e.result, ∀ o, m.owner = some o → e.observedOwner = some o ∧ e.historical = false
  generation : ∀ m ∈ e.result, m.generation = e.generation
  generationLe : e.generation ≤ ordinal
  updatedLe : e.updated ≤ ordinal

/-- An owned entry's result belongs to the entry's owner. -/
def Joined (e : StoredRecord) : Prop := ∀ m ∈ e.result, ∀ o, e.owner = some o → m.owner = some o

structure WF (s : RecordStore) : Prop where
  ids : (s.records.map StoredRecord.id).Nodup
  ok : ∀ e ∈ s.records, Ok s.ordinal e
  joined : ∀ e ∈ s.records, Joined e

theorem Ok.mono {n n' : Nat} {e : StoredRecord} (h : Ok n e) (hn : n ≤ n') : Ok n' e :=
  ⟨h.owner, h.resultOwner, h.generation, h.generationLe.trans hn, h.updatedLe.trans hn⟩

theorem wf_new : WF new := ⟨by simp [new], by simp [new], by simp [new]⟩

theorem Ok.pushed {s : RecordStore} (h : ∀ e ∈ s.records, Ok s.ordinal e) (record : Record) (at_ : Nat)
    (episode : Option LiveEpisode) : Ok (s.ordinal + 1) (s.pushed record at_ episode) := by
  have hlineage : ∀ old ∈ s.lineage record.id (episode.map (·.owner)),
      Ok s.ordinal old ∧ old.observedOwner = episode.map (·.owner) := fun old ho => by
    obtain ⟨hm, -, hobs, -⟩ := mem_lineage ho
    exact ⟨h old hm, hobs⟩
  refine ⟨fun o ho => ?_, fun m hm o ho => ?_, fun m hm => ?_, ?_, by simp⟩
  · rw [pushed_owner, Option.bind_eq_some_iff] at ho
    obtain ⟨old, hold, ho⟩ := ho
    obtain ⟨hok, hobs⟩ := hlineage old hold
    exact ⟨by rw [pushed_observedOwner, ← hobs]; exact (hok.owner o ho).1, rfl⟩
  · rcases pushed_cases s record at_ episode with ⟨-, hr⟩ | ⟨old, hold, -, hr | ⟨-, hr⟩⟩
    · rw [hr m hm] at ho; simp [newResult] at ho
    · obtain ⟨hok, hobs⟩ := hlineage old hold
      exact ⟨by rw [pushed_observedOwner, ← hobs]; exact (hok.resultOwner m (hr ▸ hm) o ho).1, rfl⟩
    · rw [hr m hm] at ho; simp [newResult] at ho
  · rcases pushed_cases s record at_ episode with ⟨hg, hr⟩ | ⟨old, hold, hg, hr | ⟨-, hr⟩⟩
    · rw [hr m hm, hg]; rfl
    · rw [hg]; exact (hlineage old hold).1.generation m (hr ▸ hm)
    · rw [hr m hm, hg]; rfl
  · rcases pushed_cases s record at_ episode with ⟨hg, -⟩ | ⟨old, hold, hg, -⟩
    · exact hg.le
    · rw [hg]; exact (hlineage old hold).1.generationLe.trans (Nat.le_succ _)

/-- What the ownership pass gives. -/
theorem reconciledOwner_some {s : RecordStore} {live : LiveEpisode} {e : StoredRecord} {o : EpisodeId}
    (h : s.reconciledOwner live e = some o) :
    o = live.owner ∧ e.historical = false ∧ e.observedOwner = some live.owner ∧
      (s.effectiveApp e.id).all live.matches = true ∧
      (s.hasAnchor e.id live = true ∨ e.owner = some live.owner) := by
  unfold reconciledOwner at h
  split at h
  · cases h
  · rename_i h₁
    split at h
    · cases h
    · rename_i h₂
      split at h
      · rename_i h₃
        simp only [Bool.or_eq_true, bne_iff_ne, not_or, Bool.not_eq_true, not_not] at h₁
        refine ⟨by simpa [eq_comm] using h, h₁.1, h₁.2, ?_, by simpa using h₃⟩
        cases hx : s.effectiveApp e.id with
        | none => rfl
        | some app => simpa [hx] using h₂
      · cases h

/-- The episode half gives every entry a joined shape. -/
theorem Ok.settled {n : Nat} {s : RecordStore} {live : LiveEpisode} {e : StoredRecord} (h : Ok n e)
    (starts : Bool) (cycle : WorkCycle) :
    Ok n (StoredRecord.joinResult live starts cycle { e with owner := s.reconciledOwner live e }) ∧
      Joined (StoredRecord.joinResult live starts cycle { e with owner := s.reconciledOwner live e }) := by
  have howner : ∀ o, s.reconciledOwner live e = some o →
      o = live.owner ∧ e.observedOwner = some o ∧ e.historical = false := fun o ho => by
    obtain ⟨rfl, hh, hobs, -⟩ := reconciledOwner_some ho
    exact ⟨rfl, hobs, hh⟩
  have hresult : ∀ m ∈ (StoredRecord.joinResult live starts cycle
      { e with owner := s.reconciledOwner live e }).result, ∃ m₀ ∈ e.result, m.generation = m₀.generation ∧
        (m.owner = m₀.owner ∨ m.owner = some live.owner ∧ s.reconciledOwner live e = some live.owner) ∧
        (s.reconciledOwner live e = some live.owner → m₀.owner = none → m.owner = some live.owner) := by
    intro m hm
    simp only [StoredRecord.joinResult, Option.mem_def, Option.map_eq_some_iff] at hm
    obtain ⟨m₀, hm₀, rfl⟩ := hm
    refine ⟨m₀, hm₀, ?_⟩
    split
    · rename_i hs
      simp only [Bool.and_eq_true, beq_iff_eq] at hs
      exact ⟨rfl, .inl rfl, fun _ hn => by simp [hs.1] at hn⟩
    · split
      · rename_i hj
        simp only [Bool.and_eq_true, beq_iff_eq] at hj
        exact ⟨rfl, .inr ⟨rfl, hj.2⟩, fun _ _ => rfl⟩
      · rename_i hj
        simp only [Bool.and_eq_true, beq_iff_eq, not_and] at hj
        exact ⟨rfl, .inl rfl, fun ho hn => absurd ho (hj hn)⟩
  refine ⟨⟨fun o ho => (howner o ho).2, fun m hm o ho => ?_, fun m hm => ?_, h.generationLe, h.updatedLe⟩,
    fun m hm o ho => ?_⟩
  · obtain ⟨m₀, hm₀, -, hw | ⟨hw, hl⟩, -⟩ := hresult m hm
    · exact h.resultOwner m₀ hm₀ o (hw ▸ ho)
    · exact (howner o (by rw [hl, ← hw, ho])).2
  · obtain ⟨m₀, hm₀, hg, -⟩ := hresult m hm
    exact hg.trans (h.generation m₀ hm₀)
  · obtain ⟨m₀, hm₀, -, hw | ⟨hw, -⟩, hj⟩ := hresult m hm
    · obtain ⟨rfl, hobs, -⟩ := howner o ho
      cases hn : m₀.owner with
      | none => exact hj ho hn
      | some o' =>
        -- A result already owned belongs to the episode its entry was reported in.
        have := (h.resultOwner m₀ hm₀ o' hn).1
        rw [hobs, Option.some.injEq] at this
        rw [hw, hn, this]
    · rw [hw, (howner o ho).1]

/-- Rewriting a result without changing whose it is keeps an entry's shape. -/
theorem Ok.of_map {n : Nat} {e e' : StoredRecord} (f : ResultMemory → ResultMemory) (h : Ok n e)
    (hr : e' = { e with result := e.result.map f })
    (hf : ∀ m, (f m).owner = m.owner ∧ (f m).generation = m.generation) : Ok n e' := by
  subst hr
  refine ⟨h.owner, fun m hm o ho => ?_, fun m hm => ?_, h.generationLe, h.updatedLe⟩
  · obtain ⟨m₀, hm₀, rfl⟩ := Option.map_eq_some_iff.mp hm
    exact h.resultOwner m₀ hm₀ o ((hf m₀).1 ▸ ho)
  · obtain ⟨m₀, hm₀, rfl⟩ := Option.map_eq_some_iff.mp hm
    exact (hf m₀).2.trans (h.generation m₀ hm₀)

theorem Joined.of_map {e e' : StoredRecord} (f : ResultMemory → ResultMemory) (h : Joined e)
    (hr : e' = { e with result := e.result.map f }) (hf : ∀ m, (f m).owner = m.owner) : Joined e' := by
  subst hr
  intro m hm o ho
  obtain ⟨m₀, hm₀, rfl⟩ := Option.map_eq_some_iff.mp hm
  exact (hf m₀).trans (h m₀ hm₀ o ho)

theorem present_owner (effect : ProgramResult) (e : StoredRecord) :
    ∃ f, e.present effect = { e with result := e.result.map f } ∧
      ∀ m : ResultMemory, (f m).owner = m.owner ∧ (f m).generation = m.generation := by
  refine ⟨_, rfl, fun m => ?_⟩
  repeat' split
  all_goals exact ⟨rfl, rfl⟩

theorem Ok.disown {n : Nat} {e : StoredRecord} (h : Ok n e) : Ok n e.disown := by
  refine ⟨fun o ho => by simp [StoredRecord.disown] at ho, fun m hm o ho => ?_, fun m hm => ?_,
    h.generationLe, h.updatedLe⟩
  · obtain ⟨m₀, -, rfl⟩ := Option.map_eq_some_iff.mp hm
    simp at ho
  · obtain ⟨m₀, hm₀, rfl⟩ := Option.map_eq_some_iff.mp hm
    exact h.generation m₀ hm₀

theorem Ok.forget {n : Nat} {e : StoredRecord} (h : Ok n e) : Ok n { e.disown with observedOwner := none } := by
  have hd := h.disown
  refine ⟨fun o ho => by simp [StoredRecord.disown] at ho, fun m hm o ho => ?_, hd.generation,
    hd.generationLe, hd.updatedLe⟩
  obtain ⟨m₀, -, rfl⟩ := Option.map_eq_some_iff.mp hm
  simp at ho

theorem joined_of_owner_none {e : StoredRecord} (h : e.owner = none) : Joined e := fun m _ o ho => by
  simp [h] at ho

/-! ## Each call keeps the shape -/

@[simp] theorem settle_ids (s : RecordStore) (live : LiveEpisode) (wasActive : Bool) (reported : Reported) :
    (s.settle live wasActive reported).records.map StoredRecord.id = s.records.map StoredRecord.id := by
  simp only [settle, reconcileOwnership, List.map_map]
  exact List.map_congr_left fun _ _ => rfl

/-- The episode half keeps the ids and gives every entry its shape. -/
theorem WF.settle {s : RecordStore} {live : LiveEpisode} {wasActive : Bool} {reported : Reported}
    (hids : (s.records.map StoredRecord.id).Nodup) (hok : ∀ e ∈ s.records, Ok s.ordinal e) :
    WF (s.settle live wasActive reported) := by
  refine ⟨by rw [settle_ids]; exact hids, fun e' he' => ?_, fun e' he' => ?_⟩
  · obtain ⟨e, he, rfl⟩ := mem_settle he'
    exact ((hok e he).settled _ _).1
  · obtain ⟨e, he, rfl⟩ := mem_settle he'
    exact ((hok e he).settled _ _).2

theorem WF.applyReplace {s : RecordStore} (h : WF s) (record : Record) (at_ : Nat)
    (episode : Option LiveEpisode) :
    ((s.applyReplace record at_ episode).1.records.map StoredRecord.id).Nodup ∧
      ∀ e ∈ (s.applyReplace record at_ episode).1.records, Ok (s.ordinal + 1) e := by
  obtain ⟨l, hl, hd⟩ := displace_eq s record.id
  have hne : ∀ e ∈ l, e.id ≠ record.id := fun e he =>
    Choose.key_ne_of_mem_eraseP h.ids e (hl.subset he)
  have hsub : l.Sublist s.records := hl.trans List.eraseP_sublist
  rw [applyReplace_records, hd]
  refine ⟨?_, fun e he => ?_⟩
  · rw [List.map_append, List.map_singleton, List.nodup_append]
    refine ⟨h.ids.sublist (hsub.map _), by simp, fun a ha b hb => ?_⟩
    obtain ⟨e, he, rfl⟩ := List.mem_map.mp ha
    rw [List.mem_singleton.mp hb]
    exact hne e he
  · rcases List.mem_append.mp he with he | he
    · exact (h.ok e (hsub.subset he)).mono (Nat.le_succ _)
    · rw [List.mem_singleton.mp he]
      exact Ok.pushed h.ok record at_ episode

theorem WF.apply {s : RecordStore} (h : WF s) (command : ProgramCommand) (at_ : Nat)
    (episode : Option LiveEpisode) : WF (s.apply command at_ episode) := by
  cases command with
  | query => exact h
  | clear id =>
    have hids : ((s.applyClear id).records.map StoredRecord.id).Nodup := by
      rw [applyClear_records]
      exact h.ids.sublist (List.filter_sublist.map _)
    have hmem : ∀ e ∈ (s.applyClear id).records, e ∈ s.records := fun e he => by
      rw [applyClear_records] at he
      exact List.mem_of_mem_filter he
    have hok : ∀ e ∈ (s.applyClear id).records, Ok (s.applyClear id).ordinal e := fun e he => by
      rw [applyClear_ordinal]
      exact h.ok e (hmem e he)
    cases episode with
    | none => exact ⟨hids, hok, fun e he => h.joined e (hmem e he)⟩
    | some live => exact WF.settle hids hok
  | replace record =>
    obtain ⟨hids, hok⟩ := h.applyReplace record at_ episode
    rw [← applyReplace_ordinal s record at_ episode] at hok
    cases episode with
    | some live => exact WF.settle hids hok
    | none =>
      refine ⟨hids, hok, fun e he => ?_⟩
      change e ∈ (s.applyReplace record at_ none).1.records at he
      rw [applyReplace_records, List.mem_append, List.mem_singleton] at he
      rcases he with he | rfl
      · exact h.joined e ((displace_sublist s record.id).subset he)
      · -- With no episode the lineage was reported in none, so nobody owns it.
        refine joined_of_owner_none ?_
        rw [pushed_owner, Option.bind_eq_none_iff]
        intro old hold
        obtain ⟨hm, -, hobs, -⟩ := mem_lineage hold
        cases ho : old.owner with
        | none => rfl
        | some o =>
          have := ((h.ok old hm).owner o ho).1
          simp [hobs] at this

theorem WF.lifecycle {s : RecordStore} (h : WF s) (event : TerminalLifecycle) : WF (s.lifecycle event) := by
  cases event with
  | fullReset => exact ⟨List.nodup_nil, by simp [RecordStore.lifecycle], by simp [RecordStore.lifecycle]⟩
  | shellPrompt | attachedProcessExit =>
    refine ⟨?_, fun e' he' => ?_, fun e' he' => ?_⟩
    · simp only [RecordStore.lifecycle, List.map_map]
      exact h.ids.sublist (List.filter_sublist.map _)
    · obtain ⟨e, he, rfl⟩ := List.mem_map.mp he'
      exact (h.ok e (List.mem_of_mem_filter he)).disown
    · obtain ⟨e, -, rfl⟩ := List.mem_map.mp he'
      exact joined_of_owner_none rfl

theorem WF.invalidateEpisode {s : RecordStore} (h : WF s) : WF s.invalidateEpisode := by
  refine ⟨?_, fun e' he' => ?_, fun e' he' => ?_⟩
  · simp only [RecordStore.invalidateEpisode, List.map_map]
    exact h.ids
  · obtain ⟨e, he, rfl⟩ := List.mem_map.mp he'
    exact (h.ok e he).forget
  · obtain ⟨e, -, rfl⟩ := List.mem_map.mp he'
    exact joined_of_owner_none rfl

theorem WF.markPresented {s : RecordStore} (h : WF s) (selection : ProgramSelection) (live : LiveEpisode) :
    WF (s.markPresented selection live).2 := by
  rcases markPresented_cases s selection live with hm | ⟨effect, -, -, hm⟩
  · rw [hm]; exact h
  · rw [hm]
    refine ⟨?_, fun e' he' => ?_, fun e' he' => ?_⟩
    · simp only [List.map_map]
      exact h.ids
    · obtain ⟨e, he, rfl⟩ := List.mem_map.mp he'
      obtain ⟨f, hr, hf⟩ := present_owner effect e
      exact (h.ok e he).of_map f hr hf
    · obtain ⟨e, he, rfl⟩ := List.mem_map.mp he'
      obtain ⟨f, hr, hf⟩ := present_owner effect e
      exact (h.joined e he).of_map f hr fun m => (hf m).1

theorem WF.acknowledge {s : RecordStore} (h : WF s) (identity : ResultIdentity) :
    WF (s.acknowledge identity).2 := by
  rcases acknowledge_cases s identity with ha | ⟨l₁, entry, l₂, hl, -, -, ha⟩
  · rw [ha]; exact h
  · rw [ha]
    have hcases : ∀ e' ∈ l₁ ++ entry.acknowledge :: l₂, e' ∈ s.records ∨ e' = entry.acknowledge := by
      intro e' he'
      rw [hl]
      simp only [List.mem_append, List.mem_cons] at he' ⊢
      tauto
    have hentry : entry ∈ s.records := by simp [hl]
    refine ⟨?_, fun e' he' => ?_, fun e' he' => ?_⟩
    · have hids := h.ids
      rw [hl, List.map_append, List.map_cons] at hids
      rw [List.map_append, List.map_cons]
      exact hids
    · rcases hcases e' he' with he' | rfl
      · exact h.ok e' he'
      · exact (h.ok entry hentry).of_map _ rfl fun _ => ⟨rfl, rfl⟩
    · rcases hcases e' he' with he' | rfl
      · exact h.joined e' he'
      · exact (h.joined entry hentry).of_map _ rfl fun _ => rfl

theorem wf_step {s : RecordStore} (h : WF s) (op : StoreOp) : WF (s.step op) := by
  cases op with
  | apply command at_ episode => exact h.apply command at_ episode
  | lifecycle event => exact h.lifecycle event
  | invalidateEpisode => exact h.invalidateEpisode
  | markPresented selection live => exact h.markPresented selection live
  | acknowledge identity => exact h.acknowledge identity
  | reconcileResult selection live disposition =>
    exact reconcileResult_of (fun _ selection live h => h.markPresented selection live)
      (fun _ identity h => h.acknowledge identity) h selection live disposition

/-- Every reachable store is well formed. -/
theorem wf_run (ops : List StoreOp) : WF (new.run ops) :=
  Run.invariant step WF (fun _ op h => wf_step h op) wf_new ops

end RecordStore

end TmuxAgents
