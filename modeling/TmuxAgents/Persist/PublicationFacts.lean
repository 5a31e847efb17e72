/-
What a publication leaves of the attention flag and of the turn marker.

The last edit of an option decides it (`lastEdit`), so each lemma here is about
which parts of a publication name an option at all. The flag is the companions',
unless the published result is the one acknowledged; the marker is the
companions', or cleared where the pane was another process's.
-/
import TmuxAgents.Lib.Checked
import TmuxAgents.Persist.Publication

namespace TmuxAgents

/-! ## Last edits -/

theorem lastEdit_append (a b : List OptionEdit) (key : OptionKey) :
    lastEdit (a ++ b) key = (lastEdit b key).or (lastEdit a key) := by
  simp only [lastEdit, List.reverse_append, List.find?_append]

theorem lastEdit_eq_none {edits : List OptionEdit} {key : OptionKey} (h : ∀ edit ∈ edits, edit.key ≠ key) :
    lastEdit edits key = none := by
  refine List.find?_eq_none.mpr fun edit he => ?_
  simpa using h edit (List.mem_reverse.mp he)

/-- Edits of other options decide nothing. -/
theorem lastEdit_append_other {edits : List OptionEdit} {key : OptionKey} (a : List OptionEdit)
    (h : ∀ edit ∈ edits, edit.key ≠ key) : lastEdit (a ++ edits) key = lastEdit a key := by
  rw [lastEdit_append, lastEdit_eq_none h, Option.none_or]

/-- What all edits of an option agree on decides it. -/
theorem lastEdit_eq {edits : List OptionEdit} {edit : OptionEdit} (hmem : edit ∈ edits)
    (h : ∀ other ∈ edits, other.key = edit.key → other = edit) : lastEdit edits edit.key = some edit := by
  cases hl : lastEdit edits edit.key with
  | none =>
    have hne := List.find?_eq_none.mp hl edit (List.mem_reverse.mpr hmem)
    simp at hne
  | some other =>
    have hkey : other.key = edit.key := by simpa using List.find?_some hl
    rw [h other (List.mem_reverse.mp (List.mem_of_find?_eq_some hl)) hkey]

/-- **The last edit decides** what the pane shows of an option. -/
theorem applyEdits_eq (edits : List OptionEdit) (options : Options) (key : OptionKey) :
    applyEdits edits options key = (lastEdit edits key).elim (options key) OptionEdit.value := by
  induction edits generalizing options with
  | nil => rfl
  | cons edit edits ih =>
    have hcons : lastEdit (edit :: edits) key = (lastEdit edits key).or (lastEdit [edit] key) :=
      lastEdit_append [edit] edits key
    have happly : applyEdits (edit :: edits) options = applyEdits edits (edit.apply options) := rfl
    rw [happly, ih, hcons]
    cases hl : lastEdit edits key with
    | some last => rfl
    | none =>
      by_cases hk : edit.key = key
      · simp [lastEdit, OptionEdit.apply, hk]
      · simp [lastEdit, OptionEdit.apply, hk, Ne.symm hk]

/-! ## Current stamps -/

/-- A current stamp was read from the pane's options. -/
theorem currentStamp_some {options : Options} {now : Nat} {stamp : StampedState}
    (h : readStamp (currentStamp options now) = some stamp) :
    ∃ read, StampedState.fromOptions options = .ok (some read) ∧ read.intoInner = stamp := by
  unfold currentStamp readProjection ProgramMetadata.projection at h
  split at h
  · cases h
  · rename_i read hprojection
    split at hprojection
    · cases hfrom : StampedState.fromOptions options with
      | error e =>
        rw [hfrom] at hprojection
        cases hprojection
      | ok found =>
        rw [hfrom] at hprojection
        cases hprojection
        obtain ⟨stored, rfl, hstamp⟩ := Option.map_eq_some_iff.mp h
        exact ⟨stored, rfl, hstamp⟩
    · repeat' split at hprojection
      all_goals cases hprojection
  · rename_i live _ _ hprojection
    cases h
    split at hprojection
    · cases hfrom : StampedState.fromOptions options with
      | error e =>
        rw [hfrom] at hprojection
        cases hprojection
      | ok found =>
        rw [hfrom] at hprojection
        cases hprojection
    · split at hprojection
      · split at hprojection
        · cases hprojection
        · split at hprojection
          · cases hprojection
          · rename_i hfrom
            split at hprojection
            · cases hprojection
              exact ⟨_, hfrom, rfl⟩
            · cases hprojection
          · cases hprojection
      · cases hprojection
  · cases h

theorem toMillis_le {v : Nat} (h : v ≤ u64Max) : toMillis v ≤ u64Max := by
  unfold toMillis saturatingMul
  split <;> omega

theorem parseInt_le {options : Options} {key : OptionKey} {n : Nat} (h : parseInt options key = .ok n) : n ≤ u64Max := by
  unfold parseInt at h
  split at h
  · cases h
    exact Nat.zero_le _
  · split at h
    · rename_i hparsed
      cases h
      exact Nat.le_sub_one_of_lt (Text.parseUnsigned_lt hparsed)
    · cases h

/-- The instants of a stamp are `u64`s. -/
theorem fromOptions_episodeAt_le {options : Options} {read : ReadResult}
    (h : StampedState.fromOptions options = .ok (some read)) : read.intoInner.episodeAt ≤ u64Max := by
  unfold StampedState.fromOptions at h
  split at h
  · cases h
  obtain ⟨state, -, h⟩ := Checked.ok_of_bind h
  obtain ⟨source, -, h⟩ := Checked.ok_of_bind h
  obtain ⟨evidenceAt, -, h⟩ := Checked.ok_of_bind h
  obtain ⟨since, hsince, h⟩ := Checked.ok_of_bind h
  obtain ⟨stampedAt, -, h⟩ := Checked.ok_of_bind h
  obtain ⟨pid, -, h⟩ := Checked.ok_of_bind h
  obtain ⟨notifiedAt, -, h⟩ := Checked.ok_of_bind h
  obtain ⟨turnAt, hturn, h⟩ := Checked.ok_of_bind h
  obtain ⟨hash, -, h⟩ := Checked.ok_of_bind h
  have hle := max_le (toMillis_le (parseInt_le hsince)) (toMillis_le (parseInt_le hturn))
  simp only [Except.ok.injEq, Option.some.injEq] at h
  split at h
  · rw [← h]
    exact hle
  · rw [← h]
    exact hle

/-! ## The parts of a publication -/

section Keys

variable (key : OptionKey) (value : Text)

@[simp] theorem OptionEdit.key_set : (OptionEdit.set key value).key = key := rfl

@[simp] theorem OptionEdit.value_set : (OptionEdit.set key value).value = some value := rfl

@[simp] theorem OptionEdit.key_unset : (OptionEdit.unset key).key = key := rfl

@[simp] theorem OptionEdit.value_unset : (OptionEdit.unset key).value = none := rfl

end Keys

/-- What the renderer writes of the state and of the marker. -/
theorem renderPublishAdvisory_edits {p : Publish} {prevState : Option AgentState} {prevSince : Nat} {edit : OptionEdit}
    (h : edit ∈ renderPublishAdvisory p prevState prevSince) :
    (edit.key = Opt.state → edit = .set Opt.state p.state.token) ∧
      (edit.key = Opt.turnAt → edit = .unset Opt.turnAt) := by
  simp only [renderPublishAdvisory, List.mem_append, List.mem_cons, List.not_mem_nil, or_false, List.mem_map] at h
  rcases h with (((((h | h) | h) | h) | h) | h) | h
  · rcases h with rfl | rfl | h | rfl | rfl
    · simp [Opt.since, Opt.state, Opt.turnAt]
    · simp [Opt.state, Opt.turnAt]
    · split at h <;> subst h <;> simp [Opt.detail, Opt.state, Opt.turnAt]
    · simp [Opt.source, Opt.state, Opt.turnAt]
    · simp [Opt.evidenceAt, Opt.state, Opt.turnAt]
  · repeat' split at h
    all_goals simp only [List.mem_cons, List.not_mem_nil, or_false] at h
    all_goals subst h
    all_goals simp [Opt.attention, Opt.state, Opt.turnAt]
  · split at h
    · simp only [List.mem_cons, List.not_mem_nil, or_false] at h
      rcases h with rfl | rfl
      · simp [Opt.notifiedAt, Opt.state, Opt.turnAt]
      · simp [Opt.state, Opt.turnAt]
    · cases h
  · obtain ⟨hash, -, rfl⟩ := h
    simp [Opt.hash, Opt.state, Opt.turnAt]
  · subst h
    simp [Opt.pid, Opt.state, Opt.turnAt]
  · split at h
    · cases h
    · rw [List.mem_singleton] at h
      subst h
      simp [Opt.name, Opt.state, Opt.turnAt]
  · subst h
    simp [Opt.stampedAt, Opt.state, Opt.turnAt]

/-- The state is always written. -/
theorem state_mem_renderPublishAdvisory (p : Publish) (prevState : Option AgentState) (prevSince : Nat) :
    .set Opt.state p.state.token ∈ renderPublishAdvisory p prevState prevSince := by
  simp [renderPublishAdvisory]

section Publication

variable {observed : PaneRead} {owner : PaneOwner} {publish : Publish} {result : Option PersistedResult}
  {companions : List OptionEdit} {history : ResultHistory} {record : Option RecordId} {fresh : FreshTokens}
  {edit : OptionEdit}

/-- An edit of the tuple is a marker of the owner, a companion, or rendered. -/
theorem tupleEdits_edits (hcompanions : ∀ edit ∈ companions, edit.key = Opt.attention ∨ edit.key = Opt.turnAt)
    (h : edit ∈ tupleEdits observed owner publish companions) :
    (edit.key = Opt.state → edit = .set Opt.state publish.state.token) ∧
      (edit.key = Opt.turnAt → edit ∈ companions ∨ edit = .unset Opt.turnAt) := by
  simp only [tupleEdits, List.mem_append, List.mem_cons, List.not_mem_nil, or_false, List.mem_filter] at h
  rcases h with (h | h) | h
  · rcases h with rfl | rfl | rfl
    · simp [ProgramOpt.commit, Opt.state, Opt.turnAt]
    · simp [ProgramOpt.origin, Opt.state, Opt.turnAt]
    · simp [ProgramOpt.owner, Opt.state, Opt.turnAt]
  · have hrendered := renderPublishAdvisory_edits h.1
    exact ⟨hrendered.1, fun hk => .inr (hrendered.2 hk)⟩
  · refine ⟨fun hk => ?_, fun _ => .inl h⟩
    rcases hcompanions edit h with hc | hc
    · rw [hc] at hk
      exact absurd hk (by decide)
    · rw [hc] at hk
      exact absurd hk (by decide)

/-- The state of the tuple is the published one. -/
theorem finalValue_state (hcompanions : ∀ edit ∈ companions, edit.key = Opt.attention ∨ edit.key = Opt.turnAt) :
    finalValue observed (tupleEdits observed owner publish companions) Opt.state = publish.state.token := by
  have hmem : .set Opt.state publish.state.token ∈ tupleEdits observed owner publish companions := by
    refine List.mem_append_left _ (List.mem_append_right _ (List.mem_filter.mpr ⟨?_, ?_⟩))
    · exact state_mem_renderPublishAdvisory _ _ _
    · have hkey : metadataKeys.contains Opt.state = false := by decide
      simpa using hkey
  have hlast := lastEdit_eq hmem fun other ho hk => (tupleEdits_edits hcompanions ho).1 hk
  rw [OptionEdit.key_set] at hlast
  simp only [finalValue, hlast, Option.elim_some, OptionEdit.value_set, Option.getD_some]

/-- Markers unset are no public options. -/
theorem not_public_of_unset {keys : List OptionKey} (hturn : Opt.turnAt ∉ keys) (hattention : Opt.attention ∉ keys)
    (h : edit ∈ keys.map OptionEdit.unset) : edit.key ≠ Opt.turnAt ∧ edit.key ≠ Opt.attention := by
  obtain ⟨key, hk, rfl⟩ := List.mem_map.mp h
  refine ⟨fun h => hturn ?_, fun h => hattention ?_⟩
  · rwa [← h]
  · rwa [← h]

/-- The attention episode never names the turn marker, and the flag only to hold a blocked
state's down. -/
theorem addEpisode_edits {edits : List OptionEdit} (h : edit ∈ addEpisode observed edits fresh) :
    edit.key ≠ Opt.turnAt ∧
      (edit.key = Opt.attention → finalValue observed edits Opt.state = AgentState.blocked.token) := by
  have hunset : ∀ {keys : List OptionKey}, Opt.turnAt ∉ keys → Opt.attention ∉ keys →
      edit ∈ keys.map OptionEdit.unset → edit.key ≠ Opt.turnAt ∧
        (edit.key = Opt.attention → finalValue observed edits Opt.state = AgentState.blocked.token) := by
    intro keys ht ha h
    obtain ⟨hturn, hattention⟩ := not_public_of_unset ht ha h
    exact ⟨hturn, fun hk => absurd hk hattention⟩
  have hset : ∀ {key : OptionKey} {value : Text}, key ≠ Opt.turnAt → key ≠ Opt.attention → edit = .set key value →
      edit.key ≠ Opt.turnAt ∧
        (edit.key = Opt.attention → finalValue observed edits Opt.state = AgentState.blocked.token) := by
    intro key value ht ha h
    subst h
    exact ⟨ht, fun hk => absurd hk ha⟩
  simp only [addEpisode] at h
  split at h
  · rcases List.mem_append.mp h with h | h
    · split at h
      · exact hunset (by decide) (by decide) h
      · cases h
    · exact hunset (by decide) (by decide) h
  · simp only [List.mem_append] at h
    rcases h with ((h | h) | h) | h
    · split at h
      · exact hunset (by decide) (by decide) h
      · cases h
    · split at h
      · rw [List.mem_singleton] at h
        subst h
        exact ⟨by decide, fun hk => absurd hk (by decide)⟩
      · cases h
    · split at h
      · rename_i hheld
        rw [List.mem_singleton] at h
        subst h
        simp only [Bool.and_eq_true, beq_iff_eq] at hheld
        exact ⟨by decide, fun _ => hheld.1.2⟩
      · cases h
    · split at h
      · rcases List.mem_cons.mp h with h | h
        · exact hset (by decide) (by decide) h
        · split at h
          · exact hset (by decide) (by decide) (List.mem_singleton.mp h)
          · cases h
      · cases h

/-- Of a state that is not blocked, nothing after the tuple names the flag or the marker. -/
theorem markerEdits_edits {tuple : List OptionEdit} (hstate : publish.state ≠ .blocked)
    (hfinal : finalValue observed tuple Opt.state ≠ AgentState.blocked.token)
    (h : edit ∈ markerEdits observed owner publish result tuple history record fresh) :
    edit.key ≠ Opt.turnAt ∧ edit.key ≠ Opt.attention := by
  simp only [markerEdits, if_neg hstate, List.mem_append] at h
  rcases h with ((h | h) | h) | h
  · obtain ⟨hturn, hattention⟩ := addEpisode_edits h
    exact ⟨hturn, fun hk => hfinal (hattention hk)⟩
  · rw [List.mem_singleton] at h
    subst h
    decide
  · split at h
    · exact not_public_of_unset (by decide) (by decide) h
    · cases h
  · cases result with
    | none => cases h
    | some result =>
      simp only [List.mem_append, List.mem_cons, List.not_mem_nil, or_false] at h
      rcases h with (rfl | rfl) | h
      · exact ⟨show ProgramOpt.result ≠ Opt.turnAt by decide, show ProgramOpt.result ≠ Opt.attention by decide⟩
      · decide
      · cases history with
        | retain => cases h
        | reset => cases h
        | rebind acknowledged notified =>
          simp only [List.mem_cons, List.not_mem_nil, or_false] at h
          rcases h with rfl | rfl
          · cases acknowledged <;>
              exact ⟨show ProgramOpt.ack ≠ Opt.turnAt by decide, show ProgramOpt.ack ≠ Opt.attention by decide⟩
          · cases notified <;>
              exact ⟨show ProgramOpt.notified ≠ Opt.turnAt by decide, show ProgramOpt.notified ≠ Opt.attention by decide⟩

end Publication

/-- What is submitted is a complete publication. -/
theorem publishProgramWithHistory_ok {observed : PaneRead} {owner : PaneOwner} {publish : Publish}
    {result : Option PersistedResult} {companions : List OptionEdit} {history : ResultHistory} {record : Option RecordId}
    {fresh : FreshTokens} {now : Nat} {request : Request}
    (h : publishProgramWithHistory observed owner publish result companions history record fresh now = .ok request) :
    request.edits = programEdits observed owner publish result companions history record fresh := by
  unfold publishProgramWithHistory at h
  split at h
  · cases h
  split at h
  · cases h
  split at h
  · cases h
  split at h
  · cases h
  · cases h
    rfl

theorem token_ne_blocked {state : AgentState} (h : state ≠ .blocked) : state.token ≠ AgentState.blocked.token := by
  cases state with
  | idle | working | unknown => decide
  | blocked => exact absurd rfl h

/-! ## The flag and the marker -/

section Companions

variable {observed : PaneRead} {owner : PaneOwner} {publish : Publish} {result : Option PersistedResult}
  {flag : OptionEdit} {turns : List OptionEdit} {history : ResultHistory} {record : Option RecordId}
  {fresh : FreshTokens} (hflag : flag.key = Opt.attention) (hturns : ∀ edit ∈ turns, edit.key = Opt.turnAt)
  (hstate : publish.state ≠ .blocked)

include hflag hturns

theorem companions_keys : ∀ edit ∈ flag :: turns, edit.key = Opt.attention ∨ edit.key = Opt.turnAt := by
  intro edit he
  rcases List.mem_cons.mp he with rfl | he
  · exact .inl hflag
  · exact .inr (hturns edit he)

include hstate

/-- The edits after the tuple, of a state that is not blocked. -/
theorem markers_keys {edit : OptionEdit} (h : edit ∈ markerEdits observed owner publish result
    (tupleEdits observed owner publish (flag :: turns)) history record fresh) :
    edit.key ≠ Opt.turnAt ∧ edit.key ≠ Opt.attention := by
  refine markerEdits_edits hstate ?_ h
  rw [finalValue_state (companions_keys hflag hturns)]
  exact token_ne_blocked hstate

/-- **The flag** is the companion's, but for a result that is acknowledged already. -/
theorem lastEdit_attention :
    lastEdit (programEdits observed owner publish result (flag :: turns) history record fresh) Opt.attention =
      some (if result.any fun result => observed.program.acknowledged == some result then .unset Opt.attention
        else flag) := by
  have hcommit : ∀ edit ∈ [OptionEdit.set ProgramOpt.commit (CommitMarker.encode { write := fresh.commit, owner })],
      edit.key ≠ Opt.attention := by
    intro edit he
    rw [List.mem_singleton.mp he]
    exact show ProgramOpt.commit ≠ Opt.attention by decide
  rw [programEdits, lastEdit_append_other _ hcommit]
  split
  · rw [lastEdit_append]
    rfl
  · rw [List.append_nil, lastEdit_append_other _ fun edit he => (markers_keys hflag hturns hstate he).2, tupleEdits,
      List.append_cons, lastEdit_append_other _ fun edit he => ?_, lastEdit_append]
    · simp [lastEdit, hflag]
    · rw [hturns edit he]
      decide

/-- **The marker** is written by a companion, or cleared. -/
theorem turnAt_edits {edit : OptionEdit}
    (h : edit ∈ programEdits observed owner publish result (flag :: turns) history record fresh)
    (hk : edit.key = Opt.turnAt) : edit ∈ turns ∨ edit = .unset Opt.turnAt := by
  simp only [programEdits, List.mem_append, List.mem_singleton] at h
  rcases h with ((h | h) | h) | rfl
  · rcases (tupleEdits_edits (companions_keys hflag hturns) h).2 hk with hc | hc
    · rcases List.mem_cons.mp hc with rfl | hc
      · rw [hflag] at hk
        exact absurd hk (by decide)
      · exact .inl hc
    · exact .inr hc
  · exact absurd hk (markers_keys hflag hturns hstate h).1
  · split at h
    · rw [List.mem_singleton] at h
      subst h
      exact absurd hk (by decide)
    · cases h
  · exact absurd hk (show ProgramOpt.commit ≠ Opt.turnAt by decide)

/-- A companion that sets the marker decides it. -/
theorem lastEdit_turnAt {turn : OptionEdit} (hone : turns = [turn]) :
    lastEdit (programEdits observed owner publish result (flag :: turns) history record fresh) Opt.turnAt = some turn := by
  have hturn : turn.key = Opt.turnAt := hturns turn (by simp [hone])
  have hcommit : ∀ edit ∈ (if result.any fun result => observed.program.acknowledged == some result then
      [OptionEdit.unset Opt.attention] else []) ++
      [OptionEdit.set ProgramOpt.commit (CommitMarker.encode { write := fresh.commit, owner })],
      edit.key ≠ Opt.turnAt := by
    intro edit he
    rcases List.mem_append.mp he with he | he
    · split at he
      · rw [List.mem_singleton.mp he]
        decide
      · cases he
    · rw [List.mem_singleton.mp he]
      exact show ProgramOpt.commit ≠ Opt.turnAt by decide
  rw [programEdits, List.append_assoc, lastEdit_append_other _ hcommit,
    lastEdit_append_other _ fun edit he => (markers_keys hflag hturns hstate he).1, tupleEdits, hone, List.append_cons,
    lastEdit_append]
  simp [lastEdit, hturn]

end Companions

end TmuxAgents
