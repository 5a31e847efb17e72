/-
What a clean pane's stored stamp shows of its options, and what each step does to
the four of them a decision reads: the state, the mark, the owner's session and the
live subagents.
-/
import TmuxAgents.Runtime.HookEvent

namespace TmuxAgents

variable {options : Options}

/-! ## Words -/

/-- A text that `split_whitespace` gives back as it is. -/
def IsWord (text : Text) : Prop := text ≠ [] ∧ ∀ c ∈ text, isWhitespace c = false

theorem splitOnP_mem {text field : Text} (h : field ∈ text.splitOnP isWhitespace) : ∀ c ∈ field, isWhitespace c = false := by
  induction text generalizing field with
  | nil =>
    rw [List.splitOnP_nil, List.mem_singleton] at h
    rw [h]
    simp
  | cons c text ih =>
    obtain ⟨first, fields, hsplit⟩ := List.exists_cons_of_ne_nil (List.splitOnP_ne_nil isWhitespace text)
    rw [List.splitOnP_cons_eq_if_modifyHead, hsplit] at h
    rw [hsplit] at ih
    split at h
    · rcases List.mem_cons.mp h with rfl | h
      · simp
      · exact ih h
    next hc =>
      rcases List.mem_cons.mp h with rfl | h
      · rintro d hd
        rcases List.mem_cons.mp hd with rfl | hd
        · simpa using hc
        · exact ih List.mem_cons_self d hd
      · exact ih (List.mem_cons_of_mem _ h)

theorem isWord_of_mem {text word : Text} (h : word ∈ splitWhitespace text) : IsWord word := by
  obtain ⟨hmem, hne⟩ := List.mem_filter.mp h
  exact ⟨by simpa using hne, splitOnP_mem hmem⟩

@[simp] theorem splitWhitespace_nil : splitWhitespace [] = [] := rfl

/-- Words joined by a blank are split again. -/
theorem splitWhitespace_intercalate {words : List Text} (h : ∀ word ∈ words, IsWord word) :
    splitWhitespace (List.intercalate [' '] words) = words := by
  have hblank : isWhitespace ' ' = true := by decide
  have hkeep {word : Text} (hword : IsWord word) : (!word.isEmpty) = true := by simpa using hword.1
  induction words with
  | nil => rfl
  | cons word words ih =>
    have hword := h word List.mem_cons_self
    cases words with
    | nil =>
      rw [List.intercalate_singleton, splitWhitespace, List.splitOnP_eq_singleton hword.2, List.filter_cons,
        if_pos (hkeep hword), List.filter_nil]
    | cons next words =>
      have hrest := ih fun w hw => h w (List.mem_cons_of_mem _ hw)
      rw [List.intercalate_cons_cons, List.append_assoc, List.singleton_append, splitWhitespace,
        List.splitOnP_append_cons_of_forall_mem hword.2 ' ' hblank, List.filter_cons, if_pos (hkeep hword),
        ← splitWhitespace, hrest]

/-! ## The stored stamp -/

namespace Hook

/-- The live subagents a pane stores. -/
def subagentsOf (options : Options) : List Text := splitWhitespace (options.value Opt.subagents)

/-- What a stored stamp shows of the options. -/
structure Shows (options : Options) (stamp : StampedState) : Prop where
  state : options.value Opt.state = stamp.state.token
  attention : stamp.attention = decide (options.value Opt.attention = ['1'])
  session : stamp.session = if options.value Opt.session = [] then none else some (options.value Opt.session)
  subagents : stamp.subagents = subagentsOf options
  since : stamp.since < 2 ^ 64
  pid : stamp.pid < 2 ^ 32
  hash : ∀ hash ∈ stamp.hash, hash < 2 ^ 64

theorem parseOptInt_lt {key : OptionKey} {n : Nat} (h : parseOptInt options key = .ok (some n)) : n < 2 ^ 64 := by
  simp only [parseOptInt] at h
  split at h
  · cases h
  · split at h
    next hparse =>
      cases h
      exact Text.parseUnsigned_lt hparse
    next => cases h

theorem shows_of_fromOptions {read : ReadResult}
    (h : StampedState.fromOptions (options.read paneOptionKeys) = .ok (some read)) : Shows options read.intoInner := by
  have hvalue {key : OptionKey} (hkey : key ∈ paneOptionKeys) := @value_of_read options key hkey
  have hnoEmpty := Options.read_noEmpty options paneOptionKeys
  unfold StampedState.fromOptions at h
  split at h
  · cases h
  next v hstate =>
    obtain ⟨state, hparse, h⟩ := Checked.ok_of_bind h
    obtain ⟨source, -, h⟩ := Checked.ok_of_bind h
    obtain ⟨evidenceAt, -, h⟩ := Checked.ok_of_bind h
    obtain ⟨since, hsince, h⟩ := Checked.ok_of_bind h
    obtain ⟨stampedAt, -, h⟩ := Checked.ok_of_bind h
    obtain ⟨pid, hpid, h⟩ := Checked.ok_of_bind h
    obtain ⟨notifiedAt, -, h⟩ := Checked.ok_of_bind h
    obtain ⟨turnAt, -, h⟩ := Checked.ok_of_bind h
    obtain ⟨hash, hhash, h⟩ := Checked.ok_of_bind h
    have hpidlt : pid < 2 ^ 32 := by
      simp only [parsePid] at hpid
      split at hpid
      · cases hpid
      · split at hpid
        next hlt =>
          cases hpid
          exact hlt
        next => cases hpid
    have hsincelt : toMillis since < 2 ^ 64 := Nat.lt_of_le_of_lt (toMillis_le (parseInt_le hsince)) (by decide)
    simp only [Except.ok.injEq, Option.some.injEq] at h
    rw [← h]
    have hshows (stamp : StampedState) (hstamp : stamp = (
        { state, detail := ((options.read paneOptionKeys Opt.detail).filter fun v => !v.isEmpty).map fun v =>
            Detail.mk (String.ofList v)
          source, pid, hash
          evidenceAt := toMillis evidenceAt
          since := toMillis since
          stampedAt := toMillis stampedAt
          notifiedAt := notifiedAt.map toMillis
          turnAt := toMillis turnAt
          attention := options.read paneOptionKeys Opt.attention = some ['1']
          session := (options.read paneOptionKeys Opt.session).filter fun v => !v.isEmpty
          subagents := ((options.read paneOptionKeys Opt.subagents).map splitWhitespace).getD [] } : StampedState)) :
        Shows options stamp := by
      subst hstamp
      refine ⟨?_, ?_, ?_, ?_, hsincelt, hpidlt, fun n hn => parseOptInt_lt (hhash.trans (congrArg _ hn))⟩
      · rw [hvalue (by decide), Options.value, hstate]
        exact AgentState.parse_eq hparse
      · rw [hvalue (by decide), Options.value]
        cases options.read paneOptionKeys Opt.attention <;> simp
      · rw [hvalue (by decide), Options.value]
        cases hread : options.read paneOptionKeys Opt.session with
        | none => rfl
        | some v =>
          have hv : v ≠ [] := fun hempty => hnoEmpty _ (hempty ▸ hread)
          simp [hv, Option.filter]
      · rw [subagentsOf, hvalue (by decide), Options.value]
        cases options.read paneOptionKeys Opt.subagents <;> rfl
    split <;> exact hshows _ rfl

/-- **A clean pane stores a stamp exactly when its state is set.** -/
theorem stored_cases (h : Clean options) :
    (stored options = none ∧ options.value Opt.state = []) ∨
      ∃ stamp, stored options = some stamp ∧ Shows options stamp := by
  by_cases hstate : options.value Opt.state = []
  · refine .inl ⟨?_, hstate⟩
    rw [stored, StampedState.fromOptions, read_of_empty hstate]
    rfl
  · obtain ⟨read, hread⟩ := h.decodes hstate
    refine .inr ⟨read.intoInner, ?_, shows_of_fromOptions hread⟩
    rw [stored, hread]
    rfl

theorem shows_of_stored {stamp : StampedState} (h : Clean options) (hstored : stored options = some stamp) :
    Shows options stamp := by
  rcases stored_cases h with ⟨hnone, -⟩ | ⟨other, hother, hshows⟩
  · rw [hnone] at hstored
    cases hstored
  · rw [hother] at hstored
    cases hstored
    exact hshows

theorem stored_since_lt (h : Clean options) : (stored options).elim 0 StampedState.since < 2 ^ 64 := by
  rcases stored_cases h with ⟨hnone, -⟩ | ⟨stamp, hsome, hshows⟩
  · rw [hnone]
    exact Nat.two_pow_pos 64
  · rw [hsome]
    exact hshows.since

/-! ## What edits leave -/

theorem value_of_unnamed {edits : List OptionEdit} {key : OptionKey} (h : ∀ edit ∈ edits, edit.key ≠ key) :
    (applyEdits edits options).value key = options.value key := by
  rw [Options.value, applyEdits_eq, lastEdit_eq_none h]
  rfl

theorem applyEdits_append (edits later : List OptionEdit) :
    applyEdits (edits ++ later) options = applyEdits later (applyEdits edits options) := List.foldl_append

theorem value_of_unset {keys : List OptionKey} {key : OptionKey} :
    (applyEdits (keys.map OptionEdit.unset) options).value key = if key ∈ keys then [] else options.value key := by
  induction keys generalizing options with
  | nil => simp [applyEdits]
  | cons first keys ih =>
    have hrest : applyEdits ((first :: keys).map OptionEdit.unset) options =
        applyEdits (keys.map OptionEdit.unset) ((OptionEdit.unset first).apply options) := rfl
    rw [hrest, ih, OptionEdit.value_apply]
    by_cases hfirst : key = first
    · simp [hfirst, OptionEdit.unset]
    · simp [hfirst, OptionEdit.unset]

section Publishes

variable {p : Publish} {prev : Option StampedState}

/-- The options a publish does not write. -/
theorem publish_unnamed {key : OptionKey} (hkey : key = Opt.session ∨ key = Opt.subagents) :
    ∀ edit ∈ advisoryEdits p prev, edit.key ≠ key := by
  intro edit hedit heq
  have hmem := @List.mem_map_of_mem _ _ _ _ OptionEdit.key hedit
  rw [heq, advisory_keys] at hmem
  revert hmem
  rcases hkey with rfl | rfl <;> cases p.setAttention <;> cases p.episodeReset <;> cases p.name.isEmpty <;>
    cases p.hash <;> simp only [Option.toList_none, Option.toList_some, List.map_nil, List.map_cons] <;> decide

theorem publish_state : (applyEdits (advisoryEdits p prev) options).value Opt.state = p.state.token :=
  @advisory_value p options prev (.set Opt.state p.state.token) (by simp [advisoryEdits, renderPublishAdvisory])

theorem publish_attention : (applyEdits (advisoryEdits p prev) options).value Opt.attention =
    if p.setAttention then ['1'] else if p.episodeReset then [] else options.value Opt.attention := by
  cases hset : p.setAttention with
  | true =>
    exact @advisory_value p options prev (.set Opt.attention ['1'])
      (by simp [advisoryEdits, renderPublishAdvisory, hset])
  | false =>
    cases hreset : p.episodeReset with
    | true =>
      exact @advisory_value p options prev (.unset Opt.attention)
        (by simp [advisoryEdits, renderPublishAdvisory, hset, hreset])
    | false =>
      refine value_of_unnamed fun edit hedit heq => ?_
      have hmem := @List.mem_map_of_mem _ _ _ _ OptionEdit.key hedit
      rw [heq, advisory_keys, hset, hreset] at hmem
      revert hmem
      cases p.name.isEmpty <;> cases p.hash <;>
        simp only [Option.toList_none, Option.toList_some, List.map_nil, List.map_cons] <;> decide

end Publishes

/-! ## What a step leaves -/

/-- The options a decision reads. -/
def decisive : List OptionKey := [Opt.state, Opt.attention, Opt.session, Opt.subagents]

theorem companion_unnamed (event : Event) {key : OptionKey} (hkey : isCompanion key = false) :
    ∀ edit ∈ event.companions, edit.key ≠ key := by
  intro edit hedit heq
  have hcompanion := event.companion edit hedit
  rw [heq, hkey] at hcompanion
  cases hcompanion

theorem decisive_not_companion {key : OptionKey} (h : key ∈ decisive) : isCompanion key = false := by
  simp only [decisive, List.mem_cons, List.not_mem_nil, or_false] at h
  rcases h with rfl | rfl | rfl | rfl <;> decide

/-- **An event without a plan for the pane leaves what decisions read.** -/
theorem hook_quiet {event : Event} (hplan : event.plan options = .unmapped ∨ event.plan options = .ignore)
    {key : OptionKey} (hkey : key ∈ decisive) :
    (Step.apply options (.hook event)).value key = options.value key := by
  rcases hplan with hplan | hplan <;> simp only [Step.apply, Event.edits, hplan]
  · exact value_of_unnamed (companion_unnamed event (decisive_not_companion hkey))
  · rfl

/-- **The bookkeeping writes the subagents alone.** -/
theorem hook_subagents {event : Event} {ids : List Text} (hplan : event.plan options = .subagents ids)
    {key : OptionKey} (hkey : key ∈ decisive) : (Step.apply options (.hook event)).value key =
      if key = Opt.subagents then List.intercalate [' '] ids else options.value key := by
  simp only [Step.apply, Event.edits, hplan]
  have hone : ∀ edit : OptionEdit, applyEdits (edit :: event.companions) options =
      applyEdits event.companions (edit.apply options) := fun _ => rfl
  rw [hone, value_of_unnamed (companion_unnamed event (decisive_not_companion hkey)), OptionEdit.value_apply]
  cases ids with
  | nil => by_cases hsub : key = Opt.subagents <;> simp [hsub, OptionEdit.unset]
  | cons id ids => by_cases hsub : key = Opt.subagents <;> simp [hsub, OptionEdit.set]

/-- **A deregistration takes the session and its subagents**, and with the agent gone the rest. -/
theorem hook_deregister {event : Event} (hplan : event.plan options = .deregister)
    {key : OptionKey} (hkey : key ∈ decisive) : (Step.apply options (.hook event)).value key =
      if key = Opt.session ∨ key = Opt.subagents ∨ event.running = false then [] else options.value key := by
  have hsession : key ∈ metadataKeys ↔ key = Opt.session ∨ key = Opt.subagents := by
    simp only [decisive, List.mem_cons, List.not_mem_nil, or_false] at hkey
    rcases hkey with rfl | rfl | rfl | rfl <;> decide
  have hrest : key ∈ removable ↔ ¬ (key = Opt.session ∨ key = Opt.subagents) := by
    simp only [decisive, List.mem_cons, List.not_mem_nil, or_false] at hkey
    rcases hkey with rfl | rfl | rfl | rfl <;> decide
  simp only [Step.apply, Event.edits, hplan]
  rw [applyEdits_append]
  cases hrunning : event.running with
  | true =>
    rw [if_pos rfl, applyEdits, List.foldl_nil, value_of_unset]
    simp only [hsession, or_false, Bool.true_eq_false]
  | false =>
    rw [if_neg Bool.false_ne_true, value_of_unset, value_of_unset]
    simp only [hsession, hrest, or_true, if_true]
    by_cases hown : key = Opt.session ∨ key = Opt.subagents
    · rw [if_neg (not_not_intro hown), if_pos hown]
    · rw [if_pos hown]

/-- **A stamp writes the state**, raises the mark or leaves it, and may record the session. -/
theorem hook_stamp {event : Event} {state : AgentState} {detail : Option Detail} {setAttention recordTurn notify : Bool}
    {registerSession : Option Text}
    (hplan : event.plan options = .stamp state detail setAttention registerSession recordTurn notify) :
    (Step.apply options (.hook event)).value Opt.state = state.token ∧
      (Step.apply options (.hook event)).value Opt.attention =
        (if setAttention then ['1'] else options.value Opt.attention) ∧
      (Step.apply options (.hook event)).value Opt.session = registerSession.getD (options.value Opt.session) ∧
      (Step.apply options (.hook event)).value Opt.subagents = options.value Opt.subagents := by
  simp only [Step.apply, Event.edits, hplan]
  rw [applyEdits_append, applyEdits_append, applyEdits_append]
  have hturn (options : Options) {key : OptionKey} (hkey : key ∈ decisive) :
      (applyEdits (if recordTurn then [.set Opt.turnAt (Text.decimal event.now)] else []) options).value key =
        options.value key := by
    refine value_of_unnamed fun edit hedit heq => ?_
    split at hedit
    · rw [List.mem_singleton.mp hedit] at heq
      have hkey' : Opt.turnAt = key := heq
      rw [← hkey'] at hkey
      revert hkey
      decide
    · cases hedit
  have hcompanions (options : Options) {key : OptionKey} (hkey : key ∈ decisive) :
      (applyEdits event.companions options).value key = options.value key :=
    value_of_unnamed (companion_unnamed event (decisive_not_companion hkey))
  have hregister (key : OptionKey) : (applyEdits (registerSession.toList.map (OptionEdit.set Opt.session)) options).value key =
      if key = Opt.session then registerSession.getD (options.value key) else options.value key := by
    cases registerSession with
    | none => simp [applyEdits]
    | some session =>
      have hone : applyEdits ((some session).toList.map (OptionEdit.set Opt.session)) options =
          (OptionEdit.set Opt.session session).apply options := rfl
      rw [hone, OptionEdit.value_apply]
      by_cases hkey : key = Opt.session <;> simp [hkey, OptionEdit.set]
  refine ⟨?_, ?_, ?_, ?_⟩
  · rw [hturn _ (by decide), publish_state]
    rfl
  · rw [hturn _ (by decide), publish_attention, hcompanions _ (by decide), hregister]
    rfl
  · rw [hturn _ (by decide), value_of_unnamed (publish_unnamed (.inl rfl)), hcompanions _ (by decide), hregister,
      if_pos rfl]
  · rw [hturn _ (by decide), value_of_unnamed (publish_unnamed (.inr rfl)), hcompanions _ (by decide), hregister]
    rfl

/-- The user's acknowledgement takes the mark down, and nothing else. -/
theorem clear_value (key : OptionKey) : (Step.apply options .clear).value key =
    if key = Opt.attention then [] else options.value key := by
  have hunset : Step.apply options .clear = applyEdits ([Opt.attention].map OptionEdit.unset) options := rfl
  rw [hunset, value_of_unset]
  simp only [List.mem_singleton]

/-! ## Clean panes -/

theorem metadata_readable {key : OptionKey} (h : key ∈ metadataKeys) (text : Text) : Readable key text := by
  have hall : ∀ key ∈ metadataKeys, key ∉ [Opt.state, Opt.source, Opt.pid] ++ stampIntegers := by decide
  exact readable_text (hall key h) text

theorem mem_metadataKeys_of_companion {key : OptionKey} (h : isCompanion key = true) : key ∈ metadataKeys := by
  simp only [isCompanion, Bool.and_eq_true] at h
  exact List.contains_iff_mem.mp h.1.1

theorem companions_readable (event : Event) : ∀ edit ∈ event.companions, Readable edit.key (edit.value.getD []) :=
  fun edit hedit => metadata_readable (mem_metadataKeys_of_companion (event.companion edit hedit)) _

theorem unset_readable (keys : List OptionKey) :
    ∀ edit ∈ keys.map OptionEdit.unset, Readable edit.key (edit.value.getD []) := by
  intro edit hedit
  obtain ⟨key, -, rfl⟩ := List.mem_map.mp hedit
  exact readable_nil key

/-- A hook's publish carries machine integers. -/
theorem hookPublish_inWords (h : Clean options) {pane : String} {state : AgentState} {detail : Option Detail}
    {setAttention : Bool} {name : Text} {now : Nat} (hnow : now < 2 ^ 64) :
    (hookPublish pane (stored options) state detail setAttention name now).InWords := by
  refine ⟨hnow, hnow, hnow, ?_, ?_⟩
  · rcases stored_cases h with ⟨hnone, -⟩ | ⟨stamp, hsome, hshows⟩
    · simp [hookPublish, hnone]
    · simpa [hookPublish, hsome] using hshows.pid
  · rcases stored_cases h with ⟨hnone, -⟩ | ⟨stamp, hsome, hshows⟩
    · simp [hookPublish, hnone]
    · simpa [hookPublish, hsome] using hshows.hash

/-- What a hook event writes is readable. -/
theorem edits_readable (h : Clean options) (event : Event) :
    ∀ edit ∈ event.edits options, Readable edit.key (edit.value.getD []) := by
  have hcompanions := companions_readable event
  intro edit hedit
  cases hplan : event.plan options with
  | ignore =>
    simp only [Event.edits, hplan] at hedit
    cases hedit
  | unmapped =>
    simp only [Event.edits, hplan] at hedit
    exact hcompanions edit hedit
  | subagents ids =>
    simp only [Event.edits, hplan, List.mem_cons] at hedit
    rcases hedit with rfl | hedit
    · split
      · exact readable_nil _
      · exact @readable_text Opt.subagents (by decide) _
    · exact hcompanions edit hedit
  | deregister =>
    simp only [Event.edits, hplan, List.mem_append] at hedit
    rcases hedit with hedit | hedit
    · exact unset_readable metadataKeys edit hedit
    · split at hedit
      · cases hedit
      · exact unset_readable removable edit hedit
  | stamp state detail setAttention registerSession recordTurn notify =>
    simp only [Event.edits, hplan, List.mem_append] at hedit
    rcases hedit with ((hedit | hedit) | hedit) | hedit
    · obtain ⟨session, -, rfl⟩ := List.mem_map.mp hedit
      exact @readable_text Opt.session (by decide) _
    · exact hcompanions edit hedit
    · exact advisory_readable (hookPublish_inWords h event.inWord) (stored_since_lt h) edit hedit
    · split at hedit
      · rw [List.mem_singleton.mp hedit]
        exact @readable_decimal Opt.turnAt _ (by decide) event.inWord
      · cases hedit

/-- **Every step leaves a clean pane clean.** -/
theorem clean_step (h : Clean options) (step : Step) : Clean (step.apply options) := by
  cases step with
  | hook event => exact h.applyEdits (edits_readable h event)
  | clear => exact h.applyEdits (unset_readable [Opt.attention])
  | screen publish inWords => exact h.applyEdits (advisory_readable inWords (stored_since_lt h))

theorem clean_run (h : Clean options) (steps : List Step) : Clean (run options steps) :=
  Run.invariant Step.apply Clean (fun _ step hclean => clean_step hclean step) h steps

end Hook

end TmuxAgents
