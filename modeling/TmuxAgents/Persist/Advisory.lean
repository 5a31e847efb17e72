/-
The advisory rendering of a publish beside the guarded one. The server expands
`onceSince` on the stored text; the client resolves the same rule from the
decoded stamp. Every other field is the same literal in both, so the two leave
options that differ in the text of `since` alone, and there in two spellings of
one number (`Agree`).
-/
import TmuxAgents.Persist.Decoding

namespace TmuxAgents

variable {numbers : Format.Numbers} {p : Publish} {options : Options} {prev : Option StampedState}

/-! ## Both renderings as writes -/

/-- What an edit writes, an unset option being the empty text. -/
def OptionEdit.write (edit : OptionEdit) : OptionKey × Format OptionKey := (edit.key, .literal (edit.value.getD []))

theorem value_applyEdits (edits : List OptionEdit) :
    (applyEdits edits options).value = Format.run numbers (edits.map OptionEdit.write) options.value := by
  induction edits generalizing options with
  | nil => rfl
  | cons edit edits ih =>
    have hrest : applyEdits (edit :: edits) options = applyEdits edits (edit.apply options) := rfl
    rw [hrest, ih, OptionEdit.value_apply, List.map_cons, Format.run_cons]
    rfl

/-- The since the client resolves. -/
def advisorySince (p : Publish) (prev : Option StampedState) : Nat :=
  if !p.episodeReset && prev.map StampedState.state == some p.state &&
      !sinceClockStepped (prev.elim 0 StampedState.since) p.stampedAt then
    prev.elim 0 StampedState.since
  else p.since

/-- The advisory rendering over the stamp its caller has read. -/
def advisoryEdits (p : Publish) (prev : Option StampedState) : List OptionEdit :=
  renderPublishAdvisory p (prev.map StampedState.state) (prev.elim 0 StampedState.since)

/-- The detail of the publish would not break the chain. -/
def Publish.SafeDetail (p : Publish) : Prop := ∀ d, p.detail = some d → safeDetail d.token.toList = d.token.toList

theorem safeDetail_eq (hsafe : p.SafeDetail) :
    safeDetail ((p.detail.map fun d => d.token.toList).getD []) = (p.detail.map fun d => d.token.toList).getD [] := by
  cases hdetail : p.detail with
  | none => rfl
  | some d => exact hsafe d hdetail

/-- The writes after `since`, which the two renderings share. -/
theorem advisory_writes (hreset : p.episodeReset = false) (hsafe : p.SafeDetail) :
    (advisoryEdits p prev).map OptionEdit.write =
      (Opt.since, .literal (Text.decimal (advisorySince p prev))) :: ((guardedFields p).tail ++ freshFields p) := by
  have hhash : (OptionEdit.write ∘ fun hash : Nat => OptionEdit.set Opt.hash (Text.decimal hash)) =
      fun hash => (Opt.hash, .literal (Text.decimal hash)) := rfl
  simp only [advisoryEdits, renderPublishAdvisory, guardedFields, freshFields, List.map_append, List.map_map,
    List.map_cons, List.map_nil, hhash, safeDetail_eq hsafe, hreset, Bool.false_eq_true, if_false, List.cons_append,
    List.nil_append, List.tail_cons, List.append_assoc, List.append_nil]
  cases p.setAttention <;> cases p.name.isEmpty <;> cases p.detail <;>
    simp [OptionEdit.write, OptionEdit.set, OptionEdit.unset, advisorySince, hreset]

/-- A reset is written plainly in both. -/
theorem reset_writes (hreset : p.episodeReset = true) :
    (renderPublish p).map StampCommand.write = (advisoryEdits p prev).map OptionEdit.write := by
  have hguarded : (StampCommand.write ∘ fun hash : Nat => StampCommand.setPlain p.paneId Opt.hash (Text.decimal hash)) =
      OptionEdit.write ∘ fun hash => OptionEdit.set Opt.hash (Text.decimal hash) := rfl
  simp only [advisoryEdits, renderPublishAdvisory, renderPublish, hreset, if_true, List.map_append, List.map_map,
    List.map_cons, List.map_nil, hguarded]
  cases p.setAttention <;> cases p.name.isEmpty <;> cases p.detail <;>
    simp [StampCommand.write, OptionEdit.write, OptionEdit.set, OptionEdit.unset]

/-! ## The guarded chain -/

/-- The guard is false on the prior options and after each command of the chain but the last. -/
def Unsuppressed (numbers : Format.Numbers) (p : Publish) (options : Options) : Prop :=
  ∀ k < (renderPublish p).length,
    p.guard.suppressFormat.test numbers (execAll numbers ((renderPublish p).take k) options).value = false

instance : Decidable (Unsuppressed numbers p options) := Nat.decidableBallLT _ _

theorem unsuppressed_commits (hreset : p.episodeReset = false) (h : Unsuppressed numbers p options) :
    (execAll numbers (renderPublish p) options).value =
      Format.run numbers (guardedFields p ++ freshFields p) options.value := by
  have hwrites := renderPublish_writes hreset
  rw [value_execAll, hwrites, Format.run_append, Format.run_append, Format.run_guarded_of_prefixes]
  intro k hk
  have hlength : k < (renderPublish p).length := by
    have hcount := congrArg List.length hwrites
    simp only [List.length_map, List.length_append, Format.guarded] at hcount
    omega
  have htest := h k hlength
  have hshort : k ≤ (Format.guarded p.guard.suppressFormat (guardedFields p)).length := by
    simp only [Format.guarded, List.length_map]
    omega
  rw [value_execAll, List.map_take, hwrites, List.take_append_of_le_length hshort] at htest
  rw [Format.guarded, List.map_take]
  exact htest

theorem shared_unread {write : OptionKey × Format OptionKey}
    (h : write ∈ (guardedFields p).tail ++ freshFields p) : write.1 ≠ Opt.since ∧ Opt.since ∉ write.2.reads := by
  rw [List.mem_append] at h
  rcases h with h | h
  · simp only [guardedFields_eq, leadingFields, List.cons_append, List.nil_append, List.tail_cons, List.mem_cons] at h
    rcases h with rfl | rfl | rfl | rfl | h
    · simp [Format.reads, Opt.state, Opt.since]
    · simp [Format.reads, Opt.detail, Opt.since]
    · simp [Format.reads, Opt.source, Opt.since]
    · simp [Format.reads, Opt.evidenceAt, Opt.since]
    · simp only [attentionField] at h
      split at h
      · rw [List.mem_singleton.mp h]
        simp [Format.reads, Opt.attention, Opt.since]
      · cases h
  · have hkey := freshFields_keys (List.mem_map_of_mem h)
    simp only [freshFields, List.mem_append, List.mem_map, List.mem_singleton] at h
    have hreads : write.2.reads = [] := by
      rcases h with ((⟨_, -, rfl⟩ | rfl) | h) | rfl
      · rfl
      · rfl
      · split at h <;> simp_all [Format.reads]
      · rfl
    rw [hreads]
    refine ⟨fun hsame => ?_, List.not_mem_nil⟩
    rw [hsame] at hkey
    revert hkey
    decide

/-! ## Since -/

/-- Two texts that are one, or spell one number. -/
def SameNumber (a b : Text) : Prop := a = b ∨ ∃ n, Format.number a = some n ∧ Format.number b = some n

/-- **The server's rule and the client's keep or take the same number.** -/
theorem onceSince_number (lawful : numbers.Lawful) (hreset : p.episodeReset = false) (hdec : Decodes options prev) :
    SameNumber ((onceSince p).expand numbers options.value) (Text.decimal (advisorySince p prev)) := by
  rw [onceSince_expand]
  cases prev with
  | none =>
    have hnew : ¬ options.value Opt.state = p.state.token := by
      rw [hdec.none_state]
      cases p.state <;> decide
    rw [if_neg fun hboth => hnew hboth.1]
    exact .inl (by simp [advisorySince])
  | some stamp =>
    have hlimit := lawful.le_eq hdec.2.1 (Format.number_decimal (sinceLimit_lt p))
    have htoken : options.value Opt.state = p.state.token ↔ stamp.state = p.state := by
      rw [hdec.state]
      exact ⟨AgentState.token_injective, congrArg _⟩
    have hstored : Format.number (Text.decimal stamp.since) = some stamp.since :=
      Format.number_decimal (Format.number_lt hdec.2.1)
    have hstranded : sinceClockStepped stamp.since p.stampedAt = decide (sinceLimit p < stamp.since) := rfl
    by_cases hkeep : stamp.state = p.state ∧ stamp.since ≤ sinceLimit p
    · refine .inr ⟨stamp.since, ?_, ?_⟩
      · rw [if_pos ⟨htoken.mpr hkeep.1, hlimit.trans (decide_eq_true hkeep.2)⟩]
        exact hdec.2.1
      · simp [advisorySince, hreset, hkeep.1, hstranded, hkeep.2, hstored]
    · refine .inl ?_
      have hfresh : ¬ (options.value Opt.state = p.state.token ∧
          numbers.le (options.value Opt.since) (Text.decimal (sinceLimit p)) = true) := by
        rw [htoken, hlimit, decide_eq_true_iff]
        exact hkeep
      rw [if_neg hfresh]
      rw [not_and, Nat.not_le] at hkeep
      simp only [advisorySince, hreset, Option.map_some, Option.elim_some, hstranded]
      by_cases hsame : stamp.state = p.state
      · simp [hsame, hkeep hsame]
      · simp [hsame]

/-! ## The decoded stamps -/

/-- The options the two renderings leave: alike, but for the spelling of one `since`. -/
structure Agree (a b : Options) : Prop where
  others : ∀ key, key ≠ Opt.since → a.value key = b.value key
  since : SameNumber (a.value Opt.since) (b.value Opt.since)

/-- A decoded stamp does not see how `since` is spelt. -/
theorem Agree.decode {a b : Options} (h : Agree a b) :
    StampedState.fromOptions (a.read paneOptionKeys) = StampedState.fromOptions (b.read paneOptionKeys) := by
  have hread (key : OptionKey) (hkey : key ≠ Opt.since) : a.read paneOptionKeys key = b.read paneOptionKeys key :=
    read_eq_of_value (h.others key hkey)
  have hint (key : OptionKey) (hkey : key ≠ Opt.since) :
      parseInt (a.read paneOptionKeys) key = parseInt (b.read paneOptionKeys) key := by
    rw [parseInt, hread key hkey, parseInt]
  have hsince : parseInt (a.read paneOptionKeys) Opt.since = parseInt (b.read paneOptionKeys) Opt.since := by
    rw [parseInt_read (by decide), parseInt_read (by decide)]
    rcases h.since with hsame | ⟨n, ha, hb⟩
    · rw [hsame]
    · rw [ha, hb]
      rfl
  have hpid : parsePid (a.read paneOptionKeys) = parsePid (b.read paneOptionKeys) := by
    simp only [parsePid, hint Opt.pid (by decide), Options.value, hread Opt.pid (by decide)]
  simp only [StampedState.fromOptions, parseSource, parseOptInt, hsince, hpid, hread Opt.state (by decide),
    hread Opt.detail (by decide), hread Opt.source (by decide), hint Opt.evidenceAt (by decide),
    hint Opt.stampedAt (by decide), hread Opt.notifiedAt (by decide), hint Opt.turnAt (by decide),
    hread Opt.hash (by decide), hread Opt.attention (by decide), hread Opt.session (by decide),
    hread Opt.subagents (by decide)]

/-- **The two renderings agree**, where the chain is not suppressed. -/
theorem renderings_agree (lawful : numbers.Lawful) (hdec : Decodes options prev) (hsafe : p.SafeDetail)
    (hopen : p.episodeReset = false → Unsuppressed numbers p options) :
    Agree (execAll numbers (renderPublish p) options) (applyEdits (advisoryEdits p prev) options) := by
  cases hreset : p.episodeReset with
  | true =>
    have hsame : (execAll numbers (renderPublish p) options).value =
        (applyEdits (advisoryEdits p prev) options).value := by
      rw [value_execAll, reset_writes hreset, value_applyEdits]
    exact ⟨fun key _ => congrFun hsame key, .inl (congrFun hsame _)⟩
  | false =>
    have hrest (value : Text) :
        Format.run numbers ((guardedFields p).tail ++ freshFields p) (Function.update options.value Opt.since value) =
          Function.update (Format.run numbers ((guardedFields p).tail ++ freshFields p) options.value) Opt.since value :=
      Format.run_update fun write => shared_unread
    have hguarded := unsuppressed_commits hreset (hopen hreset)
    have hadvisory := @value_applyEdits numbers options (advisoryEdits p prev)
    have hfields : guardedFields p ++ freshFields p =
        (Opt.since, onceSince p) :: ((guardedFields p).tail ++ freshFields p) := rfl
    rw [hfields, Format.run_cons, hrest] at hguarded
    rw [advisory_writes hreset hsafe, Format.run_cons, hrest] at hadvisory
    refine ⟨fun key hkey => ?_, ?_⟩
    · rw [hguarded, hadvisory, Function.update_of_ne hkey, Function.update_of_ne hkey]
    · rw [hguarded, hadvisory, Function.update_self, Function.update_self]
      exact onceSince_number lawful hreset hdec

/-- The fields of a publish are machine integers. -/
def Publish.InWords (p : Publish) : Prop :=
  p.evidenceAt < 2 ^ 64 ∧ p.since < 2 ^ 64 ∧ p.stampedAt < 2 ^ 64 ∧ p.pid < 2 ^ 32 ∧ ∀ hash ∈ p.hash, hash < 2 ^ 64

instance : Decidable p.InWords := inferInstanceAs (Decidable (_ ∧ _))

/-- The options the rendering names. -/
theorem advisory_keys : (advisoryEdits p prev).map OptionEdit.key =
    [Opt.since, Opt.state, Opt.detail, Opt.source, Opt.evidenceAt] ++
      (if p.setAttention || p.episodeReset then [Opt.attention] else []) ++
      (if p.episodeReset then [Opt.notifiedAt, Opt.turnAt] else []) ++ (p.hash.toList.map fun _ => Opt.hash) ++
      [Opt.pid] ++ (if p.name.isEmpty then [] else [Opt.name]) ++ [Opt.stampedAt] := by
  simp only [advisoryEdits, renderPublishAdvisory]
  cases p.setAttention <;> cases p.episodeReset <;> cases p.name.isEmpty <;> cases p.detail <;> cases p.hash <;>
    simp [OptionEdit.set, OptionEdit.unset]

theorem advisory_nodup : ((advisoryEdits p prev).map OptionEdit.key).Nodup := by
  rw [advisory_keys]
  cases p.setAttention <;> cases p.episodeReset <;> cases p.name.isEmpty <;> cases p.hash <;>
    simp only [Option.toList_none, Option.toList_some, List.map_nil, List.map_cons] <;> decide

/-- An edit of the rendering stands. -/
theorem advisory_value {edit : OptionEdit} (h : edit ∈ advisoryEdits p prev) :
    (applyEdits (advisoryEdits p prev) options).value edit.key = edit.value.getD [] := by
  have hlast := lastEdit_eq h fun other hother hkey => List.inj_on_of_nodup_map advisory_nodup hother h hkey
  rw [Options.value, applyEdits_eq, hlast]
  rfl

theorem advisorySince_lt (h : p.InWords) (hprev : prev.elim 0 StampedState.since < 2 ^ 64) :
    advisorySince p prev < 2 ^ 64 := by
  simp only [advisorySince]
  split
  · exact hprev
  · exact h.2.1

/-- The rendering writes what the decoder reads. -/
theorem advisory_readable (h : p.InWords) (hprev : prev.elim 0 StampedState.since < 2 ^ 64) :
    ∀ edit ∈ advisoryEdits p prev, Readable edit.key (edit.value.getD []) := by
  intro edit hedit
  simp only [advisoryEdits, renderPublishAdvisory, List.mem_append, List.mem_cons, List.not_mem_nil, or_false,
    List.mem_map, Option.mem_toList] at hedit
  rcases hedit with ((((((rfl | rfl | rfl | rfl | rfl) | hflag) | hreset) | ⟨hash, hhash, rfl⟩) | rfl) | hname) | rfl
  · exact @readable_decimal Opt.since _ (by decide) (advisorySince_lt h hprev)
  · exact readable_state p.state
  · cases p.detail with
    | none => exact readable_nil _
    | some d => exact @readable_text Opt.detail (by decide) _
  · exact readable_source p.source
  · exact @readable_decimal Opt.evidenceAt _ (by decide) h.1
  · split at hflag
    · rw [List.mem_singleton.mp hflag]
      exact @readable_text Opt.attention (by decide) _
    · split at hflag
      · rw [List.mem_singleton.mp hflag]
        exact readable_nil _
      · cases hflag
  · split at hreset
    · simp only [List.mem_cons, List.not_mem_nil, or_false] at hreset
      rcases hreset with rfl | rfl <;> exact readable_nil _
    · cases hreset
  · exact @readable_decimal Opt.hash _ (by decide) (h.2.2.2.2 hash hhash)
  · exact readable_pid h.2.2.2.1
  · split at hname
    · cases hname
    · rw [List.mem_singleton.mp hname]
      exact @readable_text Opt.name (by decide) _
  · exact @readable_decimal Opt.stampedAt _ (by decide) h.2.2.1

/-- **The advisory rendering agrees with the guarded one.** Over a pane without a stamp, or with one
in milliseconds, a publish whose guard suppresses nothing on its way leaves options that decode to
the same stamp by either rendering. Every option but `since` is the same text, and `since` is one
number. Over a stamp, or a pane without options, what they decode to is a stamp. -/
theorem advisory_refines_guarded (lawful : numbers.Lawful) (hdec : Decodes options prev) (hsafe : p.SafeDetail)
    (hopen : p.episodeReset = false → Unsuppressed numbers p options) :
    StampedState.fromOptions ((execAll numbers (renderPublish p) options).read paneOptionKeys) =
        StampedState.fromOptions ((applyEdits (advisoryEdits p prev) options).read paneOptionKeys) ∧
      Agree (execAll numbers (renderPublish p) options) (applyEdits (advisoryEdits p prev) options) ∧
      (p.InWords → (prev.isSome = true ∨ options = fun _ => none) →
        ∃ read, StampedState.fromOptions ((execAll numbers (renderPublish p) options).read paneOptionKeys) =
          .ok (some read)) := by
  have hagree := renderings_agree lawful hdec hsafe hopen
  refine ⟨hagree.decode, hagree, fun hwords hprior => ?_⟩
  obtain ⟨hclean, hprev⟩ : Clean options ∧ prev.elim 0 StampedState.since < 2 ^ 64 := by
    rcases hprior with hsome | rfl
    · obtain ⟨stamp, rfl⟩ := Option.isSome_iff_exists.mp hsome
      exact ⟨clean_of_decodes ⟨_, hdec.1⟩, Format.number_lt hdec.2.1⟩
    · refine ⟨clean_nil, ?_⟩
      cases prev with
      | none => exact Nat.two_pow_pos 64
      | some stamp => exact Format.number_lt hdec.2.1
  have hstate : (applyEdits (advisoryEdits p prev) options).value Opt.state = p.state.token :=
    @advisory_value p options prev (.set Opt.state p.state.token) (by simp [advisoryEdits, renderPublishAdvisory])
  rw [hagree.decode]
  refine (hclean.applyEdits (advisory_readable hwords hprev)).decodes ?_
  rw [hstate]
  cases p.state <;> decide

/-- A pane whose `since` a clock step left in the future. -/
def strandedPane : Options := applyEdits [.set Opt.since "1800000900000".toList] workingPane

def strandedStamp : StampedState := { workingStamp with since := 1800000900000 }

theorem advisory_refines_guarded_stranded :
    StampedState.fromOptions ((execAll .integers (renderPublish (polled .capture)) strandedPane).read paneOptionKeys) =
      StampedState.fromOptions
        ((applyEdits (advisoryEdits (polled .capture) (some strandedStamp)) strandedPane).read paneOptionKeys) := by
  have hdec : Decodes strandedPane (some strandedStamp) := ⟨by decide +kernel, by decide +kernel, by decide +kernel⟩
  have hsafe : (polled .capture).SafeDetail := by
    intro d hd
    cases hd
  exact (advisory_refines_guarded Format.Numbers.integers_lawful hdec hsafe fun _ => by decide +kernel).1

end TmuxAgents
