/-
The chain of a guarded publish commits or holds as one, and leaves what the poll
row shows. A guard reads the stored source, evidence time and state; the fields
written before those leave it as it was, so what is left is the guard after its
own write of each (`chain_commits`).

One chain does not: a hook event over a stamp of another source with newer
evidence (`Tears`). Its guard turns true once the source is written.
-/
import TmuxAgents.Persist.PublicationFacts
import TmuxAgents.Persist.Render

namespace TmuxAgents

variable {numbers : Format.Numbers} {p : Publish} {options : Options}

/-! ## Execution -/

/-- What a command writes, an unset option being the empty text. -/
def StampCommand.write : StampCommand → OptionKey × Format OptionKey
  | .setFmt _ key value => (key, value)
  | .setPlain _ key value => (key, .literal value)
  | .unsetPane _ key => (key, .literal [])

theorem OptionEdit.value_apply (edit : OptionEdit) (options : Options) :
    (edit.apply options).value = Function.update options.value edit.key (edit.value.getD []) := by
  funext key
  by_cases h : key = edit.key
  · rw [h, Function.update_self]
    simp only [Options.value, apply, if_true]
  · rw [Function.update_of_ne h]
    simp only [Options.value, apply, if_neg h]

theorem StampCommand.value_exec (command : StampCommand) :
    (command.exec numbers options).value =
      Function.update options.value command.write.1 (command.write.2.expand numbers options.value) := by
  cases command <;> exact OptionEdit.value_apply _ _

theorem value_execAll (commands : List StampCommand) :
    (execAll numbers commands options).value =
      Format.run numbers (commands.map StampCommand.write) options.value := by
  induction commands generalizing options with
  | nil => rfl
  | cons command commands ih =>
    have hrest : execAll numbers (command :: commands) options =
        execAll numbers commands (command.exec numbers options) := rfl
    rw [hrest, ih, StampCommand.value_exec, List.map_cons, Format.run_cons]

/-- The fields every publish writes, after the guarded ones. -/
def freshFields (p : Publish) : List (OptionKey × Format OptionKey) :=
  p.hash.toList.map (fun hash => (Opt.hash, .literal (Text.decimal hash))) ++
    [(Opt.pid, .literal (Text.decimal p.pid))] ++ (if p.name.isEmpty then [] else [(Opt.name, .literal p.name)]) ++
    [(Opt.stampedAt, .literal (Text.decimal p.stampedAt))]

theorem renderPublish_writes (h : p.episodeReset = false) :
    (renderPublish p).map StampCommand.write =
      Format.guarded p.guard.suppressFormat (guardedFields p) ++ freshFields p := by
  have hguarded : (StampCommand.write ∘ fun field : OptionKey × Format OptionKey =>
      StampCommand.setFmt p.paneId field.1 field.2) = id := rfl
  have hhash : (StampCommand.write ∘ fun hash : Nat => StampCommand.setPlain p.paneId Opt.hash (Text.decimal hash)) =
      fun hash => (Opt.hash, .literal (Text.decimal hash)) := rfl
  simp only [renderPublish, h, Bool.false_eq_true, if_false, List.map_append, List.map_map, hguarded, hhash,
    List.map_id, freshFields, List.append_assoc]
  split <;> rfl

theorem freshFields_keys {key : OptionKey} (h : key ∈ (freshFields p).map Prod.fst) :
    key ∈ [Opt.hash, Opt.pid, Opt.name, Opt.stampedAt] := by
  simp only [freshFields, List.map_append, List.map_map, List.mem_append, List.mem_map, List.map_cons, List.map_nil,
    List.mem_singleton] at h
  rcases h with ((⟨_, -, rfl⟩ | rfl) | h) | rfl
  · simp
  · simp
  · split at h <;> simp_all
  · simp

/-- A field outside the fresh ones is what the guarded chain leaves. -/
theorem value_publish (h : p.episodeReset = false) {key : OptionKey}
    (hkey : key ∉ [Opt.hash, Opt.pid, Opt.name, Opt.stampedAt]) :
    (execAll numbers (renderPublish p) options).value key =
      Format.run numbers (Format.guarded p.guard.suppressFormat (guardedFields p)) options.value key := by
  rw [value_execAll, renderPublish_writes h, Format.run_append]
  exact Format.run_of_not_mem fun hin => hkey (freshFields_keys hin)

/-! ## The text of the formats -/

theorem plain_decimal (n : Nat) : Format.plain (Text.decimal n) = true := by
  refine List.all_eq_true.mpr fun c hc => ?_
  have hdigit := Text.isDigit_of_mem_decimal hc
  simp only [List.contains_cons, List.contains_nil, Bool.or_false, Bool.not_or, Bool.and_eq_true,
    Bool.not_eq_true', beq_eq_false_iff_ne, ne_eq]
  refine ⟨?_, ?_, ?_, ?_⟩ <;> rintro rfl <;> revert hdigit <;> decide

theorem plain_state (state : AgentState) : Format.plain state.token = true := by cases state <;> decide

theorem plain_source (source : StampProvenance) : Format.plain source.token = true := by cases source <;> decide

theorem plain_safeDetail (detail : Text) : Format.plain (safeDetail detail) = true := by
  rw [safeDetail]
  split
  · rfl
  next h =>
    rw [List.any_eq_true] at h
    refine List.all_eq_true.mpr fun c hc => ?_
    by_contra hbad
    exact h ⟨c, hc, by simp_all⟩

theorem suppressFormat_plain (guard : Guard) : guard.suppressFormat.Plain := by
  cases guard <;> simp [Guard.suppressFormat, Guard.sourceIsHook, Format.Plain, plain_decimal, plain_state,
    plain_source] <;> decide

theorem guardedFields_plain : ∀ field ∈ guardedFields p, field.2.Plain := by
  intro field h
  simp only [guardedFields, List.cons_append, List.nil_append, List.mem_cons] at h
  rcases h with rfl | rfl | rfl | rfl | rfl | h
  · exact ⟨⟨⟨trivial, plain_state _⟩, trivial, plain_decimal _⟩, trivial, plain_decimal _⟩
  · exact plain_state _
  · exact plain_safeDetail _
  · exact plain_source _
  · exact plain_decimal _
  · split at h
    · rw [List.mem_singleton.mp h]
      exact (by decide : Format.plain ['1'] = true)
    · cases h

/-- **Every spliced text is plain**: no value ends or splits the format it is spliced into. -/
theorem renderPublish_plain {pane : String} {key : OptionKey} {value : Format OptionKey}
    (h : StampCommand.setFmt pane key value ∈ renderPublish p) : value.Plain := by
  have hmem : (key, value) ∈ Format.guarded p.guard.suppressFormat (guardedFields p) := by
    cases hreset : p.episodeReset with
    | false => cases hname : p.name.isEmpty <;> simp_all [renderPublish]
    | true =>
      -- the reset tuple is written plainly
      cases hname : p.name.isEmpty <;> cases hdetail : p.detail <;> cases hattention : p.setAttention <;>
        simp_all [renderPublish]
  exact Format.guarded_plain (suppressFormat_plain _) guardedFields_plain _ hmem

/-! ## The guards -/

section Tests

variable {env : OptionKey → Text}

theorem test_sourceIsHook :
    Guard.sourceIsHook.test numbers env = decide (env Opt.source = StampProvenance.hook.token) :=
  Format.truthy_flag _

theorem test_carveOut (captureAt : Nat) :
    (Guard.carveOut captureAt).suppressFormat.test numbers env =
      (decide (env Opt.source = StampProvenance.hook.token) &&
        numbers.le (Text.decimal captureAt) (env Opt.evidenceAt)) := by
  rw [Guard.suppressFormat, Format.test, Format.expand, Format.truthy_flag]
  refine congrArg₂ and test_sourceIsHook ?_
  exact Format.truthy_flag _

theorem test_hookArbitrate (evidenceAt : Nat) :
    (Guard.hookArbitrate evidenceAt).suppressFormat.test numbers env =
      (decide (env Opt.source = StampProvenance.hook.token) &&
        numbers.lt (Text.decimal evidenceAt) (env Opt.evidenceAt)) := by
  rw [Guard.suppressFormat, Format.test, Format.expand, Format.truthy_flag]
  refine congrArg₂ and test_sourceIsHook ?_
  exact Format.truthy_flag _

theorem test_refreshClaim (state : AgentState) :
    (Guard.refreshClaim state).suppressFormat.test numbers env = !decide (env Opt.state = state.token) := by
  simp only [Guard.suppressFormat, Format.test, Format.expand, Format.truthy_flag]
  by_cases h : env Opt.state = state.token
  · simp [h, Format.truthy]
  · simp [h, Format.truthy]

end Tests

/-- The comparisons of a number with an option's text. -/
def comparison (numbers : Format.Numbers) : Comparison where
  le n text := numbers.le (Text.decimal n) text
  lt n text := numbers.lt (Text.decimal n) text

/-- The guard's text says what the transaction's predicate does. -/
theorem suppressFormat_test (guard : Guard) (pane : Pane) :
    guard.suppressFormat.test numbers pane.options.value = guard.suppressExpr (comparison numbers) pane := by
  cases guard with
  | unconditional => rfl
  | protectHook => exact test_sourceIsHook
  | carveOut captureAt => exact test_carveOut captureAt
  | refreshClaim state => exact test_refreshClaim state
  | hookArbitrate evidenceAt => exact test_hookArbitrate evidenceAt

/-- The guards a producer chooses, with what its publish carries beside them. -/
theorem Produced.guard_cases (h : Produced p) (hreset : p.episodeReset = false) :
    p.guard = .unconditional ∨ (p.guard = .refreshClaim p.state ∧ p.source = .hook) ∨
      ((p.guard = .carveOut p.evidenceAt ∨ p.guard = .protectHook) ∧ p.source ≠ .hook) ∨
      (p.guard = .hookArbitrate p.evidenceAt ∧ p.source = .hook) := by
  cases h with
  | hook => exact .inr (.inr (.inr ⟨rfl, rfl⟩))
  | @poll paneId v pid name hash now _ hplan =>
    simp only [planFromVerdict] at hplan
    split at hplan
    · cases hplan
    · injection hplan with hplan
      subst hplan
      simp only at hreset ⊢
      simp only [guardForVerdict, hreset, Bool.false_eq_true, if_false]
      by_cases hover : v.writes.mayOverride = true
      · simp [hover]
      · by_cases hstate : v.state = .blocked <;> cases hsource : v.winningEvidence.source <;> simp [hover, hstate]

/-! ## Commit or hold -/

/-- A hook event over a stamp of another source whose evidence is newer. -/
def Tears (numbers : Format.Numbers) (p : Publish) (options : Options) : Prop :=
  ∃ evidenceAt, p.guard = .hookArbitrate evidenceAt ∧
    options.value Opt.source ≠ StampProvenance.hook.token ∧
    numbers.lt (Text.decimal evidenceAt) (options.value Opt.evidenceAt) = true

theorem StampProvenance.token_injective {a b : StampProvenance} (h : a.token = b.token) : a = b := by
  revert h
  cases a <;> cases b <;> decide

/-- The fields written before the source. -/
def leadingFields (p : Publish) : List (OptionKey × Format OptionKey) :=
  [(Opt.since, onceSince p), (Opt.state, .literal p.state.token),
    (Opt.detail, .literal (safeDetail ((p.detail.map fun d => d.token.toList).getD [])))]

def attentionField (p : Publish) : List (OptionKey × Format OptionKey) :=
  if p.setAttention then [(Opt.attention, .literal ['1'])] else []

theorem attentionField_keys {field : OptionKey × Format OptionKey} (h : field ∈ attentionField p) :
    field.1 = Opt.attention := by
  simp only [attentionField] at h
  split at h
  · rw [List.mem_singleton.mp h]
  · cases h

theorem guardedFields_eq (p : Publish) :
    guardedFields p = leadingFields p ++ (Opt.source, .literal p.source.token) ::
      (Opt.evidenceAt, .literal (Text.decimal p.evidenceAt)) :: attentionField p := rfl

section Chain

variable {env : OptionKey → Text} {suppress : Format OptionKey}

theorem leadingFields_unread (hreads : ∀ key ∈ suppress.reads, key = Opt.source ∨ key = Opt.evidenceAt) :
    ∀ write ∈ leadingFields p, write.1 ∉ suppress.reads := by
  intro write hw hin
  have hkey := hreads write.1 hin
  simp only [leadingFields, List.mem_cons, List.not_mem_nil, or_false] at hw
  rcases hw with rfl | rfl | rfl <;> revert hkey <;> simp [Opt.since, Opt.state, Opt.detail, Opt.source, Opt.evidenceAt]

theorem attentionField_unread (hreads : ∀ key ∈ suppress.reads, key = Opt.source ∨ key = Opt.evidenceAt) :
    ∀ write ∈ attentionField p, write.1 ∉ suppress.reads := by
  intro write hw hin
  have hkey := hreads write.1 hin
  rw [attentionField_keys hw] at hkey
  revert hkey
  simp [Opt.attention, Opt.source, Opt.evidenceAt]

/-- The option values once the source is written. -/
def afterSource (numbers : Format.Numbers) (p : Publish) (env : OptionKey → Text) : OptionKey → Text :=
  Function.update (Format.run numbers (leadingFields p) env) Opt.source p.source.token

theorem afterSource_source : afterSource numbers p env Opt.source = p.source.token := Function.update_self ..

theorem afterSource_evidenceAt : afterSource numbers p env Opt.evidenceAt = env Opt.evidenceAt := by
  rw [afterSource, Function.update_of_ne (by decide)]
  exact Format.run_of_not_mem (by simp [leadingFields, Opt.evidenceAt, Opt.since, Opt.state, Opt.detail])

/-- A guard on the source and the evidence time that is false at the start lets the source
through. -/
theorem chain_front (h : suppress.test numbers env = false)
    (hreads : ∀ key ∈ suppress.reads, key = Opt.source ∨ key = Opt.evidenceAt) :
    Format.run numbers (Format.guarded suppress (guardedFields p)) env =
      Format.run numbers
        (Format.guarded suppress ((Opt.evidenceAt, .literal (Text.decimal p.evidenceAt)) :: attentionField p))
        (afterSource numbers p env) := by
  have hlead := @leadingFields_unread p suppress hreads
  have hmid : suppress.test numbers (Format.run numbers (leadingFields p) env) = false := by
    rw [Format.test_run hlead]
    exact h
  rw [guardedFields_eq, Format.run_guarded_append h hlead, Format.run_guarded_cons hmid]
  rfl

/-- Such a guard has to be false after the source is written, and after the evidence time is. -/
theorem chain_source (h : suppress.test numbers env = false)
    (hreads : ∀ key ∈ suppress.reads, key = Opt.source ∨ key = Opt.evidenceAt)
    (hsource : ∀ env' : OptionKey → Text, env' Opt.evidenceAt = env Opt.evidenceAt →
      env' Opt.source = p.source.token → suppress.test numbers env' = false)
    (hevidence : ∀ env' : OptionKey → Text, env' Opt.evidenceAt = Text.decimal p.evidenceAt →
      env' Opt.source = p.source.token → suppress.test numbers env' = false) :
    Format.run numbers (Format.guarded suppress (guardedFields p)) env = Format.run numbers (guardedFields p) env := by
  have hplain : Format.run numbers (guardedFields p) env =
      Format.run numbers ((Opt.evidenceAt, .literal (Text.decimal p.evidenceAt)) :: attentionField p)
        (afterSource numbers p env) := by
    rw [guardedFields_eq, Format.run_append, Format.run_cons]
    rfl
  rw [chain_front h hreads, hplain, Format.run_cons,
    Format.run_guarded_cons (hsource _ afterSource_evidenceAt afterSource_source)]
  refine Format.run_guarded_of_unread (hevidence _ (Function.update_self ..) ?_) (attentionField_unread hreads)
  have hother : Opt.source ≠ Opt.evidenceAt := by decide
  exact (Function.update_of_ne hother _ _).trans afterSource_source

/-- A guard on the state, which the chain only writes back. -/
theorem chain_state (h : (Guard.refreshClaim p.state).suppressFormat.test numbers env = false) :
    Format.run numbers (Format.guarded (Guard.refreshClaim p.state).suppressFormat (guardedFields p)) env =
      Format.run numbers (guardedFields p) env := by
  have hreads : ∀ key ∈ (Guard.refreshClaim p.state).suppressFormat.reads, key = Opt.state := by
    simp [Guard.suppressFormat, Format.reads]
  have hsince : Opt.since ∉ (Guard.refreshClaim p.state).suppressFormat.reads :=
    fun hin => absurd (hreads _ hin) (by decide)
  have hrest : ∀ write ∈ (guardedFields p).drop 2, write.1 ∉ (Guard.refreshClaim p.state).suppressFormat.reads := by
    intro write hw hin
    have hkey := hreads _ hin
    simp only [guardedFields_eq, leadingFields, List.cons_append, List.nil_append, List.drop_succ_cons,
      List.drop_zero, List.mem_cons] at hw
    rcases hw with rfl | rfl | rfl | hw
    all_goals first | rw [attentionField_keys hw] at hkey | skip
    all_goals revert hkey; simp [Opt.detail, Opt.source, Opt.evidenceAt, Opt.attention, Opt.state]
  have hsplit : guardedFields p =
      (Opt.since, onceSince p) :: (Opt.state, .literal p.state.token) :: (guardedFields p).drop 2 := rfl
  rw [hsplit, Format.run_guarded_cons h, Format.run_guarded_cons ((Format.test_update hsince).trans h),
    Format.run_guarded_of_unread _ hrest, Format.run_cons, Format.run_cons]
  simp [test_refreshClaim, Format.expand]

end Chain

/-- **The chain of a produced publish commits.** Where its guard is false at the start it is
false at every field, unless the chain tears. -/
theorem chain_commits (lawful : numbers.Lawful) (hp : Produced p) (hreset : p.episodeReset = false)
    (hrange : p.evidenceAt < 2 ^ 64) (htear : ¬ Tears numbers p options)
    (h : p.guard.suppressFormat.test numbers options.value = false) :
    Format.run numbers (Format.guarded p.guard.suppressFormat (guardedFields p)) options.value =
      Format.run numbers (guardedFields p) options.value := by
  rcases hp.guard_cases hreset with hguard | ⟨hguard, -⟩ | ⟨hguard, hsource⟩ | ⟨hguard, hsource⟩
  · refine Format.run_guarded_of_unread h fun write _ hin => ?_
    rw [hguard] at hin
    cases hin
  · rw [hguard] at h ⊢
    exact chain_state h
  · -- the source it writes is not a hook's, so the guard stays false from there on
    have hoff : ∀ env' : OptionKey → Text, env' Opt.source = p.source.token →
        p.guard.suppressFormat.test numbers env' = false := by
      intro env' henv
      have hne : ¬ env' Opt.source = StampProvenance.hook.token := by
        rw [henv]
        exact fun heq => hsource (StampProvenance.token_injective heq)
      rcases hguard with hguard | hguard
      · rw [hguard, test_carveOut, decide_eq_false hne, Bool.false_and]
      · rw [hguard]
        exact test_sourceIsHook.trans (decide_eq_false hne)
    refine chain_source h ?_ (fun env' _ => hoff env') fun env' _ => hoff env'
    rcases hguard with hguard | hguard <;> rw [hguard] <;> simp [Guard.suppressFormat, Guard.sourceIsHook, Format.reads]
  · -- the source it writes is a hook's: the stored evidence must not be newer, nor its own
    have hstored : numbers.lt (Text.decimal p.evidenceAt) (options.value Opt.evidenceAt) = false := by
      rw [hguard, test_hookArbitrate, Bool.and_eq_false_iff, decide_eq_false_iff_not] at h
      rcases h with h | h
      · exact Bool.eq_false_iff.mpr fun hlt => htear ⟨p.evidenceAt, hguard, h, hlt⟩
      · exact h
    have hown : numbers.lt (Text.decimal p.evidenceAt) (Text.decimal p.evidenceAt) = false := by
      rw [lawful.lt_eq (Format.number_decimal hrange) (Format.number_decimal hrange)]
      simp
    refine chain_source h ?_ ?_ ?_
    · rw [hguard]
      simp [Guard.suppressFormat, Guard.sourceIsHook, Format.reads]
    · intro env' hev _
      rw [hguard, test_hookArbitrate, hev, hstored, Bool.and_false]
    · intro env' hev _
      rw [hguard, test_hookArbitrate, hev, hown, Bool.and_false]

/-- Each guarded field takes its value on the options the publish began with, or each keeps
what is stored. -/
def CommitsOrHolds (numbers : Format.Numbers) (p : Publish) (options : Options) : Prop :=
  (∀ field ∈ guardedFields p,
      (execAll numbers (renderPublish p) options).value field.1 = field.2.expand numbers options.value) ∨
    ∀ field ∈ guardedFields p, (execAll numbers (renderPublish p) options).value field.1 = options.value field.1

theorem guardedFields_simultaneous (p : Publish) :
    (guardedFields p).Pairwise fun a b => a.1 ≠ b.1 ∧ a.1 ∉ b.2.reads := by
  simp only [guardedFields]
  split <;> simp [Format.reads, Opt.since, Opt.state, Opt.detail, Opt.source, Opt.evidenceAt, Opt.attention]

theorem guardedFields_fresh {field : OptionKey × Format OptionKey} (h : field ∈ guardedFields p) :
    field.1 ∉ [Opt.hash, Opt.pid, Opt.name, Opt.stampedAt] := by
  simp only [guardedFields_eq, leadingFields, List.cons_append, List.nil_append, List.mem_cons] at h
  rcases h with rfl | rfl | rfl | rfl | rfl | h
  all_goals first | rw [attentionField_keys h] | skip
  all_goals simp [Opt.since, Opt.state, Opt.detail, Opt.source, Opt.evidenceAt, Opt.attention, Opt.hash, Opt.pid,
    Opt.name, Opt.stampedAt]

/-- A suppressed publish holds. -/
theorem publish_holds (hreset : p.episodeReset = false)
    (h : p.guard.suppressFormat.test numbers options.value = true) {key : OptionKey}
    (hkey : key ∉ [Opt.hash, Opt.pid, Opt.name, Opt.stampedAt]) :
    (execAll numbers (renderPublish p) options).value key = options.value key := by
  rw [value_publish hreset hkey, Format.run_guarded_of_test h]

/-- The guarded fields of a committed publish. -/
theorem committed_value (lawful : numbers.Lawful) (hp : Produced p) (hreset : p.episodeReset = false)
    (hrange : p.evidenceAt < 2 ^ 64) (htear : ¬ Tears numbers p options)
    (h : p.guard.suppressFormat.test numbers options.value = false) {field : OptionKey × Format OptionKey}
    (hfield : field ∈ guardedFields p) :
    (execAll numbers (renderPublish p) options).value field.1 = field.2.expand numbers options.value := by
  rw [value_publish hreset (guardedFields_fresh hfield), chain_commits lawful hp hreset hrange htear h]
  exact Format.run_apply (guardedFields_simultaneous p) hfield

theorem commits_or_holds (lawful : numbers.Lawful) (hp : Produced p) (hreset : p.episodeReset = false)
    (hrange : p.evidenceAt < 2 ^ 64) (htear : ¬ Tears numbers p options) : CommitsOrHolds numbers p options := by
  cases h : p.guard.suppressFormat.test numbers options.value with
  | true => exact .inr fun field hfield => publish_holds hreset h (guardedFields_fresh hfield)
  | false => exact .inl fun field => committed_value lawful hp hreset hrange htear h

/-! ## The row -/

/-- What the options show: nothing where no state is stamped. -/
def rowOf (options : Options) : Option RowProjection := do
  let state ← (AgentState.parse (options.value Opt.state)).toOption
  let since ← Format.number (options.value Opt.since)
  some { state, since, attention := options.value Opt.attention = ['1'] }

/-- The options decode to a settled stamp whose times are stored in milliseconds, or to none. -/
def Decodes (options : Options) : Option StampedState → Prop
  | none => StampedState.fromOptions (options.read paneOptionKeys) = .ok none
  | some stamp =>
    StampedState.fromOptions (options.read paneOptionKeys) = .ok (some (.settled stamp)) ∧
      Format.number (options.value Opt.since) = some stamp.since ∧
      Format.number (options.value Opt.evidenceAt) = some stamp.evidenceAt

/-- A pane without a stamp has no hook source and no attention left over from one. -/
def NoLeftover (options : Options) (prev : Option StampedState) : Prop :=
  prev = none → options.value Opt.source ≠ StampProvenance.hook.token ∧ options.value Opt.attention ≠ ['1']

theorem AgentState.parse_token (state : AgentState) : AgentState.parse state.token = .ok state := by
  cases state <;> rfl

theorem AgentState.parse_eq {value : Text} {state : AgentState} (h : AgentState.parse value = .ok state) :
    value = state.token := by
  simp only [AgentState.parse] at h
  split_ifs at h with h1 h2 h3 h4 <;> cases h <;> assumption

theorem AgentState.token_injective {a b : AgentState} (h : a.token = b.token) : a = b := by
  have hparse := congrArg AgentState.parse h
  rw [parse_token, parse_token] at hparse
  exact Except.ok.inj hparse

theorem StampProvenance.parse_eq {value : Text} {source : StampProvenance}
    (h : StampProvenance.parse value = .ok source) : value = source.token := by
  simp only [StampProvenance.parse] at h
  split_ifs at h with h1 h2 h3 h4 <;> cases h <;> assumption

/-- What a decoded read says of the fields the guards and the row show. -/
theorem fromOptions_cases {opts : Options} {read : Option ReadResult} (h : StampedState.fromOptions opts = .ok read) :
    (read = none ∧ opts Opt.state = none) ∨
      ∃ r, read = some r ∧ opts Opt.state = some r.intoInner.state.token ∧
        parseSource opts = .ok r.intoInner.source ∧
        r.intoInner.attention = decide (opts Opt.attention = some ['1']) := by
  unfold StampedState.fromOptions at h
  split at h
  next hstate =>
    cases h
    exact .inl ⟨rfl, hstate⟩
  next v hstate =>
    obtain ⟨state, hparse, h⟩ := Checked.ok_of_bind h
    obtain ⟨source, hsource, h⟩ := Checked.ok_of_bind h
    obtain ⟨evidenceAt, -, h⟩ := Checked.ok_of_bind h
    obtain ⟨since, -, h⟩ := Checked.ok_of_bind h
    obtain ⟨stampedAt, -, h⟩ := Checked.ok_of_bind h
    obtain ⟨pid, -, h⟩ := Checked.ok_of_bind h
    obtain ⟨notifiedAt, -, h⟩ := Checked.ok_of_bind h
    obtain ⟨turnAt, -, h⟩ := Checked.ok_of_bind h
    obtain ⟨hash, -, h⟩ := Checked.ok_of_bind h
    rw [hstate, AgentState.parse_eq hparse]
    simp only [Except.ok.injEq] at h
    refine .inr ⟨_, h.symm, ?_⟩
    split <;> exact ⟨rfl, hsource, rfl⟩

section Decoding

variable {stamp : StampedState} {prev : Option StampedState}

theorem value_of_read {key : OptionKey} (h : key ∈ paneOptionKeys) :
    options.value key = (options.read paneOptionKeys).value key :=
  (Options.value_read h).symm

theorem Decodes.none_state (h : Decodes options none) : options.value Opt.state = [] := by
  rcases fromOptions_cases h with ⟨-, hstate⟩ | ⟨r, hr, -⟩
  · rw [value_of_read (by decide), Options.value, hstate]
    rfl
  · cases hr

theorem Decodes.state (h : Decodes options (some stamp)) : options.value Opt.state = stamp.state.token := by
  rcases fromOptions_cases h.1 with ⟨hr, -⟩ | ⟨r, hr, hstate, -⟩
  · cases hr
  · cases hr
    rw [value_of_read (by decide), Options.value, hstate]
    rfl

theorem Decodes.attention (h : Decodes options (some stamp)) :
    stamp.attention = decide (options.value Opt.attention = ['1']) := by
  rcases fromOptions_cases h.1 with ⟨hr, -⟩ | ⟨r, hr, -, -, hattention⟩
  · cases hr
  · cases hr
    have hflag : stamp.attention = decide (options.read paneOptionKeys Opt.attention = some ['1']) := hattention
    rw [hflag, value_of_read (by decide), Options.value]
    cases options.read paneOptionKeys Opt.attention <;> simp

/-- The stored source is a hook's where the stamp's is: an absent source is a capture. -/
theorem Decodes.source (h : Decodes options (some stamp)) :
    options.value Opt.source = StampProvenance.hook.token ↔ stamp.source = .hook := by
  rcases fromOptions_cases h.1 with ⟨hr, -⟩ | ⟨r, hr, -, hsource, -⟩
  · cases hr
  · cases hr
    have hparse : parseSource (options.read paneOptionKeys) = .ok stamp.source := hsource
    rw [value_of_read (by decide), Options.value]
    simp only [parseSource] at hparse
    split at hparse
    next hnone =>
      rw [hnone, ← Except.ok.inj hparse]
      decide
    next v hsome =>
      rw [hsome, Option.getD_some, StampProvenance.parse_eq hparse]
      exact ⟨StampProvenance.token_injective, congrArg _⟩

/-- **The producer's mirror is the server's guard.** -/
theorem suppresses_eq (lawful : numbers.Lawful) (hp : Produced p) (hreset : p.episodeReset = false)
    (hrange : p.evidenceAt < 2 ^ 64) (hdec : Decodes options prev) (hleft : NoLeftover options prev) :
    p.guard.suppressFormat.test numbers options.value = p.guard.suppresses prev := by
  cases prev with
  | none =>
    have hsource := (hleft rfl).1
    rcases hp.guard_cases hreset with hguard | ⟨hguard, -⟩ | ⟨hguard | hguard, -⟩ | ⟨hguard, -⟩ <;> rw [hguard]
    · rfl
    · rw [test_refreshClaim, hdec.none_state]
      cases p.state <;> decide
    · rw [test_carveOut, decide_eq_false hsource]
      rfl
    · exact test_sourceIsHook.trans (decide_eq_false hsource)
    · rw [test_hookArbitrate, decide_eq_false hsource]
      rfl
  | some stamp =>
    have hnumber := Format.number_decimal hrange
    rcases hp.guard_cases hreset with hguard | ⟨hguard, -⟩ | ⟨hguard | hguard, -⟩ | ⟨hguard, -⟩ <;> rw [hguard]
    · rfl
    · rw [test_refreshClaim, hdec.state]
      have htoken : stamp.state.token = p.state.token ↔ stamp.state = p.state :=
        ⟨AgentState.token_injective, congrArg _⟩
      simp [Guard.suppresses, htoken]
    · rw [test_carveOut, lawful.le_eq hnumber hdec.2.2, decide_eq_decide.mpr hdec.source]
      rfl
    · exact test_sourceIsHook.trans (decide_eq_decide.mpr hdec.source)
    · rw [test_hookArbitrate, lawful.lt_eq hnumber hdec.2.2, decide_eq_decide.mpr hdec.source]
      rfl

/-- A decoded stamp is shown as it is. -/
theorem Decodes.row (h : Decodes options (some stamp)) :
    rowOf options = some { state := stamp.state, since := stamp.since, attention := stamp.attention } := by
  simp only [rowOf, h.state, AgentState.parse_token, h.2.1, h.attention]
  rfl

end Decoding

/-- The times of a publish are `u64`s. -/
def Publish.InRange (p : Publish) : Prop := p.evidenceAt < 2 ^ 64 ∧ p.since < 2 ^ 64

/-- A publish that raises no flag leaves the stored one. -/
theorem attention_kept (hreset : p.episodeReset = false) (hattention : p.setAttention = false) :
    (execAll numbers (renderPublish p) options).value Opt.attention = options.value Opt.attention := by
  rw [value_publish hreset (by decide)]
  refine Format.run_of_not_mem ?_
  simp [Format.guarded, guardedFields, hattention, Opt.since, Opt.state, Opt.detail, Opt.source, Opt.evidenceAt,
    Opt.attention]

/-- The value of the written-once `since`. -/
theorem onceSince_expand (env : OptionKey → Text) :
    (onceSince p).expand numbers env =
      if env Opt.state = p.state.token ∧ numbers.le (env Opt.since) (Text.decimal (sinceLimit p)) = true then
        env Opt.since
      else Text.decimal p.since := by
  have hcond : Format.truthy ((Format.both (.equal (.option Opt.state) (.literal p.state.token))
      (.numLe (.option Opt.since) (.literal (Text.decimal (sinceLimit p))))).expand numbers env) =
      (decide (env Opt.state = p.state.token) && numbers.le (env Opt.since) (Text.decimal (sinceLimit p))) :=
    (Format.truthy_flag _).trans (congrArg₂ and (Format.truthy_flag _) (Format.truthy_flag _))
  rw [onceSince, Format.expand, hcond]
  simp only [Bool.and_eq_true, decide_eq_true_eq, Format.expand]

theorem sinceLimit_lt (p : Publish) : sinceLimit p < 2 ^ 64 := by
  simp only [sinceLimit, saturatingAdd, u64Max]
  omega

/-- **What a committed publish leaves is what the row is told.** -/
theorem committed_row (lawful : numbers.Lawful) (hp : Produced p) (hreset : p.episodeReset = false)
    (hrange : p.InRange) (htear : ¬ Tears numbers p options) {prev : Option StampedState}
    (hdec : Decodes options prev) (hleft : NoLeftover options prev)
    (h : p.guard.suppressFormat.test numbers options.value = false) :
    rowOf (execAll numbers (renderPublish p) options) = some (projectPublish prev p) := by
  have hvalue {field : OptionKey × Format OptionKey} (hfield : field ∈ guardedFields p) :=
    committed_value lawful hp hreset hrange.1 htear h hfield
  have hstate : (execAll numbers (renderPublish p) options).value Opt.state = p.state.token :=
    @hvalue (Opt.state, .literal p.state.token) (by simp [guardedFields])
  have hsince := @hvalue (Opt.since, onceSince p) (by simp [guardedFields])
  simp only [onceSince_expand] at hsince
  have hattention : (execAll numbers (renderPublish p) options).value Opt.attention =
      if p.setAttention then ['1'] else options.value Opt.attention := by
    cases hset : p.setAttention with
    | true => exact @hvalue (Opt.attention, .literal ['1']) (by simp [guardedFields, hset])
    | false => exact attention_kept hreset hset
  have hmirror : p.guard.suppresses prev = false := by
    rw [← suppresses_eq lawful hp hreset hrange.1 hdec hleft]
    exact h
  simp only [rowOf, hstate, hsince, hattention, AgentState.parse_token]
  cases prev with
  | none =>
    have hnew : ¬ options.value Opt.state = p.state.token := by
      rw [hdec.none_state]
      cases p.state <;> decide
    have hflag : decide ((if p.setAttention then ['1'] else options.value Opt.attention) = ['1']) = p.setAttention := by
      cases p.setAttention <;> simp [(hleft rfl).2]
    rw [if_neg fun hboth => hnew hboth.1, Format.number_decimal hrange.2, hflag]
    simp [projectPublish, hmirror, Except.toOption]
  | some stamp =>
    have hlimit := lawful.le_eq hdec.2.1 (Format.number_decimal (sinceLimit_lt p))
    have hflag : decide ((if p.setAttention then ['1'] else options.value Opt.attention) = ['1']) =
        (p.setAttention || stamp.attention) := by
      cases p.setAttention <;> simp [hdec.attention]
    have htoken : options.value Opt.state = p.state.token ↔ stamp.state = p.state := by
      rw [hdec.state]
      exact ⟨AgentState.token_injective, congrArg _⟩
    have hkept : (options.value Opt.state = p.state.token ∧
        numbers.le (options.value Opt.since) (Text.decimal (sinceLimit p)) = true) ↔
          (decide (stamp.state = p.state) && !sinceClockStepped stamp.since p.stampedAt) = true := by
      rw [htoken, hlimit, decide_eq_true_iff]
      simp [sinceClockStepped, sinceLimit]
    simp only [hkept, hflag, projectPublish, hmirror, hreset, Bool.not_false, Bool.true_and, Bool.false_eq_true, if_false,
      Option.any_some]
    split
    · rw [hdec.2.1]
      rfl
    · rw [Format.number_decimal hrange.2]
      rfl

/-- A suppressed publish leaves the row as it was. -/
theorem held_row (hreset : p.episodeReset = false)
    (h : p.guard.suppressFormat.test numbers options.value = true) :
    rowOf (execAll numbers (renderPublish p) options) = rowOf options := by
  have hheld {key : OptionKey} (hkey : key ∉ [Opt.hash, Opt.pid, Opt.name, Opt.stampedAt]) :=
    @publish_holds numbers p options hreset h key hkey
  simp only [rowOf]
  rw [hheld (by decide), hheld (by decide), hheld (by decide)]

/-- **A guarded publish commits or holds as one, and leaves what the row is told**: its (state, since,
attention) is `projectPublish`. A publish that refreshes a hook claim on a pane without a stamp
commits nothing there, and the row is told of the publish itself. -/
theorem publish_refines_row (lawful : numbers.Lawful) (hp : Produced p) (hreset : p.episodeReset = false)
    (hrange : p.InRange) (htear : ¬ Tears numbers p options) :
    CommitsOrHolds numbers p options ∧
      (∀ prev, Decodes options prev → NoLeftover options prev →
        (prev = none → ∀ state, p.guard ≠ .refreshClaim state) →
          rowOf (execAll numbers (renderPublish p) options) = some (projectPublish prev p)) ∧
      (Decodes options none → ∀ state, p.guard = .refreshClaim state →
        rowOf (execAll numbers (renderPublish p) options) = none ∧
          projectPublish none p = { state := p.state, since := p.since, attention := p.setAttention }) := by
  refine ⟨commits_or_holds lawful hp hreset hrange.1 htear, fun prev hdec hleft hrefresh => ?_,
    fun hdec state hguard => ?_⟩
  · have hmirror := suppresses_eq lawful hp hreset hrange.1 hdec hleft
    cases h : p.guard.suppressFormat.test numbers options.value with
    | false => exact committed_row lawful hp hreset hrange htear hdec hleft h
    | true =>
      rw [h] at hmirror
      rw [held_row hreset h]
      cases prev with
      | some stamp => simp [hdec.row, projectPublish, hreset, ← hmirror]
      | none =>
        -- without a stamp only a refresh is suppressed
        exfalso
        cases hguard : p.guard with
        | refreshClaim state => exact hrefresh rfl state hguard
        | unconditional | protectHook | carveOut | hookArbitrate => simp [hguard, Guard.suppresses] at hmirror
  · have hstate := hdec.none_state
    have hheld : p.guard.suppressFormat.test numbers options.value = true := by
      rw [hguard, test_refreshClaim, hstate]
      cases state <;> decide
    constructor
    · rw [held_row hreset hheld]
      simp only [rowOf, hstate]
      rfl
    · simp [projectPublish, hreset, hguard, Guard.suppresses]

/-- **A chain that tears does neither**: the source becomes the event's, and the evidence time
does not. -/
theorem torn_publish (lawful : numbers.Lawful) (hp : Produced p) (hreset : p.episodeReset = false)
    (hrange : p.evidenceAt < 2 ^ 64) (htear : Tears numbers p options) : ¬ CommitsOrHolds numbers p options := by
  obtain ⟨evidenceAt, hguard, hother, hlt⟩ := htear
  obtain ⟨rfl, hsource⟩ : evidenceAt = p.evidenceAt ∧ p.source = .hook := by
    rcases hp.guard_cases hreset with h | ⟨h, -⟩ | ⟨h | h, -⟩ | ⟨h, hsource⟩ <;> rw [hguard] at h <;> cases h
    exact ⟨rfl, hsource⟩
  have hreads : ∀ key ∈ p.guard.suppressFormat.reads, key = Opt.source ∨ key = Opt.evidenceAt := by
    rw [hguard]
    simp [Guard.suppressFormat, Guard.sourceIsHook, Format.reads]
  have hstart : p.guard.suppressFormat.test numbers options.value = false := by
    rw [hguard, test_hookArbitrate, decide_eq_false hother, Bool.false_and]
  -- the guard turns true once the source is the event's
  have hturn : p.guard.suppressFormat.test numbers (afterSource numbers p options.value) = true := by
    rw [hguard, test_hookArbitrate, afterSource_source, afterSource_evidenceAt, hsource, hlt]
    rfl
  have hafter {key : OptionKey} (hkey : key ∉ [Opt.hash, Opt.pid, Opt.name, Opt.stampedAt]) :
      (execAll numbers (renderPublish p) options).value key = afterSource numbers p options.value key := by
    rw [value_publish hreset hkey, chain_front hstart hreads, Format.run_guarded_of_test hturn]
  rintro (hcommit | hhold)
  · have hnew : (execAll numbers (renderPublish p) options).value Opt.evidenceAt = Text.decimal p.evidenceAt :=
      hcommit (Opt.evidenceAt, .literal (Text.decimal p.evidenceAt)) (by simp [guardedFields])
    rw [hafter (by decide), afterSource_evidenceAt] at hnew
    rw [hnew, lawful.lt_eq (Format.number_decimal hrange) (Format.number_decimal hrange)] at hlt
    simp at hlt
  · have hold : (execAll numbers (renderPublish p) options).value Opt.source = options.value Opt.source :=
      hhold (Opt.source, .literal p.source.token) (by simp [guardedFields])
    rw [hafter (by decide), afterSource_source, hsource] at hold
    exact hother hold.symm

/-! ## A working pane -/

def workingPane : Options :=
  applyEdits [.set Opt.state "working".toList, .set Opt.source "capture".toList,
    .set Opt.evidenceAt "1800000000100".toList, .set Opt.since "1800000000000".toList,
    .set Opt.stampedAt "1800000000200".toList, .set Opt.pid ['7']] fun _ => none

def workingStamp : StampedState :=
  { state := .working, detail := none, source := .capture, evidenceAt := 1800000000100, since := 1800000000000
    stampedAt := 1800000000200, attention := false, notifiedAt := none, turnAt := 0, hash := none, pid := 7
    session := none, subagents := [] }

/-- A hook event at this instant. -/
def blockedHook (now : Nat) : Publish := hookPublish "%1" (some workingStamp) .blocked none true "agent".toList now

theorem workingPane_decodes : Decodes workingPane (some workingStamp) :=
  ⟨by decide +kernel, by decide +kernel, by decide +kernel⟩

theorem publish_refines_row_sample :
    rowOf (execAll .integers (renderPublish (blockedHook 1800000000150)) workingPane) =
      some { state := .blocked, since := 1800000000150, attention := true } := by
  have htear : ¬ Tears .integers (blockedHook 1800000000150) workingPane := by
    rintro ⟨evidenceAt, hguard, -, hlt⟩
    cases hguard
    revert hlt
    decide +kernel
  have hrow := (publish_refines_row Format.Numbers.integers_lawful (.hook ..) rfl (by constructor <;> decide) htear).2.1
    (some workingStamp) workingPane_decodes (by intro h; cases h) (by intro h; cases h)
  exact hrow.trans (by decide +kernel)

/-- A verdict of the poll cycle that is published. -/
def publishedVerdict (source : StampProvenance) : Verdict :=
  { state := .working, detail := none
    winningEvidence := { origin := none, source, at_ := 1800000000100, label := "" }
    writes := { action := .publish, mayOverride := false, setAttention := false, episodeReset := false }
    program := none }

def polled (source : StampProvenance) : Publish :=
  { paneId := "%1", state := .working, detail := none, source, evidenceAt := 1800000000100, since := 1800000000100
    stampedAt := 1800000000200, hash := some 0, pid := 7, name := "agent".toList, setAttention := false
    episodeReset := false, guard := guardForVerdict (publishedVerdict source) }

theorem polled_produced (source : StampProvenance) : Produced (polled source) :=
  .poll (show planFromVerdict "%1" (publishedVerdict source) 7 "agent".toList 0 1800000000200 = _ from rfl)

/-- A flag that outlived its stamp. -/
def leftoverFlag : Options := applyEdits [.set Opt.attention ['1']] fun _ => none

/-- A publish does not always commit or hold as one, nor leave what the row is told: an event older
than the evidence of another source, a refresh without a stamp, a flag without a stamp. -/
theorem not_publish_refines_row :
    (Produced (blockedHook 1800000000050) ∧ Decodes workingPane (some workingStamp) ∧
        ¬ CommitsOrHolds .integers (blockedHook 1800000000050) workingPane ∧
        rowOf (execAll .integers (renderPublish (blockedHook 1800000000050)) workingPane) ≠
          some (projectPublish (some workingStamp) (blockedHook 1800000000050))) ∧
      (Produced (polled .hook) ∧ Decodes (fun _ => none) none ∧
        rowOf (execAll .integers (renderPublish (polled .hook)) fun _ => none) ≠
          some (projectPublish none (polled .hook))) ∧
      (Produced (polled .capture) ∧ Decodes leftoverFlag none ∧
        rowOf (execAll .integers (renderPublish (polled .capture)) leftoverFlag) ≠
          some (projectPublish none (polled .capture))) := by
  refine ⟨⟨.hook .., workingPane_decodes, ?_, by decide +kernel⟩, ⟨polled_produced _, rfl, by decide +kernel⟩,
    polled_produced _, ?_, by decide +kernel⟩
  · unfold CommitsOrHolds
    decide +kernel
  · show StampedState.fromOptions (leftoverFlag.read paneOptionKeys) = .ok none
    decide +kernel

end TmuxAgents
