/-
Hook decisions over whole runs. The bookkeeping keeps the live subagents, and while
there are any the owner alone writes (`owner_run`). A recorded turn leaves the mark
standing, and only a working state or a mark that was taken down lets another be
recorded (`turns_apart`).

A deregistration ends the session and its subagents with it. A mark that was put up
again after it was cleared, by a blocked pane or by the screen, stands for the turn.
-/
import Mathlib.Data.Set.Insert
import TmuxAgents.Runtime.HookFacts

namespace TmuxAgents.Hook

variable {options : Options} {event : Event} {stamp : StampedState}

/-! ## Plans -/

/-- The subagents a decision reads. -/
def recorded (options : Options) : List Text := ((stored options).map StampedState.subagents).getD []

def ownerOf (options : Options) : Option Text := (stored options).bind StampedState.session

/-- What a start or a stop makes of the subagents. -/
def Event.bookkept (event : Event) (ids : List Text) : List Text :=
  match event.mapped, event.session with
  | .subagentStart, some session => if ids.contains session then ids else ids ++ [session]
  | .subagentStop, some session => ids.filter fun id => id != session
  | _, _ => ids

def Event.isBookkeeping (event : Event) : Bool := event.mapped == .subagentStart || event.mapped == .subagentStop

/-- The event writes a stamp or takes it away. -/
def EventPlan.touches : EventPlan → Bool
  | .stamp .. => true
  | .deregister => true
  | _ => false

/-- The plan raises the mark. -/
def EventPlan.raises : EventPlan → Bool
  | .stamp _ _ setAttention _ _ _ => setAttention
  | _ => false

/-- The plan records a turn. -/
def EventPlan.records : EventPlan → Bool
  | .stamp _ _ _ _ recordTurn _ => recordTurn
  | _ => false

/-- The plan records this session. -/
def EventPlan.registers : EventPlan → Option Text
  | .stamp _ _ _ registerSession _ _ => registerSession
  | _ => none

theorem plan_bookkeeping (h : event.isBookkeeping = true) :
    event.plan options = .subagents (event.bookkept (recorded options)) := by
  simp only [Event.isBookkeeping, Bool.or_eq_true, beq_iff_eq] at h
  rcases h with h | h <;> cases hsession : event.session <;>
    simp [Event.plan, EventPlan.decide, Event.bookkept, recorded, h, hsession]

/-- **What a plan is, for an event that is no bookkeeping.** -/
theorem plan_cases (h : event.isBookkeeping = false) :
    event.plan options = .unmapped ∨ event.plan options = .ignore ∨
      foreign (ownerOf options) (recorded options) event.session = false ∧
        (event.plan options = .deregister ∨
          event.plan options = .stamp .idle none false event.session false false ∨
          ∃ state detail turnEnd, event.mapped = .state state detail turnEnd ∧
            event.plan options = planState state detail turnEnd event.session (stored options) event.notifyOptIn
              event.notifyOn event.now) := by
  have hplan : event.plan options = .decide event.mapped event.session (stored options) event.notifyOptIn
    event.notifyOn event.now := rfl
  cases hmapped : event.mapped with
  | unmapped =>
    rw [hmapped] at hplan
    exact .inl hplan
  | subagentStart | subagentStop =>
    rw [Event.isBookkeeping, hmapped] at h
    cases h
  | state state detail turnEnd =>
    rw [hmapped, EventPlan.decide] at hplan
    split at hplan
    · exact .inr (.inl hplan)
    next hforeign =>
      exact .inr (.inr ⟨Bool.eq_false_iff.mpr hforeign, .inr (.inr ⟨state, detail, turnEnd, rfl, hplan⟩)⟩)
  | register =>
    rw [hmapped, EventPlan.decide] at hplan
    split at hplan
    · exact .inr (.inl hplan)
    next hforeign => exact .inr (.inr ⟨Bool.eq_false_iff.mpr hforeign, .inr (.inl hplan)⟩)
  | deregister =>
    rw [hmapped, EventPlan.decide] at hplan
    split at hplan
    · exact .inr (.inl hplan)
    next hforeign => exact .inr (.inr ⟨Bool.eq_false_iff.mpr hforeign, .inl hplan⟩)

/-- A claim of a state, by someone who may write. -/
theorem plan_state {state : AgentState} {detail : Option Detail} {turnEnd : Bool}
    (hmapped : event.mapped = .state state detail turnEnd)
    (hforeign : foreign (ownerOf options) (recorded options) event.session = false) :
    event.plan options = planState state detail turnEnd event.session (stored options) event.notifyOptIn
      event.notifyOn event.now := by
  have hplan : event.plan options = .decide event.mapped event.session (stored options) event.notifyOptIn
    event.notifyOn event.now := rfl
  rw [hplan, hmapped, EventPlan.decide]
  exact if_neg (Bool.eq_false_iff.mp hforeign)

/-! ## The owner -/

/-- Only the owner is not foreign while subagents are live. -/
theorem owner_of_not_foreign {owner : Option Text} {subagents : List Text} {session : Option Text}
    (hlive : subagents ≠ []) (h : foreign owner subagents session = false) : owner.isSome = true ∧ session = owner := by
  have hsome : subagents.isEmpty = false := by simpa using hlive
  cases owner with
  | none => simp [foreign, hsome] at h
  | some owner =>
    cases session with
    | none => simp [foreign, hsome] at h
    | some session => simpa [foreign, hsome] using h

theorem recorded_of_stored (h : stored options = some stamp) : recorded options = stamp.subagents := by
  rw [recorded, h]
  rfl

theorem ownerOf_of_stored (h : stored options = some stamp) : ownerOf options = stamp.session := by
  rw [ownerOf, h]
  rfl

theorem not_foreign_of_touches (h : (event.plan options).touches = true) :
    foreign (ownerOf options) (recorded options) event.session = false := by
  cases hbook : event.isBookkeeping with
  | true =>
    rw [plan_bookkeeping hbook] at h
    cases h
  | false =>
    rcases plan_cases hbook with hplan | hplan | ⟨hforeign, -⟩
    · rw [hplan] at h
      cases h
    · rw [hplan] at h
      cases h
    · exact hforeign

/-- **While subagents are live only the owner writes or removes the stamp.** -/
theorem touches_owner (hstored : stored options = some stamp) (hlive : stamp.subagents ≠ [])
    (h : (event.plan options).touches = true) : stamp.session.isSome = true ∧ event.session = stamp.session := by
  have hforeign := not_foreign_of_touches h
  rw [ownerOf_of_stored hstored, recorded_of_stored hstored] at hforeign
  exact owner_of_not_foreign hlive hforeign

/-- While subagents are live a session is recorded only over itself. -/
theorem registers_owner (hstored : stored options = some stamp) (hlive : stamp.subagents ≠ []) {session : Text}
    (h : (event.plan options).registers = some session) : stamp.session = some session := by
  cases hbook : event.isBookkeeping with
  | true =>
    rw [plan_bookkeeping hbook] at h
    cases h
  | false =>
    have howner := @touches_owner options event stamp hstored hlive
    rcases plan_cases hbook with hplan | hplan | ⟨-, hplan | hplan | ⟨state, detail, turnEnd, -, hplan⟩⟩ <;>
      rw [hplan] at h howner
    · cases h
    · cases h
    · cases h
    · rw [← (howner rfl).2]
      exact h
    · -- a claim records a session only where there is none
      obtain ⟨hsome, -⟩ := howner rfl
      obtain ⟨owner, howner⟩ := Option.isSome_iff_exists.mp hsome
      simp [EventPlan.registers, planState, hstored, howner] at h

/-! ## Steps -/

/-- Subagents are live on a stamped pane. -/
def Busy (options : Options) : Prop := ∃ stamp, stored options = some stamp ∧ stamp.subagents ≠ []

/-- The mark is up. -/
def Standing (options : Options) : Prop := options.value Opt.attention = ['1']

instance : Decidable (Standing options) := inferInstanceAs (Decidable (_ = _))

/-- The pane is seen working. -/
def Working (options : Options) : Prop := (stored options).map StampedState.state = some .working

instance : Decidable (Working options) := inferInstanceAs (Decidable (_ = _))

/-- The step takes the mark down. -/
def Step.Lowers (options : Options) : Step → Prop
  | .hook event => event.plan options = .deregister ∧ event.running = false
  | .clear => True
  | .screen publish _ => publish.episodeReset = true ∧ publish.setAttention = false

/-- The step puts the mark up. -/
def Step.Raises (options : Options) : Step → Prop
  | .hook event => (event.plan options).raises = true
  | .clear => False
  | .screen publish _ => publish.setAttention = true

theorem token_ne_nil (state : AgentState) : state.token ≠ [] := by cases state <;> decide

theorem any_attention (h : Clean options) :
    (stored options).any StampedState.attention = true ↔ (stored options).isSome = true ∧ Standing options := by
  rcases stored_cases h with ⟨hnone, -⟩ | ⟨stamp, hsome, hshows⟩
  · simp [hnone]
  · simp [hsome, hshows.attention, Standing]

theorem isSome_stored (h : Clean options) : (stored options).isSome = true ↔ options.value Opt.state ≠ [] := by
  rcases stored_cases h with ⟨hnone, hstate⟩ | ⟨stamp, hsome, hshows⟩
  · simp [hnone, hstate]
  · rw [hsome, hshows.state]
    exact iff_of_true rfl (token_ne_nil _)

/-- **A standing mark of a stamped pane stays**, until a step lowers it. -/
theorem standing_step (h : Clean options) (hsome : (stored options).isSome = true) (hstanding : Standing options)
    {step : Step} (hkeep : ¬ step.Lowers options) :
    (stored (step.apply options)).isSome = true ∧ Standing (step.apply options) := by
  rw [isSome_stored (clean_step h step)]
  rw [isSome_stored h] at hsome
  cases step with
  | clear => exact absurd trivial hkeep
  | screen publish inWords =>
    refine ⟨?_, ?_⟩
    · show (applyEdits (advisoryEdits publish (stored options)) options).value Opt.state ≠ []
      rw [publish_state]
      exact token_ne_nil _
    · show (applyEdits (advisoryEdits publish (stored options)) options).value Opt.attention = ['1']
      rw [publish_attention]
      split
      · rfl
      next hset =>
        rw [if_neg fun hreset => hkeep ⟨hreset, by simpa using hset⟩]
        exact hstanding
  | hook event =>
    cases hplan : event.plan options with
    | unmapped =>
      exact ⟨by rw [hook_quiet (.inl hplan) (by decide)]; exact hsome, (hook_quiet (.inl hplan) (by decide)).trans hstanding⟩
    | ignore =>
      exact ⟨by rw [hook_quiet (.inr hplan) (by decide)]; exact hsome, (hook_quiet (.inr hplan) (by decide)).trans hstanding⟩
    | subagents ids =>
      have hother {key : OptionKey} (hkey : key ∈ decisive) (hne : key ≠ Opt.subagents) :=
        (hook_subagents hplan hkey).trans (if_neg hne)
      exact ⟨by rw [hother (by decide) (by decide)]; exact hsome, (hother (by decide) (by decide)).trans hstanding⟩
    | deregister =>
      have hrunning : event.running = true := by
        by_contra hgone
        exact hkeep ⟨hplan, Bool.eq_false_iff.mpr hgone⟩
      have hother {key : OptionKey} (hkey : key ∈ decisive) (hne : key ≠ Opt.session ∧ key ≠ Opt.subagents) :=
        (hook_deregister hplan hkey).trans (if_neg (by simp [hrunning, hne.1, hne.2]))
      exact ⟨by rw [hother (by decide) (by decide)]; exact hsome, (hother (by decide) (by decide)).trans hstanding⟩
    | stamp state detail setAttention registerSession recordTurn notify =>
      obtain ⟨hstate, hattention, -⟩ := hook_stamp hplan
      refine ⟨hstate ▸ token_ne_nil state, hattention.trans ?_⟩
      rw [hstanding, ite_self]

/-- **A mark that is down stays down**, until a step raises it. -/
theorem down_step (hdown : ¬ Standing options) {step : Step} (hkeep : ¬ step.Raises options) :
    ¬ Standing (step.apply options) := by
  cases step with
  | clear =>
    rw [Standing, clear_value, if_pos rfl]
    decide
  | screen publish inWords =>
    show (applyEdits (advisoryEdits publish (stored options)) options).value Opt.attention ≠ ['1']
    have hset : ¬ publish.setAttention = true := hkeep
    rw [publish_attention, if_neg hset]
    split
    · decide
    · exact hdown
  | hook event =>
    cases hplan : event.plan options with
    | unmapped => exact fun h => hdown ((hook_quiet (.inl hplan) (by decide)).symm.trans h)
    | ignore => exact fun h => hdown ((hook_quiet (.inr hplan) (by decide)).symm.trans h)
    | subagents ids =>
      exact fun h => hdown (((hook_subagents hplan (by decide)).trans (if_neg (by decide))).symm.trans h)
    | deregister =>
      intro h
      have hvalue := @hook_deregister options event hplan Opt.attention (by decide)
      split at hvalue
      · exact absurd (hvalue.symm.trans h) (by decide)
      · exact hdown (hvalue.symm.trans h)
    | stamp state detail setAttention registerSession recordTurn notify =>
      have hlow : setAttention ≠ true := by
        intro hset
        refine hkeep ?_
        rw [Step.Raises, hplan]
        exact hset
      intro h
      have hvalue := (hook_stamp hplan).2.1
      rw [if_neg hlow] at hvalue
      exact hdown (hvalue.symm.trans h)

/-! ## Turns -/

/-- **A recorded turn raises the mark.** -/
theorem raises_of_records (h : (event.plan options).records = true) : (event.plan options).raises = true := by
  cases hbook : event.isBookkeeping with
  | true =>
    rw [plan_bookkeeping hbook] at h
    cases h
  | false =>
    rcases plan_cases hbook with hplan | hplan | ⟨-, hplan | hplan | ⟨state, detail, turnEnd, -, hplan⟩⟩ <;>
      rw [hplan] at h ⊢
    · cases h
    · cases h
    · cases h
    · cases h
    · simp only [EventPlan.records, planState, Bool.and_eq_true] at h
      exact h.2

/-- The end of a turn, told by someone who may write, raises the mark and records a turn together:
when the pane was working, or no mark stands. -/
theorem turn_end (h : Clean options) {detail : Option Detail} (hmapped : event.mapped = .state .idle detail true)
    (hforeign : foreign (ownerOf options) (recorded options) event.session = false) :
    ((event.plan options).raises = true ↔ Working options ∨ ¬ ((stored options).isSome = true ∧ Standing options)) ∧
      (event.plan options).records = (event.plan options).raises := by
  rw [plan_state hmapped hforeign, ← any_attention h]
  refine ⟨?_, ?_⟩
  · simp [EventPlan.raises, planState, Working]
  · simp [EventPlan.raises, EventPlan.records, planState]

/-- A turn is recorded on a working pane, or where no mark stands, and leaves an idle one marked. -/
theorem records_cases (h : Clean options) (hrecords : (event.plan options).records = true) :
    (Working options ∨ ¬ ((stored options).isSome = true ∧ Standing options)) ∧
      (stored (Step.apply options (.hook event))).isSome = true ∧ Standing (Step.apply options (.hook event)) ∧
      ¬ Working (Step.apply options (.hook event)) := by
  cases hbook : event.isBookkeeping with
  | true =>
    rw [plan_bookkeeping hbook] at hrecords
    cases hrecords
  | false =>
    have hraises := raises_of_records hrecords
    have hclean := clean_step h (.hook event)
    rcases plan_cases hbook with hplan | hplan | ⟨hforeign, hplan | hplan | ⟨state, detail, turnEnd, hmapped, hplan⟩⟩
    · rw [hplan] at hrecords
      cases hrecords
    · rw [hplan] at hrecords
      cases hrecords
    · rw [hplan] at hrecords
      cases hrecords
    · rw [hplan] at hrecords
      cases hrecords
    · obtain ⟨rfl, rfl⟩ : turnEnd = true ∧ state = .idle := by
        rw [hplan] at hrecords
        simp only [EventPlan.records, planState, Bool.and_eq_true, beq_iff_eq] at hrecords
        exact hrecords.1
      refine ⟨(turn_end h hmapped hforeign).1.mp hraises, ?_⟩
      rw [hplan] at hraises
      obtain ⟨hstate, hattention, -⟩ := hook_stamp hplan
      have hset : Standing (Step.apply options (.hook event)) := hattention.trans (if_pos hraises)
      rcases stored_cases hclean with ⟨-, hnone⟩ | ⟨stamp, hsome, hshows⟩
      · rw [hstate] at hnone
        exact absurd hnone (by decide)
      · have hidle : stamp.state = .idle := AgentState.token_injective (hshows.state.symm.trans hstate)
        refine ⟨by rw [hsome]; rfl, hset, ?_⟩
        rw [Working, hsome, Option.map_some, hidle]
        decide

/-! ## Runs -/

/-- What the session's option is after a step, on a pane with live subagents before and after. -/
theorem owner_step (h : Clean options) (hbusy : Busy options) {step : Step} (hafter : Busy (step.apply options)) :
    ownerOf (step.apply options) = ownerOf options := by
  obtain ⟨stamp, hstored, hlive⟩ := hbusy
  obtain ⟨stamp', hstored', hlive'⟩ := hafter
  have hshows := shows_of_stored h hstored
  have hshows' := shows_of_stored (clean_step h step) hstored'
  rw [ownerOf_of_stored hstored, ownerOf_of_stored hstored']
  -- it is enough that the option is the same
  have hsame (hvalue : (step.apply options).value Opt.session = options.value Opt.session) :
      stamp'.session = stamp.session := by rw [hshows'.session, hvalue, hshows.session]
  cases step with
  | clear => exact hsame ((clear_value _).trans (if_neg (by decide)))
  | screen publish inWords => exact hsame (value_of_unnamed (publish_unnamed (.inl rfl)))
  | hook event =>
    cases hplan : event.plan options with
    | unmapped => exact hsame (hook_quiet (.inl hplan) (by decide))
    | ignore => exact hsame (hook_quiet (.inr hplan) (by decide))
    | subagents ids => exact hsame ((hook_subagents hplan (by decide)).trans (if_neg (by decide)))
    | deregister =>
      -- the subagents go with the session
      refine absurd ?_ hlive'
      rw [hshows'.subagents, subagentsOf, hook_deregister hplan (by decide), if_pos (.inr (.inl rfl))]
      rfl
    | stamp state detail setAttention registerSession recordTurn notify =>
      have hvalue := (hook_stamp hplan).2.2.1
      cases registerSession with
      | none => exact hsame hvalue
      | some session =>
        have howner := @registers_owner options event stamp hstored hlive session (by rw [hplan]; rfl)
        have hne : options.value Opt.session ≠ [] := by
          intro hempty
          rw [hshows.session, if_pos hempty] at howner
          cases howner
        rw [hshows.session, if_neg hne] at howner
        exact hsame (hvalue.trans (Option.some.inj howner).symm)

/-- **The owner stays for as long as subagents are live.** -/
theorem owner_run (h : Clean options) {steps : List Step}
    (hbusy : ∀ before after, steps = before ++ after → Busy (run options before)) :
    ownerOf (run options steps) = ownerOf options := by
  induction steps using List.reverseRecOn with
  | nil => rfl
  | append_singleton steps step ih =>
    have hrun : run options (steps ++ [step]) = step.apply (run options steps) := Run.run_concat ..
    have hafter := hbusy (steps ++ [step]) [] (by simp)
    rw [hrun] at hafter ⊢
    rw [owner_step (clean_run h steps) (hbusy steps [step] rfl) hafter]
    exact ih fun before after heq => hbusy before (after ++ [step]) (by rw [heq, List.append_assoc])

/-- The ids started and not since stopped. A deregistration ends them all. -/
def Step.ledger (options : Options) (live : Set Text) : Step → Set Text
  | .hook event =>
    if event.plan options = .deregister then ∅
    else match event.mapped, event.session with
      | .subagentStart, some id => insert id live
      | .subagentStop, some id => live \ {id}
      | _, _ => live
  | _ => live

def ledger (options : Options) (live : Set Text) : List Step → Set Text
  | [] => live
  | step :: steps => ledger (step.apply options) (step.ledger options live) steps

/-- A start or a stop finds the subagents where it looks for them: in a stored stamp. -/
def Recorded (options : Options) (step : Step) : Prop :=
  ∀ event, step = .hook event → event.isBookkeeping = true → (stored options).isSome = true ∨ subagentsOf options = []

theorem recorded_eq (h : Clean options) (hrecorded : (stored options).isSome = true ∨ subagentsOf options = []) :
    recorded options = subagentsOf options := by
  rcases stored_cases h with ⟨hnone, -⟩ | ⟨stamp, hsome, hshows⟩
  · rw [recorded, hnone, hrecorded.resolve_left (by simp [hnone])]
    rfl
  · rw [recorded_of_stored hsome, hshows.subagents]

theorem mem_bookkept {ids : List Text} (hbook : event.isBookkeeping = true) (id : Text) :
    id ∈ event.bookkept ids ↔ id ∈ Step.ledger options {id | id ∈ ids} (.hook event) := by
  have hplan : ¬ event.plan options = .deregister := by
    rw [plan_bookkeeping hbook]
    simp
  rw [Step.ledger, if_neg hplan, Event.bookkept]
  simp only [Event.isBookkeeping, Bool.or_eq_true, beq_iff_eq] at hbook
  rcases hbook with hmapped | hmapped
  · cases hsession : event.session with
    | none => simp only [hmapped, Set.mem_ofPred_eq]
    | some session =>
      simp only [hmapped, Set.mem_insert_iff, Set.mem_ofPred_eq]
      split
      next hmem =>
        rw [List.contains_iff_mem] at hmem
        exact ⟨.inr, fun h => h.elim (fun heq => heq ▸ hmem) fun h => h⟩
      next => rw [List.mem_append, List.mem_singleton, or_comm]
  · cases hsession : event.session with
    | none => simp only [hmapped, Set.mem_ofPred_eq]
    | some session => simp [hmapped]

theorem isWord_bookkept {ids : List Text} (h : ∀ id ∈ ids, IsWord id) : ∀ id ∈ event.bookkept ids, IsWord id := by
  intro id hid
  simp only [Event.bookkept] at hid
  split at hid
  next session _ hsession =>
    split at hid
    · exact h id hid
    · rcases List.mem_append.mp hid with hid | hid
      · exact h id hid
      · rw [List.mem_singleton.mp hid]
        exact event.word session hsession
  next => exact h id (List.mem_filter.mp hid).1
  next => exact h id hid

/-- **The stored subagents after a step are what the step makes of them.** -/
theorem subagents_step (h : Clean options) {step : Step} (hrecorded : Recorded options step) :
    {id | id ∈ subagentsOf (step.apply options)} = step.ledger options {id | id ∈ subagentsOf options} := by
  have hsame (hvalue : (step.apply options).value Opt.subagents = options.value Opt.subagents) :
      {id | id ∈ subagentsOf (step.apply options)} = {id | id ∈ subagentsOf options} := by
    rw [subagentsOf, hvalue, subagentsOf]
  cases step with
  | clear => exact hsame ((clear_value _).trans (if_neg (by decide)))
  | screen publish inWords => exact hsame (value_of_unnamed (publish_unnamed (.inr rfl)))
  | hook event =>
    cases hbook : event.isBookkeeping with
    | true =>
      have hplan := @plan_bookkeeping options event hbook
      rw [recorded_eq h (hrecorded event rfl hbook)] at hplan
      have hwords : ∀ id ∈ subagentsOf options, IsWord id := fun id hid => isWord_of_mem hid
      ext id
      rw [← mem_bookkept hbook, Set.mem_ofPred_eq, subagentsOf, hook_subagents hplan (by decide), if_pos rfl,
        splitWhitespace_intercalate (isWord_bookkept hwords)]
    | false =>
      have hlive {live : Set Text} (hplan : event.plan options ≠ .deregister) :
          Step.ledger options live (.hook event) = live := by
        rw [Step.ledger, if_neg hplan]
        split
        next hmapped _ => rw [Event.isBookkeeping, hmapped] at hbook; cases hbook
        next hmapped _ => rw [Event.isBookkeeping, hmapped] at hbook; cases hbook
        next => rfl
      cases hplan : event.plan options with
      | unmapped => exact (hsame (hook_quiet (.inl hplan) (by decide))).trans (hlive (by rw [hplan]; simp)).symm
      | ignore => exact (hsame (hook_quiet (.inr hplan) (by decide))).trans (hlive (by rw [hplan]; simp)).symm
      | stamp state detail setAttention registerSession recordTurn notify =>
        exact (hsame (hook_stamp hplan).2.2.2).trans (hlive (by rw [hplan]; simp)).symm
      | subagents ids =>
        -- only a start or a stop is bookkeeping
        rcases @plan_cases options event hbook with h' | h' | ⟨-, h' | h' | ⟨_, _, _, -, h'⟩⟩ <;> rw [hplan] at h' <;>
          cases h'
      | deregister =>
        rw [subagentsOf, hook_deregister hplan (by decide), if_pos (.inr (.inl rfl)), Step.ledger, if_pos hplan]
        simp

/-- **The stored subagents are the ids started and not since stopped.** -/
theorem subagents_run (h : Clean options) {steps : List Step} (hrecorded : Run.Along Step.apply Recorded options steps) :
    {id | id ∈ subagentsOf (run options steps)} = ledger options {id | id ∈ subagentsOf options} steps := by
  induction steps generalizing options with
  | nil => rfl
  | cons step steps ih =>
    have hrun : run options (step :: steps) = run (step.apply options) steps := rfl
    have hrest : Run.Along Step.apply Recorded (step.apply options) steps := @Run.Along.after _ _ _ _ _ [step] steps hrecorded
    rw [hrun, ih (clean_step h step) hrest, subagents_step h (hrecorded [] step steps rfl), ledger]

/-- **Between two recorded turns the mark was taken down, or the pane was seen working.** -/
theorem turns_apart (h : Clean options) {first second : Event} {mid : List Step}
    (hfirst : (first.plan options).records = true)
    (hsecond : (second.plan (run options (.hook first :: mid))).records = true) :
    ∃ before step after, mid = before ++ step :: after ∧
      (step.Lowers (run options (.hook first :: before)) ∨ Working (run options (.hook first :: (before ++ [step])))) := by
  by_contra hnone
  have hkept : (stored (run options (.hook first :: mid))).isSome = true ∧ Standing (run options (.hook first :: mid)) ∧
      ¬ Working (run options (.hook first :: mid)) := by
    clear hsecond
    induction mid using List.reverseRecOn with
    | nil => exact (records_cases h hfirst).2
    | append_singleton mid step ih =>
      obtain ⟨hsome, hstanding, -⟩ := ih fun ⟨before, step', after, heq, hstep⟩ =>
        hnone ⟨before, step', after ++ [step], by rw [heq]; simp, hstep⟩
      have hrun : run options (.hook first :: (mid ++ [step])) = step.apply (run options (.hook first :: mid)) :=
        Run.run_concat Step.apply options (.hook first :: mid) step
      have hkeep : ¬ step.Lowers (run options (.hook first :: mid)) :=
        fun hlowers => hnone ⟨mid, step, [], rfl, .inl hlowers⟩
      have hidle : ¬ Working (run options (.hook first :: (mid ++ [step]))) :=
        fun hworking => hnone ⟨mid, step, [], rfl, .inr hworking⟩
      rw [hrun] at hidle ⊢
      obtain ⟨hsome', hstanding'⟩ := standing_step (clean_run h _) hsome hstanding hkeep
      exact ⟨hsome', hstanding', hidle⟩
  exact (records_cases (clean_run h _) hsecond).1.elim hkept.2.2 fun hdown => hdown ⟨hkept.1, hkept.2.1⟩

/-- **The end of a turn records it, when no step has raised the mark since it was cleared.** -/
theorem turn_after_clear (h : Clean options) {mid : List Step}
    (hdown : ∀ before step after, mid = before ++ step :: after → ¬ step.Raises (run options (.clear :: before)))
    {detail : Option Detail} (hmapped : event.mapped = .state .idle detail true)
    (hforeign : foreign (ownerOf (run options (.clear :: mid))) (recorded (run options (.clear :: mid))) event.session = false) :
    (event.plan (run options (.clear :: mid))).raises = true ∧ (event.plan (run options (.clear :: mid))).records = true := by
  have hlow : ¬ Standing (run options (.clear :: mid)) := by
    clear hforeign
    induction mid using List.reverseRecOn with
    | nil =>
      show ¬ (Step.apply options .clear).value Opt.attention = ['1']
      rw [clear_value, if_pos rfl]
      decide
    | append_singleton mid step ih =>
      have hrun : run options (.clear :: (mid ++ [step])) = step.apply (run options (.clear :: mid)) :=
        Run.run_concat Step.apply options (.clear :: mid) step
      rw [hrun]
      refine down_step (ih fun before step' after heq => ?_) (hdown mid step [] rfl)
      exact hdown before step' (after ++ [step]) (by rw [heq]; simp)
  obtain ⟨hraises, hrecords⟩ := turn_end (clean_run h _) hmapped hforeign
  have hup := hraises.mpr (.inr fun hboth => hlow hboth.2)
  exact ⟨hup, hrecords.trans hup⟩

theorem clean_of_stored (h : (stored options).isSome = true) : Clean options := by
  refine clean_of_decodes ?_
  rw [stored, readStamp] at h
  cases hread : StampedState.fromOptions (options.read paneOptionKeys) with
  | error e =>
    rw [hread] at h
    cases h
  | ok read =>
    cases read with
    | none =>
      rw [hread] at h
      cases h
    | some read => exact ⟨read, rfl⟩

/-- **Hook decisions over whole runs**, of a pane that stores a stamp or nothing. The stored subagents
are the ids started and not since stopped or deregistered. While there are any, the owner alone
touches the stamp, and stays the owner. Between two recorded turns the mark was taken down or the
pane was seen working. The end of a turn raises the mark and records it exactly on a working pane
or where no mark stands, so after a clear that nothing has raised since. A recorded turn raises
the mark. -/
theorem hook_decisions (options : Options) (hstart : (stored options).isSome = true ∨ options = fun _ => none)
    (steps : List Step) :
    (Run.Along Step.apply Recorded options steps → ∀ stamp, stored (run options steps) = some stamp →
        ∀ id, id ∈ stamp.subagents ↔ id ∈ ledger options {id | id ∈ subagentsOf options} steps) ∧
      (∀ stamp, stored (run options steps) = some stamp → stamp.subagents ≠ [] → ∀ event : Event,
        (event.plan (run options steps)).touches = true →
          stamp.session.isSome = true ∧ event.session = stamp.session) ∧
      (∀ later, (∀ before after, later = before ++ after → Busy (run (run options steps) before)) →
        ownerOf (run (run options steps) later) = ownerOf (run options steps)) ∧
      (∀ (first second : Event) mid, (first.plan (run options steps)).records = true →
        (second.plan (run (run options steps) (.hook first :: mid))).records = true →
          ∃ before step after, mid = before ++ step :: after ∧
            (step.Lowers (run (run options steps) (.hook first :: before)) ∨
              Working (run (run options steps) (.hook first :: (before ++ [step]))))) ∧
      (∀ (event : Event) detail, event.mapped = .state .idle detail true →
        foreign (ownerOf (run options steps)) (recorded (run options steps)) event.session = false →
          ((event.plan (run options steps)).raises = true ↔
              Working (run options steps) ∨ ¬ ((stored (run options steps)).isSome = true ∧ Standing (run options steps))) ∧
            (event.plan (run options steps)).records = (event.plan (run options steps)).raises) ∧
      (∀ (event : Event) detail mid, event.mapped = .state .idle detail true →
        (∀ before step after, mid = before ++ step :: after →
          ¬ step.Raises (run (run options steps) (.clear :: before))) →
        foreign (ownerOf (run (run options steps) (.clear :: mid))) (recorded (run (run options steps) (.clear :: mid)))
          event.session = false →
          (event.plan (run (run options steps) (.clear :: mid))).raises = true ∧
            (event.plan (run (run options steps) (.clear :: mid))).records = true) ∧
      ∀ event : Event, (event.plan (run options steps)).records = true → (event.plan (run options steps)).raises = true := by
  have hclean : Clean options := by
    rcases hstart with hsome | rfl
    · exact clean_of_stored hsome
    · exact clean_nil
  have hrun := clean_run hclean steps
  refine ⟨fun hrecorded stamp hstored id => ?_, fun stamp hstored hlive event => touches_owner hstored hlive,
    fun later hbusy => owner_run hrun hbusy, fun first second mid => turns_apart hrun,
    fun event detail hmapped hforeign => turn_end hrun hmapped hforeign,
    fun event detail mid hmapped hdown hforeign => turn_after_clear hrun hdown hmapped hforeign,
    fun event => raises_of_records⟩
  rw [(shows_of_stored hrun hstored).subagents, ← subagents_run hclean hrecorded]
  rfl

/-! ## A parent and its child -/

/-- An event of this session. -/
def toldBy (session : Text) (word : IsWord session) (mapped : Mapped) : Event where
  mapped
  session := some session
  now := 1800000000000
  notifyOptIn := false
  notifyOn := []
  pane := "%1"
  name := "agent".toList
  running := true
  companions := []
  companion := by simp
  inWord := by decide
  word := by
    intro id hid
    cases hid
    exact word

def parent : Mapped → Event := toldBy ['p'] ⟨by decide, by decide⟩
def child : Mapped → Event := toldBy ['c'] ⟨by decide, by decide⟩
def sibling : Mapped → Event := toldBy ['d'] ⟨by decide, by decide⟩

def turnEnds : Mapped := .state .idle none true

/-- A second turn end, after the first one's mark was cleared. -/
theorem hook_decisions_cleared :
    ((parent turnEnds).plan (run (run (fun _ => none) [.hook (parent turnEnds)]) [.clear])).raises = true ∧
      ((parent turnEnds).plan (run (run (fun _ => none) [.hook (parent turnEnds)]) [.clear])).records = true := by
  refine (hook_decisions (fun _ => none) (.inr rfl) [.hook (parent turnEnds)]).2.2.2.2.2.1 _ none [] rfl ?_
    (by decide +kernel)
  intro before step after h
  cases before <;> cases h

/-- A deregistration ends a child that has not stopped; a blocked pane's mark stands for the turn that
ends after it; and without a stamp a second child displaces the first. -/
theorem children_lost :
    subagentsOf (run (fun _ => none) [.hook (parent .register), .hook (child .subagentStart)]) = [['c']] ∧
      subagentsOf (run (fun _ => none)
        [.hook (parent .register), .hook (child .subagentStart), .hook (parent .deregister)]) = [] ∧
      ((parent turnEnds).plan (run (fun _ => none)
        [.hook (parent .register), .clear, .hook (parent (.state .blocked none false))])).records = false ∧
      subagentsOf (run (fun _ => none)
        [.hook (child .subagentStart), .hook (sibling .subagentStart), .hook (parent .register)]) = [['d']] := by
  decide +kernel

end TmuxAgents.Hook
