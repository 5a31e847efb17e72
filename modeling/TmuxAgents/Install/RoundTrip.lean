/-
Installing and uninstalling again, on a file with nothing of tma's in it.

An uninstall takes an event's turn on what the install's turn left and on what was there
before alike, and the turns of different events commute; so after an install it leaves what
it would have left without one. That is the file, unless the user had something an uninstall
prunes: an empty array, an empty `hooks`, cursor's lone `version: 1`, a statusline without a
command.
-/
import TmuxAgents.Install.UserHooks
import TmuxAgents.Install.Statusline

namespace TmuxAgents.Install

section

variable {shape : HookShape} {agent event : Text} {hooks : Members}

/-! ## One event -/

/-- What an uninstall makes of the value an event has. -/
def pruned (shape : HookShape) (agent event : Text) : Option Value → Option Value
  | some (.arr entries) =>
    if (entries.filter fun e => !entryIsOurs shape agent event e) = [] then none
    else some (.arr (entries.filter fun e => !entryIsOurs shape agent event e))
  | v => v

theorem pruned_pruned (v : Option Value) : pruned shape agent event (pruned shape agent event v) = pruned shape agent event v := by
  rcases v with _ | v
  · rfl
  · cases v with
    | arr entries =>
      rw [pruned]
      split
      · rfl
      next hne =>
        rw [pruned, List.filter_filter]
        simp only [Bool.and_self]
        rw [if_neg hne]
    | _ => rfl

theorem get?_uninstallEvent_self :
    Assoc.get? (uninstallEvent shape agent hooks event) event = pruned shape agent event (Assoc.get? hooks event) := by
  rw [uninstallEvent_eq]
  cases hget : Assoc.get? hooks event with
  | none => exact hget
  | some v =>
    cases v with
    | arr entries =>
      simp only [pruned]
      split
      · exact Assoc.get?_remove_self
      · exact Assoc.get?_set_self
    | _ => exact hget

/-- An uninstall's turn and a change elsewhere commute. -/
theorem uninstallEvent_set {other : Text} (h : other ≠ event) (v : Value) :
    uninstallEvent shape agent (Assoc.set hooks other v) event =
      Assoc.set (uninstallEvent shape agent hooks event) other v := by
  rw [uninstallEvent_eq, uninstallEvent_eq, Assoc.get?_set_other h.symm]
  cases hget : Assoc.get? hooks event with
  | none => rfl
  | some old =>
    cases old with
    | arr entries =>
      simp only
      split
      · exact Assoc.remove_set_other h
      · exact Assoc.set_comm h hget
    | _ => rfl

/-- **An uninstall's turn takes back an install's**, whose entry goes by the wrapper's name. -/
theorem uninstallEvent_install {cmd : Text} (hmade : entryIsOurs shape agent event (shape.makeEntry cmd) = true)
    (hget : Assoc.get? hooks event = none ∨ ∃ entries, Assoc.get? hooks event = some (.arr entries)) :
    uninstallEvent shape agent
        (Assoc.set hooks event (.arr (installEntries shape agent event cmd (entriesAt hooks event)))) event =
      uninstallEvent shape agent hooks event := by
  have hfilter : ∀ entries, ((installEntries shape agent event cmd entries).filter fun e =>
      !entryIsOurs shape agent event e) = entries.filter fun e => !entryIsOurs shape agent event e := by
    intro entries
    have hkept : ((entries.filter fun e => !entryIsOurs shape agent event e || entryIsCurrent shape cmd e).filter fun e =>
        !entryIsOurs shape agent event e) = entries.filter fun e => !entryIsOurs shape agent event e := by
      rw [List.filter_filter]
      refine List.filter_congr fun e _ => ?_
      cases entryIsOurs shape agent event e <;> simp
    rw [installEntries]
    split
    · exact hkept
    · rw [List.filter_append, hkept, List.filter_singleton, hmade]
      simp
  rw [uninstallEvent_eq, uninstallEvent_eq, Assoc.get?_set_self]
  simp only [Assoc.remove_set, Assoc.set_set, hfilter]
  rcases hget with hget | ⟨entries, hget⟩
  · rw [entriesAt, hget]
    exact Assoc.remove_of_none hget
  · rw [entriesAt, hget]

/-! ## The loops -/

/-- One event's install makes no difference to an uninstall that has the event. -/
theorem uninstallEvents_installEvent {events : List Text} (hevent : event ∈ events) {cmd : Text}
    (hmade : entryIsOurs shape agent event (shape.makeEntry cmd) = true)
    (hget : Assoc.get? hooks event = none ∨ ∃ entries, Assoc.get? hooks event = some (.arr entries)) :
    events.foldl (uninstallEvent shape agent)
        (Assoc.set hooks event (.arr (installEntries shape agent event cmd (entriesAt hooks event)))) =
      events.foldl (uninstallEvent shape agent) hooks := by
  induction events generalizing hooks with
  | nil => cases hevent
  | cons first events ih =>
    rw [List.foldl_cons, List.foldl_cons]
    by_cases he : event = first
    · subst he
      rw [uninstallEvent_install hmade hget]
    · rw [uninstallEvent_set he, ← entriesAt_congr (@get?_uninstallEvent_other shape agent _ _ _ he)]
      refine ih ((List.mem_cons.mp hevent).resolve_left he) ?_
      rw [get?_uninstallEvent_other he]
      exact hget

/-- **What an uninstall leaves after an install is what it would have left before.** -/
theorem uninstallEvents_installEvents {wrapper : Text} {listed events : List Text} {hooks' : Members}
    (hlisted : ∀ event ∈ listed, event ∈ events)
    (hmade : ∀ event ∈ listed,
      entryIsOurs shape agent event (shape.makeEntry (wrapperCommand wrapper agent event)) = true)
    (h : installEvents shape agent wrapper hooks listed = .ok hooks') :
    events.foldl (uninstallEvent shape agent) hooks' = events.foldl (uninstallEvent shape agent) hooks := by
  induction listed generalizing hooks with
  | nil =>
    cases h
    rfl
  | cons first listed ih =>
    rw [installEvents] at h
    split at h
    · cases h
    next hooks1 hfirst =>
      obtain ⟨hget, rfl⟩ := installEvent_cases hfirst
      rw [ih (fun event he => hlisted event (List.mem_cons_of_mem first he))
        (fun event he => hmade event (List.mem_cons_of_mem first he)) h]
      exact uninstallEvents_installEvent (hlisted first List.mem_cons_self) (hmade first List.mem_cons_self) hget

/-- What an uninstall leaves under a key. -/
theorem get?_uninstallEvents (events : List Text) (event : Text) :
    Assoc.get? (events.foldl (uninstallEvent shape agent) hooks) event =
      if event ∈ events then pruned shape agent event (Assoc.get? hooks event) else Assoc.get? hooks event := by
  induction events generalizing hooks with
  | nil => simp
  | cons first events ih =>
    rw [List.foldl_cons, ih]
    by_cases he : event = first
    · subst he
      rw [get?_uninstallEvent_self, pruned_pruned]
      simp
    · rw [get?_uninstallEvent_other he]
      simp [he]

/-- **On hooks without an entry of tma's, an uninstall changes nothing exactly when no listed
event has an empty array.** -/
theorem uninstallEvents_eq_self_iff {events : List Text}
    (hclean : ∀ event ∈ events, ∀ e ∈ entriesAt hooks event, entryIsOurs shape agent event e = false) :
    events.foldl (uninstallEvent shape agent) hooks = hooks ↔
      ∀ event ∈ events, Assoc.get? hooks event ≠ some (.arr []) := by
  constructor
  · intro h event hevent hget
    have hleft := @get?_uninstallEvents shape agent hooks events event
    rw [h, if_pos hevent, hget] at hleft
    exact absurd hleft (by simp [pruned])
  · intro h
    have hturn : ∀ event ∈ events, uninstallEvent shape agent hooks event = hooks := by
      intro event hevent
      rw [uninstallEvent_eq]
      cases hget : Assoc.get? hooks event with
      | none => rfl
      | some v =>
        cases v with
        | arr entries =>
          have hkept : (entries.filter fun e => !entryIsOurs shape agent event e) = entries := by
            refine List.filter_eq_self.mpr fun e he => ?_
            rw [hclean event hevent e (by rw [entriesAt, hget]; exact he)]
            rfl
          simp only [hkept]
          rw [if_neg, Assoc.set_of_get? hget]
          rintro rfl
          exact h event hevent hget
        | _ => rfl
    clear h hclean
    induction events with
    | nil => rfl
    | cons first events ih =>
      rw [List.foldl_cons, hturn first List.mem_cons_self]
      exact ih fun event he => hturn event (List.mem_cons_of_mem first he)

/-! ## The root -/

variable {others : Text → Bool}

theorem installRoot_cases (hshape : shape.Lawful others) {wrapper : Text} {events : List Text} {root after : Members}
    (h : installRoot shape agent wrapper events root = .ok after) :
    (∃ hooks', after = Assoc.set ((shape.preInsert.getD id) root) hooksKey (.obj hooks')) ∧
      (Assoc.get? root hooksKey = none ∨ ∃ hooks, Assoc.get? root hooksKey = some (.obj hooks)) := by
  have hget := hshape.pre_get root
  rw [installRoot] at h
  split at h
  next hooks hhooks =>
    split at h
    · cases h
    next hooks' _ =>
      cases h
      refine ⟨⟨hooks', ?_⟩, ?_⟩
      · split
        · exact Assoc.set_set
        · rfl
      · split at hhooks
        next hnone =>
          rw [hget] at hnone
          exact .inl (Option.isNone_iff_eq_none.mp hnone)
        next =>
          rw [hget] at hhooks
          exact .inr ⟨hooks, hhooks⟩
  next => cases h

/-- **What an install and an uninstall leave of a root object.** -/
theorem uninstallRoot_installRoot (hshape : shape.Lawful others) {wrapper : Text} {events : List Text}
    {root after : Members} (h : installRoot shape agent wrapper events root = .ok after)
    (hsame : events.foldl (uninstallEvent shape agent) (hooksOf (.obj after)) =
      events.foldl (uninstallEvent shape agent) (hooksOf (.obj root))) :
    uninstallRoot shape agent events after =
      if events.foldl (uninstallEvent shape agent) (hooksOf (.obj root)) = [] then
        (shape.postPrune.getD id) (Assoc.remove ((shape.preInsert.getD id) root) hooksKey)
      else Assoc.set ((shape.preInsert.getD id) root) hooksKey
        (.obj (events.foldl (uninstallEvent shape agent) (hooksOf (.obj root)))) := by
  obtain ⟨⟨hooks', rfl⟩, -⟩ := installRoot_cases hshape h
  have hof : hooksOf (.obj (Assoc.set ((shape.preInsert.getD id) root) hooksKey (.obj hooks'))) = hooks' := by
    rw [hooksOf, Value.get?, Assoc.get?_set_self]
  rw [hof] at hsame
  rw [uninstallRoot, Assoc.get?_set_self]
  simp only [hsame, List.isEmpty_iff, Assoc.remove_set, Assoc.set_set]

/-- Hooks that are all of this build already are left as they are. -/
theorem installEvents_of_settled {wrapper : Text} {events : List Text} {hooks' : Members}
    (hsettled : ∀ event ∈ events,
      Settled shape agent event (wrapperCommand wrapper agent event) (entriesAt hooks event))
    (h : installEvents shape agent wrapper hooks events = .ok hooks') : hooks' = hooks := by
  induction events with
  | nil =>
    cases h
    rfl
  | cons first events ih =>
    rw [installEvents] at h
    split at h
    · cases h
    next hooks1 hfirst =>
      obtain ⟨hget, rfl⟩ := installEvent_cases hfirst
      have hset := hsettled first List.mem_cons_self
      rcases hget with hget | ⟨entries, hget⟩
      · obtain ⟨-, e, he, -⟩ := hset
        rw [entriesAt, hget] at he
        cases he
      · have hentries : entriesAt hooks first = entries := by rw [entriesAt, hget]
        rw [installEntries_of_settled hset, hentries, Assoc.set_of_get? hget] at h
        exact ih (fun event he => hsettled event (List.mem_cons_of_mem first he)) h

/-- What this build installs will be found again: the wrapper goes by its name, or every
listed event has its entry already. -/
def Found (shape : HookShape) (agent wrapper : Text) (events : List Text) (hooks : Members) : Prop :=
  fileName wrapper = some wrapperName ∨
    ∀ event ∈ events, ∃ e ∈ entriesAt hooks event, entryIsCurrent shape (wrapperCommand wrapper agent event) e = true

/-- The hooks of a root are not among what an uninstall prunes. -/
def NotPruned (events : List Text) (root : Members) : Prop :=
  ∃ hooks, Assoc.get? root hooksKey = some (.obj hooks) ∧ hooks ≠ [] ∧
    ∀ event ∈ events, Assoc.get? hooks event ≠ some (.arr [])

/-- There is no wrapper command for any listed event. -/
def NothingOfTmas (shape : HookShape) (agent : Text) (events : List Text) (root : Members) : Prop :=
  ∀ event ∈ events, ∀ e ∈ entriesAt (hooksOf (.obj root)) event, entryIsOurs shape agent event e = false

theorem made_isOurs (hmade : ∀ cmd, shape.entryCommands (shape.makeEntry cmd) = [cmd]) (wrapper : Text) :
    entryIsOurs shape agent event (shape.makeEntry (wrapperCommand wrapper agent event)) = true ↔
      fileName wrapper = some wrapperName := by
  rw [entryIsOurs, hmade, ← isWrapperCommand_append wrapper agent event]
  simp

/-- **Where what is installed is found again, the uninstall leaves what it would have left before.** -/
theorem uninstallEvents_of_found (hshape : shape.Lawful others) {wrapper : Text} {events : List Text} {hooks' : Members}
    (hclean : ∀ event ∈ events, ∀ e ∈ entriesAt hooks event, entryIsOurs shape agent event e = false)
    (hfound : Found shape agent wrapper events hooks)
    (h : installEvents shape agent wrapper hooks events = .ok hooks') :
    events.foldl (uninstallEvent shape agent) hooks' = events.foldl (uninstallEvent shape agent) hooks := by
  rcases hfound with hname | hall
  · exact uninstallEvents_installEvents (fun _ he => he) (fun event _ => (made_isOurs hshape.made wrapper).mpr hname) h
  · rw [installEvents_of_settled (fun event hevent => ⟨fun e he hours => ?_, hall event hevent⟩) h]
    rw [hclean event hevent e he] at hours
    cases hours

/-- Otherwise an entry stays behind. -/
theorem found_of_entries (hshape : shape.Lawful others) {wrapper : Text} {events : List Text} {hooks' : Members}
    (hclean : ∀ event ∈ events, ∀ e ∈ entriesAt hooks event, entryIsOurs shape agent event e = false)
    (h : installEvents shape agent wrapper hooks events = .ok hooks')
    (hsame : events.foldl (uninstallEvent shape agent) hooks' = hooks) : Found shape agent wrapper events hooks := by
  by_cases hname : fileName wrapper = some wrapperName
  · exact .inl hname
  · refine .inr fun event hevent => ?_
    obtain ⟨-, e, he, hcur⟩ := @installEntries_settled shape agent event hshape.made
      (wrapperCommand wrapper agent event) (entriesAt hooks event)
    have hours : entryIsOurs shape agent event e = false := by
      rcases mem_installEntries he with he | rfl
      · exact hclean event hevent e he
      · exact Bool.eq_false_iff.mpr fun hours => hname ((made_isOurs hshape.made wrapper).mp hours)
    refine ⟨e, ?_, hcur⟩
    rw [← hsame, uninstallEvents_entries, if_pos hevent, installEvents_entries hshape.made h, if_pos hevent]
    exact List.mem_filter.mpr ⟨he, by simp [hours]⟩

/-- **An uninstall restores what an install found, exactly when it is not something that is
pruned.** -/
theorem uninstallRoot_eq_iff (hshape : shape.Lawful others) {wrapper : Text} {events : List Text} {root after : Members}
    (hclean : NothingOfTmas shape agent events root) (h : installRoot shape agent wrapper events root = .ok after) :
    uninstallRoot shape agent events after = root ↔
      Found shape agent wrapper events (hooksOf (.obj root)) ∧
        ((Assoc.get? root hooksKey = none ∧ (shape.postPrune.getD id) ((shape.preInsert.getD id) root) = root) ∨
          ((shape.preInsert.getD id) root = root ∧ NotPruned events root)) := by
  obtain ⟨hevents, -, -⟩ := installRoot_spec hshape h
  have hpre := hshape.pre_get root
  constructor
  · intro heq
    have hfound : Found shape agent wrapper events (hooksOf (.obj root)) := by
      refine found_of_entries hshape hclean hevents ?_
      rw [← (uninstallRoot_spec hshape events after).1, heq]
    have hsame := uninstallEvents_of_found hshape hclean hfound hevents
    rw [uninstallRoot_installRoot hshape h hsame] at heq
    refine ⟨hfound, ?_⟩
    rcases (installRoot_cases hshape h).2 with hnone | ⟨hooks, hget⟩
    · have hof : hooksOf (.obj root) = [] := by rw [hooksOf, Value.get?, hnone]
      rw [hof, uninstallEvents_nil, if_pos rfl, Assoc.remove_of_none (hpre.trans hnone)] at heq
      exact .inl ⟨hnone, heq⟩
    · have hof : hooksOf (.obj root) = hooks := by rw [hooksOf, Value.get?, hget]
      have hleft := congrArg (Assoc.get? · hooksKey) heq
      rw [hof] at heq hleft
      simp only [hget] at hleft
      split at heq
      next hempty =>
        rw [if_pos hempty, hshape.post_get, Assoc.get?_remove_self] at hleft
        cases hleft
      next hne =>
        rw [if_neg hne, Assoc.get?_set_self] at hleft
        have hkept := Value.obj.inj (Option.some.inj hleft)
        rw [hkept, Assoc.set_of_get? (hpre.trans hget)] at heq
        rw [hkept] at hne
        refine .inr ⟨heq, hooks, hget, hne, (uninstallEvents_eq_self_iff fun event he => ?_).mp hkept⟩
        have hevent := hclean event he
        rw [hof] at hevent
        exact hevent
  · rintro ⟨hfound, hcase⟩
    rw [uninstallRoot_installRoot hshape h (uninstallEvents_of_found hshape hclean hfound hevents)]
    rcases hcase with ⟨hnone, hpost⟩ | ⟨hid, hooks, hget, hne, hfull⟩
    · have hof : hooksOf (.obj root) = [] := by rw [hooksOf, Value.get?, hnone]
      rw [hof, uninstallEvents_nil, if_pos rfl, Assoc.remove_of_none (hpre.trans hnone), hpost]
    · have hof : hooksOf (.obj root) = hooks := by rw [hooksOf, Value.get?, hget]
      have hkept := (@uninstallEvents_eq_self_iff shape agent hooks events (hof ▸ hclean)).mpr hfull
      rw [hof, hkept, if_neg hne, hid, Assoc.set_of_get? hget]

end

/-! ## The two shapes -/

theorem claude_restored_iff {agent wrapper : Text} {events : List Text} {root after : Members}
    (hclean : NothingOfTmas claudeShape agent events root)
    (h : installRoot claudeShape agent wrapper events root = .ok after) :
    uninstallRoot claudeShape agent events after = root ↔
      Found claudeShape agent wrapper events (hooksOf (.obj root)) ∧
        (Assoc.get? root hooksKey = none ∨ NotPruned events root) := by
  rw [uninstallRoot_eq_iff claudeShape_lawful hclean h]
  refine and_congr_right fun _ => or_congr ?_ ?_
  · exact and_iff_left rfl
  · exact and_iff_right rfl

/-- Cursor's version is not set where there is one. -/
theorem cursorSetVersion_eq_self_iff (root : Members) :
    cursorSetVersion root = root ↔ Assoc.get? root versionKey ≠ none := by
  rw [cursorSetVersion]
  cases hget : Assoc.get? root versionKey with
  | none =>
    rw [if_pos (by rfl), Assoc.set_of_none hget]
    simp
  | some v => simp

theorem cursorDropVersion_set_iff (root : Members) :
    cursorDropVersion (cursorSetVersion root) = root ↔ Assoc.get? root versionKey ≠ some (.num ['1']) := by
  cases hget : Assoc.get? root versionKey with
  | none =>
    have hset : cursorSetVersion root = Assoc.set root versionKey (.num ['1']) := by
      rw [cursorSetVersion, hget]
      rfl
    rcases cursorDropVersion_cases (cursorSetVersion root) with ⟨-, h⟩ | ⟨hne, -⟩
    · rw [h, hset, Assoc.remove_set_of_none hget]
      simp
    · rw [hset, Assoc.get?_set_self] at hne
      exact absurd rfl hne
  | some v =>
    have hset : cursorSetVersion root = root := (cursorSetVersion_eq_self_iff root).mpr (by simp [hget])
    rw [hset]
    rcases cursorDropVersion_cases root with ⟨hone, h⟩ | ⟨hne, h⟩
    · rw [h, ← hget, hone]
      refine ⟨fun heq => ?_, fun hne => absurd rfl hne⟩
      rw [← heq, Assoc.get?_remove_self] at hone
      cases hone
    · rw [h, ← hget]
      exact ⟨fun _ => hne, fun _ => rfl⟩

theorem cursor_restored_iff {agent wrapper : Text} {events : List Text} {root after : Members}
    (hclean : NothingOfTmas cursorShape agent events root)
    (h : installRoot cursorShape agent wrapper events root = .ok after) :
    uninstallRoot cursorShape agent events after = root ↔
      Found cursorShape agent wrapper events (hooksOf (.obj root)) ∧
        ((Assoc.get? root hooksKey = none ∧ Assoc.get? root versionKey ≠ some (.num ['1'])) ∨
          (Assoc.get? root versionKey ≠ none ∧ NotPruned events root)) := by
  rw [uninstallRoot_eq_iff cursorShape_lawful hclean h]
  refine and_congr_right fun _ => or_congr (and_congr_right fun _ => ?_) (and_congr_left fun _ => ?_)
  · exact cursorDropVersion_set_iff root
  · exact cursorSetVersion_eq_self_iff root

/-! ## The texts -/

theorem toPretty_inj {v w : Value} (hv : Fits maxDepth v) (hw : Fits maxDepth w) : toPretty v = toPretty w ↔ v = w := by
  constructor
  · intro h
    have hparse := parse_toPretty hv
    rw [h, parse_toPretty hw] at hparse
    exact (Except.ok.inj hparse).symm
  · rintro rfl
    rfl

/-- The texts agree when the root objects do. -/
theorem hooks_text_iff {shape : HookShape} {others : Text → Bool} (hshape : shape.Lawful others) {agent wrapper new : Text}
    {events : List Text} {root : Members} (hfits : Fits maxDepth (.obj root))
    (h : editHooksInstall shape agent (toPretty (.obj root)) wrapper events = .ok new) :
    ∃ after, installRoot shape agent wrapper events root = .ok after ∧
      (editHooksUninstall shape agent new events = .ok (toPretty (.obj root)) ↔
        uninstallRoot shape agent events after = root) := by
  rw [editHooksInstall, parse_toPretty hfits] at h
  simp only at h
  split at h
  · cases h
  next after hafter =>
    cases h
    have hafterfits := (installRoot_spec hshape hafter).2.2 hfits
    refine ⟨after, hafter, ?_⟩
    rw [editHooksUninstall, parse_toPretty hafterfits]
    simp only [Except.ok.injEq]
    rw [toPretty_inj ((uninstallRoot_spec hshape events after).2.2 hafterfits) hfits, Value.obj.injEq]

theorem Fits.objSet {levels : Nat} {v new : Value} {key : Text} (h : Fits (levels + 1) v) (hnew : Fits levels new) :
    Fits (levels + 1) (v.objSet key new) := by
  cases v with
  | obj members =>
    intro m hm
    rcases Assoc.mem_set hm with hm | rfl
    · exact h m hm
    · exact hnew
  | _ => exact h

theorem Fits.objRemove {levels : Nat} {v : Value} {key : Text} (h : Fits (levels + 1) v) :
    Fits (levels + 1) (v.objRemove key) := by
  cases v with
  | obj members => exact fun m hm => h m (Assoc.mem_remove hm)
  | _ => exact h

theorem Fits.get? {levels : Nat} {v value : Value} {key : Text} (h : Fits (levels + 1) v) (hget : v.get? key = some value) :
    Fits levels value := by
  cases v with
  | obj members => exact h _ (Assoc.mem_of_get? hget)
  | _ => cases hget

theorem uninstallStatusline_fits {agent : Text} {root : Value} (hfits : Fits maxDepth root) :
    Fits maxDepth (uninstallStatusline agent root) := by
  rw [uninstallStatusline]
  split
  · exact hfits
  · split
    · cases hsl : root.get? statusLineKey with
      | none =>
        simp only
        split
        · exact Fits.objRemove hfits
        · exact hfits
      | some sl =>
        simp only
        split
        · exact Fits.objRemove hfits
        · exact Fits.objSet hfits (Fits.objSet (Fits.get? hfits hsl) trivial)
    · exact hfits

theorem installStatusline_fits {bin agent : Text} {root : Members} (hfits : Fits maxDepth (.obj root)) :
    Fits maxDepth (.obj (installStatusline bin agent root)) := by
  have hmembers : Fits 127 (.obj (statusLineMembers root)) := by
    rw [statusLineMembers]
    split
    next members hget => exact hfits _ (Assoc.mem_of_get? hget)
    next => exact fun m hm => absurd hm List.not_mem_nil
  exact @Fits.objSet 127 (.obj root) _ statusLineKey hfits
    (@Fits.objSet 126 (.obj _) _ commandKey (@Fits.objSet 126 (.obj _) _ typeKey hmembers trivial) trivial)

theorem statusline_text_iff {bin agent new : Text} {root : Members} (hfits : Fits maxDepth (.obj root))
    (h : editStatuslineInstall (toPretty (.obj root)) bin agent = .ok new) :
    editStatuslineUninstall new agent = .ok (toPretty (.obj root)) ↔
      uninstallStatusline agent (.obj (installStatusline bin agent root)) = .obj root := by
  rw [editStatuslineInstall, parse_toPretty hfits] at h
  cases h
  have hafter := @installStatusline_fits bin agent root hfits
  rw [editStatuslineUninstall, parse_toPretty hafter]
  simp only [Except.ok.injEq]
  exact toPretty_inj (uninstallStatusline_fits hafter) hfits

/-- **The installer's round trip.** On a canonical settings text with nothing of tma's in it,
an install and an uninstall give the text back exactly when what is installed is found again
and the text has nothing that an uninstall prunes. -/
theorem installer_round_trip (text agent wrapper bin : Text) (events : List Text) (root : Members)
    (hparse : parse text = .ok (.obj root)) :
    (NothingOfTmas claudeShape agent events root →
      ∀ new, editHooksInstall claudeShape agent (toPretty (.obj root)) wrapper events = .ok new →
        (editHooksUninstall claudeShape agent new events = .ok (toPretty (.obj root)) ↔
          Found claudeShape agent wrapper events (hooksOf (.obj root)) ∧
            (Assoc.get? root hooksKey = none ∨ NotPruned events root))) ∧
    (NothingOfTmas cursorShape agent events root →
      ∀ new, editHooksInstall cursorShape agent (toPretty (.obj root)) wrapper events = .ok new →
        (editHooksUninstall cursorShape agent new events = .ok (toPretty (.obj root)) ↔
          Found cursorShape agent wrapper events (hooksOf (.obj root)) ∧
            ((Assoc.get? root hooksKey = none ∧ Assoc.get? root versionKey ≠ some (.num ['1'])) ∨
              (Assoc.get? root versionKey ≠ none ∧ NotPruned events root)))) ∧
    ((∀ cmd, statuslineCommand (.obj root) = some cmd → isStatuslineShim agent cmd = false) →
      ∀ new, editStatuslineInstall (toPretty (.obj root)) bin agent = .ok new →
        (editStatuslineUninstall new agent = .ok (toPretty (.obj root)) ↔ StatuslineRestorable bin agent root)) := by
  have hfits := parse_fits hparse
  refine ⟨fun hclean new h => ?_, fun hclean new h => ?_, fun hclean new h => ?_⟩
  · obtain ⟨after, hafter, htext⟩ := hooks_text_iff claudeShape_lawful hfits h
    rw [htext, claude_restored_iff hclean hafter]
  · obtain ⟨after, hafter, htext⟩ := hooks_text_iff cursorShape_lawful hfits h
    rw [htext, cursor_restored_iff hclean hafter]
  · rw [statusline_text_iff hfits h, uninstallStatusline_install_iff hclean]

theorem model_fits : Fits maxDepth (.obj [("model".toList, .str "opus".toList)]) := by
  intro m hm
  rw [List.mem_singleton.mp hm]
  trivial

/-- Settings without hooks come back, under both shapes and with a statusline. -/
theorem installer_round_trip_model :
    ∃ text, parse text = .ok (.obj [("model".toList, .str "opus".toList)]) ∧
      (∃ new, editHooksInstall claudeShape "claude".toList text "/opt/tma-hook".toList ["Stop".toList] = .ok new ∧
        editHooksUninstall claudeShape "claude".toList new ["Stop".toList] = .ok text) ∧
      (∃ new, editHooksInstall cursorShape "cursor".toList text "/opt/tma-hook".toList ["stop".toList] = .ok new ∧
        editHooksUninstall cursorShape "cursor".toList new ["stop".toList] = .ok text) ∧
      ∃ new, editStatuslineInstall text "/bin/tma".toList "claude".toList = .ok new ∧
        editStatuslineUninstall new "claude".toList = .ok text := by
  have hparse := parse_toPretty model_fits
  have hclean : ∀ (shape : HookShape) (agent : Text) (events : List Text),
      NothingOfTmas shape agent events [("model".toList, .str "opus".toList)] := by
    intro shape agent events event _ e he
    exact absurd he List.not_mem_nil
  refine ⟨_, hparse, ⟨_, by rw [editHooksInstall, hparse]; rfl, ?_⟩, ⟨_, by rw [editHooksInstall, hparse]; rfl, ?_⟩,
    ⟨_, by rw [editStatuslineInstall, hparse], ?_⟩⟩
  · refine ((installer_round_trip _ "claude".toList "/opt/tma-hook".toList [] ["Stop".toList] _ hparse).1
      (hclean _ _ _) _ (by rw [editHooksInstall, hparse]; rfl)).mpr ⟨.inl (by decide), .inl (by decide)⟩
  · refine ((installer_round_trip _ "cursor".toList "/opt/tma-hook".toList [] ["stop".toList] _ hparse).2.1
      (hclean _ _ _) _ (by rw [editHooksInstall, hparse]; rfl)).mpr ⟨.inl (by decide), .inl ⟨by decide, ?_⟩⟩
    rintro ⟨⟩
  · refine ((installer_round_trip _ "claude".toList [] "/bin/tma".toList [] _ hparse).2.2 (fun cmd h => ?_) _
      (by rw [editStatuslineInstall, hparse])).mpr ⟨by decide +kernel, .inl (by decide)⟩
    cases h

/-- An empty `hooks` object does not come back: an uninstall prunes it. -/
theorem empty_hooks_pruned :
    ¬ ∀ (text agent wrapper : Text) (events : List Text) (root : Members), parse text = .ok (.obj root) →
      NothingOfTmas claudeShape agent events root →
      ∀ new, editHooksInstall claudeShape agent (toPretty (.obj root)) wrapper events = .ok new →
        editHooksUninstall claudeShape agent new events = .ok (toPretty (.obj root)) := by
  intro h
  have hfits : Fits maxDepth (.obj [(hooksKey, .obj [])]) := by
    intro m hm
    rw [List.mem_singleton.mp hm]
    exact fun m hm => absurd hm List.not_mem_nil
  have hclean : NothingOfTmas claudeShape "claude".toList ["Stop".toList] [(hooksKey, .obj [])] :=
    fun event _ e he => absurd he List.not_mem_nil
  obtain ⟨new, hnew⟩ : ∃ new, editHooksInstall claudeShape "claude".toList (toPretty (.obj [(hooksKey, .obj [])]))
      "/opt/tma-hook".toList ["Stop".toList] = .ok new := ⟨_, by rw [editHooksInstall, parse_toPretty hfits]; rfl⟩
  have hback := h _ "claude".toList _ ["Stop".toList] _ (parse_toPretty hfits) hclean new hnew
  obtain ⟨after, hafter, htext⟩ := hooks_text_iff claudeShape_lawful hfits hnew
  obtain ⟨-, hnone | ⟨hooks, hget, hne, -⟩⟩ := (claude_restored_iff hclean hafter).mp (htext.mp hback)
  · cases hnone
  · cases hget
    exact hne rfl

end TmuxAgents.Install
