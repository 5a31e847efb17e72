/-
The user's own hook commands, before and after the installer's edits.

An entry is kept or dropped whole, and asked only whether one of its commands is tma's. So a
user's command that shares an entry with one of tma's is dropped with it, and an entry made
for a wrapper of another name counts as the user's from then on. Where neither happens every
command of the user survives, in its entry, as it was.
-/
import TmuxAgents.Install.HooksFacts

namespace TmuxAgents.Install

/-! ## The user's commands -/

/-- The members of the `hooks` object; none when it is not there or is something else. -/
def hooksOf (root : Value) : Members :=
  match root.get? hooksKey with
  | some (.obj hooks) => hooks
  | _ => []

/-- The members of a root object. -/
def rootMembers : Value → Members
  | .obj members => members
  | _ => []

section

variable (shape : HookShape) (agent event : Text)

/-- The commands of an entry that are not wrapper commands for the event. -/
def usersOf (entry : Value) : List Text := (shape.entryCommands entry).filter fun c => !isWrapperCommand c agent event

/-- The entry carries a wrapper command and nothing of the user. -/
def wiringOnly (entry : Value) : Bool := entryIsOurs shape agent event entry && (usersOf shape agent event entry).isEmpty

/-- The user's commands under a member of `hooks`. -/
def userCommands : Value → List Text
  | .arr entries => entries.flatMap (usersOf shape agent event)
  | _ => []

/-- The (event, command) pairs of the user in a document. -/
def userPairs (root : Value) : List (Text × Text) :=
  (hooksOf root).flatMap fun m => (userCommands shape agent m.1 m.2).map (Prod.mk m.1)

/-- The user's hooks are the same before and after: the same commands for each event, the
entries they are in as they were, and the root's other members. -/
structure UserHooksKept (others : Text → Bool) (before after : Value) : Prop where
  commands : (userPairs shape agent after).Perm (userPairs shape agent before)
  entries : ∀ event,
    ((entriesAt (hooksOf after) event).filter fun e => !wiringOnly shape agent event e) =
      (entriesAt (hooksOf before) event).filter fun e => !wiringOnly shape agent event e
  members : ((rootMembers after).filter fun m => others m.1) = (rootMembers before).filter fun m => others m.1

/-- Installing drops no command of the user at an event, and what it adds counts as tma's: each
entry with a wrapper command is this build's or has no other command, and the wrapper goes by
its name unless this build's entry is there already. -/
def InstallSpares (wrapper : Text) (entries : List Value) : Prop :=
  (∀ e ∈ entries, entryIsOurs shape agent event e = true →
    entryIsCurrent shape (wrapperCommand wrapper agent event) e = true ∨ usersOf shape agent event e = []) ∧
  (fileName wrapper = some wrapperName ∨
    ∃ e ∈ entries, entryIsCurrent shape (wrapperCommand wrapper agent event) e = true)

/-- Uninstalling drops no command of the user at an event: no entry has one beside a wrapper command. -/
def UninstallSpares (entries : List Value) : Prop :=
  ∀ e ∈ entries, entryIsOurs shape agent event e = true → usersOf shape agent event e = []

end

/-- The keys of the root and of its `hooks` are distinct. -/
def KeysDistinct (root : Value) : Prop := ((rootMembers root).map Prod.fst).Nodup ∧ ((hooksOf root).map Prod.fst).Nodup

/-! ## At one event -/

section

variable {shape : HookShape} {agent event : Text}

theorem userPairs_perm_iff {before after : Value} (h : ((hooksOf before).map Prod.fst).Nodup)
    (h' : ((hooksOf after).map Prod.fst).Nodup) :
    (userPairs shape agent after).Perm (userPairs shape agent before) ↔
      ∀ event, ((entriesAt (hooksOf after) event).flatMap (usersOf shape agent event)).Perm
        ((entriesAt (hooksOf before) event).flatMap (usersOf shape agent event)) := by
  have hat : ∀ (hooks : Members) event, ((Assoc.get? hooks event).map (userCommands shape agent event)).getD [] =
      (entriesAt hooks event).flatMap (usersOf shape agent event) := by
    intro hooks event
    rw [entriesAt]
    cases Assoc.get? hooks event with
    | none => rfl
    | some v => cases v <;> rfl
  rw [userPairs, userPairs, Assoc.perm_flatMap_iff h' h]
  simp only [hat]

/-- Dropping entries keeps the commands exactly when those dropped have none. -/
theorem flatMap_filter_perm_iff (entries : List Value) (p : Value → Bool) (gained : List Text)
    (hgained : ∀ c ∈ gained, ∀ e ∈ entries, p e = false → c ∉ usersOf shape agent event e) :
    ((entries.filter p).flatMap (usersOf shape agent event) ++ gained).Perm (entries.flatMap (usersOf shape agent event)) ↔
      gained = [] ∧ ∀ e ∈ entries, p e = false → usersOf shape agent event e = [] := by
  have hsplit : (entries.flatMap (usersOf shape agent event)).Perm
      ((entries.filter p).flatMap (usersOf shape agent event) ++
        (entries.filter fun e => !p e).flatMap (usersOf shape agent event)) := by
    rw [← List.flatMap_append]
    exact (List.filter_append_perm p entries).symm.flatMap_right _
  have hcancel : ((entries.filter p).flatMap (usersOf shape agent event) ++ gained).Perm
      (entries.flatMap (usersOf shape agent event)) ↔
        gained.Perm ((entries.filter fun e => !p e).flatMap (usersOf shape agent event)) :=
    ⟨fun h => (List.perm_append_left_iff _).mp (h.trans hsplit),
      fun h => ((List.perm_append_left_iff _).mpr h).trans hsplit.symm⟩
  rw [hcancel]
  constructor
  · intro h
    -- what is gained would have to be among what is dropped
    have hnil : gained = [] := by
      refine List.eq_nil_iff_forall_not_mem.mpr fun c hc => ?_
      obtain ⟨e, he, hmem⟩ := List.mem_flatMap.mp (h.subset hc)
      obtain ⟨he, hp⟩ := List.mem_filter.mp he
      exact hgained c hc e he (by simpa using hp) hmem
    refine ⟨hnil, fun e he hp => ?_⟩
    rw [hnil] at h
    have hdropped := h.nil_eq.symm
    rw [List.flatMap_eq_nil_iff] at hdropped
    exact hdropped e (List.mem_filter.mpr ⟨he, by simp [hp]⟩)
  · rintro ⟨rfl, hdropped⟩
    rw [List.flatMap_eq_nil_iff.mpr fun e he => ?_]
    obtain ⟨he, hp⟩ := List.mem_filter.mp he
    exact hdropped e he (by simpa using hp)

/-- A dropped entry has not the command that this build would write. -/
theorem not_mem_usersOf {cmd : Text} {entry : Value} (h : entryIsCurrent shape cmd entry = false) :
    cmd ∉ usersOf shape agent event entry := by
  intro hmem
  have hmem := (List.mem_filter.mp hmem).1
  have hcur : entryIsCurrent shape cmd entry = true := List.any_eq_true.mpr ⟨cmd, hmem, beq_self_eq_true cmd⟩
  rw [h] at hcur
  cases hcur

/-- What the made entry adds to the user's commands. -/
theorem usersOf_made (hmade : ∀ cmd, shape.entryCommands (shape.makeEntry cmd) = [cmd]) (wrapper : Text) :
    (usersOf shape agent event (shape.makeEntry (wrapperCommand wrapper agent event)) = [] ↔
        fileName wrapper = some wrapperName) ∧
      ∀ c ∈ usersOf shape agent event (shape.makeEntry (wrapperCommand wrapper agent event)),
        c = wrapperCommand wrapper agent event := by
  rw [usersOf, hmade]
  refine ⟨?_, fun c hc => List.mem_singleton.mp (List.mem_filter.mp hc).1⟩
  rw [List.filter_eq_nil_iff, ← isWrapperCommand_append wrapper agent event]
  simp

/-- **Installing spares the commands of an event exactly when it drops none and adds none.** -/
theorem installEntries_perm_iff (hmade : ∀ cmd, shape.entryCommands (shape.makeEntry cmd) = [cmd]) (wrapper : Text)
    (entries : List Value) :
    ((installEntries shape agent event (wrapperCommand wrapper agent event) entries).flatMap
        (usersOf shape agent event)).Perm (entries.flatMap (usersOf shape agent event)) ↔
      InstallSpares shape agent event wrapper entries := by
  have hdrop : (∀ e ∈ entries, (!entryIsOurs shape agent event e ||
        entryIsCurrent shape (wrapperCommand wrapper agent event) e) = false → usersOf shape agent event e = []) ↔
      ∀ e ∈ entries, entryIsOurs shape agent event e = true →
        entryIsCurrent shape (wrapperCommand wrapper agent event) e = true ∨ usersOf shape agent event e = [] := by
    refine forall₂_congr fun e _ => ?_
    cases entryIsOurs shape agent event e <;>
      cases entryIsCurrent shape (wrapperCommand wrapper agent event) e <;> simp
  have hcur : ∀ e, (!entryIsOurs shape agent event e ||
      entryIsCurrent shape (wrapperCommand wrapper agent event) e) = false →
        entryIsCurrent shape (wrapperCommand wrapper agent event) e = false :=
    fun e h => (Bool.or_eq_false_iff.mp h).2
  rw [installEntries]
  split
  next hany =>
    have h := @flatMap_filter_perm_iff shape agent event entries
      (fun e => !entryIsOurs shape agent event e || entryIsCurrent shape (wrapperCommand wrapper agent event) e) []
      (fun c hc => absurd hc List.not_mem_nil)
    rw [List.append_nil] at h
    rw [h, hdrop, InstallSpares]
    obtain ⟨e, he, hecur⟩ := List.any_eq_true.mp hany
    exact ⟨fun h => ⟨h.2, .inr ⟨e, (List.mem_filter.mp he).1, hecur⟩⟩, fun h => ⟨rfl, h.1⟩⟩
  next hany =>
    obtain ⟨hnil, honly⟩ := @usersOf_made shape agent event hmade wrapper
    rw [List.flatMap_append, List.flatMap_singleton, flatMap_filter_perm_iff, hdrop, hnil, InstallSpares]
    · have hnone : ¬∃ e ∈ entries, entryIsCurrent shape (wrapperCommand wrapper agent event) e = true := by
        rintro ⟨e, he, hecur⟩
        exact hany (List.any_eq_true.mpr ⟨e, List.mem_filter.mpr ⟨he, by simp [hecur]⟩, hecur⟩)
      constructor
      · rintro ⟨hname, hrest⟩
        exact ⟨hrest, .inl hname⟩
      · rintro ⟨hrest, hname | hfound⟩
        · exact ⟨hname, hrest⟩
        · exact absurd hfound hnone
    · intro c hc e _ hp
      rw [honly c hc]
      exact not_mem_usersOf (hcur e hp)

/-- Where it is spared, what is not wiring only is as it was. -/
theorem installEntries_filter (hmade : ∀ cmd, shape.entryCommands (shape.makeEntry cmd) = [cmd]) {wrapper : Text}
    {entries : List Value} (h : InstallSpares shape agent event wrapper entries) :
    ((installEntries shape agent event (wrapperCommand wrapper agent event) entries).filter fun e =>
        !wiringOnly shape agent event e) = entries.filter fun e => !wiringOnly shape agent event e := by
  have hkept : ((entries.filter fun e => !entryIsOurs shape agent event e ||
      entryIsCurrent shape (wrapperCommand wrapper agent event) e).filter fun e => !wiringOnly shape agent event e) =
        entries.filter fun e => !wiringOnly shape agent event e := by
    rw [List.filter_filter]
    refine List.filter_congr fun e he => ?_
    have hspares := h.1 e he
    rw [wiringOnly]
    cases hours : entryIsOurs shape agent event e with
    | false => simp
    | true =>
      rcases hspares hours with hcur | hnil
      · simp [hcur]
      · simp [hnil]
  rw [installEntries]
  split
  · exact hkept
  next hany =>
    rw [List.filter_append, hkept, List.filter_singleton]
    rcases h.2 with hname | ⟨e, he, hcur⟩
    · have hwrap : isWrapperCommand (wrapperCommand wrapper agent event) agent event = true :=
        (isWrapperCommand_append wrapper agent event).mpr hname
      have hours : entryIsOurs shape agent event (shape.makeEntry (wrapperCommand wrapper agent event)) = true := by
        rw [entryIsOurs, hmade]
        simp [hwrap]
      rw [wiringOnly, hours, (usersOf_made hmade wrapper).1.mpr hname]
      simp
    · exact absurd (List.any_eq_true.mpr ⟨e, List.mem_filter.mpr ⟨he, by simp [hcur]⟩, hcur⟩) hany

/-- **Uninstalling spares them exactly when no entry mixes them with tma's.** -/
theorem uninstallEntries_perm_iff (entries : List Value) :
    ((entries.filter fun e => !entryIsOurs shape agent event e).flatMap (usersOf shape agent event)).Perm
        (entries.flatMap (usersOf shape agent event)) ↔ UninstallSpares shape agent event entries := by
  have h := @flatMap_filter_perm_iff shape agent event entries
    (fun e => !entryIsOurs shape agent event e) [] (fun c hc => absurd hc List.not_mem_nil)
  rw [List.append_nil] at h
  rw [h, UninstallSpares]
  simp

theorem uninstallEntries_filter {entries : List Value} (h : UninstallSpares shape agent event entries) :
    ((entries.filter fun e => !entryIsOurs shape agent event e).filter fun e => !wiringOnly shape agent event e) =
      entries.filter fun e => !wiringOnly shape agent event e := by
  rw [List.filter_filter]
  refine List.filter_congr fun e he => ?_
  rw [wiringOnly]
  cases hours : entryIsOurs shape agent event e with
  | false => simp
  | true => simp [h e he hours]

/-! ## A document -/

variable {others : Text → Bool}

/-- **What a successful install makes of a root object.** -/
theorem installRoot_spec (hshape : shape.Lawful others) {wrapper : Text} {events : List Text} {root after : Members}
    (h : installRoot shape agent wrapper events root = .ok after) :
    installEvents shape agent wrapper (hooksOf (.obj root)) events = .ok (hooksOf (.obj after)) ∧
      ((after.filter fun m => others m.1) = root.filter fun m => others m.1) ∧
      (Fits maxDepth (.obj root) → Fits maxDepth (.obj after)) := by
  have hget := hshape.pre_get root
  rw [installRoot] at h
  -- the `hooks` object is there, as it was or empty
  obtain ⟨base, hbase⟩ : ∃ base, base = if (Assoc.get? ((shape.preInsert.getD id) root) hooksKey).isNone then
    Assoc.set ((shape.preInsert.getD id) root) hooksKey (.obj []) else (shape.preInsert.getD id) root := ⟨_, rfl⟩
  simp only [← hbase] at h
  have hothers : (base.filter fun m => others m.1) = root.filter fun m => others m.1 := by
    rw [hbase, ← hshape.pre_others root]
    split
    · exact Assoc.filter_set hshape.hooks
    · rfl
  have hmem : ∀ m ∈ base, m ∈ root ∨ Fits 1 m.2 ∨ m.2 = .obj [] := by
    intro m hm
    rw [hbase] at hm
    split at hm
    · rcases Assoc.mem_set hm with hm | rfl
      · exact (hshape.pre_fits root m hm).imp_right .inl
      · exact .inr (.inr rfl)
    · exact (hshape.pre_fits root m hm).imp_right .inl
  split at h
  next hooks hhooks =>
    have hof : hooksOf (.obj root) = hooks := by
      rw [hbase, hget] at hhooks
      rw [hooksOf, Value.get?]
      split at hhooks
      next hnone =>
        rw [Assoc.get?_set_self] at hhooks
        cases hhooks
        rw [Option.isNone_iff_eq_none.mp hnone]
      next =>
        rw [hget] at hhooks
        rw [hhooks]
    split at h
    · cases h
    next hooks' hevents =>
      cases h
      refine ⟨?_, ?_, fun hfits => ?_⟩
      · rw [hof, hevents, hooksOf, Value.get?, Assoc.get?_set_self]
      · rw [Assoc.filter_set hshape.hooks, hothers]
      · have hbasefits : ∀ m ∈ base, Fits 127 m.2 := by
          intro m hm
          rcases hmem m hm with hm | hm | hm
          · exact hfits m hm
          · exact hm.mono (by omega)
          · rw [hm]
            exact fun m hm => absurd hm List.not_mem_nil
        intro m hm
        rcases Assoc.mem_set hm with hm | rfl
        · exact hbasefits m hm
        · exact installEvents_fits (by omega) hshape.fits hevents (hbasefits _ (Assoc.mem_of_get? hhooks))
  next => cases h

/-- **What an uninstall makes of a root object.** -/
theorem uninstallRoot_spec (hshape : shape.Lawful others) (events : List Text) (root : Members) :
    hooksOf (.obj (uninstallRoot shape agent events root)) =
        events.foldl (uninstallEvent shape agent) (hooksOf (.obj root)) ∧
      ((uninstallRoot shape agent events root).filter fun m => others m.1) = root.filter (fun m => others m.1) ∧
      (Fits maxDepth (.obj root) → Fits maxDepth (.obj (uninstallRoot shape agent events root))) := by
  rw [uninstallRoot]
  split
  next hooks hget =>
    have hof : hooksOf (.obj root) = hooks := by rw [hooksOf, Value.get?, hget]
    rw [hof]
    simp only [List.isEmpty_iff]
    split
    next hempty =>
      refine ⟨?_, ?_, fun hfits m hm => ?_⟩
      · rw [hempty, hooksOf, Value.get?, hshape.post_get, Assoc.get?_remove_self]
      · rw [hshape.post_others, Assoc.filter_remove hshape.hooks]
      · exact hfits m (Assoc.mem_remove (hshape.post_mem _ m hm))
    next =>
      refine ⟨?_, Assoc.filter_set hshape.hooks, fun hfits m hm => ?_⟩
      · rw [hooksOf, Value.get?, Assoc.get?_set_self]
      · rcases Assoc.mem_set hm with hm | rfl
        · exact hfits m hm
        · exact uninstallEvents_fits events (hfits _ (Assoc.mem_of_get? hget))
  next hne =>
    have hof : hooksOf (.obj root) = [] := by
      rw [hooksOf, Value.get?]
      split
      next hooks hget => exact absurd hget (hne hooks)
      next => rfl
    rw [hof, uninstallEvents_nil]
    exact ⟨rfl, rfl, id⟩

/-- The user's hooks are kept when each event's are. -/
theorem userHooksKept_iff {before after : Value} (hkeys : ((hooksOf before).map Prod.fst).Nodup)
    (hkeys' : ((hooksOf after).map Prod.fst).Nodup)
    (hothers : ((rootMembers after).filter fun m => others m.1) = (rootMembers before).filter fun m => others m.1)
    {spared : Text → Prop}
    (hperm : ∀ event, ((entriesAt (hooksOf after) event).flatMap (usersOf shape agent event)).Perm
      ((entriesAt (hooksOf before) event).flatMap (usersOf shape agent event)) ↔ spared event)
    (hfilter : ∀ event, spared event →
      ((entriesAt (hooksOf after) event).filter fun e => !wiringOnly shape agent event e) =
        (entriesAt (hooksOf before) event).filter fun e => !wiringOnly shape agent event e) :
    UserHooksKept shape agent others before after ↔ ∀ event, spared event := by
  constructor
  · intro h event
    exact (hperm event).mp ((userPairs_perm_iff hkeys hkeys').mp h.commands event)
  · intro h
    exact ⟨(userPairs_perm_iff hkeys hkeys').mpr fun event => (hperm event).mpr (h event),
      fun event => hfilter event (h event), hothers⟩

/-- **Installing keeps the user's hooks exactly when each listed event's are spared.** -/
theorem install_keeps_iff (hshape : shape.Lawful others) {old wrapper new : Text} {events : List Text} {root : Value}
    (hparse : parse old = .ok root) (hkeys : KeysDistinct root)
    (h : editHooksInstall shape agent old wrapper events = .ok new) :
    ∃ after, parse new = .ok after ∧ (UserHooksKept shape agent others root after ↔
      ∀ event ∈ events, InstallSpares shape agent event wrapper (entriesAt (hooksOf root) event)) := by
  rw [editHooksInstall, hparse] at h
  split at h
  · cases ‹_ = _›
  next members heq =>
    cases heq
    split at h
    · cases h
    next after hafter =>
      cases h
      obtain ⟨hevents, hothers, hfits⟩ := installRoot_spec hshape hafter
      refine ⟨.obj after, parse_toPretty (hfits (parse_fits hparse)), ?_⟩
      have hentries := installEvents_entries hshape.made hevents
      refine userHooksKept_iff hkeys.2 (installEvents_nodup hevents hkeys.2) hothers
        (fun event => (?_ : _ ↔ (event ∈ events →
          InstallSpares shape agent event wrapper (entriesAt (hooksOf (.obj members)) event)))) ?_
      ·
        rw [hentries event]
        split
        next hlisted =>
          rw [installEntries_perm_iff hshape.made]
          exact ⟨fun h _ => h, fun h => h hlisted⟩
        next hlisted => exact ⟨fun _ h => absurd h hlisted, fun _ => .refl _⟩
      · intro event hspared
        rw [hentries event]
        split
        next hlisted => exact installEntries_filter hshape.made (hspared hlisted)
        next => rfl
  · cases h

/-- **So does uninstalling.** -/
theorem uninstall_keeps_iff (hshape : shape.Lawful others) {old new : Text} {events : List Text} {root : Value}
    (hparse : parse old = .ok root) (hkeys : KeysDistinct root)
    (h : editHooksUninstall shape agent old events = .ok new) :
    ∃ after, parse new = .ok after ∧ (UserHooksKept shape agent others root after ↔
      ∀ event ∈ events, UninstallSpares shape agent event (entriesAt (hooksOf root) event)) := by
  rw [editHooksUninstall, hparse] at h
  split at h
  · cases ‹_ = _›
  next members heq =>
    cases heq
    cases h
    obtain ⟨hhooks, hothers, hfits⟩ := @uninstallRoot_spec shape agent others hshape events members
    refine ⟨_, parse_toPretty (hfits (parse_fits hparse)), ?_⟩
    refine userHooksKept_iff hkeys.2 ?_ hothers
      (fun event => (?_ : _ ↔ (event ∈ events →
        UninstallSpares shape agent event (entriesAt (hooksOf (.obj members)) event)))) ?_
    · rw [hhooks]
      exact uninstallEvents_nodup events hkeys.2
    · rw [hhooks, uninstallEvents_entries]
      split
      next hlisted =>
        rw [uninstallEntries_perm_iff]
        exact ⟨fun h _ => h, fun h => h hlisted⟩
      next hlisted => exact ⟨fun _ h => absurd h hlisted, fun _ => .refl _⟩
    · intro event hspared
      rw [hhooks, uninstallEvents_entries]
      split
      next hlisted => exact uninstallEntries_filter (hspared hlisted)
      next => rfl
  next hne heq =>
    cases heq
    cases h
    have hnone : hooksOf root = [] := by
      cases root with
      | obj members => exact absurd rfl (hne members)
      | _ => rfl
    refine ⟨root, hparse, fun _ event _ e he => ?_, fun _ => ⟨.refl _, fun _ => rfl, rfl⟩⟩
    rw [hnone] at he
    exact absurd he List.not_mem_nil

end

/-! ## The two shapes -/

/-- The root members the editors have no business with. -/
def others (shape : HookShape) (key : Text) : Bool := key != hooksKey && !(shape.preInsert.isSome && key == versionKey)

theorem claudeShape_lawful : claudeShape.Lawful (others claudeShape) where
  made _ := rfl
  fits cmd := by
    intro m hm
    rw [List.mem_singleton.mp hm]
    intro e he
    rw [List.mem_singleton.mp he]
    intro m hm
    rcases List.mem_cons.mp hm with rfl | hm
    · trivial
    · rw [List.mem_singleton.mp hm]
      trivial
  hooks := rfl
  pre_get _ := rfl
  pre_others _ := rfl
  pre_fits _ _ h := .inl h
  post_get _ := rfl
  post_others _ := rfl
  post_mem _ _ h := h

theorem get?_cursorSetVersion (root : Members) : Assoc.get? (cursorSetVersion root) hooksKey = Assoc.get? root hooksKey := by
  rw [cursorSetVersion]
  split
  · exact Assoc.get?_set_other (by decide)
  · rfl

theorem mem_cursorSetVersion {root : Members} {m : Text × Value} (h : m ∈ cursorSetVersion root) :
    m ∈ root ∨ Fits 1 m.2 := by
  rw [cursorSetVersion] at h
  split at h
  · refine (Assoc.mem_set h).imp_right ?_
    rintro rfl
    exact ⟨⟨'1', [], rfl, .inr rfl⟩, by decide⟩
  · exact .inl h

theorem filter_cursorSetVersion (root : Members) :
    ((cursorSetVersion root).filter fun m => others cursorShape m.1) = root.filter fun m => others cursorShape m.1 := by
  rw [cursorSetVersion]
  split
  · exact Assoc.filter_set (by decide)
  · rfl

/-- A lone `version: 1` goes; anything else stays. -/
theorem cursorDropVersion_cases (root : Members) :
    (Assoc.get? root versionKey = some (.num ['1']) ∧ cursorDropVersion root = Assoc.remove root versionKey) ∨
      (Assoc.get? root versionKey ≠ some (.num ['1']) ∧ cursorDropVersion root = root) := by
  rw [cursorDropVersion]
  split
  next token hget =>
    split
    next htoken => exact .inl ⟨by rw [hget, htoken], rfl⟩
    next htoken =>
      refine .inr ⟨fun h => ?_, rfl⟩
      rw [hget] at h
      cases h
      exact htoken rfl
  next hne => exact .inr ⟨hne _, rfl⟩

theorem cursorShape_lawful : cursorShape.Lawful (others cursorShape) where
  made _ := rfl
  fits cmd := by
    intro m hm
    rw [List.mem_singleton.mp hm]
    trivial
  hooks := rfl
  pre_get := get?_cursorSetVersion
  pre_others := filter_cursorSetVersion
  pre_fits _ _ := mem_cursorSetVersion
  post_get root := by
    rcases cursorDropVersion_cases root with ⟨-, h⟩ | ⟨-, h⟩
    · exact (congrArg (Assoc.get? · hooksKey) h).trans (Assoc.get?_remove_other (by decide))
    · exact congrArg (Assoc.get? · hooksKey) h
  post_others root := by
    rcases cursorDropVersion_cases root with ⟨-, h⟩ | ⟨-, h⟩
    · exact (congrArg (List.filter fun m => others cursorShape m.1) h).trans (Assoc.filter_remove (by decide))
    · exact congrArg (List.filter fun m => others cursorShape m.1) h
  post_mem root m hm := by
    have hm : m ∈ cursorDropVersion root := hm
    rcases cursorDropVersion_cases root with ⟨-, h⟩ | ⟨-, h⟩
    · exact Assoc.mem_remove (h ▸ hm)
    · exact h ▸ hm

theorem lawful_of_mem {shape : HookShape} (h : shape = claudeShape ∨ shape = cursorShape) : shape.Lawful (others shape) := by
  rcases h with rfl | rfl
  · exact claudeShape_lawful
  · exact cursorShape_lawful

/-- **The user's hook commands survive the edits exactly when no entry that is dropped carries
one** (and, installing, what is added goes by the wrapper's name). Then the entries they are in
and the root's other members are as they were too. -/
theorem user_hooks_survive (shape : HookShape) (hshape : shape = claudeShape ∨ shape = cursorShape)
    (agent old wrapper : Text) (events : List Text) (root : Value) (hparse : parse old = .ok root)
    (hkeys : KeysDistinct root) :
    (∀ new, editHooksInstall shape agent old wrapper events = .ok new →
      ∃ after, parse new = .ok after ∧ (UserHooksKept shape agent (others shape) root after ↔
        ∀ event ∈ events, InstallSpares shape agent event wrapper (entriesAt (hooksOf root) event))) ∧
    ∀ new, editHooksUninstall shape agent old events = .ok new →
      ∃ after, parse new = .ok after ∧ (UserHooksKept shape agent (others shape) root after ↔
        ∀ event ∈ events, UninstallSpares shape agent event (entriesAt (hooksOf root) event)) :=
  ⟨fun _ h => install_keeps_iff (lawful_of_mem hshape) hparse hkeys h,
    fun _ h => uninstall_keeps_iff (lawful_of_mem hshape) hparse hkeys h⟩

/-- Settings with one entry for `Stop`, holding these commands. -/
def stopEntry (commands : List Text) : Value :=
  .obj [(hooksKey, .obj [("Stop".toList, .arr [.obj [(hooksKey, .arr (commands.map fun c => .obj [(commandKey, .str c)]))]])])]

theorem stopEntry_fits (commands : List Text) : Fits maxDepth (stopEntry commands) := by
  refine @Fits.mono 7 _ _ ?_ (by decide)
  simp [stopEntry, Fits]

/-- A command of the user's beside nothing of tma's: both edits spare it. -/
theorem user_hooks_survive_alone :
    (∃ new after, editHooksInstall claudeShape "claude".toList (toPretty (stopEntry ["mine".toList])) "/opt/tma-hook".toList
        ["Stop".toList] = .ok new ∧ parse new = .ok after ∧
      UserHooksKept claudeShape "claude".toList (others claudeShape) (stopEntry ["mine".toList]) after) ∧
    ∃ new after, editHooksUninstall claudeShape "claude".toList (toPretty (stopEntry ["mine".toList])) ["Stop".toList] =
        .ok new ∧ parse new = .ok after ∧
      UserHooksKept claudeShape "claude".toList (others claudeShape) (stopEntry ["mine".toList]) after := by
  have hparse := parse_toPretty (stopEntry_fits ["mine".toList])
  have hsurvive := user_hooks_survive claudeShape (.inl rfl) "claude".toList _ "/opt/tma-hook".toList ["Stop".toList] _ hparse
    ⟨by decide, by decide⟩
  -- No entry is tma's.
  have hforeign : ∀ e ∈ entriesAt (hooksOf (stopEntry ["mine".toList])) "Stop".toList,
      entryIsOurs claudeShape "claude".toList "Stop".toList e = false := by
    intro e he
    have he : e ∈ [Value.obj [(hooksKey, .arr [.obj [(commandKey, .str "mine".toList)]])]] := he
    rw [List.mem_singleton.mp he]
    decide
  constructor
  · obtain ⟨after, hparse', hiff⟩ := hsurvive.1 _ (by rw [editHooksInstall, hparse]; rfl)
    refine ⟨_, after, by rw [editHooksInstall, hparse]; rfl, hparse', hiff.mpr ?_⟩
    intro event hevent
    rw [List.mem_singleton.mp hevent]
    refine ⟨fun e he hours => ?_, .inl (by decide)⟩
    rw [hforeign e he] at hours
    cases hours
  · obtain ⟨after, hparse', hiff⟩ := hsurvive.2 _ (by rw [editHooksUninstall, hparse]; rfl)
    refine ⟨_, after, by rw [editHooksUninstall, hparse]; rfl, hparse', hiff.mpr ?_⟩
    intro event hevent
    rw [List.mem_singleton.mp hevent]
    intro e he hours
    rw [hforeign e he] at hours
    cases hours

/-- A command of the user's in one entry with tma's is dropped with it. -/
theorem mixed_entry_dropped :
    ¬ ∀ (agent old wrapper : Text) (events : List Text) (root : Value), parse old = .ok root → KeysDistinct root →
      (∀ new, editHooksInstall claudeShape agent old wrapper events = .ok new →
        ∃ after, parse new = .ok after ∧ UserHooksKept claudeShape agent (others claudeShape) root after) ∧
      ∀ new, editHooksUninstall claudeShape agent old events = .ok new →
        ∃ after, parse new = .ok after ∧ UserHooksKept claudeShape agent (others claudeShape) root after := by
  intro h
  have hparse := parse_toPretty (stopEntry_fits ["mine".toList, "/opt/tma-hook claude Stop".toList])
  have hkeys : KeysDistinct (stopEntry ["mine".toList, "/opt/tma-hook claude Stop".toList]) := ⟨by decide, by decide⟩
  have hnew : editHooksUninstall claudeShape "claude".toList
      (toPretty (stopEntry ["mine".toList, "/opt/tma-hook claude Stop".toList])) ["Stop".toList] =
        .ok (toPretty (.obj (uninstallRoot claudeShape "claude".toList ["Stop".toList]
          (rootMembers (stopEntry ["mine".toList, "/opt/tma-hook claude Stop".toList]))))) := by
    rw [editHooksUninstall, hparse]
    rfl
  obtain ⟨after, hafter, hkept⟩ := (h "claude".toList _ "/opt/tma-hook".toList ["Stop".toList] _ hparse hkeys).2 _ hnew
  obtain ⟨after', hafter', hiff⟩ := uninstall_keeps_iff claudeShape_lawful hparse hkeys hnew
  rw [hafter] at hafter'
  cases hafter'
  have hspares := hiff.mp hkept "Stop".toList List.mem_cons_self _ List.mem_cons_self (by decide)
  exact absurd hspares (by decide)

end TmuxAgents.Install
