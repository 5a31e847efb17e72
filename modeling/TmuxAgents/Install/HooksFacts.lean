/-
What the hooks editors leave of a user's settings: each event's array is edited on its own,
a second time over changes nothing, and every other member of the document stays.

An entry is kept or dropped whole. So a user's command that shares an entry with one of
tma's goes with it, and the user's hooks survive exactly where no such entry is dropped.
-/
import TmuxAgents.Install.Hooks
import TmuxAgents.Install.JsonRoundTrip

namespace TmuxAgents.Install

/-! ## Wrapper commands -/

theorem isWrapperCommand_append (prog agent event : Text) :
    isWrapperCommand (wrapperCommand prog agent event) agent event = true ↔ fileName prog = some wrapperName := by
  rw [isWrapperCommand, wrapperCommand, Text.stripSuffix_append]
  exact beq_iff_eq

/-! ## One event -/

/-- The entries of an event. -/
def entriesAt (hooks : Members) (event : Text) : List Value :=
  match Assoc.get? hooks event with
  | some (.arr entries) => entries
  | _ => []

theorem entriesAt_congr {hooks hooks' : Members} {event : Text} (h : Assoc.get? hooks' event = Assoc.get? hooks event) :
    entriesAt hooks' event = entriesAt hooks event := by
  rw [entriesAt, h, entriesAt]

theorem entriesAt_set (hooks : Members) (event : Text) (entries : List Value) :
    entriesAt (Assoc.set hooks event (.arr entries)) event = entries := by
  rw [entriesAt, Assoc.get?_set_self]

/-- What a shape must be for the editors to work: its entry is found again and is no deeper
than an entry is, and its companion key is not `hooks`. -/
structure HookShape.Lawful (shape : HookShape) (others : Text → Bool) : Prop where
  made : ∀ cmd, shape.entryCommands (shape.makeEntry cmd) = [cmd]
  fits : ∀ cmd, Fits 4 (shape.makeEntry cmd)
  hooks : others hooksKey = false
  pre_get : ∀ root, Assoc.get? ((shape.preInsert.getD id) root) hooksKey = Assoc.get? root hooksKey
  pre_others : ∀ root, (((shape.preInsert.getD id) root).filter fun m => others m.1) = root.filter fun m => others m.1
  pre_fits : ∀ root, ∀ m ∈ (shape.preInsert.getD id) root, m ∈ root ∨ Fits 1 m.2
  post_get : ∀ root, Assoc.get? ((shape.postPrune.getD id) root) hooksKey = Assoc.get? root hooksKey
  post_others : ∀ root, (((shape.postPrune.getD id) root).filter fun m => others m.1) = root.filter fun m => others m.1
  post_mem : ∀ root, ∀ m ∈ (shape.postPrune.getD id) root, m ∈ root

section

variable {shape : HookShape} {agent event : Text}

/-- **What one turn of the install loop does.** -/
theorem installEvent_cases {wrapper : Text} {hooks hooks' : Members}
    (h : installEvent shape agent wrapper hooks event = .ok hooks') :
    (Assoc.get? hooks event = none ∨ ∃ entries, Assoc.get? hooks event = some (.arr entries)) ∧
      hooks' = Assoc.set hooks event
        (.arr (installEntries shape agent event (wrapperCommand wrapper agent event) (entriesAt hooks event))) := by
  rw [installEvent] at h
  cases hget : Assoc.get? hooks event with
  | none =>
    rw [hget, Option.isNone_none, if_pos rfl, Assoc.get?_append_of_none hget] at h
    simp only [Assoc.get?, if_true, Except.ok.injEq] at h
    refine ⟨.inl rfl, ?_⟩
    rw [← h, Assoc.set_append_of_none hget, Assoc.set_of_none hget, entriesAt, hget]
    simp [Assoc.set]
  | some v =>
    rw [hget, Option.isNone_some, if_neg Bool.false_ne_true, hget] at h
    split at h
    next entries heq =>
      cases heq
      cases h
      refine ⟨.inr ⟨entries, rfl⟩, ?_⟩
      rw [entriesAt, hget]
    next => cases h

/-- **What one turn of the uninstall loop does.** -/
theorem uninstallEvent_eq (hooks : Members) :
    uninstallEvent shape agent hooks event =
      match Assoc.get? hooks event with
      | some (.arr entries) =>
        if (entries.filter fun e => !entryIsOurs shape agent event e) = [] then Assoc.remove hooks event
        else Assoc.set hooks event (.arr (entries.filter fun e => !entryIsOurs shape agent event e))
      | _ => hooks := by
  rw [uninstallEvent]
  cases hget : Assoc.get? hooks event with
  | none => simp only [hget]
  | some v =>
    cases v with
    | arr entries =>
      simp only [Assoc.get?_set_self, Assoc.remove_set]
      split
      next heq => rw [if_pos (by simpa using heq)]
      next hne =>
        rw [if_neg]
        intro hnil
        exact hne (by rw [hnil])
    | _ => simp only [hget]

/-- The entries that stay are ours of this build or nobody's of tma. -/
def Settled (shape : HookShape) (agent event cmd : Text) (entries : List Value) : Prop :=
  (∀ e ∈ entries, entryIsOurs shape agent event e = true → entryIsCurrent shape cmd e = true) ∧
    ∃ e ∈ entries, entryIsCurrent shape cmd e = true

theorem installEntries_of_settled {cmd : Text} {entries : List Value} (h : Settled shape agent event cmd entries) :
    installEntries shape agent event cmd entries = entries := by
  have hkept : (entries.filter fun e => !entryIsOurs shape agent event e || entryIsCurrent shape cmd e) = entries := by
    refine List.filter_eq_self.mpr fun e he => ?_
    cases hours : entryIsOurs shape agent event e with
    | false => rfl
    | true => simp [h.1 e he hours]
  rw [installEntries, hkept, if_pos]
  obtain ⟨e, he, hcur⟩ := h.2
  exact List.any_eq_true.mpr ⟨e, he, hcur⟩

theorem installEntries_settled (hmade : ∀ cmd, shape.entryCommands (shape.makeEntry cmd) = [cmd]) (cmd : Text)
    (entries : List Value) : Settled shape agent event cmd (installEntries shape agent event cmd entries) := by
  have hkept : ∀ e ∈ entries.filter fun e => !entryIsOurs shape agent event e || entryIsCurrent shape cmd e,
      entryIsOurs shape agent event e = true → entryIsCurrent shape cmd e = true := by
    intro e he hours
    simpa [hours] using (List.mem_filter.mp he).2
  have hcur : entryIsCurrent shape cmd (shape.makeEntry cmd) = true := by
    rw [entryIsCurrent, hmade]
    simp
  rw [installEntries]
  split
  next hany =>
    obtain ⟨e, he, h⟩ := List.any_eq_true.mp hany
    exact ⟨hkept, e, he, h⟩
  next =>
    refine ⟨fun e he hours => ?_, shape.makeEntry cmd, List.mem_append_right _ List.mem_cons_self, hcur⟩
    rcases List.mem_append.mp he with he | he
    · exact hkept e he hours
    · rw [List.mem_singleton.mp he]
      exact hcur

/-- An entry that is there after installing was there, or is the one that was made. -/
theorem mem_installEntries {cmd : Text} {entries : List Value} {e : Value}
    (h : e ∈ installEntries shape agent event cmd entries) : e ∈ entries ∨ e = shape.makeEntry cmd := by
  rw [installEntries] at h
  split at h
  · exact .inl (List.mem_filter.mp h).1
  · rcases List.mem_append.mp h with h | h
    · exact .inl (List.mem_filter.mp h).1
    · exact .inr (List.mem_singleton.mp h)

/-! ## The loops -/

/-- **Installing edits each listed event's array on its own.** -/
theorem installEvents_entries (hmade : ∀ cmd, shape.entryCommands (shape.makeEntry cmd) = [cmd]) {wrapper : Text}
    {events : List Text} {hooks hooks' : Members} (h : installEvents shape agent wrapper hooks events = .ok hooks')
    (event : Text) :
    entriesAt hooks' event =
      if event ∈ events then
        installEntries shape agent event (wrapperCommand wrapper agent event) (entriesAt hooks event)
      else entriesAt hooks event := by
  induction events generalizing hooks with
  | nil =>
    cases h
    simp
  | cons first events ih =>
    rw [installEvents] at h
    split at h
    · cases h
    next hooks1 hfirst =>
      rw [ih h, (installEvent_cases hfirst).2]
      by_cases he : event = first
      · subst he
        -- a second turn for the event finds nothing to do
        rw [entriesAt_set, installEntries_of_settled (installEntries_settled hmade _ _)]
        simp
      · rw [entriesAt_congr (Assoc.get?_set_other he)]
        simp [he]

theorem installEvents_nodup {wrapper : Text} {events : List Text} {hooks hooks' : Members}
    (h : installEvents shape agent wrapper hooks events = .ok hooks') (hkeys : (hooks.map Prod.fst).Nodup) :
    (hooks'.map Prod.fst).Nodup := by
  induction events generalizing hooks with
  | nil =>
    cases h
    exact hkeys
  | cons first events ih =>
    rw [installEvents] at h
    split at h
    · cases h
    next hooks1 hfirst =>
      refine ih h ?_
      rw [(installEvent_cases hfirst).2]
      exact Assoc.nodup_set hkeys

theorem installEvents_fits {levels : Nat} (hlevels : 4 ≤ levels) (hmade : ∀ cmd, Fits 4 (shape.makeEntry cmd))
    {wrapper : Text} {events : List Text} {hooks hooks' : Members}
    (h : installEvents shape agent wrapper hooks events = .ok hooks')
    (hfits : ∀ m ∈ hooks, Fits (levels + 1) m.2) : ∀ m ∈ hooks', Fits (levels + 1) m.2 := by
  induction events generalizing hooks with
  | nil =>
    cases h
    exact hfits
  | cons first events ih =>
    rw [installEvents] at h
    split at h
    · cases h
    next hooks1 hfirst =>
      obtain ⟨hget, rfl⟩ := installEvent_cases hfirst
      refine ih h fun m hm => ?_
      rcases Assoc.mem_set hm with hm | rfl
      · exact hfits m hm
      · intro e he
        rcases mem_installEntries he with he | rfl
        · rcases hget with hget | ⟨entries, hget⟩
          · rw [entriesAt, hget] at he
            cases he
          · rw [entriesAt, hget] at he
            exact hfits _ (Assoc.mem_of_get? hget) e he
        · exact (hmade _).mono hlevels

theorem entriesAt_uninstallEvent_self (hooks : Members) :
    entriesAt (uninstallEvent shape agent hooks event) event =
      (entriesAt hooks event).filter fun e => !entryIsOurs shape agent event e := by
  rw [uninstallEvent_eq]
  split
  next entries hget =>
    split
    next hnil => rw [entriesAt, Assoc.get?_remove_self, entriesAt, hget, hnil]
    next => rw [entriesAt_set, entriesAt, hget]
  next hne =>
    rw [entriesAt]
    split
    next entries hget => exact absurd hget (hne entries)
    next => rfl

theorem get?_uninstallEvent_other {hooks : Members} {other : Text} (h : other ≠ event) :
    Assoc.get? (uninstallEvent shape agent hooks event) other = Assoc.get? hooks other := by
  rw [uninstallEvent_eq]
  split
  · split
    · exact Assoc.get?_remove_other h
    · exact Assoc.get?_set_other h
  · rfl

/-- **So does uninstalling.** -/
theorem uninstallEvents_entries (events : List Text) (hooks : Members) (event : Text) :
    entriesAt (events.foldl (uninstallEvent shape agent) hooks) event =
      if event ∈ events then (entriesAt hooks event).filter fun e => !entryIsOurs shape agent event e
      else entriesAt hooks event := by
  induction events generalizing hooks with
  | nil => simp
  | cons first events ih =>
    rw [List.foldl_cons, ih]
    by_cases he : event = first
    · subst he
      rw [entriesAt_uninstallEvent_self, List.filter_filter]
      simp
    · rw [entriesAt_congr (get?_uninstallEvent_other he)]
      simp [he]

theorem uninstallEvent_nodup {hooks : Members} (hkeys : (hooks.map Prod.fst).Nodup) :
    ((uninstallEvent shape agent hooks event).map Prod.fst).Nodup := by
  rw [uninstallEvent_eq]
  split
  · split
    · exact Assoc.nodup_remove hkeys
    · exact Assoc.nodup_set hkeys
  · exact hkeys

theorem uninstallEvents_nodup (events : List Text) {hooks : Members} (hkeys : (hooks.map Prod.fst).Nodup) :
    ((events.foldl (uninstallEvent shape agent) hooks).map Prod.fst).Nodup := by
  induction events generalizing hooks with
  | nil => exact hkeys
  | cons first events ih => exact ih (uninstallEvent_nodup hkeys)

theorem uninstallEvent_fits {levels : Nat} {hooks : Members} (hfits : ∀ m ∈ hooks, Fits (levels + 1) m.2) :
    ∀ m ∈ uninstallEvent shape agent hooks event, Fits (levels + 1) m.2 := by
  rw [uninstallEvent_eq]
  intro m hm
  split at hm
  next entries hget =>
    split at hm
    · exact hfits m (Assoc.mem_remove hm)
    · rcases Assoc.mem_set hm with hm | rfl
      · exact hfits m hm
      · exact fun e he => hfits _ (Assoc.mem_of_get? hget) e (List.mem_filter.mp he).1
  next => exact hfits m hm

theorem uninstallEvents_fits {levels : Nat} (events : List Text) {hooks : Members}
    (hfits : ∀ m ∈ hooks, Fits (levels + 1) m.2) :
    ∀ m ∈ events.foldl (uninstallEvent shape agent) hooks, Fits (levels + 1) m.2 := by
  induction events generalizing hooks with
  | nil => exact hfits
  | cons first events ih => exact ih (uninstallEvent_fits hfits)

theorem uninstallEvents_nil (events : List Text) : events.foldl (uninstallEvent shape agent) [] = [] := by
  induction events with
  | nil => rfl
  | cons first events ih =>
    rw [List.foldl_cons, uninstallEvent_eq]
    exact ih

end

end TmuxAgents.Install
