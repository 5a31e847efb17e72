/-
What a second install finds of the first. Each listed event's array is settled, so
that the hooks stay byte for byte. The statusline's shim is wrapped anew around
what is taken out of it, which is what it wrapped unless the binary's path holds
the delimiter it is taken out by.

What is written is read again as the value it was written from, so no install
refuses the file of an earlier one (`parse_toPretty_iff`).
-/
import TmuxAgents.Install.RoundTrip

namespace TmuxAgents.Install

/-- **Exactly the values the parser can return are read back.** -/
theorem parse_toPretty_iff (v : Value) : parse (toPretty v) = .ok v ↔ Fits maxDepth v := ⟨parse_fits, parse_toPretty⟩

/-! ## Hooks -/

section

variable {shape : HookShape} {agent wrapper : Text} {events : List Text}

/-- Installed entries are settled entries of an array. -/
def Installed (shape : HookShape) (agent wrapper : Text) (hooks : Members) (event : Text) : Prop :=
  Settled shape agent event (wrapperCommand wrapper agent event) (entriesAt hooks event)

theorem Installed.get? {hooks : Members} {event : Text} (h : Installed shape agent wrapper hooks event) :
    Assoc.get? hooks event = some (.arr (entriesAt hooks event)) := by
  obtain ⟨e, he, -⟩ := h.2
  rw [entriesAt] at he ⊢
  split at he
  next entries hget => rw [hget]
  next => exact absurd he List.not_mem_nil

theorem installEvent_installed {hooks : Members} {event : Text} (h : Installed shape agent wrapper hooks event) :
    installEvent shape agent wrapper hooks event = .ok hooks := by
  have hget := h.get?
  rw [installEvent, hget, Option.isNone_some, if_neg Bool.false_ne_true, hget]
  simp only [installEntries_of_settled h, Assoc.set_of_get? hget]

/-- The loop leaves what is installed. -/
theorem installEvents_installed {hooks : Members} (h : ∀ event ∈ events, Installed shape agent wrapper hooks event) :
    installEvents shape agent wrapper hooks events = .ok hooks := by
  induction events with
  | nil => rfl
  | cons first events ih =>
    rw [installEvents, installEvent_installed (h first List.mem_cons_self)]
    exact ih fun event he => h event (List.mem_cons_of_mem _ he)

/-- The loop leaves every listed event installed. -/
theorem installed_of_installEvents (hmade : ∀ cmd, shape.entryCommands (shape.makeEntry cmd) = [cmd])
    {hooks hooks' : Members} (h : installEvents shape agent wrapper hooks events = .ok hooks') {event : Text}
    (hevent : event ∈ events) : Installed shape agent wrapper hooks' event := by
  rw [Installed, installEvents_entries hmade h, if_pos hevent]
  exact installEntries_settled hmade _ _

/-- The companion key is set once. -/
theorem preInsert_again (hshape : shape = claudeShape ∨ shape = cursorShape) (root : Members) (hooks : Value) :
    (shape.preInsert.getD id) (Assoc.set ((shape.preInsert.getD id) root) hooksKey hooks) =
      Assoc.set ((shape.preInsert.getD id) root) hooksKey hooks := by
  rcases hshape with rfl | rfl
  · rfl
  · show cursorSetVersion (Assoc.set (cursorSetVersion root) hooksKey hooks) = _
    have hversion : (Assoc.get? (Assoc.set (cursorSetVersion root) hooksKey hooks) versionKey).isNone = false := by
      rw [Assoc.get?_set_other (by decide), cursorSetVersion]
      split
      · rw [Assoc.get?_set_self]
        rfl
      next hsome => rwa [Bool.not_eq_true] at hsome
    rw [cursorSetVersion, hversion, if_neg Bool.false_ne_true]
    rfl

theorem installRoot_again (hshape : shape = claudeShape ∨ shape = cursorShape) {root after : Members}
    (h : installRoot shape agent wrapper events root = .ok after) :
    installRoot shape agent wrapper events after = .ok after := by
  have hmade := (lawful_of_mem hshape).made
  have hevents := (installRoot_spec (lawful_of_mem hshape) h).1
  obtain ⟨hooks, hafter⟩ : ∃ hooks, after = Assoc.set ((shape.preInsert.getD id) root) hooksKey (.obj hooks) := by
    rw [installRoot] at h
    split at h
    · split at h
      · cases h
      next hooks _ =>
        cases h
        split
        · exact ⟨_, Assoc.set_set⟩
        · exact ⟨_, rfl⟩
    · cases h
  have hpre : (shape.preInsert.getD id) after = after := by
    rw [hafter]
    exact preInsert_again hshape root (.obj hooks)
  have hget : Assoc.get? after hooksKey = some (.obj (hooksOf (.obj after))) := by
    rw [hafter, hooksOf, Value.get?, Assoc.get?_set_self]
  have hagain := installEvents_installed fun event he => installed_of_installEvents hmade hevents he
  rw [installRoot, hpre, hget, Option.isNone_some, if_neg Bool.false_ne_true, hget]
  simp only [hagain, Assoc.set_of_get? hget]

end

/-! ## Statusline -/

section

variable {bin agent : Text} {root : Members}

theorem renderStatuslineShim_inj {inner inner' : Text} :
    renderStatuslineShim bin agent inner = renderStatuslineShim bin agent inner' ↔ inner = inner' := by
  constructor
  · intro h
    have hdelim {inner : Text} : innerDelim ++ inner ≠ [] := List.append_ne_nil_of_left_ne_nil (by decide) _
    rw [renderStatuslineShim, renderStatuslineShim] at h
    split at h <;> split at h
    next hempty hempty' => rw [List.isEmpty_iff.mp hempty, List.isEmpty_iff.mp hempty']
    next => exact absurd (List.self_eq_append_right.mp h) hdelim
    next => exact absurd (List.self_eq_append_right.mp h.symm) hdelim
    next => exact List.append_cancel_left (List.append_cancel_left h)
  · rintro rfl
    rfl

/-- The command after an install is the shim around what the install found. -/
theorem statuslineCommand_install : statuslineCommand (.obj (installStatusline bin agent root)) =
    some (renderStatuslineShim bin agent (statuslineInner agent root)) := by
  rw [installStatusline]
  exact statuslineCommand_of_get? Assoc.get?_set_self Assoc.get?_set_self

/-- What the next install finds is what is taken out of the shim. -/
theorem statuslineInner_install : statuslineInner agent (installStatusline bin agent root) =
    extractStatuslineInner (renderStatuslineShim bin agent (statuslineInner agent root)) := by
  rw [statuslineInner, statuslineCommand_install]
  simp only [isStatuslineShim_render, if_true]

/-- **The wrapped command is kept exactly when the forward has no delimiter.** -/
theorem statuslineInner_kept_iff : statuslineInner agent (installStatusline bin agent root) = statuslineInner agent root ↔
    ¬ innerDelim <:+: statuslineForward bin agent := by
  rw [statuslineInner_install, extract_render]

/-- **A second install changes nothing exactly then.** -/
theorem installStatusline_again_iff :
    installStatusline bin agent (installStatusline bin agent root) = installStatusline bin agent root ↔
      ¬ innerDelim <:+: statuslineForward bin agent := by
  rw [← @statuslineInner_kept_iff bin agent root, ← @renderStatuslineShim_inj bin agent]
  constructor
  · intro h
    have hcommand := congrArg (fun root => statuslineCommand (.obj root)) h
    simp only [statuslineCommand_install, Option.some.injEq] at hcommand
    exact hcommand
  · intro h
    obtain ⟨members, hmembers⟩ : ∃ members, members =
      Assoc.set (statusLineMembers root) typeKey (.str "command".toList) := ⟨_, rfl⟩
    have hfirst : installStatusline bin agent root = Assoc.set root statusLineKey
        (.obj (Assoc.set members commandKey (.str (renderStatuslineShim bin agent (statuslineInner agent root))))) := by
      rw [installStatusline, hmembers]
    have htype : Assoc.get? (Assoc.set members commandKey
        (.str (renderStatuslineShim bin agent (statuslineInner agent root)))) typeKey = some (.str "command".toList) := by
      rw [Assoc.get?_set_other (by decide), hmembers, Assoc.get?_set_self]
    have hfound : statusLineMembers (installStatusline bin agent root) = Assoc.set members commandKey
        (.str (renderStatuslineShim bin agent (statuslineInner agent root))) := by
      rw [statusLineMembers, hfirst, Assoc.get?_set_self]
    rw [installStatusline, h, hfound, Assoc.set_of_get? htype, Assoc.set_set, hfirst, Assoc.set_set]

end

/-! ## The texts -/

theorem editHooksInstall_again {shape : HookShape} (hshape : shape = claudeShape ∨ shape = cursorShape)
    {agent wrapper old out : Text} {events : List Text}
    (h : editHooksInstall shape agent old wrapper events = .ok out) :
    editHooksInstall shape agent out wrapper events = .ok out ∧
      ∃ root, parse out = .ok root ∧ ∀ event ∈ events, Installed shape agent wrapper (hooksOf root) event := by
  rw [editHooksInstall] at h
  split at h
  · cases h
  next root hparse =>
    split at h
    · cases h
    next after hafter =>
      cases h
      obtain ⟨hevents, -, hfits⟩ := installRoot_spec (lawful_of_mem hshape) hafter
      have hread := parse_toPretty (hfits (parse_fits hparse))
      refine ⟨?_, .obj after, hread, fun event he => installed_of_installEvents (lawful_of_mem hshape).made hevents he⟩
      rw [editHooksInstall, hread]
      simp only [installRoot_again hshape hafter]
  · cases h

theorem editStatuslineInstall_again {bin agent old out : Text} (h : editStatuslineInstall old bin agent = .ok out) :
    ∃ before after, parse old = .ok (.obj before) ∧ parse out = .ok (.obj after) ∧
      statuslineCommand (.obj after) = some (renderStatuslineShim bin agent (statuslineInner agent before)) ∧
      (editStatuslineInstall out bin agent = .ok out ↔ ¬ innerDelim <:+: statuslineForward bin agent) ∧
      (statuslineInner agent after = statuslineInner agent before ↔ ¬ innerDelim <:+: statuslineForward bin agent) := by
  rw [editStatuslineInstall] at h
  split at h
  · cases h
  next before hparse =>
    cases h
    have hfits := @installStatusline_fits bin agent before (parse_fits hparse)
    have hread := parse_toPretty hfits
    refine ⟨before, _, hparse, hread, statuslineCommand_install, ?_, statuslineInner_kept_iff⟩
    rw [editStatuslineInstall, hread]
    simp only [Except.ok.injEq]
    rw [toPretty_inj (installStatusline_fits hfits) hfits, Value.obj.injEq, installStatusline_again_iff]
  · cases h

/-- **A second install changes nothing.** The hooks stay byte for byte; each listed event has an entry
of the current command, and every entry of tma's has it. The statusline stays, and keeps the command
it wraps, exactly when the forward for the binary and the agent does not hold the delimiter. What
is written is read again: exactly the values of parsed numbers within the depth limit are. -/
theorem reinstall_is_noop (shape : HookShape) (hshape : shape = claudeShape ∨ shape = cursorShape)
    (agent wrapper bin old out : Text) (events : List Text) :
    (editHooksInstall shape agent old wrapper events = .ok out →
        editHooksInstall shape agent out wrapper events = .ok out ∧
          ∃ root, parse out = .ok root ∧ ∀ event ∈ events, Installed shape agent wrapper (hooksOf root) event) ∧
      (editStatuslineInstall old bin agent = .ok out →
        ∃ before after, parse old = .ok (.obj before) ∧ parse out = .ok (.obj after) ∧
          statuslineCommand (.obj after) = some (renderStatuslineShim bin agent (statuslineInner agent before)) ∧
          (editStatuslineInstall out bin agent = .ok out ↔ ¬ innerDelim <:+: statuslineForward bin agent) ∧
          (statuslineInner agent after = statuslineInner agent before ↔
            ¬ innerDelim <:+: statuslineForward bin agent)) ∧
      ∀ v, parse (toPretty v) = .ok v ↔ Fits maxDepth v :=
  ⟨editHooksInstall_again hshape, editStatuslineInstall_again, parse_toPretty_iff⟩

theorem empty_fits : Fits maxDepth (.obj []) := fun _ hm => absurd hm List.not_mem_nil

/-- Settings of a wrapper that has moved since, with a command and a status line of the user's own. -/
def movedSettings : Value :=
  .obj [(hooksKey, .obj [("Stop".toList, .arr (["/old/tma-hook claude Stop".toList, "mine".toList].map fun c =>
      .obj [(hooksKey, .arr [.obj [(commandKey, .str c)]])]))]),
    (statusLineKey, .obj [(typeKey, .str "command".toList), (commandKey, .str "date".toList)])]

theorem movedSettings_fits : Fits maxDepth movedSettings := by
  refine @Fits.mono 7 _ _ ?_ (by decide)
  simp [movedSettings, Fits]

/-- The wrapper and the status line installed anew, and then again. -/
theorem reinstall_is_noop_moved :
    (∃ out, editHooksInstall claudeShape "claude".toList (toPretty movedSettings) "/opt/tma-hook".toList ["Stop".toList] =
        .ok out ∧
      editHooksInstall claudeShape "claude".toList out "/opt/tma-hook".toList ["Stop".toList] = .ok out) ∧
    ∃ out, editStatuslineInstall (toPretty movedSettings) "/opt/tma".toList "claude".toList = .ok out ∧
      editStatuslineInstall out "/opt/tma".toList "claude".toList = .ok out := by
  obtain ⟨hooked, hhooked⟩ : ∃ out, editHooksInstall claudeShape "claude".toList (toPretty movedSettings)
      "/opt/tma-hook".toList ["Stop".toList] = .ok out := ⟨_, by rw [editHooksInstall, parse_toPretty movedSettings_fits]; rfl⟩
  obtain ⟨lined, hlined⟩ : ∃ out, editStatuslineInstall (toPretty movedSettings) "/opt/tma".toList "claude".toList = .ok out :=
    ⟨_, by rw [editStatuslineInstall, parse_toPretty movedSettings_fits]; rfl⟩
  obtain ⟨hhooks, -, -⟩ := reinstall_is_noop claudeShape (.inl rfl) "claude".toList "/opt/tma-hook".toList [] _ hooked ["Stop".toList]
  obtain ⟨-, hline, -⟩ := reinstall_is_noop claudeShape (.inl rfl) "claude".toList [] "/opt/tma".toList _ lined []
  obtain ⟨-, -, -, -, -, hagain, -⟩ := hline hlined
  exact ⟨⟨hooked, hhooked, (hhooks hhooked).1⟩, lined, hlined, hagain.mpr (by decide +kernel)⟩

theorem innerDelim_infix_forward (before after agent : Text) :
    innerDelim <:+: statuslineForward (before ++ innerDelim ++ after) agent := by
  refine ⟨captureText ++ before, after ++ pipeText ++ statuslineMarker agent ++ detachText, ?_⟩
  rw [statuslineForward]
  simp only [List.append_assoc]

/-- A binary below a directory that is named like the delimiter. -/
def delimiterBin : Text := "/opt/a".toList ++ innerDelim ++ "b/tma".toList

/-- A statusline grows when the binary's path holds the delimiter, and a number that is no token is
not read back. -/
theorem reinstall_grows :
    (∃ out, editStatuslineInstall (toPretty (.obj [])) delimiterBin "claude".toList = .ok out ∧
        editStatuslineInstall out delimiterBin "claude".toList ≠ .ok out) ∧
      parse (toPretty (.num ['x'])) ≠ .ok (.num ['x']) := by
  constructor
  · obtain ⟨out, hout⟩ : ∃ out, editStatuslineInstall (toPretty (.obj [])) delimiterBin "claude".toList = .ok out :=
      ⟨_, by rw [editStatuslineInstall, parse_toPretty empty_fits]⟩
    obtain ⟨-, -, -, -, -, hagain, -⟩ := editStatuslineInstall_again hout
    exact ⟨out, hout, fun hsame => hagain.mp hsame (innerDelim_infix_forward _ _ _)⟩
  · intro h
    obtain ⟨⟨c, rest, heq, hc⟩, -⟩ := (parse_toPretty_iff _).mp h
    cases heq
    revert hc
    simp [StartsNumber]

end TmuxAgents.Install
