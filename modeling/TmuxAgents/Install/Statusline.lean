/-
The installer's statusline editors (`install/statusline.rs`): the shim forwards the payload to
tma and wraps the command the user had, which is taken out of it again.

What is wrapped is what stands behind the first delimiter, so it comes back whenever the
forward in front of it has none of its own.
-/
import TmuxAgents.Install.Hooks

namespace TmuxAgents.Install

/-! ## The shim -/

def statuslineMarker (agent : Text) : Text := "event --agent ".toList ++ agent ++ " --kind context".toList

/-- `STATUSLINE_INNER_DELIM` -/
def innerDelim : Text := " & printf '%s' \"$_TMA_SL\" | ".toList

/-- The payload is captured, and the binary looked for where it was installed first. -/
def captureText : Text := "_TMA_SL=$(cat); _TMA_BIN='".toList

def pipeText : Text := "'; [ -x \"$_TMA_BIN\" ] || _TMA_BIN=tma; printf '%s' \"$_TMA_SL\" | \"$_TMA_BIN\" ".toList

def detachText : Text := " --pane \"$\x7bTMUX_PANE:-\x7d\" --payload - >/dev/null 2>&1".toList

/-- The forward of a copy of the payload to tma. -/
def statuslineForward (bin agent : Text) : Text :=
  captureText ++ bin ++ pipeText ++ statuslineMarker agent ++ detachText

def renderStatuslineShim (bin agent inner : Text) : Text :=
  if inner.isEmpty then statuslineForward bin agent else statuslineForward bin agent ++ (innerDelim ++ inner)

/-- Nothing when the shim wrapped nothing. -/
def extractStatuslineInner (cmd : Text) : Text := ((Text.splitOnce innerDelim cmd).map Prod.snd).getD []

/-! ## The editors -/

def statusLineKey : Text := "statusLine".toList

def statuslineCommand (root : Value) : Option Text :=
  ((root.get? statusLineKey).bind fun s => s.get? commandKey).bind Value.asStr

/-- Whether a command is tma's shim for the agent. -/
def isStatuslineShim (agent cmd : Text) : Bool := decide (statuslineMarker agent <:+: cmd)

/-- The command the shim is to wrap. A shim of tma's is wrapped anew, not twice. -/
def statuslineInner (agent : Text) (root : Members) : Text :=
  match statuslineCommand (.obj root) with
  | some cmd => if isStatuslineShim agent cmd then extractStatuslineInner cmd else cmd
  | none => []

/-- The members of `statusLine` to write into. A non-object statusLine is replaced. -/
def statusLineMembers (root : Members) : Members :=
  match Assoc.get? root statusLineKey with
  | some (.obj members) => members
  | _ => []

def installStatusline (bin agent : Text) (root : Members) : Members :=
  let members := Assoc.set (statusLineMembers root) typeKey (.str "command".toList)
  let shim := renderStatuslineShim bin agent (statuslineInner agent root)
  Assoc.set root statusLineKey (.obj (Assoc.set members commandKey (.str shim)))

def editStatuslineInstall (old bin agent : Text) : Except EditError Text :=
  match parse old with
  | .error e => .error (.parse e)
  | .ok (.obj root) => .ok (toPretty (.obj (installStatusline bin agent root)))
  | .ok _ => .error (.refused "settings root is not a JSON object".toList)

/-- A foreign or absent command is left alone. -/
def uninstallStatusline (agent : Text) (root : Value) : Value :=
  match statuslineCommand root with
  | none => root
  | some cmd =>
    if isStatuslineShim agent cmd then
      let inner := extractStatuslineInner cmd
      if inner.isEmpty then root.objRemove statusLineKey
      else
        match root.get? statusLineKey with
        | some sl => root.objSet statusLineKey (sl.objSet commandKey (.str inner))
        | none => root
    else root

def editStatuslineUninstall (old agent : Text) : Except EditError Text :=
  match parse old with
  | .error e => .error (.parse e)
  | .ok root => .ok (toPretty (uninstallStatusline agent root))

/-! ## What the shim wraps -/

theorem isStatuslineShim_render (bin agent inner : Text) :
    isStatuslineShim agent (renderStatuslineShim bin agent inner) = true := by
  have hforward : statuslineMarker agent <:+: statuslineForward bin agent :=
    ⟨captureText ++ bin ++ pipeText, detachText, rfl⟩
  rw [isStatuslineShim, decide_eq_true_eq, renderStatuslineShim]
  split
  · exact hforward
  · exact hforward.trans (List.prefix_append _ _).isInfix

/-- The forward ends in a character no delimiter has. -/
theorem statuslineForward_last (bin agent : Text) : ∃ front, statuslineForward bin agent = front ++ ['1'] := by
  obtain ⟨front, hfront⟩ : ∃ front, detachText = front ++ ['1'] := ⟨detachText.dropLast, by decide⟩
  exact ⟨captureText ++ bin ++ pipeText ++ statuslineMarker agent ++ front, by
    rw [statuslineForward, hfront, ← List.append_assoc]⟩

/-- A delimiter that stands in front of the last one lies in the forward. -/
theorem first_innerDelim {bin agent before after : Text} (h : ¬ innerDelim <:+: statuslineForward bin agent)
    (heq : statuslineForward bin agent ++ innerDelim = before ++ (innerDelim ++ after)) :
    before = statuslineForward bin agent := by
  obtain ⟨front, hfront⟩ := statuslineForward_last bin agent
  rw [← List.append_assoc] at heq
  rcases List.append_eq_append_iff.mp heq with ⟨extra, hextra, hdelim⟩ | ⟨more, hmore, -⟩
  · rcases List.append_eq_append_iff.mp hextra with ⟨cs, hcs, hrest⟩ | ⟨cs, hcs, hrest⟩
    · cases cs using List.reverseRecOn with
      | nil => rw [hcs, List.append_nil]
      | append_singleton cs c =>
        -- the forward's last character would be the delimiter's
        rw [hfront, ← List.append_assoc] at hcs
        obtain ⟨-, hc⟩ := List.append_inj' hcs rfl
        have hmem : '1' ∈ innerDelim := by
          rw [hrest, List.mem_append]
          exact .inl (List.mem_append_right _ (List.mem_singleton.mpr (List.cons.inj hc).1))
        exact absurd hmem (by decide)
    · have hlen := congrArg List.length hdelim
      rw [hrest] at hlen
      simp only [List.length_append] at hlen
      rw [hcs, List.length_eq_zero_iff.mp (show cs.length = 0 by omega), List.append_nil]
  · exact absurd ⟨before, more, hmore.symm⟩ h

/-- **A shim gives back what it wraps exactly when its forward has no delimiter.** -/
theorem extract_render (bin agent inner : Text) :
    extractStatuslineInner (renderStatuslineShim bin agent inner) = inner ↔
      ¬ innerDelim <:+: statuslineForward bin agent := by
  rw [extractStatuslineInner, renderStatuslineShim]
  constructor
  · rintro h ⟨before, after, heq⟩
    obtain ⟨front, hfront⟩ := statuslineForward_last bin agent
    have hafter : after ≠ [] := by
      rintro rfl
      rw [List.append_nil, hfront] at heq
      have hlast := congrArg List.getLast? heq
      have hdelim : innerDelim.getLast? = some ' ' := by decide
      rw [List.getLast?_append, hdelim, List.getLast?_concat] at hlast
      cases hlast
    have hpos := List.length_pos_iff.mpr hafter
    have hshim : ∃ tail, (if inner.isEmpty then statuslineForward bin agent
        else statuslineForward bin agent ++ (innerDelim ++ inner)) = before ++ (innerDelim ++ tail) ∧
          inner.length < tail.length := by
      split
      next hempty =>
        rw [List.isEmpty_iff] at hempty
        subst hempty
        exact ⟨after, by rw [← heq, List.append_assoc], hpos⟩
      next =>
        refine ⟨after ++ (innerDelim ++ inner), by rw [← heq]; simp, ?_⟩
        simp only [List.length_append]
        omega
    obtain ⟨tail, htail, hlt⟩ := hshim
    rw [htail] at h
    obtain ⟨first, more, hsplit, heq, hle⟩ := @Text.splitOnce_of_infix innerDelim before tail
    rw [hsplit] at h
    have h : more = inner := h
    have hlen := congrArg List.length heq
    simp only [List.length_append, h] at hlen
    omega
  · intro h
    split
    next hempty =>
      rw [Text.splitOnce_eq_none h]
      exact (List.isEmpty_iff.mp hempty).symm
    next =>
      rw [Text.splitOnce_first fun before after heq => first_innerDelim h heq]
      rfl

/-! ## Restoring -/

theorem statuslineCommand_of_get? {root members : Members} {cmd : Text}
    (hroot : Assoc.get? root statusLineKey = some (.obj members))
    (hcmd : Assoc.get? members commandKey = some (.str cmd)) : statuslineCommand (.obj root) = some cmd := by
  rw [statuslineCommand, Value.get?, hroot, Option.bind_some, Value.get?, hcmd]
  rfl

/-- What an uninstall finds after an install. -/
theorem uninstallStatusline_install {bin agent : Text} {root : Members}
    (hclean : ∀ cmd, statuslineCommand (.obj root) = some cmd → isStatuslineShim agent cmd = false) :
    uninstallStatusline agent (.obj (installStatusline bin agent root)) =
      let inner := extractStatuslineInner (renderStatuslineShim bin agent ((statuslineCommand (.obj root)).getD []))
      if inner.isEmpty then .obj (Assoc.remove root statusLineKey)
      else .obj (Assoc.set root statusLineKey (.obj (Assoc.set
        (Assoc.set (statusLineMembers root) typeKey (.str "command".toList)) commandKey (.str inner)))) := by
  have hinner : statuslineInner agent root = (statuslineCommand (.obj root)).getD [] := by
    rw [statuslineInner]
    cases hcmd : statuslineCommand (.obj root) with
    | none => rfl
    | some cmd => simp only [hclean cmd hcmd, Bool.false_eq_true, if_false, Option.getD_some]
  have hcommand : statuslineCommand (.obj (installStatusline bin agent root)) =
      some (renderStatuslineShim bin agent ((statuslineCommand (.obj root)).getD [])) := by
    rw [installStatusline, hinner]
    exact statuslineCommand_of_get? Assoc.get?_set_self Assoc.get?_set_self
  rw [uninstallStatusline, hcommand]
  simp only [isStatuslineShim_render, if_true]
  split
  · rw [installStatusline, Value.objRemove, Assoc.remove_set]
  · rw [installStatusline]
    simp [Value.get?, Value.objSet]

/-- What a statusline must be for its uninstall to find what there was: absent, or an object
of the type written with a command to wrap; and a forward without a delimiter. -/
def StatuslineRestorable (bin agent : Text) (root : Members) : Prop :=
  ¬ innerDelim <:+: statuslineForward bin agent ∧
    (Assoc.get? root statusLineKey = none ∨
      ∃ members cmd, Assoc.get? root statusLineKey = some (.obj members) ∧
        Assoc.get? members typeKey = some (.str "command".toList) ∧
        Assoc.get? members commandKey = some (.str cmd) ∧ cmd ≠ [])

theorem uninstallStatusline_install_iff {bin agent : Text} {root : Members}
    (hclean : ∀ cmd, statuslineCommand (.obj root) = some cmd → isStatuslineShim agent cmd = false) :
    uninstallStatusline agent (.obj (installStatusline bin agent root)) = .obj root ↔
      StatuslineRestorable bin agent root := by
  rw [uninstallStatusline_install hclean, StatuslineRestorable]
  generalize hinner : extractStatuslineInner (renderStatuslineShim bin agent ((statuslineCommand (.obj root)).getD [])) =
    inner
  have hrender := extract_render bin agent ((statuslineCommand (.obj root)).getD [])
  rw [hinner] at hrender
  rw [← hrender]
  cases hget : Assoc.get? root statusLineKey with
  | none =>
    have hnone : statuslineCommand (.obj root) = none := by rw [statuslineCommand, Value.get?, hget]; rfl
    rw [hnone]
    simp only [List.isEmpty_iff, true_or, and_true, Option.getD_none]
    constructor
    · intro h
      split at h
      next hempty => exact hempty
      next =>
        have hset := congrArg (Assoc.get? · statusLineKey) (Value.obj.inj h)
        simp only [Assoc.get?_set_self, hget] at hset
        cases hset
    · rintro rfl
      rw [if_pos rfl, Assoc.remove_of_none hget]
  | some sl =>
    simp only [List.isEmpty_iff, Option.some.injEq, reduceCtorEq, false_or]
    constructor
    · intro h
      split at h
      next =>
        have hremove := congrArg (Assoc.get? · statusLineKey) (Value.obj.inj h)
        simp only [Assoc.get?_remove_self, hget] at hremove
        cases hremove
      next hne =>
        have hset := congrArg (Assoc.get? · statusLineKey) (Value.obj.inj h)
        simp only [Assoc.get?_set_self, hget, Option.some.injEq] at hset
        have hcommand : statuslineCommand (.obj root) = some inner :=
          statuslineCommand_of_get? (hget.trans (congrArg some hset.symm)) Assoc.get?_set_self
        rw [hcommand]
        refine ⟨rfl, _, inner, hset.symm, ?_, Assoc.get?_set_self, hne⟩
        rw [Assoc.get?_set_other (by decide), Assoc.get?_set_self]
    · rintro ⟨hinner', members, cmd, rfl, htype, hcmd, hne⟩
      have hcommand : statuslineCommand (.obj root) = some cmd := statuslineCommand_of_get? hget hcmd
      rw [hcommand] at hinner'
      have hinner' : inner = cmd := hinner'
      have hmembers : statusLineMembers root = members := by rw [statusLineMembers, hget]
      rw [hinner', if_neg hne, hmembers, Assoc.set_of_get? htype, Assoc.set_of_get? hcmd, Assoc.set_of_get? hget]

end TmuxAgents.Install
