/-
The bells of an alert, in every interleaving of the processes that evaluate it.

Between two bells of one pane's alert the marker was cleared, by a process that found the gauge well
below its threshold, or the run over (`bells_apart`): however many processes evaluate the alert, on
reads however old, and with thresholds of their own.
-/
import TmuxAgents.Notify.Alert

namespace TmuxAgents.Notify

variable {compare : Comparison}

/-! ## What an alert's transaction finds and leaves -/

/-- Whose a transaction is: the alert of the process that sent it, and its clock. One that is no alert's has no such. -/
abbrev Senders (compare : Comparison) := Submission compare → Option (Alert × Nat)

/-- The transaction sets the marker, for an alert that fired. -/
def Arms (sender : Senders compare) (key : OptionKey) (s : Submission compare) : Prop :=
  ∃ (alert : Alert) (now : Nat) (claim : Token), sender s = some (alert, now) ∧ alert.key = key ∧
    alert.Fires s.request.observed.options now ∧ updateNotifyMarker s.request.observed key (some now) claim = .ok s.request

/-- It clears it. -/
def Clears (sender : Senders compare) (key : OptionKey) (s : Submission compare) : Prop :=
  ∃ (alert : Alert) (now : Nat) (claim : Token), sender s = some (alert, now) ∧ alert.key = key ∧
    alert.Rearms s.request.observed.options now ∧ updateNotifyMarker s.request.observed key none claim = .ok s.request

variable {sender : Senders compare}

/-- What an alert submits does the one or the other. -/
theorem arms_or_clears {alert : Alert} {s : Submission compare} {now : Nat} {claim : Token} (hsender : sender s = some (alert, now))
    (h : alert.evaluate s.request.observed now claim = some (.ok s.request)) :
    Arms sender alert.key s ∨ Clears sender alert.key s := by
  rcases Alert.evaluate_cases h with ⟨hfires, hrequest⟩ | ⟨hrearms, hrequest⟩
  · exact .inl ⟨alert, now, claim, hsender, rfl, hfires, hrequest⟩
  · exact .inr ⟨alert, now, claim, hsender, rfl, hrearms, hrequest⟩

theorem granted_extra {s : Submission compare} {pane : Pane} (h : s.predicate pane = true) : s.request.extra pane = true := by
  have hp := s.prepared
  simp only [Request.predicate] at hp
  cases ho : ownershipPredicate s.request.ownership s.request.observed with
  | error e =>
    rw [ho] at hp
    cases hp
  | ok owned =>
    rw [ho] at hp
    rw [← Except.ok.inj hp] at h
    simp only [Predicate.and, Bool.and_eq_true] at h
    exact h.2.2.2.1

section

variable {observed : PaneRead} {key : OptionKey} {armAt : Option Nat} {claim : Token} {request : Request}

/-- What the update submits. -/
theorem update_request (h : updateNotifyMarker observed key armAt claim = .ok request) :
    (key = Opt.contextNotifiedAt ∨ key = Opt.stallNotifiedAt) ∧ request.observed = observed ∧
      request.edits = [armAt.elim (.unset key) fun at' => .set key (Text.decimal at'),
        .set ProgramOpt.markerClaim claim.text] := by
  unfold updateNotifyMarker at h
  split at h
  · cases h
  next hkey =>
    cases h
    refine ⟨?_, rfl, rfl⟩
    by_contra hnot
    rw [not_or] at hnot
    exact hkey hnot

/-- What it finds where it runs. -/
theorem update_granted (h : updateNotifyMarker observed key armAt claim = .ok request) {pane : Pane}
    (hgranted : request.extra pane = true) :
    (∀ field ∈ [key, Opt.contextPct, Opt.contextAt], pane.options.value field = observed.value field) ∧
      pane.options.Agree projectionKeys observed.options ∧ (armAt.isSome = true → pane.options.value key = []) := by
  unfold updateNotifyMarker at h
  split at h
  · cases h
  · cases h
    simp only [Predicate.and, Bool.and_eq_true, Predicate.conjunction_iff] at hgranted
    obtain ⟨hchecks, hprojection⟩ := hgranted
    refine ⟨fun field hfield => ?_, projectionUnchanged_iff.mp hprojection, fun harm => ?_⟩
    · have hcheck := hchecks (Predicate.equal field (observed.value field)) (by
        have hmem : Predicate.equal field (observed.value field) ∈
            [key, Opt.contextPct, Opt.contextAt, ProgramOpt.metadataOwner].map
              fun field => Predicate.equal field (observed.value field) :=
          List.mem_map_of_mem (List.mem_append_left [ProgramOpt.metadataOwner] hfield)
        split
        · exact List.mem_append_left _ hmem
        · exact hmem)
      exact of_decide_eq_true hcheck
    · have hcheck := hchecks (Predicate.equal key []) (by
        rw [if_pos harm]
        exact List.mem_append_right _ List.mem_cons_self)
      exact of_decide_eq_true hcheck

end

/-- The keys an alert reads are read with every pane. -/
theorem reads_read (alert : Alert) : ∀ key ∈ alert.reads, key ∈ paneOptionKeys := by
  intro key hkey
  rcases List.mem_append.mp hkey with hkey | hkey
  · have hcases : key = alert.key ∨ key = Opt.contextPct ∨ key = Opt.contextAt := by simpa using hkey
    rcases hcases with rfl | rfl | rfl
    · cases alert with
      | contextHigh threshold => exact (by decide : Opt.contextNotifiedAt ∈ paneOptionKeys)
      | stall thresholdMs => exact (by decide : Opt.stallNotifiedAt ∈ paneOptionKeys)
    · decide
    · decide
  · exact projectionKeys_read hkey

/-- The pane as it stands reads as it was observed, as far as the alert reads. -/
theorem reads_agree {alert : Alert} {observed : PaneRead} {armAt : Option Nat} {claim : Token} {request : Request}
    (h : updateNotifyMarker observed alert.key armAt claim = .ok request) {pane : Pane} (hgranted : request.extra pane = true) :
    ∀ key ∈ alert.reads, (pane.options.read paneOptionKeys) key = observed.options key := by
  obtain ⟨hfields, hprojection, -⟩ := update_granted h hgranted
  have hagree : (pane.options.read paneOptionKeys).Agree alert.reads observed.options := by
    intro key hkey
    rw [Options.value_read (reads_read alert key hkey)]
    rcases List.mem_append.mp hkey with hkey | hkey
    · exact hfields key hkey
    · exact hprojection key hkey
  exact fun key hkey => hagree.get (pane.options.read_noEmpty _) observed.nonempty hkey

variable {s : Submission compare} {pane : Pane}

/-- An alert that sets its marker fires on the pane as it stands, and found the marker clear. -/
theorem Arms.granted {key : OptionKey} (h : Arms sender key s) (hgranted : s.predicate pane = true) :
    (∃ (alert : Alert) (now : Nat), sender s = some (alert, now) ∧ alert.key = key ∧
        alert.Fires (pane.options.read paneOptionKeys) now) ∧ pane.options.value key = [] := by
  obtain ⟨alert, now, claim, hsender, rfl, hfires, hrequest⟩ := h
  have hextra := granted_extra hgranted
  refine ⟨⟨alert, now, hsender, rfl, ?_⟩, (update_granted hrequest hextra).2.2 rfl⟩
  exact (Alert.agree (reads_agree hrequest hextra) now).1.mpr hfires

/-- One that clears it does so for the pane as it stands, too. -/
theorem Clears.granted {key : OptionKey} (h : Clears sender key s) (hgranted : s.predicate pane = true) :
    ∃ (alert : Alert) (now : Nat), sender s = some (alert, now) ∧ alert.key = key ∧
      alert.Rearms (pane.options.read paneOptionKeys) now := by
  obtain ⟨alert, now, claim, hsender, rfl, hrearms, hrequest⟩ := h
  exact ⟨alert, now, hsender, rfl, (Alert.agree (reads_agree hrequest (granted_extra hgranted)) now).2.mpr hrearms⟩

/-- The marker is set behind it. -/
theorem Arms.group {key : OptionKey} (h : Arms sender key s) (hgranted : s.predicate pane = true) :
    (s.group pane).options.value key ≠ [] := by
  obtain ⟨alert, now, claim, -, rfl, -, hrequest⟩ := h
  obtain ⟨hkey, -, hedits⟩ := update_request hrequest
  have hclaim : alert.key ≠ ProgramOpt.markerClaim := by rcases hkey with hkey | hkey <;> rw [hkey] <;> decide
  have hreceipt : alert.key ≠ ProgramOpt.receipt := by rcases hkey with hkey | hkey <;> rw [hkey] <;> decide
  have hvalue : (s.group pane).options.value alert.key = Text.decimal now := by
    simp only [Submission.group, conditionalGroup, hgranted, if_true, Submission.body, hedits, applyEdits, Option.elim,
      List.cons_append, List.nil_append, List.foldl_cons, List.foldl_nil]
    rw [OptionEdit.apply_other hreceipt, OptionEdit.apply_other hclaim]
    exact OptionEdit.apply_set_self _ _ _
  rw [hvalue]
  exact Text.decimal_ne_nil now

/-! ## Runs -/

/-- A transaction that is not the alert's. -/
def Apart (key : OptionKey) (s : Submission compare) : Prop := ∀ edit ∈ s.request.edits, edit.key ≠ key

/-- It is the alert's, as its sender evaluated it, or it is not the alert's. -/
def Evaluated (sender : Senders compare) (key : OptionKey) (s : Submission compare) : Prop :=
  (∃ (alert : Alert) (now : Nat) (claim : Token), sender s = some (alert, now) ∧ alert.key = key ∧
    alert.evaluate s.request.observed now claim = some (.ok s.request)) ∨ Apart key s

/-- A step while the pane keeps its agent: nothing but the alert moves its marker, and only by transactions. -/
structure MarkedStep (sender : Senders compare) (key : OptionKey) (world : World compare) (out : List (CasEvent compare)) (world' : World compare) :
    Prop where
  step : world.Step out world'
  sent : ∀ s ∈ world'.sent, Evaluated sender key s
  /-- A write that is no transaction's leaves the marker. -/
  kept : world'.sent = world.sent → world'.queued = world.queued → world'.hinting = world.hinting →
    world'.pane.options.value key = world.pane.options.value key

theorem value_applyEdits {key : OptionKey} {edits : List OptionEdit} (h : ∀ edit ∈ edits, edit.key ≠ key)
    (options : Options) : (applyEdits edits options).value key = options.value key := by
  induction edits generalizing options with
  | nil => rfl
  | cons edit edits ih =>
    have hrest := ih (fun e he => h e (List.mem_cons_of_mem _ he)) (edit.apply options)
    exact hrest.trans (OptionEdit.apply_other (h edit List.mem_cons_self).symm options)

/-- The marker after a group that is not the alert's, or that was refused. -/
theorem group_apart {key : OptionKey} (hreceipt : key ≠ ProgramOpt.receipt) (h : Apart key s) :
    (s.group pane).options.value key = pane.options.value key := by
  simp only [Submission.group, conditionalGroup]
  split
  · refine value_applyEdits (fun edit he => ?_) pane.options
    rcases List.mem_append.mp he with he | he
    · exact h edit he
    · rw [List.mem_singleton.mp he]
      exact hreceipt.symm
  · rfl

theorem hintGroup_marker {key : OptionKey} (hpoll : key ≠ Opt.lastPoll) :
    (s.hintGroup pane).options.value key = pane.options.value key := by
  unfold Submission.hintGroup
  split
  · rfl
  · simp only [conditionalGroup]
    split
    · refine value_applyEdits (fun edit he => ?_) pane.options
      rw [List.mem_singleton.mp he]
      exact hpoll.symm
    · rfl

/-- An alert's marker is no option that transactions keep for themselves. -/
theorem key_apart (alert : Alert) : alert.key ≠ ProgramOpt.receipt ∧ alert.key ≠ Opt.lastPoll := by
  cases alert with
  | contextHigh threshold =>
    exact ⟨(by decide : Opt.contextNotifiedAt ≠ ProgramOpt.receipt), (by decide : Opt.contextNotifiedAt ≠ Opt.lastPoll)⟩
  | stall thresholdMs =>
    exact ⟨(by decide : Opt.stallNotifiedAt ≠ ProgramOpt.receipt), (by decide : Opt.stallNotifiedAt ≠ Opt.lastPoll)⟩

/-- The marker was cleared in between, by a process whose alert clears it on the pane as it stood. -/
def Cleared (sender : Senders compare) (key : OptionKey) (mid : List (CasEvent compare)) : Prop :=
  ∃ r q, .executed r q ∈ mid ∧ Clears sender key r ∧
    ∃ (alert : Alert) (now : Nat), sender r = some (alert, now) ∧ alert.key = key ∧
      alert.Rearms (q.options.read paneOptionKeys) now

/-- The transactions that have been answered. -/
def returns : List (CasEvent compare) → List (Submission compare)
  | [] => []
  | .executed _ _ :: shown => returns shown
  | .returned s _ :: shown => s :: returns shown

theorem returns_append (shown out : List (CasEvent compare)) : returns (shown ++ out) = returns shown ++ returns out := by
  induction shown with
  | nil => rfl
  | cons event shown ih =>
    cases event with
    | executed s pane => exact ih
    | returned s result => exact congrArg (s :: ·) ih

/-- Each transaction is in one place. -/
structure Ledger (shown : List (CasEvent compare)) (world : World compare) : Prop where
  places : (returns shown ++ world.reading ++ world.hinting ++ world.queued).Perm world.sent
  fresh : world.receipts.Nodup

theorem Ledger.step {shown out : List (CasEvent compare)} {world world' : World compare} (h : Ledger shown world)
    (hs : world.Step out world') : Ledger (shown ++ out) world' := by
  cases hs with
  | send s fresh =>
    refine ⟨?_, ?_⟩
    · rw [List.append_nil, ← List.append_assoc]
      exact h.places.append_right [s]
    · have hsplit : World.receipts { world with sent := world.sent ++ [s], queued := world.queued ++ [s] } =
          world.receipts ++ [s.write.text] := by
        simp only [World.receipts, List.map_append, List.map_cons, List.map_nil, List.cons_append]
      rw [hsplit]
      refine List.nodup_append.mpr ⟨h.fresh, List.nodup_singleton _, fun a ha b hb heq => ?_⟩
      rw [List.mem_singleton.mp hb] at heq
      exact fresh (heq ▸ ha)
  | @execute before after s queued granted =>
    have hplaces := h.places
    rw [queued] at hplaces
    refine ⟨List.Perm.trans ?_ hplaces, h.fresh⟩
    rw [returns_append, show returns [CasEvent.executed s world.pane] = [] from rfl]
    simp only [List.append_assoc, List.nil_append, List.cons_append]
    exact List.Perm.append_left _ (List.Perm.append_left _ (List.Perm.append_left _ List.perm_middle.symm))
  | @refuse before after s queued refused =>
    have hplaces := h.places
    rw [queued] at hplaces
    refine ⟨List.Perm.trans ?_ hplaces, h.fresh⟩
    simp only [List.append_assoc, List.append_nil, List.nil_append, List.cons_append]
    exact List.Perm.append_left _ (List.Perm.append_left _ (List.Perm.append_left _ List.perm_middle.symm))
  | @hint before after s hinting =>
    have hplaces := h.places
    rw [hinting] at hplaces
    refine ⟨List.Perm.trans ?_ hplaces, h.fresh⟩
    simp only [List.append_assoc, List.append_nil, List.nil_append, List.cons_append]
    exact List.Perm.append_left _ (List.Perm.append_left _ List.perm_middle.symm)
  | @readback before after s reading =>
    have hplaces := h.places
    rw [reading] at hplaces
    refine ⟨List.Perm.trans ?_ hplaces, h.fresh⟩
    rw [returns_append, show returns [CasEvent.returned s (s.readback world.pane)] = [s] from rfl]
    simp only [List.append_assoc, List.nil_append, List.cons_append]
    exact List.Perm.append_left _ List.perm_middle.symm
  | write pane kept =>
    rw [List.append_nil]
    exact ⟨h.places, h.fresh⟩

/-- An executed group that sets the marker leaves it set until it is cleared. -/
def Since (sender : Senders compare) (key : OptionKey) (event : CasEvent compare) (mid : List (CasEvent compare)) (world : World compare) : Prop :=
  (∃ s pane, event = .executed s pane ∧ Arms sender key s) → Cleared sender key mid ∨ world.pane.options.value key ≠ []

/-- What was queued was sent. -/
def Queued (world : World compare) : Prop := ∀ s ∈ world.queued, s ∈ world.sent

theorem Queued.step {world world' : World compare} {out : List (CasEvent compare)} (h : Queued world)
    (hs : world.Step out world') : Queued world' := by
  have hsplit : ∀ {before after : List (Submission compare)} {s : Submission compare},
      world.queued = before ++ s :: after → ∀ r ∈ before ++ after, r ∈ world.sent := by
    intro before after s hq r hr
    refine h r ?_
    rw [hq]
    rcases List.mem_append.mp hr with hr | hr
    · exact List.mem_append_left _ hr
    · exact List.mem_append_right _ (List.mem_cons_of_mem _ hr)
  cases hs with
  | send s fresh =>
    intro r hr
    rcases List.mem_append.mp hr with hr | hr
    · exact List.mem_append_left _ (h r hr)
    · exact List.mem_append_right _ hr
  | execute queued granted => exact hsplit queued
  | refuse queued refused => exact hsplit queued
  | hint hinting => exact h
  | readback reading => exact h
  | write pane kept => exact h

variable {alert : Alert} {world world' : World compare} {out : List (CasEvent compare)}

/-- What one step does to the marker. -/
theorem MarkedStep.marker (hq : Queued world) (h : MarkedStep sender alert.key world out world') :
    (world'.pane.options.value alert.key = world.pane.options.value alert.key ∧
        ∀ s pane, .executed s pane ∈ out → ¬ Arms sender alert.key s) ∨
      (∃ s, out = [.executed s world.pane] ∧ Arms sender alert.key s ∧ world.pane.options.value alert.key = [] ∧
        world'.pane.options.value alert.key ≠ []) ∨
      ∃ s, out = [.executed s world.pane] ∧ Clears sender alert.key s ∧
        ∃ (a : Alert) (now : Nat), sender s = some (a, now) ∧ a.key = alert.key ∧
          a.Rearms (world.pane.options.read paneOptionKeys) now := by
  obtain ⟨hreceipt, hpoll⟩ := key_apart alert
  have hsent := h.sent
  have hkept := h.kept
  have hnone : ∀ (s : Submission compare) (pane : Pane), CasEvent.executed s pane ∈ ([] : List (CasEvent compare)) →
      ¬ Arms sender alert.key s := fun _ _ hmem => absurd hmem List.not_mem_nil
  cases h.step with
  | send s fresh => exact .inl ⟨rfl, hnone⟩
  | @execute before after s queued granted =>
    have hmem : s ∈ world.sent := hq s (by rw [queued]; exact List.mem_append_right _ List.mem_cons_self)
    rcases hsent s hmem with ⟨a, now, claim, hsender, hkey, hevaluate⟩ | hapart
    · rw [← hkey]
      rcases arms_or_clears hsender hevaluate with harms | hclears
      · exact .inr (.inl ⟨s, rfl, harms, (harms.granted granted).2, harms.group granted⟩)
      · exact .inr (.inr ⟨s, rfl, hclears, hclears.granted granted⟩)
    · refine .inl ⟨group_apart hreceipt hapart, fun r pane hr harms => ?_⟩
      have heq := List.mem_singleton.mp hr
      cases heq
      -- A transaction that arms the marker edits it.
      obtain ⟨a, now, claim, -, -, -, hrequest⟩ := harms
      have hedit : OptionEdit.set alert.key (Text.decimal now) ∈ s.request.edits := by
        rw [(update_request hrequest).2.2]
        exact List.mem_cons_self
      exact hapart _ hedit rfl
  | @refuse before after s queued refused =>
    refine .inl ⟨?_, hnone⟩
    have hsame : s.group world.pane = world.pane := if_neg (by rw [refused]; exact Bool.false_ne_true)
    simp only [hsame]
  | hint hinting => exact .inl ⟨hintGroup_marker hpoll, hnone⟩
  | readback reading =>
    refine .inl ⟨rfl, fun s pane hmem => ?_⟩
    cases List.mem_singleton.mp hmem
  | write pane kept => exact .inl ⟨hkept rfl rfl rfl, hnone⟩

/-- No transaction does both. -/
theorem Arms.not_clears {key : OptionKey} (h : Arms sender key s) : ¬ Clears sender key s := by
  intro h'
  obtain ⟨_, now, claim, -, -, -, hrequest⟩ := h
  obtain ⟨_, now', claim', -, -, -, hrequest'⟩ := h'
  have hedits := (update_request hrequest).2.2.symm.trans (update_request hrequest').2.2
  have hfirst := (List.cons.inj hedits).1
  cases hfirst

theorem Cleared.mono {key : OptionKey} {a b : List (CasEvent compare)} (h : Cleared sender key a) (hsub : ∀ e ∈ a, e ∈ b) :
    Cleared sender key b := by
  obtain ⟨r, q, hmem, hclears, hrearms⟩ := h
  exact ⟨r, q, hsub _ hmem, hclears, hrearms⟩

/-- Between two groups that set a marker is one that cleared it. -/
theorem cleared_between {pane : Pane} {shown : List (CasEvent compare)}
    (h : Trace (MarkedStep sender alert.key) (World.start compare pane) shown world)
    {pre mid post : List (CasEvent compare)} {s s' : Submission compare} {p p' : Pane}
    (hshown : shown = pre ++ .executed s p :: mid ++ .executed s' p' :: post) (harms : Arms sender alert.key s)
    (harms' : Arms sender alert.key s') : Cleared sender alert.key mid := by
  refine h.between Queued (Since sender alert.key)
    (fun x mid y => (∃ s p, x = .executed s p ∧ Arms sender alert.key s) → (∃ s p, y = .executed s p ∧ Arms sender alert.key s) →
      Cleared sender alert.key mid) ?_ ?_ ?_ ?_ ?_ ?_ hshown ⟨s, p, rfl, harms⟩ ⟨s', p', rfl, harms'⟩
  · exact fun _ _ _ hq hs => hq.step hs.step
  · intro w before x after w' hq hs hx
    obtain ⟨s, p, rfl, harms⟩ := hx
    rcases hs.marker hq with ⟨-, hnot⟩ | ⟨r, hout, -, -, hset⟩ | ⟨r, hout, hclears, -⟩
    · exact absurd harms (hnot s p (List.mem_append_right _ List.mem_cons_self))
    · exact .inr hset
    · have hmem : CasEvent.executed s p ∈ [CasEvent.executed r w.pane] := by
        rw [← hout]
        exact List.mem_append_right _ List.mem_cons_self
      cases List.mem_singleton.mp hmem
      exact absurd hclears harms.not_clears
  · intro w x mid out w' hq hsince hs hx
    rcases hsince hx with hcleared | hset
    · exact .inl (hcleared.mono fun e he => List.mem_append_left _ he)
    · rcases hs.marker hq with ⟨hsame, -⟩ | ⟨r, -, -, hempty, -⟩ | ⟨r, rfl, hclears, hrearms⟩
      · exact .inr (by rw [hsame]; exact hset)
      · exact absurd hempty hset
      · exact .inl ⟨r, w.pane, List.mem_append_right _ List.mem_cons_self, hclears, hrearms⟩
  · intro w before x mid y after w' hq hs hx hy
    have hlong : 1 < (before ++ x :: mid ++ y :: after).length := by
      simp only [List.length_append, List.length_cons]
      omega
    obtain ⟨s, p, rfl, harms⟩ := hx
    rcases hs.marker hq with ⟨-, hnot⟩ | ⟨r, hout, -⟩ | ⟨r, hout, -⟩
    · exact absurd harms (hnot s p (List.mem_append_left _ (List.mem_append_right _ List.mem_cons_self)))
    · rw [hout] at hlong
      exact absurd hlong (Nat.lt_irrefl 1)
    · rw [hout] at hlong
      exact absurd hlong (Nat.lt_irrefl 1)
  · intro w x mid before y after w' hq hsince hs hx hy
    obtain ⟨s, p, rfl, harms⟩ := hy
    rcases hs.marker hq with ⟨-, hnot⟩ | ⟨r, -, -, hempty, -⟩ | ⟨r, hout, hclears, -⟩
    · exact absurd harms (hnot s p (List.mem_append_right _ List.mem_cons_self))
    · rcases hsince hx with hcleared | hset
      · exact hcleared.mono fun e he => List.mem_append_left _ he
      · exact absurd hempty hset
    · have hmem : CasEvent.executed s p ∈ [CasEvent.executed r w.pane] := by
        rw [← hout]
        exact List.mem_append_right _ List.mem_cons_self
      cases List.mem_singleton.mp hmem
      exact absurd hclears harms.not_clears
  · intro s hs
    exact absurd hs List.not_mem_nil

/-- A run in which only the alert moves its marker is a run. -/
theorem plain {key : OptionKey} {pane : Pane} {shown : List (CasEvent compare)}
    (h : Trace (MarkedStep sender key) (World.start compare pane) shown world) :
    Trace World.Step (World.start compare pane) shown world := by
  induction h with
  | start => exact .start
  | next _ taken ih => exact .next ih taken.step

theorem mem_executions {shown : List (CasEvent compare)} (h : s ∈ executions shown) : ∃ pane, .executed s pane ∈ shown := by
  induction shown with
  | nil => cases h
  | cons event shown ih =>
    cases event with
    | executed r pane =>
      rcases List.mem_cons.mp h with rfl | h
      · exact ⟨pane, List.mem_cons_self⟩
      · obtain ⟨pane', hmem⟩ := ih h
        exact ⟨pane', List.mem_cons_of_mem _ hmem⟩
    | returned r result =>
      obtain ⟨pane', hmem⟩ := ih h
      exact ⟨pane', List.mem_cons_of_mem _ hmem⟩

/-- The alert rings for a transaction that set its marker and was told that it had. A muted pane's does not. -/
def Rings (sender : Senders compare) (key : OptionKey) (shown : List (CasEvent compare)) (s : Submission compare) : Prop :=
  Arms sender key s ∧ ∃ read, .returned s (.ok (.won read)) ∈ shown

/-- **Bells are apart.** In every interleaving of the processes that evaluate an alert by transactions, for as long as the
pane keeps its agent: a transaction rings once at the most; where it ran, its sender's own alert fired, by its own clock,
on the pane as it stood; and of two that ring, one ran first, and its marker was cleared before the other, by a process
whose own alert rearmed on the pane as it stood. -/
theorem bells_apart (alert : Alert) {pane : Pane} {shown : List (CasEvent compare)} {world : World compare}
    (h : Trace (MarkedStep sender alert.key) (World.start compare pane) shown world) :
    (returns shown).Nodup ∧
      (∀ s, Rings sender alert.key shown s → ∃ p, .executed s p ∈ shown) ∧
      (∀ s p, .executed s p ∈ shown → Arms sender alert.key s →
        ∃ (a : Alert) (now : Nat), sender s = some (a, now) ∧ a.key = alert.key ∧
          a.Fires (p.options.read paneOptionKeys) now) ∧
      ∀ s s', Rings sender alert.key shown s → Rings sender alert.key shown s' → s ≠ s' →
        ∃ pre first p mid last p' post, shown = pre ++ .executed first p :: mid ++ .executed last p' :: post ∧
          ((first = s ∧ last = s') ∨ (first = s' ∧ last = s)) ∧ Cleared sender alert.key mid := by
  have hplain := plain h
  have hstart : Ledger [] (World.start compare pane) :=
    ⟨List.Perm.refl _, List.nodup_singleton (pane.options.value ProgramOpt.receipt)⟩
  have hledger : Ledger shown world := hplain.history Ledger (fun _ _ _ _ hi hs => hi.step hs) hstart
  have hran : ∀ s, Rings sender alert.key shown s → ∃ p, .executed s p ∈ shown := by
    intro s hs
    obtain ⟨-, read, hread⟩ := hs
    obtain ⟨before, after, hsplit⟩ := List.append_of_mem hread
    have hlast := (receipt_cas hplain).2.1 before s read after hsplit
    obtain ⟨p, hp⟩ := mem_executions (List.mem_of_getLast? hlast)
    exact ⟨p, by rw [hsplit]; exact List.mem_append_left _ hp⟩
  refine ⟨?_, hran, ?_, ?_⟩
  · have hsent : world.sent.Nodup := (List.nodup_cons.mp hledger.fresh).2.of_map _
    have hall := hledger.places.nodup_iff.mpr hsent
    exact (List.nodup_append.mp (List.nodup_append.mp (List.nodup_append.mp hall).1).1).1
  · intro s p hmem harms
    have hfired : ∀ event ∈ shown, ∀ s p, event = .executed s p → Arms sender alert.key s →
        ∃ (a : Alert) (now : Nat), sender s = some (a, now) ∧ a.key = alert.key ∧
          a.Fires (p.options.read paneOptionKeys) now := by
      refine hplain.all_shown (fun _ => True) _ (fun _ _ _ _ _ => trivial) ?_ trivial
      intro w out w' _ hs event hevent s p heq harms
      rw [heq] at hevent
      cases hs with
      | execute queued granted =>
        cases List.mem_singleton.mp hevent
        exact (harms.granted granted).1
      | readback reading => cases List.mem_singleton.mp hevent
      | send => cases hevent
      | refuse => cases hevent
      | hint => cases hevent
      | write => cases hevent
    exact hfired _ hmem s p rfl harms
  · intro s s' hs hs' hne
    obtain ⟨p, hp⟩ := hran s hs
    obtain ⟨p', hp'⟩ := hran s' hs'
    have hdiffer : (CasEvent.executed s p : CasEvent compare) ≠ .executed s' p' := by
      intro heq
      cases heq
      exact hne rfl
    rcases Trace.exists_order hp hp' hdiffer with ⟨pre, mid, post, hshown⟩ | ⟨pre, mid, post, hshown⟩
    · exact ⟨pre, s, p, mid, s', p', post, hshown, .inl ⟨rfl, rfl⟩, cleared_between h hshown hs.1 hs'.1⟩
    · exact ⟨pre, s', p', mid, s, p, post, hshown, .inr ⟨rfl, rfl⟩, cleared_between h hshown hs'.1 hs.1⟩

/-! ### Two bells -/

/-- A pane that carries these options and no others. -/
def gauged (options : List (OptionKey × Text)) : Pane where
  options := fun key => (options.find? fun entry => entry.1 = key).map Prod.snd
  afterSetOption := []

def observed (pane : Pane) : PaneRead where
  options := pane.options.read paneOptionKeys
  optionHooks := false
  nonempty := pane.options.read_noEmpty paneOptionKeys

/-- What the context alert submits on a pane that it reads as it stands. -/
def contextRequest (pane : Pane) (armAt : Option Nat) (claim : Token) : Request where
  observed := observed pane
  ownership := .metadata (metadataOwner (observed pane))
  guard := .unconditional
  extra := Predicate.and
    (Predicate.conjunction
      (let checks := [Opt.contextNotifiedAt, Opt.contextPct, Opt.contextAt, ProgramOpt.metadataOwner].map
        fun field => Predicate.equal field ((observed pane).value field)
       if armAt.isSome then checks ++ [Predicate.equal Opt.contextNotifiedAt []] else checks))
    (projectionUnchanged (observed pane))
  edits := [armAt.elim (.unset Opt.contextNotifiedAt) fun at' => .set Opt.contextNotifiedAt (Text.decimal at'),
    .set ProgramOpt.markerClaim claim.text]
  hint := none

def contextWrite (pane : Pane) (armAt : Option Nat) (write : Token)
    (checked : validateEdits (contextRequest pane armAt write).edits = .ok ()) : Submission decimalComparison where
  request := contextRequest pane armAt write
  write
  predicate := Predicate.and Predicate.noHooks
    (Predicate.and (Predicate.equal ProgramOpt.metadataOwner
        (((metadataOwner (observed pane)).map MetadataOwner.encode).getD []))
      (Predicate.and (effectiveGuard decimalComparison .unconditional (.metadata (metadataOwner (observed pane))))
        (Predicate.and (contextRequest pane armAt write).extra
          (Predicate.equal ProgramOpt.receipt (contextRequest pane armAt write).receipt))))
  checked
  prepared := rfl

/-- The gauge shows another value. -/
def gauge (pane : Pane) (pct : String) : Pane :=
  { pane with options := applyEdits [.set Opt.contextPct pct.toList] pane.options }

/-- No transaction is under way. -/
def resting (pane : Pane) (first : Text) (sent : List (Submission compare)) : World compare :=
  { pane, first, sent, queued := [], hinting := [], reading := [] }

section

variable {key : OptionKey} {start : World compare} {shown : List (CasEvent compare)} {pane : Pane} {first : Text}
  {sent : List (Submission compare)}

/-- A transaction that meets no other. -/
theorem transact (h : Trace (MarkedStep sender key) start shown (resting pane first sent))
    (hkeys : ∀ r ∈ sent ++ [s], Evaluated sender key r)
    (fresh : s.write.text ∉ first :: sent.map fun submission => submission.write.text)
    (granted : s.predicate pane = true) :
    Trace (MarkedStep sender key) start
      (shown ++ [.executed s pane] ++ [.returned s (s.readback (s.hintGroup (s.group pane)))])
      (resting (s.hintGroup (s.group pane)) first (sent ++ [s])) := by
  have hlong : sent ++ [s] ≠ sent := fun heq => absurd (congrArg List.length heq) (by simp)
  have h1 : Trace (MarkedStep sender key) start shown { resting pane first (sent ++ [s]) with queued := [s] } := by
    have hstep : World.Step (resting pane first sent) [] { resting pane first (sent ++ [s]) with queued := [s] } :=
      .send s fresh
    have hrun := h.next ⟨hstep, hkeys, fun heq => absurd heq hlong⟩
    rwa [List.append_nil] at hrun
  have h2 := h1.next ⟨@World.Step.execute _ _ [] [] s rfl granted, hkeys, fun _ heq => absurd heq.symm (List.cons_ne_nil s [])⟩
  have h3 := h2.next ⟨@World.Step.hint _ _ [] [] s rfl, hkeys, fun _ _ heq => absurd heq.symm (List.cons_ne_nil s [])⟩
  have h4 := h3.next ⟨@World.Step.readback _ _ [] [] s rfl, hkeys, fun _ _ _ => rfl⟩
  rw [List.append_nil] at h4
  exact h4

/-- Another writer moves the gauge. -/
theorem regauge (h : Trace (MarkedStep sender key) start shown (resting pane first sent))
    (hkeys : ∀ r ∈ sent, Evaluated sender key r) (pct : String) (hkey : key ≠ Opt.contextPct) :
    Trace (MarkedStep sender key) start shown (resting (gauge pane pct) first sent) := by
  let edit : OptionEdit := .set Opt.contextPct pct.toList
  have hreceipt : ProgramOpt.receipt ≠ edit.key := (by decide : ProgramOpt.receipt ≠ Opt.contextPct)
  have hmarker : (gauge pane pct).options.value key = pane.options.value key :=
    OptionEdit.apply_other (show key ≠ edit.key from hkey) pane.options
  have hstep : World.Step (resting pane first sent) [] (resting (gauge pane pct) first sent) :=
    .write (gauge pane pct) (OptionEdit.apply_other hreceipt pane.options)
  have hrun := h.next ⟨hstep, hkeys, fun _ _ _ => hmarker⟩
  rwa [List.append_nil] at hrun

end

def fullPane : Pane := gauged [(Opt.contextPct, "85".toList), (Opt.contextAt, "1".toList)]

def firstBell : Submission decimalComparison :=
  contextWrite fullPane (some 10) ⟨"7123456789abcdef0123456789abcdef".toList, by decide⟩ rfl

def lowPane : Pane := gauge (firstBell.group fullPane) "50"

def clearing : Submission decimalComparison :=
  contextWrite lowPane none ⟨"1123456789abcdef0123456789abcdef".toList, by decide⟩ rfl

def refilledPane : Pane := gauge (clearing.group lowPane) "90"

def secondBell : Submission decimalComparison :=
  contextWrite refilledPane (some 20) ⟨"2123456789abcdef0123456789abcdef".toList, by decide⟩ rfl

/-- Two bells, and the gauge low between them. -/
def twoBells : List (CasEvent decimalComparison) :=
  [.executed firstBell fullPane, .returned firstBell (firstBell.readback (firstBell.group fullPane)),
    .executed clearing lowPane, .returned clearing (clearing.readback (clearing.group lowPane)),
    .executed secondBell refilledPane, .returned secondBell (secondBell.readback (secondBell.group refilledPane))]

/-- The processes that evaluate the gauge, at 10, 15 and 20. -/
def evaluators : Senders decimalComparison := fun s =>
  if s.write = firstBell.write then some (.contextHigh 80, 10)
  else if s.write = clearing.write then some (.contextHigh 80, 15)
  else if s.write = secondBell.write then some (.contextHigh 80, 20)
  else none

theorem bells_apart_two :
    Rings evaluators Opt.contextNotifiedAt twoBells firstBell ∧ Rings evaluators Opt.contextNotifiedAt twoBells secondBell ∧
      ∃ pre first p mid last p' post, twoBells = pre ++ .executed first p :: mid ++ .executed last p' :: post ∧
        ((first = firstBell ∧ last = secondBell) ∨ (first = secondBell ∧ last = firstBell)) ∧
        Cleared evaluators Opt.contextNotifiedAt mid := by
  have hsender : evaluators firstBell = some (.contextHigh 80, 10) ∧ evaluators clearing = some (.contextHigh 80, 15) ∧
      evaluators secondBell = some (.contextHigh 80, 20) := ⟨by decide, by decide, by decide⟩
  have hfires : Alert.context 80 (observed fullPane).options = .fire := by decide
  have hfires' : Alert.context 80 (observed refilledPane).options = .fire := by decide
  have hbell : Evaluated evaluators Opt.contextNotifiedAt firstBell :=
    .inl ⟨.contextHigh 80, 10, firstBell.write, hsender.1, rfl, rfl⟩
  have hclear : Evaluated evaluators Opt.contextNotifiedAt clearing :=
    .inl ⟨.contextHigh 80, 15, clearing.write, hsender.2.1, rfl, rfl⟩
  have hbell' : Evaluated evaluators Opt.contextNotifiedAt secondBell :=
    .inl ⟨.contextHigh 80, 20, secondBell.write, hsender.2.2, rfl, rfl⟩
  have hfirst : Rings evaluators Opt.contextNotifiedAt twoBells firstBell :=
    ⟨⟨.contextHigh 80, 10, _, hsender.1, rfl, hfires, rfl⟩, _, .tail _ (.head _)⟩
  have hsecond : Rings evaluators Opt.contextNotifiedAt twoBells secondBell :=
    ⟨⟨.contextHigh 80, 20, _, hsender.2.2, rfl, hfires', rfl⟩, _,
      .tail _ (.tail _ (.tail _ (.tail _ (.tail _ (.head _)))))⟩
  have hne : firstBell ≠ secondBell := fun heq =>
    absurd (congrArg (fun s => s.write.text) heq) (by decide)
  have hstart : Trace (MarkedStep evaluators Opt.contextNotifiedAt) (World.start decimalComparison fullPane) []
      (resting fullPane [] []) := .start
  have h1 := transact (s := firstBell) hstart (by simpa using hbell) (by decide) (by decide)
  have h2 := regauge h1 (by simpa using hbell) "50" (by decide)
  have h3 := transact (s := clearing) h2 (by simpa using ⟨hbell, hclear⟩) (by decide) (by decide)
  have h4 := regauge h3 (by simpa using ⟨hbell, hclear⟩) "90" (by decide)
  have h5 := transact (s := secondBell) h4 (by simpa using ⟨hbell, hclear, hbell'⟩) (by decide) (by decide)
  exact ⟨hfirst, hsecond, (bells_apart (.contextHigh 80) h5).2.2.2 firstBell secondBell hfirst hsecond hne⟩

end TmuxAgents.Notify
