/-
Transactions from any clients on one pane, in any interleaving.

Every group that runs expects the receipt its request was built from and writes
one that is new, so the executed groups are the swaps of a register
(`World.Sound.chain`), whatever the other writers do to the other options.
-/
import TmuxAgents.Lib.Swap
import TmuxAgents.Lib.Trace
import TmuxAgents.Persist.Transaction

namespace TmuxAgents

variable {compare : Comparison}

/-! ## Groups -/

@[simp] theorem applyEdits_append (edits later : List OptionEdit) (options : Options) :
    applyEdits (edits ++ later) options = applyEdits later (applyEdits edits options) := by
  simp only [applyEdits, List.foldl_append]

@[simp] theorem OptionEdit.apply_set_self (key : OptionKey) (value : Text) (options : Options) :
    ((OptionEdit.set key value).apply options).value key = value := by
  simp [OptionEdit.apply, OptionEdit.set, Options.value]

theorem OptionEdit.apply_other {edit : OptionEdit} {key : OptionKey} (h : key ≠ edit.key) (options : Options) :
    (edit.apply options).value key = options.value key := by
  simp [OptionEdit.apply, Options.value, h]

namespace Submission

/-- What an executed group found. -/
theorem granted {submission : Submission compare} {pane : Pane} (h : submission.predicate pane = true) :
    (∃ owned, ownershipPredicate submission.request.ownership submission.request.observed = .ok owned ∧
      owned pane = true) ∧ pane.options.value ProgramOpt.receipt = submission.request.receipt := by
  have hp := submission.prepared
  simp only [Request.predicate] at hp
  cases ho : ownershipPredicate submission.request.ownership submission.request.observed with
  | error e =>
    rw [ho] at hp
    cases hp
  | ok owned =>
    rw [ho] at hp
    injection hp with hp
    rw [← hp] at h
    simp only [Predicate.and, Predicate.equal, Bool.and_eq_true, decide_eq_true_eq] at h
    exact ⟨⟨owned, rfl, h.2.1⟩, h.2.2.2.2⟩

/-- An executed group leaves its own receipt. -/
theorem group_receipt {submission : Submission compare} {pane : Pane} (h : submission.predicate pane = true) :
    (submission.group pane).options.value ProgramOpt.receipt = submission.write.text := by
  simp only [group, conditionalGroup, h, if_true, body, applyEdits_append]
  exact OptionEdit.apply_set_self _ _ _

/-- The poll hint leaves the receipt alone. -/
theorem hintGroup_receipt (submission : Submission compare) (pane : Pane) :
    (submission.hintGroup pane).options.value ProgramOpt.receipt = pane.options.value ProgramOpt.receipt := by
  simp only [hintGroup]
  split
  · rfl
  · simp only [conditionalGroup]
    split
    · exact OptionEdit.apply_other (show ProgramOpt.receipt ≠ Opt.lastPoll by decide) _
    · rfl

theorem receipt_read (submission : Submission compare) :
    ProgramOpt.receipt ∈ paneOptionKeys ++ submission.request.edits.map OptionEdit.key :=
  List.mem_append_left _ (by decide)

/-- A win is reported on the submission's own receipt. -/
theorem readback_won {submission : Submission compare} {pane : Pane} {read : PaneRead}
    (h : submission.readback pane = .ok (.won read)) :
    pane.options.value ProgramOpt.receipt = submission.write.text := by
  simp only [readback, readPaneWith] at h
  split at h
  · cases h
  · rename_i persisted hread
    split at hread
    · cases hread
    · injection hread with hread
      split at h
      · cases h
      · split at h
        · rename_i hwon
          rw [← hwon.1, ← hread]
          exact (Options.value_read submission.receipt_read).symm
        · cases h

/-- A fallback group runs only where nothing compared has changed since its read, which was not live. -/
theorem granted_fallback {submission : Submission compare} {pane : Pane} {now : Nat}
    (h : submission.predicate pane = true) (hf : submission.request.ownership = .fallback now) :
    projectionUnchanged submission.request.observed pane = true ∧ submission.request.observed.isLive now = false := by
  obtain ⟨⟨owned, hown, howned⟩, -⟩ := granted h
  rw [hf] at hown
  simp only [ownershipPredicate, Except.ok.injEq] at hown
  subst hown
  cases hlive : submission.request.observed.isLive now with
  | true =>
    rw [hlive] at howned
    cases howned
  | false =>
    rw [hlive] at howned
    exact ⟨howned, rfl⟩

end Submission

/-! ## Runs -/

/-- The pane, and the transactions by how far they are. -/
structure World (compare : Comparison) where
  pane : Pane
  /-- The receipt the pane carried at first. -/
  first : Text
  /-- Every transaction so far. -/
  sent : List (Submission compare)
  /-- Those whose group the server has not evaluated. -/
  queued : List (Submission compare)
  /-- Those whose group it has, but not their hint. -/
  hinting : List (Submission compare)
  /-- Those whose client has not read back. -/
  reading : List (Submission compare)

def World.start (compare : Comparison) (pane : Pane) : World compare :=
  { pane, first := pane.options.value ProgramOpt.receipt, sent := [], queued := [], hinting := [], reading := [] }

/-- The receipts the pane carried at first or was ever to carry. -/
def World.receipts (world : World compare) : List Text :=
  world.first :: world.sent.map fun submission => submission.write.text

inductive CasEvent (compare : Comparison)
  /-- The group ran, on the pane as it stood. -/
  | executed (submission : Submission compare) (pane : Pane)
  | returned (submission : Submission compare) (result : Except PersistenceError CommitOutcome)

/-- A client whose commands or readback fail takes no further step. -/
inductive World.Step (world : World compare) : List (CasEvent compare) → World compare → Prop
  | send (submission : Submission compare) (fresh : submission.write.text ∉ world.receipts) :
    Step world []
      { world with sent := world.sent ++ [submission], queued := world.queued ++ [submission] }
  | execute {before after : List (Submission compare)} {submission : Submission compare}
    (queued : world.queued = before ++ submission :: after) (granted : submission.predicate world.pane = true) :
    Step world [.executed submission world.pane]
      { world with
        pane := submission.group world.pane
        queued := before ++ after
        hinting := world.hinting ++ [submission] }
  | refuse {before after : List (Submission compare)} {submission : Submission compare}
    (queued : world.queued = before ++ submission :: after) (refused : submission.predicate world.pane = false) :
    Step world []
      { world with
        pane := submission.group world.pane
        queued := before ++ after
        hinting := world.hinting ++ [submission] }
  | hint {before after : List (Submission compare)} {submission : Submission compare}
    (hinting : world.hinting = before ++ submission :: after) :
    Step world []
      { world with
        pane := submission.hintGroup world.pane
        hinting := before ++ after
        reading := world.reading ++ [submission] }
  | readback {before after : List (Submission compare)} {submission : Submission compare}
    (reading : world.reading = before ++ submission :: after) :
    Step world [.returned submission (submission.readback world.pane)] { world with reading := before ++ after }
  /-- Any other writer: a lease renewal, a hook, a plugin. It leaves the receipt. -/
  | write (pane : Pane)
    (kept : pane.options.value ProgramOpt.receipt = world.pane.options.value ProgramOpt.receipt) :
    Step world [] { world with pane }

/-- The transactions that executed, in order. -/
def executions : List (CasEvent compare) → List (Submission compare)
  | [] => []
  | .executed submission _ :: shown => submission :: executions shown
  | .returned _ _ :: shown => executions shown

theorem executions_append (shown out : List (CasEvent compare)) :
    executions (shown ++ out) = executions shown ++ executions out := by
  induction shown with
  | nil => rfl
  | cons event shown ih =>
    cases event with
    | executed submission pane => simp only [List.cons_append, executions, ih]
    | returned submission result => simp only [List.cons_append, executions, ih]

/-! ## The invariant -/

/-- What holds of a world after what was shown. -/
structure World.Sound (shown : List (CasEvent compare)) (world : World compare) : Prop where
  /-- The executed groups are the swaps of the receipt. -/
  chain : Swaps (fun s : Submission compare => s.request.receipt) (fun s => s.write.text) world.first
    (executions shown) (world.pane.options.value ProgramOpt.receipt)
  fresh : world.receipts.Nodup
  /-- No group runs twice. -/
  once : ((executions shown ++ world.queued).map fun s => s.write.text).Nodup
  known : ∀ s ∈ executions shown ++ world.queued ++ world.hinting ++ world.reading, s ∈ world.sent
  /-- A win is reported where the last executed group is the caller's. -/
  wins : ∀ before s read after, shown = before ++ .returned s (.ok (.won read)) :: after →
    (executions before).getLast? = some s

namespace World.Sound

variable {shown : List (CasEvent compare)} {world : World compare}

theorem start (pane : Pane) : (World.start compare pane).Sound [] where
  chain := Swaps.start
  fresh := by simp [World.receipts, World.start]
  once := by simp [executions, World.start]
  known := by simp [executions, World.start]
  wins := by simp

/-- No receipt is written twice, the first included. -/
theorem written_nodup (h : world.Sound shown) :
    (world.first :: (executions shown).map fun s => s.write.text).Nodup := by
  refine List.nodup_cons.mpr ⟨fun hmem => ?_, ?_⟩
  · obtain ⟨s, hs, hw⟩ := List.mem_map.mp hmem
    have hsent := h.known s (by simp [hs])
    exact (List.nodup_cons.mp h.fresh).1 (List.mem_map.mpr ⟨s, hsent, hw⟩)
  · have ho := h.once
    rw [List.map_append] at ho
    exact (List.nodup_append.mp ho).1

/-- A receipt names its transaction. -/
theorem unique (h : world.Sound shown) {s t : Submission compare} (hs : s ∈ world.sent) (ht : t ∈ world.sent)
    (hw : s.write.text = t.write.text) : s = t :=
  List.inj_on_of_nodup_map (List.nodup_cons.mp h.fresh).2 hs ht hw

/-- A transaction whose receipt the pane carries was the last to execute. -/
theorem carried (h : world.Sound shown) {s : Submission compare} (hs : s ∈ world.sent)
    (hr : world.pane.options.value ProgramOpt.receipt = s.write.text) : (executions shown).getLast? = some s := by
  have hne : world.pane.options.value ProgramOpt.receipt ≠ world.first := by
    intro heq
    refine (List.nodup_cons.mp h.fresh).1 (List.mem_map.mpr ⟨s, hs, ?_⟩)
    rw [← hr, heq]
  obtain ⟨last, hlast, hw⟩ := h.chain.last hne
  have hmem : last ∈ world.sent := h.known last (by simp [List.mem_of_getLast? hlast])
  rw [hlast, h.unique hmem hs (hw.trans hr)]

/-- A win newly reported extends what the reported wins say. -/
theorem wins_append {out : List (CasEvent compare)} (h : world.Sound shown)
    (hnew : ∀ before s read after, out = before ++ .returned s (.ok (.won read)) :: after →
      (executions (shown ++ before)).getLast? = some s) :
    ∀ before s read after, shown ++ out = before ++ .returned s (.ok (.won read)) :: after →
      (executions before).getLast? = some s := by
  intro before s read after heq
  rcases Trace.split_at heq with ⟨mid, hshown, -⟩ | ⟨b, rfl, hout⟩
  · exact h.wins before s read mid hshown
  · exact hnew b s read after hout

/-- A step that shows nothing adds nothing to what was shown. -/
theorem silent {world' : World compare} (h : world.Sound shown)
    (hchain : Swaps (fun s : Submission compare => s.request.receipt) (fun s => s.write.text) world'.first
      (executions shown) (world'.pane.options.value ProgramOpt.receipt))
    (hfresh : world'.receipts.Nodup)
    (honce : ((executions shown ++ world'.queued).map fun s => s.write.text).Nodup)
    (hknown : ∀ s ∈ executions shown ++ world'.queued ++ world'.hinting ++ world'.reading, s ∈ world'.sent) :
    world'.Sound (shown ++ []) where
  chain := by rwa [List.append_nil]
  fresh := hfresh
  once := by rwa [List.append_nil]
  known := by rwa [List.append_nil]
  wins := by
    rw [List.append_nil]
    exact h.wins

theorem step {out : List (CasEvent compare)} {world' : World compare} (h : world.Sound shown)
    (hs : world.Step out world') : world'.Sound (shown ++ out) := by
  cases hs with
  | send submission fresh =>
    have hnew : ∀ s ∈ executions shown ++ world.queued, s.write.text ≠ submission.write.text := by
      intro s hs heq
      have hsent := h.known s (by simp only [List.mem_append] at hs ⊢; exact .inl (.inl hs))
      exact fresh (List.mem_cons_of_mem _ (List.mem_map.mpr ⟨s, hsent, heq⟩))
    refine h.silent h.chain ?_ ?_ ?_
    · simp only [World.receipts, List.map_append, List.map_cons, List.map_nil, ← List.cons_append]
      refine List.nodup_append.mpr ⟨h.fresh, by simp, ?_⟩
      intro a ha b hb heq
      rw [List.mem_singleton.mp hb] at heq
      exact fresh (heq ▸ ha)
    · rw [← List.append_assoc, List.map_append]
      refine List.nodup_append.mpr ⟨h.once, by simp, ?_⟩
      intro a ha b hb heq
      obtain ⟨s, hs, hw⟩ := List.mem_map.mp ha
      rw [List.map_singleton, List.mem_singleton] at hb
      exact hnew s hs (hw.trans (heq.trans hb))
    · intro s hs
      have hk := h.known s
      simp only [List.mem_append, List.mem_singleton] at hs hk ⊢
      rcases hs with ((hs | hs | hs) | hs) | hs
      · exact .inl (hk (.inl (.inl (.inl hs))))
      · exact .inl (hk (.inl (.inl (.inr hs))))
      · exact .inr hs
      · exact .inl (hk (.inl (.inr hs)))
      · exact .inl (hk (.inr hs))
  | @execute before after submission queued granted =>
    have hex : executions (shown ++ [.executed submission world.pane]) = executions shown ++ [submission] := by
      rw [executions_append]
      rfl
    refine ⟨?_, h.fresh, ?_, ?_, ?_⟩
    · rw [hex, Submission.group_receipt granted]
      exact h.chain.next (Submission.granted granted).2.symm
    · -- the group moves from the queue to the executed ones
      have ho := h.once
      rw [queued] at ho
      rw [hex, List.append_assoc]
      refine (List.Perm.nodup_iff ?_).mp ho
      exact (List.Perm.append_left _ List.perm_middle).map _
    · rw [hex]
      intro s hs
      refine h.known s ?_
      rw [queued]
      simp only [List.mem_append, List.mem_cons] at hs ⊢
      tauto
    · refine h.wins_append ?_
      intro b s read a hout
      rw [List.cons_eq_append_iff] at hout
      rcases hout with ⟨-, hout⟩ | ⟨b', -, hout⟩
      · cases hout
      · simp at hout
  | @refuse before after submission queued refused =>
    have hpane : submission.group world.pane = world.pane := by
      simp only [Submission.group, conditionalGroup, refused, Bool.false_eq_true, if_false]
    refine h.silent (by rw [hpane]; exact h.chain) h.fresh ?_ ?_
    · have ho := h.once
      rw [queued] at ho
      refine ho.sublist (List.Sublist.map _ (List.Sublist.append_left ?_ _))
      exact List.Sublist.append_left (List.sublist_cons_self _ _) _
    · intro s hs
      refine h.known s ?_
      rw [queued]
      simp only [List.mem_append, List.mem_cons] at hs ⊢
      tauto
  | @hint before after submission hinting =>
    refine h.silent ?_ h.fresh h.once ?_
    · rw [Submission.hintGroup_receipt]
      exact h.chain
    · intro s hs
      refine h.known s ?_
      rw [hinting]
      simp only [List.mem_append, List.mem_cons] at hs ⊢
      tauto
  | @readback before after submission reading =>
    have hex : executions (shown ++ [.returned submission (submission.readback world.pane)]) = executions shown := by
      rw [executions_append]
      exact List.append_nil _
    refine ⟨by rw [hex]; exact h.chain, h.fresh, by rw [hex]; exact h.once, ?_, ?_⟩
    · rw [hex]
      intro s hs
      refine h.known s ?_
      rw [reading]
      simp only [List.mem_append, List.mem_cons] at hs ⊢
      tauto
    · refine h.wins_append ?_
      intro b s read a hout
      rcases List.cons_eq_append_iff.mp hout with ⟨rfl, heq⟩ | ⟨b', -, hout⟩
      · injection heq with heq
        injection heq with hsub hres
        subst hsub
        rw [List.append_nil]
        refine h.carried (h.known s ?_) (Submission.readback_won hres.symm)
        rw [reading]
        simp
      · simp at hout
  | write pane kept =>
    refine h.silent ?_ h.fresh h.once h.known
    rw [kept]
    exact h.chain

end World.Sound

/-- A fallback write ran where nothing its read was judged by had changed. -/
def KeptClassification : CasEvent compare → Prop
  | .executed submission pane => ∀ now, submission.request.ownership = .fallback now →
      pane.options.Agree projectionKeys submission.request.observed.options ∧
        submission.request.observed.isLive now = false ∧
        ∀ clock, projectionKind (pane.options.read paneOptionKeys) clock =
          projectionKind submission.request.observed.options clock
  | .returned _ _ => True

theorem World.Step.kept {world world' : World compare} {out : List (CasEvent compare)} (hs : world.Step out world') :
    ∀ event ∈ out, KeptClassification event := by
  cases hs with
  | @execute before after submission queued granted =>
    intro event he
    rw [List.mem_singleton.mp he]
    intro now hf
    obtain ⟨hsame, hlive⟩ := Submission.granted_fallback granted hf
    exact ⟨projectionUnchanged_iff.mp hsame, hlive, fun clock => projectionUnchanged_kind hsame clock⟩
  | readback reading =>
    intro event he
    rw [List.mem_singleton.mp he]
    trivial
  | send => intro event he; cases he
  | refuse => intro event he; cases he
  | hint => intro event he; cases he
  | write => intro event he; cases he

/-- **Receipt compare-and-swap.** In every interleaving of transactions on one pane, with
any other writes between them: of those built from reads with one receipt at most one runs;
a win is returned only to the transaction that ran last; and a fallback write runs only
where the compared options are as its read saw them, not live at its clock, so that the
pane reads as it did then at every clock. -/
theorem receipt_cas {pane : Pane} {shown : List (CasEvent compare)} {world : World compare}
    (h : Trace World.Step (World.start compare pane) shown world) :
    (∀ receipt, ((executions shown).filter fun s => s.request.receipt = receipt).length ≤ 1) ∧
      (∀ before s read after, shown = before ++ .returned s (.ok (.won read)) :: after →
        (executions before).getLast? = some s) ∧
      ∀ event ∈ shown, KeptClassification event := by
  have hsound : world.Sound shown :=
    h.history (fun shown world => world.Sound shown) (fun _ _ _ _ hi hs => hi.step hs) (World.Sound.start pane)
  refine ⟨fun receipt => ?_, hsound.wins, ?_⟩
  · exact (hsound.chain.expected_nodup hsound.written_nodup).filter_map_le_one receipt
  · exact h.all_shown (fun _ => True) KeptClassification (fun _ _ _ _ _ => trivial) (fun _ _ _ _ hs => hs.kept) trivial

/-! ### Two writers -/

/-- A pane that carries nothing. -/
def freshPane : Pane := { options := fun _ => none, afterSetOption := [] }

/-- tmux's comparisons, on the texts of numbers. -/
def decimalComparison : Comparison where
  le n text := decide (n ≤ (Text.parseUnsigned (2 ^ 64) text).getD 0)
  lt n text := decide (n < (Text.parseUnsigned (2 ^ 64) text).getD 0)

def firstRequest : Request where
  observed := { options := fun _ => none, optionHooks := false, nonempty := by intro key h; cases h }
  ownership := .fallback 5
  guard := .unconditional
  extra := Predicate.always
  edits := [.set Opt.state "idle".toList]
  hint := some 5

/-- A writer that has read the fresh pane. -/
def freshWrite (write : Token) : Submission decimalComparison where
  request := firstRequest
  write
  predicate := Predicate.and Predicate.noHooks (Predicate.and (projectionUnchanged firstRequest.observed)
    (Predicate.and (effectiveGuard decimalComparison .unconditional (.fallback 5))
      (Predicate.and Predicate.always (Predicate.equal ProgramOpt.receipt firstRequest.receipt))))
  checked := by decide
  prepared := rfl

def firstWrite : Submission decimalComparison := freshWrite ⟨"0123456789abcdef0123456789abcdef".toList, by decide⟩

/-- Another, from the same read. -/
def rivalWrite : Submission decimalComparison := freshWrite ⟨"fedcba9876543210fedcba9876543210".toList, by decide⟩

/-- Both groups and both hints have run; neither writer has read back. -/
def bothRun : World decimalComparison where
  pane := rivalWrite.hintGroup (firstWrite.hintGroup (rivalWrite.group (firstWrite.group freshPane)))
  first := freshPane.options.value ProgramOpt.receipt
  sent := [firstWrite, rivalWrite]
  queued := []
  hinting := []
  reading := [firstWrite, rivalWrite]

/-- The server evaluates both groups; the second finds the receipt of the first. -/
theorem bothRun_reached : Trace World.Step (World.start decimalComparison freshPane) [.executed firstWrite freshPane] bothRun := by
  have hsends : Trace World.Step (World.start decimalComparison freshPane) [] _ :=
    .next (.next .start (World.Step.send firstWrite (by decide))) (World.Step.send rivalWrite (by decide))
  have hgroups : Trace World.Step (World.start decimalComparison freshPane) [.executed firstWrite freshPane] _ :=
    .next (.next hsends (@World.Step.execute _ _ [] [rivalWrite] _ rfl (by decide)))
      (@World.Step.refuse _ _ [] [] _ rfl (by decide))
  exact .next (.next hgroups (@World.Step.hint _ _ [] [rivalWrite] _ rfl)) (@World.Step.hint _ _ [] [] _ rfl)

theorem receipt_cas_first :
    (∃ read, firstWrite.readback bothRun.pane = .ok (.won read)) ∧
      (∃ read, rivalWrite.readback bothRun.pane = .ok (.lost read)) ∧
      ((executions [.executed firstWrite freshPane, .returned rivalWrite (rivalWrite.readback bothRun.pane),
        .returned firstWrite (firstWrite.readback bothRun.pane)]).filter fun s => s.request.receipt = []).length ≤ 1 := by
  have hrun : Trace World.Step (World.start decimalComparison freshPane)
      [.executed firstWrite freshPane, .returned rivalWrite (rivalWrite.readback bothRun.pane),
        .returned firstWrite (firstWrite.readback bothRun.pane)] _ :=
    .next (.next bothRun_reached (@World.Step.readback _ _ [firstWrite] [] _ rfl)) (@World.Step.readback _ _ [] [] _ rfl)
  exact ⟨⟨_, rfl⟩, ⟨_, rfl⟩, (receipt_cas hrun).1 []⟩

end TmuxAgents
