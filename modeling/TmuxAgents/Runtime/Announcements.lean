/-
Announcing a result once. What a publication announces hangs on the store after
the pane's own markers were reconciled with it: a result the pane acknowledged
leaves nothing to show, since every store of a run is driven one episode at a
time (`Stored`) and presenting one result of an episode retires the others.

An acknowledged result that was presented before is only acknowledged, and may
uncover one that was reported since (`Uncovers`): that one is new, and announced.
-/
import TmuxAgents.Control.Boundary
import TmuxAgents.Persist.PublicationFacts
import TmuxAgents.Program.Aggregate
import TmuxAgents.Program.Presentation
import TmuxAgents.Runtime.Publication
import TmuxAgents.Runtime.Runs

namespace TmuxAgents

open Checked

/-! ## Selections of a store -/

namespace RecordStore

/-- Where nothing is active, what is selected is idle. -/
theorem select_idle {s : RecordStore} {live : LiveEpisode} {selection : ProgramSelection}
    (h : s.select live = some selection) (ha : s.hasActivity live = false) : selection.state = .idle := by
  simp only [select, Option.map_eq_some_iff] at h
  obtain ⟨entry, hentry, rfl⟩ := h
  obtain ⟨hmem, hel⟩ := selectEntry_mem hentry
  have hinactive : entry.record.status.isActive = false := by
    have hnone := List.any_eq_false.mp ha entry hmem
    simpa [hel] using hnone
  dsimp only [projectState]
  cases hs : entry.record.status with
  | idle | done | error => rfl
  | working _ | blocked _ _ =>
    rw [hs] at hinactive
    cases hinactive

/-- What a store selects as pending may be presented. -/
theorem presentable_select {s : RecordStore} {live : LiveEpisode} {selection : ProgramSelection} {r : ProgramResult}
    (h : s.select live = some selection) (hr : selection.result = some r) (hp : r.pending = true) :
    s.markPresented selection live = (true, { s with records := s.records.map (StoredRecord.present r) }) := by
  have hactive := (select_result h hr).1
  obtain ⟨e, -, -, -, howner, -⟩ := select_some h
  have heffect : selection.pendingResult = some r := by
    rw [ProgramSelection.pendingResult, hr]
    exact Option.filter_eq_some_iff.mpr ⟨rfl, hp⟩
  have hpresentable : s.presentable selection live = true := by
    simp [presentable, h, hactive, howner]
  simp only [markPresented, heffect, hpresentable, if_true]

/-- No call that presents makes anything active. -/
theorem hasActivity_presentation {s : RecordStore} (h : WF s) (op : StoreOp) (hp : op.isPresentation = true)
    (live : LiveEpisode) : (s.step op).hasActivity live = s.hasActivity live := by
  obtain ⟨g, hg, hs⟩ := presentation_eq h hp
  exact hasActivity_map (by rw [hs]) hg.toKeepsOwner live

/-- **A pending result acknowledged** leaves nothing to show. -/
theorem settled_reconcile {cur : Option LiveEpisode} {s : RecordStore} (h : OneEpisode cur s) {live : LiveEpisode}
    {selection : ProgramSelection} {r : ProgramResult} (hsel : s.select live = some selection)
    (hr : selection.result = some r) (hp : r.pending = true) :
    ∃ t, s.reconcileResult selection live .acknowledged = (true, t) ∧ Settled live t := by
  have hmark := presentable_select hsel hr hp
  obtain ⟨r', hr', hlive, hretired, e, he, ho, hid, hm⟩ :=
    retired_markPresented h (issued_of_select h.wf hsel) (by rw [hmark])
  obtain rfl : r = r' := Option.some.inj (hr.symm.trans hr')
  have hwf := h.wf.markPresented selection live
  have hack := acknowledge_presented hwf he ho hid hm
  refine ⟨_, ?_, settled_acknowledge hwf hlive hretired⟩
  rw [hmark] at hack ⊢
  simp only [reconcileResult, hmark, hr, Option.elim_some]
  exact hack

/-- **A presented result acknowledged** is not shown again. -/
theorem acknowledge_select {s : RecordStore} (h : WF s) {live : LiveEpisode} {selection : ProgramSelection}
    {r : ProgramResult} (hsel : s.select live = some selection) (hr : selection.result = some r)
    (hp : r.pending = false) : ∃ t, s.acknowledge r.identity = (true, t) ∧
      ∀ shown r', t.select live = some shown → shown.result = some r' → r'.identity ≠ r.identity := by
  obtain ⟨-, e, he, hel, -, -, m, hm, -, hident, -, hpend⟩ := select_result hsel hr
  obtain ⟨-, howner, -⟩ := eligible_iff.mp hel
  have hpresented : m.presented = true := by
    rw [hpend] at hp
    simpa using hp
  have hack : s.acknowledge r.identity = (true, { s with records := s.records.map (acknowledgeNamed r.identity) }) := by
    rw [hident]
    exact acknowledge_presented h he howner rfl ⟨m, hm, rfl, hpresented⟩
  have hspent := spent_acknowledge h (by rw [hack])
  have hwf := h.acknowledge r.identity
  refine ⟨_, hack, fun shown r' hshown hr' hsame => ?_⟩
  rw [hack] at hspent hwf
  obtain ⟨m', hacknowledged, hfresh, -⟩ := select_not_spent hwf hspent hshown hr' hsame
  rw [hacknowledged] at hfresh
  cases hfresh

end RecordStore

/-! ## Decisions -/

namespace ProgramRuntime

/-- What a decision shows of its pane. -/
structure Decides (r : ProgramRuntime) (decision : ProgramDecision) (entry : PaneProgram) (binding : Binding) :
    Prop where
  found : r.panes.get? decision.pane = some entry
  bound : entry.binding = some binding
  selected : entry.store.select binding.live = some decision.selection
  chain : decision.processChain = binding.identity.chain
  boundary : decision.boundary = binding.boundary

theorem decides_of_decision {r : ProgramRuntime} {pane : PaneId} {decision : ProgramDecision}
    (h : r.decision pane = some decision) : decision.pane = pane ∧ ∃ entry binding, Decides r decision entry binding := by
  simp only [ProgramRuntime.decision, Option.bind_eq_bind, Option.bind_eq_some_iff, Option.pure_def] at h
  obtain ⟨entry, hentry, -, -, binding, hbinding, selection, hselect, heq⟩ := h
  cases heq
  exact ⟨rfl, entry, binding, hentry, hbinding, hselect, rfl, rfl⟩

/-- A decision is published under the owner its results name. -/
theorem Decides.owner {r : ProgramRuntime} {decision : ProgramDecision} {entry : PaneProgram} {binding : Binding}
    (h : Decides r decision entry binding) : decision.selection.authority.owner = binding.owner := by
  obtain ⟨-, -, -, -, howner, -⟩ := RecordStore.select_some h.selected
  exact howner

/-- A pane's store replaced, and its decision read again. -/
theorem decides_insert {r : ProgramRuntime} {pane : PaneId} {entry : PaneProgram} {current : ProgramDecision}
    (h : ({ r with panes := r.panes.insert pane entry } : ProgramRuntime).decision pane = some current) :
    ∃ binding, entry.binding = some binding ∧ entry.store.select binding.live = some current.selection ∧
      current.pane = pane := by
  obtain ⟨rfl, found, binding, hdecides⟩ := decides_of_decision h
  have hfound := hdecides.found
  rw [SortedMap.get?_insert, if_pos rfl] at hfound
  obtain rfl : entry = found := Option.some.inj hfound
  exact ⟨binding, hdecides.bound, hdecides.selected, rfl⟩

section Decided

variable {r : ProgramRuntime} {decision : ProgramDecision} {entry : PaneProgram} {binding : Binding}
  (hdecides : Decides r decision entry binding) {result : ProgramResult}

include hdecides

theorem Decides.oneEpisode (hstored : r.Stored) : RecordStore.OneEpisode (some binding.live) entry.store := by
  have h := hstored decision.pane entry hdecides.found
  rw [hdecides.bound] at h
  exact h

variable (hresult : decision.selection.result = some result)

include hresult

/-- **The pending result of a decision, acknowledged**: nothing is left to show. -/
theorem reconcile_pending (hstored : r.Stored) (hp : result.pending = true) {reconciled : Bool} {r' : ProgramRuntime}
    (h : r.reconcileResult decision .acknowledged = some (reconciled, r')) :
    reconciled = true ∧ ∀ current, r'.decision decision.pane = some current →
      current.selection.result = none ∧ current.selection.state = .idle := by
  have hone := hdecides.oneEpisode hstored
  obtain ⟨t, ht, hsettled⟩ := RecordStore.settled_reconcile hone hdecides.selected hresult hp
  have hactive := (RecordStore.select_result hdecides.selected hresult).1
  have hkept := RecordStore.hasActivity_presentation hone.wf
    (.reconcileResult decision.selection binding.live .acknowledged) rfl binding.live
  rw [RecordStore.step, ht, hactive] at hkept
  have hmatch : ¬(decision.boundary ≠ binding.boundary ∨ decision.processChain ≠ binding.identity.chain) := by
    rw [hdecides.boundary, hdecides.chain]
    simp
  simp only [reconcileResult, recordPresentation, hdecides.found, hdecides.bound, if_neg hmatch, present, ht,
    Option.bind_eq_bind, Option.bind_eq_some_iff, Option.pure_def, Option.some.injEq, Prod.mk.injEq] at h
  obtain ⟨process, -, rfl, rfl⟩ := h
  refine ⟨rfl, fun current hcurrent => ?_⟩
  obtain ⟨b, hb, hselect, -⟩ := decides_insert hcurrent
  obtain rfl : binding = b := Option.some.inj hb
  exact ⟨hsettled.select hselect, RecordStore.select_idle hselect hkept⟩

/-- A result presented before is not presented again. -/
theorem reconcile_presented (hp : result.pending = false) (disposition : ResultDisposition) {reconciled : Bool}
    {r' : ProgramRuntime} (h : r.reconcileResult decision disposition = some (reconciled, r')) : reconciled = false := by
  have hnone : decision.selection.pendingResult = none := by
    rw [ProgramSelection.pendingResult, hresult]
    simp [hp]
  have hmark : entry.store.reconcileResult decision.selection binding.live disposition = (false, entry.store) := by
    simp only [RecordStore.reconcileResult, RecordStore.markPresented, hnone]
  simp only [reconcileResult, recordPresentation, hdecides.found, hdecides.bound, present, hmark] at h
  split at h
  · cases h
    rfl
  · cases h
    rfl

/-- **A presented result, acknowledged**: what is shown next is another. -/
theorem acknowledge_presented_decision (hstored : r.Stored) (hp : result.pending = false) {current : ProgramDecision}
    (h : (r.acknowledge decision.pane result.identity).2.decision decision.pane = some current) :
    (r.acknowledge decision.pane result.identity).1 = true ∧ current.selection.state = .idle ∧
      ∀ next, current.selection.result = some next → next.identity ≠ result.identity ∧
        next.identity.owner = binding.owner := by
  have hone := hdecides.oneEpisode hstored
  obtain ⟨t, ht, hother⟩ := RecordStore.acknowledge_select hone.wf hdecides.selected hresult hp
  have hactive := (RecordStore.select_result hdecides.selected hresult).1
  have hkept := RecordStore.hasActivity_presentation hone.wf (.acknowledge result.identity) rfl binding.live
  rw [RecordStore.step, ht, hactive] at hkept
  simp only [acknowledge, hdecides.found, ht] at h ⊢
  obtain ⟨b, hb, hselect, -⟩ := decides_insert h
  obtain rfl : binding = b := Option.some.inj (hdecides.bound.symm.trans hb)
  refine ⟨trivial, RecordStore.select_idle hselect hkept, fun next hnext => ⟨hother _ _ hselect hnext, ?_⟩⟩
  obtain ⟨-, shown, -, -, -, -, m, -, -, hident, -⟩ := RecordStore.select_result hselect hnext
  rw [hident]
  rfl

end Decided

end ProgramRuntime

/-! ## Plans -/

section Plan

variable {records : Option RecordStore} {observed : PaneRead} {owner : PaneOwner} {current : ProgramDecision}
  {recovered : Option RecoveredHistory} {target : String} {now : Nat}

/-- The result an acknowledgement was recovered for is announced by nothing. -/
theorem planPublication_quiet (hstate : current.selection.state ≠ .blocked)
    (hpending : current.selection.result.any ProgramResult.pending = false) {recovery : RecoveredHistory}
    (hrecovered : recovered = some recovery) (hrecovery : recovery.acknowledged = true) {persisted : PersistedResult}
    (hstored : observed.program.result = some persisted) (hacknowledged : observed.program.acknowledged = some persisted) :
    (planPublication records observed owner current recovered target now).attention = false ∧
      (planPublication records observed owner current recovered target now).turn = none := by
  subst hrecovered
  have hblocked : (current.selection.state == .blocked) = false := by simpa using hstate
  -- What is stored is what is acknowledged: the same result is an exact acknowledgement.
  simp only [planPublication, hblocked, hpending, hrecovery, hstored, hacknowledged, Bool.false_eq_true, if_false,
    Option.any_some, Bool.not_true, Bool.false_or, Bool.false_and, and_true]
  rw [← Bool.and_assoc, Bool.not_and_self, Bool.false_and]

/-- A new pending result is announced. -/
theorem planPublication_loud (hstate : current.selection.state ≠ .blocked) {result : ProgramResult}
    (hresult : current.selection.result = some result) (hpending : result.pending = true) {exact : PersistedResult}
    (hexact : PersistedResult.new owner result = some exact) (hstored : observed.program.result ≠ some exact)
    (hacknowledged : observed.program.acknowledged ≠ some exact) :
    (planPublication records observed owner current recovered target now).attention = true ∧
      ∃ turn, (planPublication records observed owner current recovered target now).turn = some turn ∧ now ≤ turn ∧
        ∀ stamp, readStamp (currentStamp observed.options now) = some stamp → saturatingAdd stamp.episodeAt 1 ≤ turn := by
  have hblocked : (current.selection.state == .blocked) = false := by simpa using hstate
  have hexactAck : (observed.program.acknowledged == some exact) = false := by simpa using hacknowledged
  have hsameResult : (observed.program.result == some exact) = false := by simpa using hstored
  simp only [planPublication, hblocked, hresult, Option.bind_some, hexact, Option.any_some, hpending, Bool.false_eq_true,
    if_false, Option.orElse_eq_orElse, Option.orElse_some, hexactAck, hsameResult, Bool.not_false, Bool.true_and,
    Bool.true_or, if_true, true_and]
  refine ⟨_, rfl, Nat.le_max_left .., fun stamp hstamp => ?_⟩
  rw [hstamp]
  exact Nat.le_max_right ..

end Plan

/-! ## The way to a publication -/

/-- How a decision becomes the one that is published: nothing persisted was matched with its
result, or what was matched is reconciled first. -/
inductive Route (r : ProgramRuntime) (decision : ProgramDecision) (observed : PaneRead) (owner : PaneOwner) :
    ProgramDecision → Option RecoveredHistory → Prop
  | fresh (h : ∀ result exact, decision.selection.result = some result → PersistedResult.new owner result = some exact →
      recoveredHistory observed decision owner exact = none) : Route r decision observed owner decision none
  | recovered {result : ProgramResult} {exact : PersistedResult} {recovery : RecoveredHistory} {reconciled : Bool}
    {r' : ProgramRuntime} {current : ProgramDecision} (hresult : decision.selection.result = some result)
    (hexact : PersistedResult.new owner result = some exact)
    (hrecovery : recoveredHistory observed decision owner exact = some recovery)
    (hreconcile : r.reconcileRecovered decision result recovery = some (reconciled, r'))
    (hcurrent : if reconciled then r'.decision decision.pane = some current else current = decision) :
    Route r decision observed owner current (some recovery)

namespace Fleet

/-- A recheck that passes finds the decision current, and changes nothing. -/
theorem recheck_ok {f f' : Fleet} {decision : ProgramDecision} {pane : ProgramPane} {manifests : Manifests}
    {snapshot : ProcessSnapshot} (h : f.recheck decision pane manifests snapshot = some (.ok (), f')) :
    f' = f ∧ f.runtime.decision decision.pane = some decision := by
  unfold recheck at h
  split at h
  · cases h
  rename_i hcurrent
  simp only at h
  split at h
  · cases h
    exact ⟨rfl, by simpa using hcurrent⟩
  · simp only [Option.bind_eq_bind, Option.bind_eq_some_iff, Option.pure_def, Option.some.injEq, Prod.mk.injEq] at h
    obtain ⟨_, -, _, -, _, -, herror, -⟩ := h
    cases herror

/-- What a submission carries: the plan of the current decision. -/
theorem submitCurrent_ok {f f' : Fleet} {input : PublishInput} {owner : PaneOwner} {current : ProgramDecision}
    {recovered : Option RecoveredHistory} {publication : Publication}
    (h : f.submitCurrent input owner current recovered = some (.ok publication, f')) :
    publication.current = current ∧ ∃ plan records target,
      plan = planPublication records input.observed owner current recovered target input.now ∧
      publication.request.edits = programEdits input.observed owner plan.publish plan.result plan.companions plan.history
        (some current.selection.recordId) input.fresh := by
  simp only [submitCurrent, Option.bind_eq_bind, Option.bind_eq_some_iff] at h
  obtain ⟨⟨checked, f₁⟩, -, h⟩ := h
  cases checked with
  | error error => cases h
  | ok _ =>
    simp only [Option.pure_def] at h
    split at h
    · cases h
    split at h
    · cases h
    · rename_i request hrequest
      cases h
      exact ⟨rfl, _, _, _, rfl, publishProgramWithHistory_ok hrequest⟩

/-- **What is published**: the plan of the decision the route leads to. -/
theorem publishChecked_ok {f f' : Fleet} {decision : ProgramDecision} {input : PublishInput} {publication : Publication}
    (h : f.publishChecked decision input = some (.ok publication, f')) :
    f.runtime.decision decision.pane = some decision ∧ ∃ owner recovered plan records target,
      decision.paneOwner input.collectorToken = some owner ∧
      Route f.runtime decision input.observed owner publication.current recovered ∧
      plan = planPublication records input.observed owner publication.current recovered target input.now ∧
      publication.request.edits = programEdits input.observed owner plan.publish plan.result plan.companions plan.history
        (some publication.current.selection.recordId) input.fresh := by
  simp only [publishChecked, Option.bind_eq_bind, Option.bind_eq_some_iff] at h
  obtain ⟨⟨checked, f₁⟩, hchecked, h⟩ := h
  cases checked with
  | error error => cases h
  | ok _ =>
    obtain ⟨rfl, hcurrent⟩ := recheck_ok hchecked
    refine ⟨hcurrent, ?_⟩
    simp only [Option.pure_def] at h
    split at h
    · cases h
    split at h
    · cases h
    rename_i owner howner
    split at h
    · rename_i hnone
      obtain ⟨rfl, plan, records, target, hplan, hedits⟩ := submitCurrent_ok h
      refine ⟨owner, none, plan, records, target, howner, .fresh fun result exact hr => ?_, hplan, hedits⟩
      rw [hnone] at hr
      cases hr
    rename_i result hresult
    split at h
    · cases h
    rename_i exact hexact
    split at h
    · rename_i hnone
      obtain ⟨rfl, plan, records, target, hplan, hedits⟩ := submitCurrent_ok h
      refine ⟨owner, none, plan, records, target, howner, .fresh fun result' exact' hr' he' => ?_, hplan, hedits⟩
      obtain rfl : result = result' := Option.some.inj (hresult.symm.trans hr')
      obtain rfl : exact = exact' := Option.some.inj (hexact.symm.trans he')
      exact hnone
    rename_i recovery hrecovery
    simp only [Option.bind_eq_some_iff] at h
    obtain ⟨⟨reconciled, runtime⟩, hreconcile, h⟩ := h
    dsimp only at h
    cases reconciled with
    | false =>
      obtain ⟨rfl, plan, records, target, hplan, hedits⟩ := submitCurrent_ok h
      exact ⟨owner, some recovery, plan, records, target, howner,
        .recovered hresult hexact hrecovery hreconcile rfl, hplan, hedits⟩
    | true =>
      rw [if_pos rfl] at h
      split at h
      · cases h
      rename_i current hnext
      obtain ⟨rfl, plan, records, target, hplan, hedits⟩ := submitCurrent_ok h
      exact ⟨owner, some recovery, plan, records, target, howner,
        .recovered hresult hexact hrecovery hreconcile hnext, hplan, hedits⟩

end Fleet

/-! ## Announcements -/

/-- The result a decision shows, as it is persisted. -/
def ProgramDecision.persistedResult (decision : ProgramDecision) (collector : Token) : Option PersistedResult :=
  (decision.paneOwner collector).bind fun owner => decision.selection.result.bind (PersistedResult.new owner)

/-- The pane stores this result, and nothing invalidated it. -/
def PaneRead.Stores (observed : PaneRead) (result : PersistedResult) : Prop :=
  observed.program.result = some result ∧ observed.program.invalidated ≠ some result

/-- The same record of the same processes came to the same end. -/
def PersistedResult.SameWork (stored exact : PersistedResult) : Prop :=
  stored.owner.processes = exact.owner.processes ∧ stored.identity.record = exact.identity.record ∧
    stored.kind = exact.kind

/-- The pane ends without the flag, and no turn marker is set. -/
def Quiet (edits : List OptionEdit) : Prop :=
  lastEdit edits Opt.attention = some (.unset Opt.attention) ∧ ∀ edit ∈ edits, edit.key = Opt.turnAt → edit.value = none

/-- The pane ends with the flag, and a turn marker of now at the earliest, beyond the episode of
the stamp that is current now; only a `u64` leaves nothing beyond its largest. -/
def Announces (observed : PaneRead) (now : Nat) (edits : List OptionEdit) : Prop :=
  lastEdit edits Opt.attention = some (.set Opt.attention ['1']) ∧
    ∃ turn, lastEdit edits Opt.turnAt = some (.set Opt.turnAt (Text.decimal turn)) ∧ now ≤ turn ∧
      ∀ stamp, readStamp (currentStamp observed.options now) = some stamp →
        stamp.episodeAt ≤ turn ∧ (stamp.episodeAt ≠ u64Max → stamp.episodeAt < turn)

/-- The pane's store, once it acknowledges this result, selects one that is still pending. -/
def ProgramRuntime.Uncovers (r : ProgramRuntime) (pane : PaneId) (identity : ResultIdentity) : Prop :=
  ∃ current, (r.acknowledge pane identity).2.decision pane = some current ∧
    ∃ next ∈ current.selection.result, next.pending = true

/-- **What an acknowledged recovery leads to**: an idle decision, with a pending result only where
the acknowledgement uncovers one, which is another. -/
theorem route_acknowledged {r r' : ProgramRuntime} (hstored : r.Stored) {decision current : ProgramDecision}
    {entry : PaneProgram} {binding : Binding} (hdecides : ProgramRuntime.Decides r decision entry binding) {result : ProgramResult}
    (hresult : decision.selection.result = some result) {recovery : RecoveredHistory}
    (hacknowledged : recovery.acknowledged = true) {reconciled : Bool}
    (hreconcile : r.reconcileRecovered decision result recovery = some (reconciled, r'))
    (hcurrent : if reconciled then r'.decision decision.pane = some current else current = decision) :
    current.selection.state = .idle ∧
      (current.selection.result.any ProgramResult.pending = true ↔
        recovery.exactMatch = true ∧ result.pending = false ∧ r.Uncovers decision.pane result.identity) ∧
      ∀ next, current.selection.result = some next → next.pending = true →
        next.identity ≠ result.identity ∧ next.identity.owner = binding.owner := by
  have hidle := RecordStore.select_idle hdecides.selected (RecordStore.select_result hdecides.selected hresult).1
  simp only [ProgramRuntime.reconcileRecovered, hacknowledged, Bool.and_true, if_true] at hreconcile
  cases hp : result.pending with
  | true =>
    simp only [hp, Bool.not_true, Bool.and_false, Bool.false_eq_true, if_false] at hreconcile
    obtain ⟨rfl, hnext⟩ := ProgramRuntime.reconcile_pending hdecides hresult hstored hp hreconcile
    obtain ⟨hnone, hstate⟩ := hnext current hcurrent
    exact ⟨hstate, by simp [hnone], fun next hn => by simp [hnone] at hn⟩
  | false =>
    simp only [hp, Bool.not_false, Bool.and_true] at hreconcile
    -- The decision itself shows nothing pending.
    have hsame : current = decision → (∀ h : recovery.exactMatch = true, ¬r.Uncovers decision.pane result.identity) →
        current.selection.state = .idle ∧
          (current.selection.result.any ProgramResult.pending = true ↔
            recovery.exactMatch = true ∧ false = false ∧ r.Uncovers decision.pane result.identity) ∧
          ∀ next, current.selection.result = some next → next.pending = true →
            next.identity ≠ result.identity ∧ next.identity.owner = binding.owner := by
      intro heq hnot
      rw [heq, hresult]
      refine ⟨hidle, by simpa [hp] using hnot, fun next hn hpending => ?_⟩
      rw [Option.some.inj hn] at hp
      rw [hp] at hpending
      cases hpending
    cases hexact : recovery.exactMatch with
    | false =>
      rw [hexact] at hreconcile hsame
      have hfalse := ProgramRuntime.reconcile_presented hdecides hresult hp .acknowledged hreconcile
      rw [hfalse] at hcurrent
      exact hsame hcurrent fun h => (by cases h)
    | true =>
      rw [hexact] at hreconcile hsame
      simp only [if_true, Option.some.injEq] at hreconcile
      cases reconciled with
      | false =>
        refine hsame hcurrent fun _ huncovers => ?_
        obtain ⟨shown, hshown, -⟩ := huncovers
        have htrue := (ProgramRuntime.acknowledge_presented_decision hdecides hresult hstored hp hshown).1
        rw [hreconcile] at htrue
        cases htrue
      | true =>
        rw [if_pos rfl] at hcurrent
        have hshown : (r.acknowledge decision.pane result.identity).2.decision decision.pane = some current := by
          rw [hreconcile]
          exact hcurrent
        obtain ⟨-, hstate, hnext⟩ := ProgramRuntime.acknowledge_presented_decision hdecides hresult hstored hp hshown
        refine ⟨hstate, ?_, fun next hn _ => hnext next hn⟩
        rw [Option.any_eq_true]
        constructor
        · intro hpending
          exact ⟨rfl, rfl, current, hshown, hpending⟩
        · intro huncovers
          obtain ⟨-, -, shown, hshown', hpending⟩ := huncovers
          obtain rfl : current = shown := Option.some.inj (hshown.symm.trans hshown')
          exact hpending

theorem PersistedResult.new_some {owner : PaneOwner} {result : ProgramResult} {exact : PersistedResult}
    (h : PersistedResult.new owner result = some exact) : exact.owner = owner ∧ exact.identity = result.identity := by
  unfold PersistedResult.new at h
  split at h
  · cases h
    exact ⟨rfl, rfl⟩
  · cases h

section Recovery

variable {observed : PaneRead} {decision : ProgramDecision} {owner : PaneOwner} {exact stored : PersistedResult}
  (howner : exact.owner = owner)

include howner

/-- An acknowledged result of the same work is recovered as acknowledged. -/
theorem recoveredHistory_acknowledged (hstores : observed.Stores stored)
    (hacknowledged : observed.program.acknowledged = some stored) (hsame : stored.SameWork exact)
    (hcontinues : decision.selection.recoveryReset = false ∧ decision.observedWorkCycle = false ∨ stored = exact) :
    ∃ recovery, recoveredHistory observed decision owner exact = some recovery ∧ recovery.acknowledged = true ∧
      (recovery.exactMatch = true ↔ stored = exact) := by
  obtain ⟨hstored, hvalid⟩ := hstores
  obtain ⟨hprocesses, hrecord, hkind⟩ := hsame
  rw [howner] at hprocesses
  have hexactMatch : (some stored == some exact && observed.program.invalidated != some exact) = true ↔ stored = exact := by
    rw [Bool.and_eq_true, beq_iff_eq, Option.some.injEq, bne_iff_ne]
    exact ⟨fun h => h.1, fun h => ⟨h, h ▸ hvalid⟩⟩
  simp only [recoveredHistory, hstored, hacknowledged, Option.any_some, beq_self_eq_true, Bool.true_or, Bool.and_true]
  rw [if_pos ?_]
  · exact ⟨_, rfl, rfl, hexactMatch⟩
  rcases hcontinues with ⟨hreset, hcycle⟩ | heq
  · simp [hvalid, hprocesses, hrecord, hkind, hreset, hcycle]
  · rw [Bool.or_eq_true]
    exact .inl (hexactMatch.mpr heq)

/-- A result the pane does not store, of no stored work that goes on, is not recovered. -/
theorem recoveredHistory_none (hstored : observed.program.result ≠ some exact)
    (hfresh : (∀ stored, observed.Stores stored → ¬stored.SameWork exact) ∨ decision.selection.recoveryReset = true ∨
      decision.observedWorkCycle = true) : recoveredHistory observed decision owner exact = none := by
  unfold recoveredHistory
  refine if_neg fun h => ?_
  rw [Bool.or_eq_true] at h
  rcases h with h | h
  · simp only [Bool.and_eq_true, beq_iff_eq] at h
    exact hstored h.1
  · rw [Option.any_eq_true] at h
    obtain ⟨stored, hmem, h⟩ := h
    simp only [Bool.and_eq_true, beq_iff_eq, bne_iff_ne, Bool.not_eq_true'] at h
    obtain ⟨⟨⟨⟨⟨⟨hvalid, hprocesses⟩, hrecord⟩, hkind⟩, hreset⟩, hcycle⟩, -⟩ := h
    rcases hfresh with hfresh | hfresh | hfresh
    · exact hfresh stored ⟨hmem, hvalid⟩ ⟨hprocesses.trans (congrArg PaneOwner.processes howner.symm), hrecord, hkind⟩
    · rw [hreset] at hfresh
      cases hfresh
    · rw [hcycle] at hfresh
      cases hfresh

end Recovery

section Edits

variable {records : Option RecordStore} {observed : PaneRead} {owner : PaneOwner} {current : ProgramDecision}
  {recovered : Option RecoveredHistory} {target : String} {now : Nat} {plan : PublicationPlan}
  (hplan : plan = planPublication records observed owner current recovered target now)
  (hstate : current.selection.state ≠ .blocked) {record : Option RecordId} {fresh : FreshTokens}

include hplan hstate

theorem quiet_edits (hpending : current.selection.result.any ProgramResult.pending = false) {recovery : RecoveredHistory}
    (hrecovered : recovered = some recovery) (hrecovery : recovery.acknowledged = true) {persisted : PersistedResult}
    (hstored : observed.program.result = some persisted) (hacknowledged : observed.program.acknowledged = some persisted) :
    Quiet (programEdits observed owner plan.publish plan.result plan.companions plan.history record fresh) := by
  have hquiet : plan.attention = false ∧ plan.turn = none := by
    rw [hplan]
    exact planPublication_quiet hstate hpending hrecovered hrecovery hstored hacknowledged
  have hpublish : plan.publish.state ≠ .blocked := by
    rw [hplan]
    exact hstate
  have hcompanions : plan.companions = [.unset Opt.attention] := by
    rw [PublicationPlan.companions, hquiet.1, hquiet.2]
    rfl
  rw [hcompanions]
  refine ⟨?_, fun edit he hk => ?_⟩
  · rw [lastEdit_attention rfl (by simp) hpublish, ite_self]
  · rcases turnAt_edits rfl (by simp) hpublish he hk with hmem | rfl
    · cases hmem
    · rfl

theorem announces_edits {result : ProgramResult} (hresult : current.selection.result = some result)
    (hpending : result.pending = true) {exact : PersistedResult} (hexact : PersistedResult.new owner result = some exact)
    (hstored : observed.program.result ≠ some exact) (hacknowledged : observed.program.acknowledged ≠ some exact) :
    Announces observed now
      (programEdits observed owner plan.publish plan.result plan.companions plan.history record fresh) := by
  have hloud : plan.attention = true ∧ ∃ turn, plan.turn = some turn ∧ now ≤ turn ∧
      ∀ stamp, readStamp (currentStamp observed.options now) = some stamp → saturatingAdd stamp.episodeAt 1 ≤ turn := by
    rw [hplan]
    exact planPublication_loud hstate hresult hpending hexact hstored hacknowledged
  obtain ⟨hattention, turn, hturn, hnow, hbeyond⟩ := hloud
  have hpublish : plan.publish.state ≠ .blocked := by
    rw [hplan]
    exact hstate
  have hplanned : plan.result = some exact := by
    rw [hplan]
    simp only [planPublication, hresult, Option.bind_some, hexact]
    rfl
  have hcompanions : plan.companions = [.set Opt.attention ['1'], .set Opt.turnAt (Text.decimal turn)] := by
    rw [PublicationPlan.companions, hattention, hturn]
    rfl
  rw [hcompanions]
  refine ⟨?_, turn, lastEdit_turnAt rfl (by simp) hpublish rfl, hnow, fun stamp hstamp => ?_⟩
  · rw [lastEdit_attention rfl (by simp) hpublish, hplanned]
    simp [hacknowledged]
  · obtain ⟨read, hread, rfl⟩ := currentStamp_some hstamp
    have hle := fromOptions_episodeAt_le hread
    have hnext := hbeyond _ hstamp
    unfold saturatingAdd at hnext
    omega

end Edits

/-! ## A sample pane -/

def samplePane : ProgramPane :=
  { pane := 1, panePid := 10, currentCommand := "agent", title := "", ignored := false, registration := none }

def sampleProcess : ProcessIdentity := { pid := 10, birth := .linuxStartTicks 7 }

def sampleProcesses : ProcessSnapshot :=
  { processes := [{ pid := 10, ppid := 1, pgid := 10, tpgid := none, comm := "agent" }]
    births := SortedMap.empty.insert 10 (.ok sampleProcess.birth) }

/-- The root of every pane is the sample agent. -/
def sampleManifests : Manifests :=
  { programOutOfScope := fun _ => none
    identify := fun _ _ _ => some { manifest := "agent", apps := [sampleApp], agentPid := 10, behind := none } }

def sampleBatch : FleetOp :=
  .call (.processBatch
    { panes := [samplePane], manifests := sampleManifests, before := .ok sampleProcesses, after := .ok sampleProcesses
      at_ := 5, inPayload := fun _ _ _ => false })

/-- The agent is bound, and the scanner is after its synchronisation. -/
def sampleBound : List FleetOp :=
  [.control Collector.sampleAttach, sampleBatch, .control (Collector.sampleBytes [0x78])]

/-- The agent reports, and its report is applied. -/
def sampleReported (report : String) : List FleetOp :=
  [.control (Collector.sampleBytes (esc :: bracket :: framePrefix ++ Text.bytes report.toList ++ [bel])), sampleBatch]

def sampleDecision (selection : ProgramSelection) : ProgramDecision :=
  { pane := 1, manifest := "agent", processChain := [sampleProcess]
    boundary := { connection := 2, sequenceFloor := 1 }, selection, previousPresentation := none
    observedWorkCycle := false }

/-- The root is done. -/
def sampleDone : ProgramDecision := sampleDecision { sampleSelection 1 1 0 with at_ := 5 }

def sampleRecord : RecordId := ⟨[0x61], by decide⟩

/-- Record `a` failed. -/
def sampleFailure (pending : Bool) : ProgramSelection :=
  { sampleSelection 1 1 0 with
    recordId := sampleRecord, at_ := 5, protocolState := .error, detail := some ⟨"error"⟩
    result := some { identity := ⟨1, sampleRecord, 1⟩, kind := .failure, cycle := 0, pending } }

/-- Record `a` failed, and the failure was presented. -/
def samplePresented : ProgramDecision :=
  { sampleDecision (sampleFailure false) with
    previousPresentation := some { process := sampleProcess, selection := sampleFailure true, acknowledged := false } }

def sampleDoneRun : List FleetOp := sampleBound ++ sampleReported "state=done:app=a"

/-- Record `b` is done once the failure of `a` was presented. -/
def samplePresentedRun : List FleetOp :=
  sampleBound ++ sampleReported "state=error:app=a:id=a" ++
    .call (.request (.markPresented (sampleDecision (sampleFailure true)))) :: sampleReported "state=done:app=a:id=b"

def sampleToken : Token := ⟨List.replicate 32 '0', by decide⟩

def sampleOwner (agent : ProcessIdentity) (h : chainOk [agent] = true) : PaneOwner :=
  { collector := sampleToken, episode := 1, processes := ⟨[agent], h⟩, streamEpoch := 2 }

def sampleStored (record : RecordId) (kind : ResultKind) : PersistedResult :=
  { owner := sampleOwner sampleProcess (by decide), identity := ⟨1, record, 1⟩, cycle := 0, kind }

/-- A pane with these options. -/
def sampleRead (edits : List OptionEdit) : PaneRead :=
  { options := (applyEdits edits fun _ => none).read paneOptionKeys, optionHooks := false
    nonempty := Options.read_noEmpty _ _ }

/-- A pane that acknowledged the result it stores. -/
def sampleAcknowledged (stored : PersistedResult) (edits : List OptionEdit) : PaneRead :=
  sampleRead (.set ProgramOpt.result stored.encode :: .set ProgramOpt.ack stored.encode :: edits)

def sampleInput (observed : PaneRead) : PublishInput :=
  { pane := samplePane, manifests := sampleManifests, processes := sampleProcesses, collectorToken := sampleToken
    session := 0, observed, completed := (true, true), now := 9, submittedAt := 9
    fresh := { episode := sampleToken, legacy := sampleToken, blocked := sampleToken, claim := sampleToken
               commit := sampleToken } }

/-- The edits of a decision published after a run. -/
def publishAfter [Base64] (ops : List FleetOp) (decision : ProgramDecision) (input : PublishInput) :
    Option (List OptionEdit) := do
  let f ← (Fleet.withEpoch 0).run ops
  let (published, _) ← f.publishChecked decision input
  published.toOption.map fun publication => publication.request.edits

theorem publishAfter_any [Base64] {ops : List FleetOp} {decision : ProgramDecision} {input : PublishInput}
    {p : List OptionEdit → Bool} (h : (publishAfter ops decision input).any p = true) :
    ∃ f f' publication, Moves (.withEpoch 0) f ∧ f.publishChecked decision input = some (.ok publication, f') ∧
      p publication.request.edits = true := by
  obtain ⟨edits, hedits, hp⟩ := Option.any_eq_true _ _ |>.mp h
  simp only [publishAfter, Option.bind_eq_bind, Option.bind_eq_some_iff, Option.map_eq_some_iff] at hedits
  obtain ⟨f, hrun, ⟨published, f'⟩, hpublished, publication, hok, rfl⟩ := hedits
  refine ⟨f, f', publication, (Fleet.run_moves (ready_withEpoch 0) ops).of_eq hrun, ?_, hp⟩
  cases published with
  | ok _ =>
    cases hok
    exact hpublished
  | error _ => cases hok

/-- The pane acknowledged the result it stores, and it is the decision's. -/
def ProgramDecision.AcknowledgedOn (decision : ProgramDecision) (observed : PaneRead) : Prop :=
  ∃ stored, decision.persistedResult sampleToken = some stored ∧ observed.Stores stored ∧
    observed.program.acknowledged = some stored

/-! ## Once -/

/-- **A result is announced once.** Of a decision of any run, what is published is this. Where the
pane acknowledged the result it stores, and it is the decision's (the same work with no reset
and no new cycle since, or exactly it), the pane ends quiet, unless acknowledging a result that
was presented before uncovers another; that one is then announced. A pending result the pane
neither stores nor acknowledged is announced, where it is not the work of a stored one or that
work began anew. -/
theorem announced_once {epoch : Nat} {f f' : Fleet} (hreached : Moves (.withEpoch epoch) f) {decision : ProgramDecision}
    {input : PublishInput} {publication : Publication} (h : f.publishChecked decision input = some (.ok publication, f'))
    {result : ProgramResult} (hresult : decision.selection.result = some result) {exact : PersistedResult}
    (hexact : decision.persistedResult input.collectorToken = some exact) :
    (∀ stored, input.observed.Stores stored → input.observed.program.acknowledged = some stored →
      stored.SameWork exact →
      (decision.selection.recoveryReset = false ∧ decision.observedWorkCycle = false ∨ stored = exact) →
      (¬(stored = exact ∧ result.pending = false ∧ f.runtime.Uncovers decision.pane result.identity) →
        Quiet publication.request.edits) ∧
      (stored = exact → result.pending = false → f.runtime.Uncovers decision.pane result.identity →
        (∃ next ∈ publication.current.selection.result, next.pending = true ∧ next.identity ≠ result.identity) ∧
          Announces input.observed input.now publication.request.edits)) ∧
    (result.pending = true → input.observed.program.result ≠ some exact →
      input.observed.program.acknowledged ≠ some exact →
      ((∀ stored, input.observed.Stores stored → ¬stored.SameWork exact) ∨ decision.selection.recoveryReset = true ∨
        decision.observedWorkCycle = true) →
      Announces input.observed input.now publication.request.edits) := by
  have hstoredAll : f.runtime.Stored := hreached.stored (stored_withEpoch epoch)
  obtain ⟨hcurrent, owner, recovered, plan, records, target, howner, hroute, hplan, hedits⟩ :=
    Fleet.publishChecked_ok h
  obtain ⟨-, entry, binding, hdecides⟩ := ProgramRuntime.decides_of_decision hcurrent
  have hidle := RecordStore.select_idle hdecides.selected (RecordStore.select_result hdecides.selected hresult).1
  have hnew : PersistedResult.new owner result = some exact := by
    rw [ProgramDecision.persistedResult, howner, Option.bind_some, hresult, Option.bind_some] at hexact
    exact hexact
  have howned := (PersistedResult.new_some hnew).1
  rw [hedits]
  refine ⟨fun stored hstores hacknowledged hsame hcontinues => ?_, fun hpending hstored hacknowledged hfresh => ?_⟩
  · obtain ⟨recovery, hrecovery, hacked, hexactMatch⟩ :=
      recoveredHistory_acknowledged howned hstores hacknowledged hsame hcontinues
    cases hroute with
    | fresh hnone =>
      rw [hnone result exact hresult hnew] at hrecovery
      cases hrecovery
    | @recovered result' exact' recovery' reconciled r' _ hresult' hexact' hrecovery' hreconcile hnext =>
      obtain rfl : result = result' := Option.some.inj (hresult.symm.trans hresult')
      obtain rfl : exact = exact' := Option.some.inj (hnew.symm.trans hexact')
      obtain rfl : recovery = recovery' := Option.some.inj (hrecovery.symm.trans hrecovery')
      obtain ⟨hstate, huncovers, hnext⟩ :=
        route_acknowledged hstoredAll hdecides hresult hacked hreconcile hnext
      have hblocked : publication.current.selection.state ≠ .blocked := by
        rw [hstate]
        decide
      rw [hexactMatch] at huncovers
      refine ⟨fun hquiet => ?_, fun heq hp hu => ?_⟩
      · have hpending : publication.current.selection.result.any ProgramResult.pending = false := by
          simpa using fun h => hquiet (huncovers.mp h)
        exact quiet_edits hplan hblocked hpending rfl hacked hstores.1 hacknowledged
      · have hany := huncovers.mpr ⟨heq, hp, hu⟩
        rw [Option.any_eq_true] at hany
        obtain ⟨next, hshown, hpending⟩ := hany
        obtain ⟨hne, hlive⟩ := hnext next hshown hpending
        refine ⟨⟨next, hshown, hpending, hne⟩, ?_⟩
        have hepisode : owner.episode = next.identity.owner := by
          rw [hlive, ← hdecides.owner]
          obtain ⟨processes, -, rfl⟩ := Option.map_eq_some_iff.mp howner
          rfl
        have hother : ∀ persisted, persisted = stored → some persisted ≠
            some { owner, identity := next.identity, cycle := next.cycle, kind := next.kind } := by
          intro persisted hp h
          rw [hp, heq, Option.some.injEq] at h
          have hidentity := congrArg PersistedResult.identity h
          rw [(PersistedResult.new_some hnew).2] at hidentity
          exact hne hidentity.symm
        refine announces_edits hplan hblocked hshown hpending (if_pos hepisode) ?_ ?_
        · rw [hstores.1]
          exact hother stored rfl
        · rw [hacknowledged]
          exact hother stored rfl
  · have hnone := recoveredHistory_none howned hstored hfresh
    cases hroute with
    | fresh _ => exact announces_edits hplan (by rw [hidle]; decide) hresult hpending hnew hstored hacknowledged
    | recovered hresult' hexact' hrecovery' _ _ =>
      obtain rfl := Option.some.inj (hresult.symm.trans hresult')
      obtain rfl := Option.some.inj (hnew.symm.trans hexact')
      rw [hnone] at hrecovery'
      cases hrecovery'

set_option maxRecDepth 100000 in
/-- The root is done: it is announced on a bare pane, and not where it is acknowledged. -/
theorem announced_once_sample :
    (∃ f f' publication, Moves (.withEpoch 0) f ∧
      f.publishChecked sampleDone (sampleInput (sampleRead [])) = some (.ok publication, f') ∧
      Announces (sampleRead []) 9 publication.request.edits) ∧
    ∃ f f' publication, Moves (.withEpoch 0) f ∧
      f.publishChecked sampleDone (sampleInput (sampleAcknowledged (sampleStored .root .completion) [])) =
        some (.ok publication, f') ∧ Quiet publication.request.edits := by
  have hexact : sampleDone.persistedResult sampleToken = some (sampleStored .root .completion) := by decide
  constructor
  · have h : (@publishAfter noBase64 sampleDoneRun sampleDone (sampleInput (sampleRead []))).any (fun _ => true) = true := by
      decide +kernel
    obtain ⟨f, f', publication, hreached, hpublished, -⟩ := @publishAfter_any noBase64 _ _ _ _ h
    have hnone : (sampleRead []).program.result = none ∧ (sampleRead []).program.acknowledged = none := by decide
    refine ⟨f, f', publication, hreached, hpublished, (announced_once hreached hpublished rfl hexact).2 rfl ?_ ?_ (.inl ?_)⟩
    · exact fun h => by cases hnone.1.symm.trans h
    · exact fun h => by cases hnone.2.symm.trans h
    · exact fun _ h => by cases hnone.1.symm.trans h.1
  · have h : (@publishAfter noBase64 sampleDoneRun sampleDone
        (sampleInput (sampleAcknowledged (sampleStored .root .completion) []))).any (fun _ => true) = true := by
      decide +kernel
    obtain ⟨f, f', publication, hreached, hpublished, -⟩ := @publishAfter_any noBase64 _ _ _ _ h
    have hstores : (sampleAcknowledged (sampleStored .root .completion) []).Stores (sampleStored .root .completion) :=
      ⟨by decide +kernel, by decide +kernel⟩
    exact ⟨f, f', publication, hreached, hpublished,
      ((announced_once hreached hpublished rfl hexact).1 _ hstores (by decide +kernel) ⟨rfl, rfl, rfl⟩ (.inr rfl)).1
        fun h => (by cases h.2.1)⟩

set_option maxRecDepth 100000 in
/-- A failure that was presented is acknowledged, and a completion reported since is announced; a
result is acknowledged on a pane of other processes, whose turn marker is cleared; and a fresh
result is announced where the current stamp is of the last instant there is, which no turn
marker is beyond. -/
theorem not_announced_once :
    (∃ f f' publication, Moves (.withEpoch 0) f ∧
      f.publishChecked samplePresented (sampleInput (sampleAcknowledged (sampleStored sampleRecord .failure) [])) =
        some (.ok publication, f') ∧
      samplePresented.AcknowledgedOn (sampleAcknowledged (sampleStored sampleRecord .failure) []) ∧
      lastEdit publication.request.edits Opt.attention = some (.set Opt.attention ['1']) ∧
      .set Opt.turnAt ['9'] ∈ publication.request.edits) ∧
    (∃ f f' publication observed, Moves (.withEpoch 0) f ∧
      f.publishChecked sampleDone (sampleInput observed) = some (.ok publication, f') ∧
      sampleDone.AcknowledgedOn observed ∧ .unset Opt.turnAt ∈ publication.request.edits) ∧
    ∃ f f' publication observed stamp, Moves (.withEpoch 0) f ∧
      f.publishChecked sampleDone (sampleInput observed) = some (.ok publication, f') ∧
      sampleDone.selection.result.any ProgramResult.pending = true ∧ observed.program.result = none ∧
      observed.program.acknowledged = none ∧ readStamp (currentStamp observed.options 9) = some stamp ∧
      lastEdit publication.request.edits Opt.turnAt = some (.set Opt.turnAt (Text.decimal stamp.episodeAt)) := by
  refine ⟨?_, ?_, ?_⟩
  · have h : (@publishAfter noBase64 samplePresentedRun samplePresented
        (sampleInput (sampleAcknowledged (sampleStored sampleRecord .failure) []))).any (fun edits =>
          decide (lastEdit edits Opt.attention = some (.set Opt.attention ['1']) ∧ .set Opt.turnAt ['9'] ∈ edits)) = true := by
      decide +kernel
    obtain ⟨f, f', publication, hreached, hpublished, hedits⟩ := @publishAfter_any noBase64 _ _ _ _ h
    exact ⟨f, f', publication, hreached, hpublished, ⟨_, rfl, ⟨by decide +kernel, by decide +kernel⟩, by decide +kernel⟩,
      of_decide_eq_true hedits⟩
  · let observed := sampleAcknowledged (sampleStored .root .completion)
      [.set ProgramOpt.owner (sampleOwner { pid := 11, birth := .linuxStartTicks 8 } (by decide)).encode]
    have h : (@publishAfter noBase64 sampleDoneRun sampleDone (sampleInput observed)).any (fun edits =>
        decide (.unset Opt.turnAt ∈ edits)) = true := by
      decide +kernel
    obtain ⟨f, f', publication, hreached, hpublished, hedits⟩ := @publishAfter_any noBase64 _ _ _ _ h
    exact ⟨f, f', publication, observed, hreached, hpublished,
      ⟨_, rfl, ⟨by decide +kernel, by decide +kernel⟩, by decide +kernel⟩, of_decide_eq_true hedits⟩
  · let observed := sampleRead [.set Opt.state "idle".toList, .set Opt.since (Text.decimal u64Max)]
    have h : (@publishAfter noBase64 sampleDoneRun sampleDone (sampleInput observed)).any (fun edits =>
        (readStamp (currentStamp observed.options 9)).any fun stamp =>
          decide (lastEdit edits Opt.turnAt = some (.set Opt.turnAt (Text.decimal stamp.episodeAt)))) = true := by
      decide +kernel
    obtain ⟨f, f', publication, hreached, hpublished, hedits⟩ := @publishAfter_any noBase64 _ _ _ _ h
    obtain ⟨stamp, hstamp, hturn⟩ := Option.any_eq_true _ _ |>.mp hedits
    exact ⟨f, f', publication, observed, stamp, hreached, hpublished, rfl, by decide +kernel, by decide +kernel, hstamp,
      of_decide_eq_true hturn⟩

end TmuxAgents
