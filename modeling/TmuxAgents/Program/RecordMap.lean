/-
The record list is a map from ids to their last reports.

`RecordMap` says what the list is for: the last report of each record, of which
at most `MAX_RECORDS` are kept. A report of a new record costs a full map its
least recently replaced one; a `Clear` drops the ids that start with its
segments. `ListsMap` ties a store to the map, `listsMap_step` keeps them tied.

The list finds ancestors on raw strings (`RecordId::contains`). On ids, which
are nonempty segments between slashes, that is the order of segment lists
(`contains_iff_segments`).
-/
import TmuxAgents.Lib.Codec
import TmuxAgents.Lib.Recency
import TmuxAgents.Program.ProjectFacts

namespace TmuxAgents

/-! ## Segments -/

namespace RecordId

/-- The path an id names. The root's is empty. -/
def segments (id : RecordId) : List Bytes := if id.isRoot then [] else id.str.splitOn slash

theorem segments_of_ne {id : RecordId} (h : id.str ≠ []) : id.segments = id.str.splitOn slash :=
  if_neg (by simpa [isRoot] using h)

/-- **Containment is decided on raw strings**, and means that the segments start the other's. -/
theorem contains_iff_segments {a b : RecordId} : a.contains b = true ↔ a.segments <+: b.segments := by
  by_cases ha : a.str = []
  · have hroot : a.segments = [] := if_pos (by simp [isRoot, ha])
    rw [hroot]
    exact iff_of_true (contains_iff.mpr (.inl ha)) List.nil_prefix
  constructor
  · intro h
    rcases contains_iff.mp h with h | rfl | ⟨tail, htail⟩
    · exact absurd h ha
    · exact List.prefix_refl _
    · have hb : b.str ≠ [] := by simp [htail]
      rw [segments_of_ne ha, segments_of_ne hb, htail, List.splitOn_append_cons_self]
      exact List.prefix_append _ _
  · rintro ⟨rest, hrest⟩
    have hb : b.str ≠ [] := by
      intro hb
      have hroot : b.segments = [] := if_pos (by simp [isRoot, hb])
      rw [hroot, List.append_eq_nil_iff, segments_of_ne ha] at hrest
      exact List.splitOn_ne_nil _ _ hrest.1
    rw [segments_of_ne ha, segments_of_ne hb] at hrest
    have hstr : b.str = [slash].intercalate (a.str.splitOn slash ++ rest) := by
      rw [hrest, List.intercalate_splitOn]
    rw [contains_iff]
    cases rest with
    | nil =>
      rw [List.append_nil, List.intercalate_splitOn] at hstr
      exact .inr (.inl (RecordId.ext hstr.symm))
    | cons segment rest =>
      refine .inr (.inr ⟨[slash].intercalate (segment :: rest), ?_⟩)
      rw [hstr, Codec.intercalate_append (List.splitOn_ne_nil _ _) (List.cons_ne_nil _ _), List.intercalate_splitOn]

end RecordId

/-! ## Reports -/

/-- What a `Replace` left: the record byte for byte, its ordinal and its time. -/
structure Report where
  record : Record
  updated : Nat
  at_ : Nat
deriving DecidableEq

abbrev Report.id (report : Report) : RecordId := report.record.id

def StoredRecord.report (entry : StoredRecord) : Report := ⟨entry.record, entry.updated, entry.at_⟩

/-- The record a call replaces. -/
def StoreOp.replaces : StoreOp → Option RecordId
  | .apply (.replace record) _ _ => some record.id
  | _ => none

namespace RecordStore

def contents (s : RecordStore) : List Report := s.records.map StoredRecord.report

/-- The record list as a bounded list of reports. -/
abbrev Ordered (s : RecordStore) : Prop := Recency.Ordered Report.id Report.updated maxRecords s.contents

theorem mem_contents {s : RecordStore} {report : Report} :
    report ∈ s.contents ↔ ∃ entry ∈ s.records, entry.report = report := List.mem_map

theorem contents_map {l : List StoredRecord} {f : StoredRecord → StoredRecord} (h : ∀ e, (f e).report = e.report) :
    (l.map f).map StoredRecord.report = l.map StoredRecord.report := by
  rw [List.map_map]
  exact List.map_congr_left fun e _ => h e

theorem contents_filter (l : List StoredRecord) (p : Report → Bool) :
    (l.filter fun e => p e.report).map StoredRecord.report = (l.map StoredRecord.report).filter p :=
  (List.filter_map ..).symm

theorem contents_settle (s : RecordStore) (live : LiveEpisode) (wasActive : Bool) (reported : Reported) :
    (s.settle live wasActive reported).contents = s.contents := by
  have hreconciled : (s.reconcileOwnership live).contents = s.contents := contents_map fun _ => rfl
  rw [← hreconciled]
  exact contents_map fun _ => rfl

theorem contents_apply {s : RecordStore} {command : ProgramCommand} (h : command ≠ .query) (at_ : Nat)
    (episode : Option LiveEpisode) :
    (s.apply command at_ episode).contents = (s.unsettled command at_ episode).1.contents := by
  cases episode with
  | none => rw [apply_none]
  | some live => rw [apply_some h, contents_settle]

/-- Room is made at the head of the list. -/
theorem contents_evictOldest {s : RecordStore} (h : s.contents.Pairwise fun a b => a.updated < b.updated) :
    s.evictOldest.contents = if s.contents.length = maxRecords then s.contents.tail else s.contents := by
  have hlength : s.contents.length = s.records.length := List.length_map _
  rw [hlength]
  unfold evictOldest
  by_cases hfull : s.records.length = maxRecords
  · rw [if_pos hfull, if_pos hfull]
    cases hrecords : s.records with
    | nil => simp [hrecords, maxRecords] at hfull
    | cons oldest rest =>
      have hmin : Choose.minByKey (fun found : StoredRecord × Nat => found.1.updated) ((oldest :: rest).zipIdx) =
          some (oldest, 0) := by
        rw [List.zipIdx_cons]
        refine Choose.minByKey_head fun found hfound => ?_
        have hmem : found.1 ∈ rest := (List.mem_zipIdx hfound).2.2 ▸ List.getElem_mem _
        unfold contents at h
        rw [hrecords, List.map_cons, List.pairwise_cons] at h
        exact h.1 found.1.report (List.mem_map_of_mem hmem)
      rw [hmin]
      simp [contents, hrecords]
  · rw [if_neg hfull, if_neg hfull]

theorem contents_displace {s : RecordStore} (h : s.Ordered) (id : RecordId) :
    (s.displace id).contents = Recency.displace Report.id maxRecords s.contents id := by
  have herase : (s.records.eraseP fun entry => entry.id == id).map StoredRecord.report =
      s.contents.eraseP fun report => report.id == id := by
    rw [contents, List.eraseP_map]
    rfl
  have hsorted : ((s.records.eraseP fun entry => entry.id == id).map StoredRecord.report).Pairwise
      fun a b => a.updated < b.updated := by
    rw [herase]
    exact h.stamps.sublist List.eraseP_sublist
  have hevict := contents_evictOldest (s := { s with
    ordinal := s.ordinal + 1, records := s.records.eraseP fun entry => entry.id == id }) hsorted
  change (s.displace id).contents = _ at hevict
  rw [hevict]
  unfold contents at herase ⊢
  dsimp only
  rw [herase]
  rfl

/-- What a `Replace` leaves of the list. -/
theorem contents_replace {s : RecordStore} (h : s.Ordered) (record : Record) (at_ : Nat)
    (episode : Option LiveEpisode) : (s.apply (.replace record) at_ episode).contents =
      Recency.displace Report.id maxRecords s.contents record.id ++ [⟨record, s.ordinal + 1, at_⟩] := by
  have hpushed : (s.pushed record at_ episode).report = ⟨record, s.ordinal + 1, at_⟩ := by
    have hat : (s.pushed record at_ episode).at_ = at_ := rfl
    rw [StoredRecord.report, pushed_record, pushed_updated, hat]
  have hcommand : ProgramCommand.replace record ≠ .query := by simp
  rw [contents_apply hcommand]
  change (s.applyReplace record at_ episode).1.records.map StoredRecord.report = _
  rw [applyReplace_records, List.map_append, List.map_singleton, hpushed, ← contents_displace h]
  rfl

/-- A `Clear` leaves the records outside its subtree. -/
theorem contents_clear (s : RecordStore) (id : RecordId) (at_ : Nat) (episode : Option LiveEpisode) :
    (s.apply (.clear id) at_ episode).contents =
      s.contents.filter fun report => decide ¬id.segments <+: report.id.segments := by
  have houtside : (fun entry : StoredRecord => !id.contains entry.id) =
      fun entry => decide ¬id.segments <+: entry.report.id.segments := by
    funext entry
    rw [Bool.eq_iff_iff, decide_eq_true_eq, ← RecordId.contains_iff_segments, Bool.not_eq_true', Bool.not_eq_true]
    rfl
  have hcommand : ProgramCommand.clear id ≠ .query := by simp
  rw [contents_apply hcommand]
  change (s.applyClear id).records.map StoredRecord.report = _
  rw [applyClear_records, houtside]
  exact contents_filter s.records fun report => decide ¬id.segments <+: report.id.segments

theorem contents_closed (s : RecordStore) :
    ((s.records.filter fun entry => entry.record.status.isTerminal).map StoredRecord.disown).map
      StoredRecord.report = s.contents.filter fun report => report.record.status.isTerminal := by
  have hdisown : ∀ l : List StoredRecord, (l.map StoredRecord.disown).map StoredRecord.report =
      l.map StoredRecord.report := fun l => contents_map fun _ => rfl
  rw [hdisown]
  exact contents_filter s.records fun report => report.record.status.isTerminal

theorem contents_presentation (s : RecordStore) {op : StoreOp} (h : op.isPresentation = true) :
    (s.step op).contents = s.contents ∧ (s.step op).ordinal = s.ordinal := by
  obtain ⟨l, hstep, hl⟩ := step_presentation s h
  rw [hstep]
  have hreports := congrArg (List.map StoredRecord.report) hl
  rw [List.map_map, List.map_map] at hreports
  exact ⟨hreports, rfl⟩

end RecordStore

/-! ## The map -/

/-- The last report of each record, and how many reports there were. -/
structure RecordMap where
  reports : RecordId → Option Report
  clock : Nat

namespace RecordMap

def new : RecordMap := ⟨fun _ => none, 0⟩

/-- Only what a call says of records counts here: not in which episode it arrived. -/
noncomputable def step (m : RecordMap) : StoreOp → RecordMap
  | .apply (.replace record) at_ _ =>
    { reports := Recency.put Report.id Report.updated maxRecords m.reports ⟨record, m.clock + 1, at_⟩
      clock := m.clock + 1 }
  | .apply (.clear id) _ _ =>
    { m with reports := Recency.keep (fun report => decide ¬id.segments <+: report.id.segments) m.reports }
  | .lifecycle .fullReset => { m with reports := fun _ => none }
  | .lifecycle .shellPrompt | .lifecycle .attachedProcessExit =>
    { m with reports := Recency.keep (fun report => report.record.status.isTerminal) m.reports }
  | _ => m

noncomputable abbrev run (m : RecordMap) (ops : List StoreOp) : RecordMap := Run.run step m ops

end RecordMap

namespace RecordStore

/-- The store's list is the contents of the map, oldest report first. -/
structure ListsMap (s : RecordStore) (m : RecordMap) : Prop where
  ordered : s.Ordered
  clock : m.clock = s.ordinal
  updatedLe : ∀ report ∈ s.contents, report.updated ≤ s.ordinal
  lists : Recency.Lists Report.id s.contents m.reports

/-- Dropping the reports that fail a test, in the list and in the map. -/
theorem ListsMap.filter {s s' : RecordStore} {m : RecordMap} (h : ListsMap s m) (p : Report → Bool)
    (hcontents : s'.contents = s.contents.filter p) (hordinal : s'.ordinal = s.ordinal) :
    ListsMap s' { m with reports := Recency.keep p m.reports } := by
  refine ⟨?_, h.clock.trans hordinal.symm, fun report hr => ?_, ?_⟩
  · unfold Ordered
    rw [hcontents]
    exact h.ordered.sublist List.filter_sublist
  · rw [hcontents] at hr
    rw [hordinal]
    exact h.updatedLe report (List.mem_of_mem_filter hr)
  · rw [hcontents]
    exact h.lists.filter p

theorem ListsMap.congr {s s' : RecordStore} {m : RecordMap} (h : ListsMap s m) (hcontents : s'.contents = s.contents)
    (hordinal : s'.ordinal = s.ordinal) : ListsMap s' m :=
  ⟨by unfold Ordered; rw [hcontents]; exact h.ordered, h.clock.trans hordinal.symm,
    by rw [hcontents, hordinal]; exact h.updatedLe, by rw [hcontents]; exact h.lists⟩

theorem ListsMap.presentation {s : RecordStore} {m : RecordMap} (h : ListsMap s m) {op : StoreOp}
    (hop : op.isPresentation = true) : ListsMap (s.step op) m :=
  h.congr (contents_presentation s hop).1 (contents_presentation s hop).2

theorem ListsMap.replace {s : RecordStore} {m : RecordMap} (h : ListsMap s m) (record : Record) (at_ : Nat)
    (episode : Option LiveEpisode) :
    ListsMap (s.apply (.replace record) at_ episode) (m.step (.apply (.replace record) at_ episode)) := by
  have hordinal : (s.apply (.replace record) at_ episode).ordinal = s.ordinal + 1 := by
    cases episode with
    | none => exact applyReplace_ordinal s record at_ none
    | some live => exact applyReplace_ordinal s record at_ (some live)
  have hcontents := contents_replace h.ordered record at_ episode
  have hcap : 0 < maxRecords := by decide
  refine ⟨?_, ?_, fun report hr => ?_, ?_⟩
  · unfold Ordered
    rw [hcontents]
    exact h.ordered.push (a := ⟨record, s.ordinal + 1, at_⟩) hcap fun report hr =>
      Nat.lt_succ_of_le (h.updatedLe report hr)
  · rw [hordinal, ← h.clock]
    rfl
  · rw [hcontents, List.mem_append, List.mem_singleton] at hr
    rw [hordinal]
    rcases hr with hr | rfl
    · exact (h.updatedLe report (Recency.mem_displace_key h.ordered hr).1).trans (Nat.le_succ _)
    · exact Nat.le_refl _
  · rw [hcontents, ← h.clock]
    exact h.lists.put h.ordered hcap ⟨record, m.clock + 1, at_⟩

/-- **One call**: the list stays the contents of the map. -/
theorem listsMap_step {s : RecordStore} {m : RecordMap} (h : ListsMap s m) (op : StoreOp) :
    ListsMap (s.step op) (m.step op) := by
  cases op with
  | apply command at_ episode =>
    cases command with
    | query => exact h
    | replace record => exact h.replace record at_ episode
    | clear id =>
      refine h.filter _ (contents_clear s id at_ episode) ?_
      cases episode <;> exact applyClear_ordinal s id
  | lifecycle event =>
    cases event with
    | fullReset => exact ⟨Recency.ordered_nil, h.clock, fun _ hr => absurd hr List.not_mem_nil, Recency.lists_nil⟩
    | shellPrompt => exact h.filter _ (contents_closed s) rfl
    | attachedProcessExit => exact h.filter _ (contents_closed s) rfl
  | invalidateEpisode => exact h.congr (contents_map fun _ => rfl) rfl
  | markPresented selection live => exact h.presentation rfl
  | acknowledge identity => exact h.presentation rfl
  | reconcileResult selection live disposition =>
    exact h.presentation rfl

theorem listsMap_run (ops : List StoreOp) : ListsMap (new.run ops) (RecordMap.new.run ops) :=
  Run.run_related ListsMap (fun _ _ op h => listsMap_step h op)
    ⟨Recency.ordered_nil, rfl, fun _ hr => absurd hr List.not_mem_nil, Recency.lists_nil⟩ ops

/-- The list is sorted by update. -/
theorem records_sorted (ops : List StoreOp) : (new.run ops).records.Pairwise fun a b => a.updated < b.updated := by
  have hstamps := (listsMap_run ops).ordered.stamps
  unfold contents at hstamps
  rw [List.pairwise_map] at hstamps
  exact hstamps

/-! ## The last report of a record -/

/-- A report of the list was there before the call, which replaced another record, or is the call's. -/
theorem report_origin {s : RecordStore} (h : s.Ordered) {op : StoreOp} {report : Report}
    (hr : report ∈ (s.step op).contents) : (report ∈ s.contents ∧ op.replaces ≠ some report.id) ∨
      ∃ episode, op = .apply (.replace report.record) report.at_ episode := by
  by_cases hp : op.isPresentation = true
  · rw [(contents_presentation s hp).1] at hr
    refine .inl ⟨hr, ?_⟩
    cases op <;> first | exact absurd hp Bool.false_ne_true | exact (nomatch ·)
  cases op with
  | apply command at_ episode =>
    cases command with
    | query => exact .inl ⟨hr, (nomatch ·)⟩
    | clear id =>
      change report ∈ (s.apply (.clear id) at_ episode).contents at hr
      rw [contents_clear] at hr
      exact .inl ⟨List.mem_of_mem_filter hr, (nomatch ·)⟩
    | replace record =>
      change report ∈ (s.apply (.replace record) at_ episode).contents at hr
      rw [contents_replace h, List.mem_append, List.mem_singleton] at hr
      rcases hr with hr | rfl
      · obtain ⟨hmem, hne⟩ := Recency.mem_displace_key h hr
        exact .inl ⟨hmem, fun heq => hne (Option.some.inj heq).symm⟩
      · exact .inr ⟨episode, rfl⟩
  | lifecycle event =>
    cases event with
    | fullReset => exact absurd hr List.not_mem_nil
    | shellPrompt =>
      have hr : report ∈ s.contents.filter fun report => report.record.status.isTerminal := contents_closed s ▸ hr
      exact .inl ⟨List.mem_of_mem_filter hr, (nomatch ·)⟩
    | attachedProcessExit =>
      have hr : report ∈ s.contents.filter fun report => report.record.status.isTerminal := contents_closed s ▸ hr
      exact .inl ⟨List.mem_of_mem_filter hr, (nomatch ·)⟩
  | invalidateEpisode =>
    have hcontents : s.invalidateEpisode.contents = s.contents := contents_map fun _ => rfl
    exact .inl ⟨hcontents ▸ hr, (nomatch ·)⟩
  | markPresented | acknowledge | reconcileResult => exact absurd rfl hp

/-- The run reported `report` last of its record, and has kept it since. -/
def LastReport (ops : List StoreOp) (report : Report) : Prop :=
  ∃ before episode after, ops = before ++ .apply (.replace report.record) report.at_ episode :: after ∧
    (∀ op ∈ after, op.replaces ≠ some report.id) ∧
    ∀ kept, kept <+: after →
      report ∈ (new.run (before ++ .apply (.replace report.record) report.at_ episode :: kept)).contents

theorem lastReport_of_mem (ops : List StoreOp) {report : Report} (hr : report ∈ (new.run ops).contents) :
    LastReport ops report := by
  induction ops using List.reverseRecOn with
  | nil => exact absurd hr List.not_mem_nil
  | append_singleton ops op ih =>
    have hstep : (new.run (ops ++ [op])) = (new.run ops).step op := Run.run_concat step new ops op
    have hmem := hr
    rw [hstep] at hmem
    rcases report_origin (listsMap_run ops).ordered hmem with ⟨hold, hne⟩ | ⟨episode, rfl⟩
    · obtain ⟨before, episode, after, rfl, hafter, hkept⟩ := ih hold
      refine ⟨before, episode, after ++ [op], by simp, fun later hl => ?_, fun kept hk => ?_⟩
      · rcases List.mem_append.mp hl with hl | hl
        · exact hafter later hl
        · rw [List.mem_singleton.mp hl]
          exact hne
      · rcases List.prefix_concat_iff.mp hk with rfl | hk
        · rw [← List.cons_append, ← List.append_assoc]
          exact hr
        · exact hkept kept hk
    · refine ⟨ops, episode, [], rfl, fun _ h => absurd h List.not_mem_nil, fun kept hk => ?_⟩
      rw [List.prefix_nil.mp hk]
      exact hr

/-! ## The app a record inherits -/

/-- **The app of a record** is that of the longest stored ancestor or self with an explicit one. -/
theorem effectiveApp_iff {s : RecordStore} (h : (s.records.map StoredRecord.id).Nodup) {id : RecordId} {app : AppId} :
    s.effectiveApp id = some app ↔ ∃ report ∈ s.contents, report.id.segments <+: id.segments ∧
      report.record.app = some app ∧ ∀ other ∈ s.contents, other.id.segments <+: id.segments →
        other.record.app ≠ none → other.id.str.length ≤ report.id.str.length := by
  have hfound : ∀ found : Nat × AppId,
      (found ∈ (s.records.filter fun entry => entry.id.contains id).filterMap fun entry =>
        entry.record.app.map fun app => (entry.id.str.length, app)) ↔
      ∃ report ∈ s.contents, report.id.segments <+: id.segments ∧ report.record.app = some found.2 ∧
        report.id.str.length = found.1 := by
    intro found
    simp only [List.mem_filterMap, List.mem_filter, Option.map_eq_some_iff, mem_contents,
      RecordId.contains_iff_segments]
    constructor
    · rintro ⟨entry, ⟨hentry, hc⟩, app, happ, rfl⟩
      exact ⟨entry.report, ⟨entry, hentry, rfl⟩, hc, happ, rfl⟩
    · rintro ⟨_, ⟨entry, hentry, rfl⟩, hc, happ, hlength⟩
      exact ⟨entry, ⟨hentry, hc⟩, found.2, happ, Prod.ext hlength rfl⟩
  unfold effectiveApp
  rw [Option.map_eq_some_iff]
  constructor
  · rintro ⟨found, hmax, rfl⟩
    obtain ⟨report, hr, hc, happ, hlength⟩ := (hfound found).mp (Choose.maxByKey_mem hmax)
    refine ⟨report, hr, hc, happ, fun other ho hoc hne => ?_⟩
    obtain ⟨app, hoapp⟩ := Option.ne_none_iff_exists'.mp hne
    rw [hlength]
    exact Choose.maxByKey_le hmax _ ((hfound (other.id.str.length, app)).mpr ⟨other, ho, hoc, hoapp, rfl⟩)
  · rintro ⟨report, hr, hc, happ, hlongest⟩
    have hmem := (hfound (report.id.str.length, app)).mpr ⟨report, hr, hc, happ, rfl⟩
    cases hmax : Choose.maxByKey (fun found : Nat × AppId => found.1)
        ((s.records.filter fun entry => entry.id.contains id).filterMap fun entry =>
          entry.record.app.map fun app => (entry.id.str.length, app)) with
    | none => exact absurd hmem (Choose.maxByKey_eq_none.mp hmax ▸ List.not_mem_nil)
    | some found =>
      -- Ancestors of one id at one length are one record.
      obtain ⟨other, ho, hoc, hoapp, holength⟩ := (hfound found).mp (Choose.maxByKey_mem hmax)
      have hle : report.id.str.length ≤ found.1 := Choose.maxByKey_le hmax _ hmem
      have hge := hlongest other ho hoc (by simp [hoapp])
      obtain ⟨entry, hentry, rfl⟩ := mem_contents.mp hr
      obtain ⟨entry', hentry', rfl⟩ := mem_contents.mp ho
      have hid : entry.id = entry'.id := RecordId.contains_unique (RecordId.contains_iff_segments.mpr hc)
        (RecordId.contains_iff_segments.mpr hoc) (Nat.le_antisymm (holength ▸ hle) hge)
      obtain rfl := List.inj_on_of_nodup_map h hentry hentry' hid
      exact ⟨found, rfl, Option.some.inj (hoapp.symm.trans happ)⟩

theorem effectiveApp_eq_none {s : RecordStore} {id : RecordId} : s.effectiveApp id = none ↔
    ∀ report ∈ s.contents, report.id.segments <+: id.segments → report.record.app = none := by
  unfold effectiveApp
  simp only [Option.map_eq_none_iff, Choose.maxByKey_eq_none, List.filterMap_eq_nil_iff, List.mem_filter,
    mem_contents, RecordId.contains_iff_segments]
  constructor
  · rintro h _ ⟨entry, hentry, rfl⟩ hc
    exact h entry ⟨hentry, hc⟩
  · rintro h entry ⟨hentry, hc⟩
    exact h entry.report ⟨entry, hentry, rfl⟩ hc

/-! ## The list and the map -/

/-- **The record list refines a bounded map.** After every run the list is the contents of the
map the same calls build, with distinct ids, within the bound and oldest first. A report of a
stored record displaces that record alone, one of a new record the least recently replaced of a
full list and nothing else, and a `Clear` exactly the ids that start with its segments. Every
report in the list is the last of its record, kept since it was made, and a record's app is that of
the longest stored ancestor or self with an explicit one. -/
theorem records_refine_map (ops : List StoreOp) :
    ((new.run ops).records.map StoredRecord.id).Nodup ∧ (new.run ops).records.length ≤ maxRecords ∧
    ((new.run ops).records.Pairwise fun a b => a.updated < b.updated) ∧
    (∀ id report, (RecordMap.new.run ops).reports id = some report ↔
      report ∈ (new.run ops).contents ∧ report.id = id) ∧
    (∀ record at_ episode, (∃ report ∈ (new.run ops).contents, report.id = record.id) →
      ((new.run ops).apply (.replace record) at_ episode).contents =
        ((new.run ops).contents.filter fun report => report.id != record.id) ++
          [⟨record, (new.run ops).ordinal + 1, at_⟩]) ∧
    (∀ record at_ episode, (∀ report ∈ (new.run ops).contents, report.id ≠ record.id) →
      (new.run ops).records.length = maxRecords → ∃ oldest rest, (new.run ops).contents = oldest :: rest ∧
        (∀ report ∈ rest, oldest.updated < report.updated) ∧
        ((new.run ops).apply (.replace record) at_ episode).contents =
          rest ++ [⟨record, (new.run ops).ordinal + 1, at_⟩]) ∧
    (∀ record at_ episode, (∀ report ∈ (new.run ops).contents, report.id ≠ record.id) →
      (new.run ops).records.length ≠ maxRecords →
        ((new.run ops).apply (.replace record) at_ episode).contents =
          (new.run ops).contents ++ [⟨record, (new.run ops).ordinal + 1, at_⟩]) ∧
    (∀ id at_ episode, ((new.run ops).apply (.clear id) at_ episode).contents =
      (new.run ops).contents.filter fun report => decide ¬id.segments <+: report.id.segments) ∧
    (∀ report ∈ (new.run ops).contents, LastReport ops report) ∧
    ∀ id, ((new.run ops).effectiveApp id = none ↔
        ∀ report ∈ (new.run ops).contents, report.id.segments <+: id.segments → report.record.app = none) ∧
      ∀ app, (new.run ops).effectiveApp id = some app ↔
        ∃ report ∈ (new.run ops).contents, report.id.segments <+: id.segments ∧ report.record.app = some app ∧
          ∀ other ∈ (new.run ops).contents, other.id.segments <+: id.segments → other.record.app ≠ none →
            other.id.str.length ≤ report.id.str.length := by
  have h := listsMap_run ops
  generalize hs : new.run ops = s at h ⊢
  have hlength : s.contents.length = s.records.length := List.length_map _
  have hids : (s.records.map StoredRecord.id).Nodup := hs ▸ (wf_run ops).ids
  have hsorted : s.records.Pairwise fun a b => a.updated < b.updated := hs ▸ records_sorted ops
  refine ⟨hids, hlength ▸ h.ordered.length, hsorted, h.lists,
    fun record at_ episode hstored => ?_, fun record at_ episode hnew hfull => ?_,
    fun record at_ episode hnew hroom => ?_, fun id at_ episode => contents_clear s id at_ episode,
    fun report hr => lastReport_of_mem ops (hs ▸ hr), fun id => ⟨effectiveApp_eq_none, fun app => effectiveApp_iff hids⟩⟩
  · rw [contents_replace h.ordered, h.ordered.displace_stored hstored]
  · cases hcontents : s.contents with
    | nil => simp [hcontents, ← hlength, maxRecords] at hfull
    | cons oldest rest =>
      have hstamps := h.ordered.stamps
      rw [hcontents] at hnew hlength hstamps
      refine ⟨oldest, rest, rfl, (List.pairwise_cons.mp hstamps).1, ?_⟩
      rw [contents_replace h.ordered, hcontents, Recency.displace_full hnew (hlength.trans hfull)]
  · rw [contents_replace h.ordered, Recency.displace_new hnew (hlength ▸ hroom)]

end RecordStore

end TmuxAgents
