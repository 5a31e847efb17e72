/-
Epoch discipline: what a pane's drained invalidations and observations say, over
a whole run, about the order they happened in.

Three invariants of one pane's side carry it. `Ordered`: what was and would be
drained rises in (connection, sequence), and stays at or below the stream's
cursor. `Dated`: no invalidation is newer than the stream it left. `Marked`: an
observation's connection is the stream's still, or a loss has been drained since
or is pending.
-/
import TmuxAgents.Control.Pane

namespace TmuxAgents

/-- Connection first, then sequence. -/
def ObservedEvent.stamp (event : ObservedEvent) : ConnectionEpoch ×ₗ ObservationSequence :=
  toLex (event.connection, event.sequence)

theorem ObservedEvent.stamp_le_iff {event : ObservedEvent} {connection : ConnectionEpoch}
    {sequence : ObservationSequence} : event.stamp ≤ toLex (connection, sequence) ↔
      event.connection < connection ∨ event.connection = connection ∧ event.sequence ≤ sequence := by
  simp [stamp, Prod.Lex.toLex_le_toLex]

theorem ObservedEvent.stamp_lt_iff {event event' : ObservedEvent} : event.stamp < event'.stamp ↔
    event.connection < event'.connection ∨ event.connection = event'.connection ∧ event.sequence < event'.sequence := by
  simp [stamp, Prod.Lex.toLex_lt_toLex]

/-- A drain's events about a pane, in the order they apply. -/
def PaneDrain.events (drain : PaneDrain) : List ObservedEvent := drain.invalidations ++ drain.observations

namespace PaneView

theorem drained_stream {v : PaneView} {stream : PaneStream} (hs : v.stream = some stream) :
    v.drained.stream = some { stream with pendingGap := none } := by
  simp [drained, hs]

theorem drained_gap (v : PaneView) : v.drained.gap = none := by
  cases hs : v.stream <;> simp [drained, gap, hs]

theorem drained_outgoing (v : PaneView) :
    v.drained.outgoing = { allInvalidated := false, invalidations := [], observations := [] } := by
  rw [outgoing, drained_gap]
  rfl

/-! ## Order -/

/-- The events told so far rise, up to the stream's cursor. -/
structure Ordered (told : List ObservedEvent) (v : PaneView) : Prop where
  rising : told.Pairwise fun e e' => e.stamp < e'.stamp
  epoch : ∀ e ∈ told, e.connection ≤ v.epoch
  cursor : ∀ e ∈ told, ∀ stream, v.stream = some stream → e.stamp ≤ toLex (stream.epoch, stream.sequence)
  stream : ∀ stream, v.stream = some stream → stream.epoch ≤ v.epoch

/-- Telling less. -/
theorem Ordered.sublist {told told' : List ObservedEvent} {v v' : PaneView} (h : Ordered told v)
    (hsub : told'.Sublist told) (hepoch : v'.epoch = v.epoch) (hstream : v'.stream = none ∨ v'.stream = v.stream) :
    Ordered told' v' := by
  have hold : ∀ stream, v'.stream = some stream → v.stream = some stream := by
    intro stream hs
    rcases hstream with hn | he
    · rw [hn] at hs
      cases hs
    · rw [← he, hs]
  exact ⟨h.rising.sublist hsub, fun e he => hepoch ▸ h.epoch e (hsub.subset he),
    fun e he stream hs => h.cursor e (hsub.subset he) stream (hold stream hs),
    fun stream hs => hepoch ▸ h.stream stream (hold stream hs)⟩

/-- Telling one more, at the new cursor. -/
theorem Ordered.concat {told : List ObservedEvent} {v' : PaneView} {event : ObservedEvent} (stream : PaneStream)
    (hrising : told.Pairwise fun e e' => e.stamp < e'.stamp) (hlt : ∀ e ∈ told, e.stamp < event.stamp)
    (hs : v'.stream = some stream) (hstamp : event.stamp = toLex (stream.epoch, stream.sequence))
    (hepoch : ∀ e ∈ told, e.connection ≤ v'.epoch) (hle : stream.epoch ≤ v'.epoch) :
    Ordered (told ++ [event]) v' := by
  have hconnection : event.connection = stream.epoch := congrArg (fun p => (ofLex p).1) hstamp
  refine ⟨List.pairwise_append.mpr ⟨hrising, List.pairwise_singleton .., fun e he e' he' => ?_⟩, fun e he => ?_,
    fun e he stream' hs' => ?_, fun stream' hs' => ?_⟩
  · rw [List.mem_singleton.mp he']
    exact hlt e he
  · rcases List.mem_append.mp he with he | he
    · exact hepoch e he
    · rw [List.mem_singleton.mp he, hconnection]
      exact hle
  · obtain rfl : stream = stream' := Option.some.inj (hs.symm.trans hs')
    rw [← hstamp]
    rcases List.mem_append.mp he with he | he
    · exact (hlt e he).le
    · rw [List.mem_singleton.mp he]
  · obtain rfl : stream = stream' := Option.some.inj (hs.symm.trans hs')
    exact hle

/-- Everything told and about to be told. -/
def told (history : List PaneDrain) (v : PaneView) : List ObservedEvent :=
  history.flatMap PaneDrain.events ++ v.outgoing.events

theorem told_eq (history : List PaneDrain) (v : PaneView) : v.told history =
    history.flatMap PaneDrain.events ++ (v.departed.toList ++ (v.gap.toList ++ v.queue)) := by
  simp [told, outgoing, PaneDrain.events]

theorem gap_some {v : PaneView} {stream : PaneStream} (hs : v.stream = some stream) : v.gap = stream.pendingGap := by
  simp [gap, hs]

theorem gap_none {v : PaneView} (hs : v.stream = none) : v.gap = none := by
  simp [gap, hs]

theorem Ordered.step {pane : PaneId} {history : List PaneDrain} {v v' : PaneView} (h : Ordered (v.told history) v)
    (hstep : Step pane v v') : Ordered (v'.told history) v' := by
  cases hstep with
  | @renew stream stream' hs hr =>
    obtain ⟨reason, hgap⟩ := hr.gap
    -- What is still to be told of the old epoch is the departure; the new gap closes it.
    have hsub : (history.flatMap PaneDrain.events ++ v.departed.toList).Sublist (v.told history) := by
      rw [told_eq]
      exact (List.sublist_append_left ..).append_left _
    have hepoch := fun e he => h.epoch e (hsub.subset he)
    rw [told_eq, gap_some rfl, hgap]
    simp only [Option.toList_some, List.append_nil, ← List.append_assoc]
    refine .concat stream' (h.rising.sublist hsub) (fun e he => ?_) rfl ?_ (fun e he => ?_) hr.epoch.le
    · exact ObservedEvent.stamp_lt_iff.mpr (.inl (Nat.lt_succ_of_le (hepoch e he)))
    · rw [hr.epoch, hr.sequence]
      rfl
    · exact (hepoch e he).trans (Nat.le_succ _)
  | depart hs hgap hq =>
    refine h.sublist ?_ rfl (.inl rfl)
    rw [told_eq, told_eq, gap_none rfl, gap_some hs, hgap, hq]
    exact (List.sublist_append_right ..).append_left _
  | @overflow stream hs =>
    refine h.sublist ?_ rfl hs
    have hgap : (stream.bind fun stream => stream.pendingGap).toList.Sublist v.gap.toList := by
      rcases hs with rfl | rfl
      · exact List.nil_sublist _
      · exact .refl _
    rw [told_eq, told_eq]
    refine List.Sublist.append_left ?_ _
    simp only [Option.toList_none, List.nil_append, List.append_nil]
    exact hgap.trans ((List.sublist_append_left ..).trans (List.sublist_append_right ..))
  | track owner client hs =>
    have heq : v.told history = told history { v with
        epoch := v.epoch + 1
        stream := some
          { owner, client, epoch := v.epoch + 1, sequence := 0, scanner := .unsynchronized, pendingGap := none
            paused := false, quarantine := false } } := by
      rw [told_eq, told_eq, gap_none hs, gap_some rfl]
    rw [← heq]
    refine ⟨h.rising, fun e he => (h.epoch e he).trans (Nat.le_succ _), fun e he stream hs' => ?_, fun stream hs' => ?_⟩
    · cases hs'
      exact ObservedEvent.stamp_le_iff.mpr (.inl (Nat.lt_succ_of_le (h.epoch e he)))
    · cases hs'
      exact Nat.le_refl _
  | elsewhere hle =>
    exact ⟨h.rising, fun e he => (h.epoch e he).trans hle, h.cursor, fun s hs => (h.stream s hs).trans hle⟩
  | @rescan stream stream' hs hstream =>
    have heq : v.told history = told history { v with stream := some stream' } := by
      rw [told_eq, told_eq, gap_some hs, gap_some rfl, hstream]
    rw [← heq]
    refine ⟨h.rising, h.epoch, fun e he s hs' => ?_, fun s hs' => ?_⟩
    · cases hs'
      rw [hstream]
      exact h.cursor e he stream hs
    · cases hs'
      rw [hstream]
      exact h.stream stream hs
  | @push stream hs event =>
    have heq : told history { v with
        stream := some { stream with sequence := stream.sequence + 1 }
        queue := v.queue ++ [{ pane, connection := stream.epoch, sequence := stream.sequence + 1, event }] } =
        v.told history ++ [{ pane, connection := stream.epoch, sequence := stream.sequence + 1, event }] := by
      rw [told_eq, told_eq, gap_some hs, gap_some rfl]
      simp only [List.append_assoc]
    rw [heq]
    refine .concat { stream with sequence := stream.sequence + 1 } h.rising (fun e he => ?_) rfl rfl h.epoch
      (h.stream stream hs)
    have hle := ObservedEvent.stamp_le_iff.mp (h.cursor e he stream hs)
    exact ObservedEvent.stamp_lt_iff.mpr (hle.imp id fun ⟨hc, hq⟩ => ⟨hc, Nat.lt_succ_of_le hq⟩)

/-- A drain tells what was about to be told. -/
theorem Ordered.drain {history : List PaneDrain} {v : PaneView} (h : Ordered (v.told history) v) :
    Ordered (v.drained.told (history ++ [v.outgoing])) v.drained := by
  have heq : v.drained.told (history ++ [v.outgoing]) = v.told history := by
    simp [told, drained_outgoing, PaneDrain.events]
  rw [heq]
  have hold : ∀ stream, v.drained.stream = some stream →
      ∃ old, v.stream = some old ∧ old.epoch = stream.epoch ∧ old.sequence = stream.sequence := by
    intro stream hs
    obtain ⟨old, ho, rfl⟩ := Option.map_eq_some_iff.mp hs
    exact ⟨old, ho, rfl, rfl⟩
  refine ⟨h.rising, h.epoch, fun e he stream hs => ?_, fun stream hs => ?_⟩
  · obtain ⟨old, ho, he', hq⟩ := hold stream hs
    exact he' ▸ hq ▸ h.cursor e he old ho
  · obtain ⟨old, ho, he', -⟩ := hold stream hs
    exact he' ▸ h.stream old ho

/-! ## Dates -/

/-- No invalidation is newer than the stream or the events it left. -/
structure Dated (v : PaneView) : Prop where
  epoch : ∀ gap ∈ v.created, gap.connection ≤ v.epoch
  stream : ∀ gap ∈ v.created, ∀ stream, v.stream = some stream → gap.connection ≤ stream.epoch
  queue : ∀ gap ∈ v.created, ∀ e ∈ v.queue, gap.connection ≤ e.connection

theorem Dated.step {pane : PaneId} {v v' : PaneView} (h : Dated v) (hstep : Step pane v v') :
    Dated v' ∧ v.created <+: v'.created := by
  cases hstep with
  | @renew stream stream' hs hr =>
    obtain ⟨reason, hgap⟩ := hr.gap
    have hle : ∀ gap ∈ v.created ++ stream'.pendingGap.toList, gap.connection ≤ v.epoch + 1 := by
      intro gap hmem
      rcases List.mem_append.mp hmem with hmem | hmem
      · exact (h.epoch gap hmem).trans (Nat.le_succ _)
      · rw [hgap] at hmem
        rw [List.mem_singleton.mp hmem]
    refine ⟨⟨hle, fun gap hmem s hs' => ?_, fun _ _ e he => (by cases he)⟩, List.prefix_append ..⟩
    cases hs'
    rw [hr.epoch]
    exact hle gap hmem
  | depart hs hgap hq =>
    exact ⟨⟨h.epoch, fun _ _ _ hs' => (by cases hs'), h.queue⟩, List.prefix_refl _⟩
  | @overflow stream hs =>
    refine ⟨⟨h.epoch, fun gap hmem s hs' => ?_, fun _ _ e he => (by cases he)⟩, List.prefix_refl _⟩
    rcases hs with rfl | rfl
    · cases hs'
    · exact h.stream gap hmem s hs'
  | track owner client hs =>
    refine ⟨⟨fun gap hmem => (h.epoch gap hmem).trans (Nat.le_succ _), fun gap hmem s hs' => ?_, h.queue⟩,
      List.prefix_refl _⟩
    cases hs'
    exact (h.epoch gap hmem).trans (Nat.le_succ _)
  | elsewhere hle => exact ⟨⟨fun gap hmem => (h.epoch gap hmem).trans hle, h.stream, h.queue⟩, List.prefix_refl _⟩
  | @rescan stream stream' hs hstream =>
    refine ⟨⟨h.epoch, fun gap hmem s hs' => ?_, h.queue⟩, List.prefix_refl _⟩
    cases hs'
    rw [hstream]
    exact h.stream gap hmem stream hs
  | @push stream hs event =>
    refine ⟨⟨h.epoch, fun gap hmem s hs' => ?_, fun gap hmem e he => ?_⟩, List.prefix_refl _⟩
    · cases hs'
      exact h.stream gap hmem stream hs
    · rcases List.mem_append.mp he with he | he
      · exact h.queue gap hmem e he
      · rw [List.mem_singleton.mp he]
        exact h.stream gap hmem stream hs

theorem Dated.drain {v : PaneView} (h : Dated v) : Dated v.drained := by
  refine ⟨h.epoch, fun gap hmem stream hs => ?_, fun _ _ e he => (by cases he)⟩
  obtain ⟨old, ho, rfl⟩ := Option.map_eq_some_iff.mp hs
  exact h.stream gap hmem old ho

/-! ## Marks -/

end PaneView

/-- A drain tells of a loss after a connection. -/
def PaneDrain.Marks (drain : PaneDrain) (connection : ConnectionEpoch) : Prop :=
  drain.allInvalidated = true ∨ ∃ gap ∈ drain.invalidations, connection < gap.connection

/-- Observations of one drain are of one connection, and between drains of different connections
one tells of a loss. -/
structure Separated (history : List PaneDrain) : Prop where
  same : ∀ drain ∈ history, ∀ e ∈ drain.observations, ∀ e' ∈ drain.observations, e.connection = e'.connection
  marked : ∀ before first between second after, history = before ++ first :: (between ++ second :: after) →
    ∀ e ∈ first.observations, ∀ e' ∈ second.observations, e.connection ≠ e'.connection →
      ∃ drain ∈ between ++ [second], drain.Marks e.connection

namespace PaneView

/-- An observation's connection is the stream's still, or a loss has been drained since or is
pending. A pending gap is newer than everything observed. -/
structure Marked (history : List PaneDrain) (v : PaneView) : Prop where
  separated : Separated history
  current : ∀ e ∈ v.queue, ∃ stream, v.stream = some stream ∧ e.connection = stream.epoch
  epoch : ∀ drain ∈ history, ∀ e ∈ drain.observations, e.connection ≤ v.epoch
  fresh : ∀ drain ∈ history, ∀ e ∈ drain.observations, ∀ gap, v.gap = some gap → e.connection < gap.connection
  pending : ∀ before drain after, history = before ++ drain :: after → ∀ e ∈ drain.observations,
    (∃ later ∈ after, later.Marks e.connection) ∨ v.outgoing.Marks e.connection ∨
      ∃ stream, v.stream = some stream ∧ stream.epoch = e.connection

/-- A step that leaves queue, gaps and connection alone. -/
theorem Marked.keep {history : List PaneDrain} {v v' : PaneView} (h : Marked history v)
    (hcurrent : ∀ e ∈ v'.queue, ∃ stream, v'.stream = some stream ∧ e.connection = stream.epoch)
    (hepoch : v.epoch ≤ v'.epoch) (hgap : v'.gap = v.gap) (hdeparted : v'.departed = v.departed)
    (hall : v'.allInvalidated = v.allInvalidated)
    (hstream : ∀ stream, v.stream = some stream → ∃ stream', v'.stream = some stream' ∧ stream'.epoch = stream.epoch) :
    Marked history v' := by
  refine ⟨h.separated, hcurrent, fun d hd e he => (h.epoch d hd e he).trans hepoch, fun d hd e he gap hg =>
    h.fresh d hd e he gap (hgap ▸ hg), fun before d after heq e he => ?_⟩
  rcases h.pending before d after heq e he with hlater | hnow | ⟨stream, hs, hc⟩
  · exact .inl hlater
  · refine .inr (.inl ?_)
    simpa [outgoing, PaneDrain.Marks, hgap, hdeparted, hall] using hnow
  · obtain ⟨stream', hs', heq'⟩ := hstream stream hs
    exact .inr (.inr ⟨stream', hs', heq'.trans hc⟩)

theorem Marked.step {pane : PaneId} {history : List PaneDrain} {v v' : PaneView} (h : Marked history v)
    (hstep : Step pane v v') : Marked history v' := by
  cases hstep with
  | @renew stream stream' hs hr =>
    obtain ⟨reason, hgap⟩ := hr.gap
    refine ⟨h.separated, fun e he => (by cases he), fun d hd e he => (h.epoch d hd e he).trans (Nat.le_succ _),
      fun d hd e he gap hg => ?_, fun before d after heq e he => .inr (.inl (.inr ?_))⟩
    · obtain rfl : _ = gap := Option.some.inj (hgap.symm.trans hg)
      exact Nat.lt_succ_of_le (h.epoch d hd e he)
    · refine ⟨_, List.mem_append_right _ (Option.mem_toList.mpr hgap), ?_⟩
      exact Nat.lt_succ_of_le (h.epoch d (by simp [heq]) e he)
  | @depart stream gap hs hgap hq =>
    have hg : v.gap = some gap := by rw [gap_some hs, hgap]
    refine ⟨h.separated, fun e he => ?_, h.epoch, fun _ _ _ _ g hg' => (by cases hg'),
      fun before d after heq e he => .inr (.inl (.inr ⟨gap, by simp [outgoing], ?_⟩))⟩
    · rw [hq] at he
      cases he
    · exact h.fresh d (by simp [heq]) e he gap hg
  | @overflow stream hs =>
    refine ⟨h.separated, fun e he => (by cases he), h.epoch, fun d hd e he gap hg => ?_,
      fun _ _ _ _ _ _ => .inr (.inl (.inl rfl))⟩
    rcases hs with rfl | rfl
    · cases hg
    · exact h.fresh d hd e he gap hg
  | track owner client hs =>
    refine h.keep (fun e he => ?_) (Nat.le_succ _) (by rw [gap_none hs, gap_some rfl]) rfl rfl fun stream hs' => ?_
    · obtain ⟨stream, hs', -⟩ := h.current e he
      rw [hs] at hs'
      cases hs'
    · rw [hs] at hs'
      cases hs'
  | elsewhere hle => exact h.keep h.current hle rfl rfl rfl fun stream hs => ⟨stream, hs, rfl⟩
  | @rescan stream stream' hs hstream =>
    refine h.keep (fun e he => ?_) (Nat.le_refl _) (by rw [gap_some hs, gap_some rfl, hstream]) rfl rfl fun s hs' => ?_
    · obtain ⟨s, hs', hc⟩ := h.current e he
      obtain rfl : stream = s := Option.some.inj (hs.symm.trans hs')
      exact ⟨stream', rfl, by rw [hc, hstream]⟩
    · obtain rfl : stream = s := Option.some.inj (hs.symm.trans hs')
      exact ⟨stream', rfl, by rw [hstream]⟩
  | @push stream hs event =>
    refine h.keep (fun e he => ⟨_, rfl, ?_⟩) (Nat.le_refl _) (by rw [gap_some hs, gap_some rfl]) rfl rfl fun s hs' => ?_
    · rcases List.mem_append.mp he with he | he
      · obtain ⟨s, hs', hc⟩ := h.current e he
        obtain rfl : stream = s := Option.some.inj (hs.symm.trans hs')
        exact hc
      · rw [List.mem_singleton.mp he]
    · obtain rfl : stream = s := Option.some.inj (hs.symm.trans hs')
      exact ⟨_, rfl, rfl⟩

/-- The last element of a history is the drain just made, or the split is an older one. -/
theorem split_concat {history before after : List PaneDrain} {last drain : PaneDrain}
    (h : history ++ [last] = before ++ drain :: after) :
    (after = [] ∧ drain = last ∧ before = history) ∨
      ∃ after', after = after' ++ [last] ∧ history = before ++ drain :: after' := by
  rcases List.eq_nil_or_concat after with rfl | ⟨after', x, rfl⟩
  · obtain ⟨h₁, h₂⟩ := List.append_inj' h rfl
    exact .inl ⟨rfl, (List.singleton_inj.mp h₂).symm, h₁.symm⟩
  · rw [List.concat_eq_append, ← List.cons_append, ← List.append_assoc] at h
    obtain ⟨h₁, h₂⟩ := List.append_inj' h rfl
    exact .inr ⟨after', by rw [List.concat_eq_append, List.singleton_inj.mp h₂], h₁⟩

theorem Marked.drain {history : List PaneDrain} {v : PaneView} (h : Marked history v)
    (hepoch : ∀ stream, v.stream = some stream → stream.epoch ≤ v.epoch) :
    Marked (history ++ [v.outgoing]) v.drained := by
  have hsame : ∀ e ∈ v.queue, ∀ e' ∈ v.queue, e.connection = e'.connection := by
    intro e he e' he'
    obtain ⟨stream, hs, hc⟩ := h.current e he
    obtain ⟨stream', hs', hc'⟩ := h.current e' he'
    obtain rfl : stream = stream' := Option.some.inj (hs.symm.trans hs')
    rw [hc, hc']
  refine ⟨⟨fun d hd e he e' he' => ?_, fun before first between second after heq e he e' he' hne => ?_⟩,
    fun e he => (by cases he), fun d hd e he => ?_, fun _ _ _ _ gap hg => ?_, fun before d after heq e he => ?_⟩
  · rcases List.mem_append.mp hd with hd | hd
    · exact h.separated.same d hd e he e' he'
    · rw [List.mem_singleton.mp hd] at he he'
      exact hsame e he e' he'
  · rcases split_concat heq with ⟨hnil, -, -⟩ | ⟨rest, hrest, hold⟩
    · simp at hnil
    rcases split_concat hrest.symm with ⟨-, rfl, rfl⟩ | ⟨after', rfl, rfl⟩
    · -- The later observation is of the drain just made: it is the stream's connection.
      rcases h.pending before first between hold e he with ⟨d, hd, hm⟩ | hm | ⟨stream, hs, hc⟩
      · exact ⟨d, by simp [hd], hm⟩
      · exact ⟨v.outgoing, by simp, hm⟩
      · obtain ⟨stream', hs', hc'⟩ := h.current e' he'
        obtain rfl : stream = stream' := Option.some.inj (hs.symm.trans hs')
        exact absurd (hc.symm.trans hc'.symm) hne
    · exact h.separated.marked before first between second after' hold e he e' he' hne
  · rcases List.mem_append.mp hd with hd | hd
    · exact h.epoch d hd e he
    · rw [List.mem_singleton.mp hd] at he
      obtain ⟨stream, hs, hc⟩ := h.current e he
      exact hc ▸ hepoch stream hs
  · rw [drained_gap] at hg
    cases hg
  · rcases split_concat heq with ⟨rfl, rfl, rfl⟩ | ⟨after', rfl, hold⟩
    · obtain ⟨stream, hs, hc⟩ := h.current e he
      exact .inr (.inr ⟨_, drained_stream hs, hc.symm⟩)
    · rcases h.pending before d after' hold e he with ⟨later, hl, hm⟩ | hm | ⟨stream, hs, hc⟩
      · exact .inl ⟨later, by simp [hl], hm⟩
      · exact .inl ⟨v.outgoing, by simp, hm⟩
      · exact .inr (.inr ⟨_, drained_stream hs, hc⟩)

/-! ## Runs -/

/-- What holds of a pane's side and of what was drained about it. -/
structure Disciplined (history : List PaneDrain) (v : PaneView) : Prop where
  ordered : Ordered (v.told history) v
  dated : Dated v
  marked : Marked history v

theorem Disciplined.step {pane : PaneId} {history : List PaneDrain} {v v' : PaneView} (h : Disciplined history v)
    (hstep : Step pane v v') : Disciplined history v' :=
  ⟨h.ordered.step hstep, (h.dated.step hstep).1, h.marked.step hstep⟩

theorem Disciplined.drain {history : List PaneDrain} {v : PaneView} (h : Disciplined history v) :
    Disciplined (history ++ [v.outgoing]) v.drained :=
  ⟨h.ordered.drain, h.dated.drain, h.marked.drain h.ordered.stream⟩

end PaneView

namespace Collector

open PaneView

theorem keyed_withEpoch (epoch : Nat) (pane : PaneId) : ((withEpoch epoch).view pane).Keyed pane :=
  ⟨fun _ h => (by cases h), fun _ h => (by cases h)⟩

theorem disciplined_withEpoch (epoch : Nat) (pane : PaneId) : Disciplined [] ((withEpoch epoch).view pane) :=
  ⟨⟨.nil, fun _ h => (by cases h), fun _ h => (by cases h), fun _ h => (by cases h)⟩,
    ⟨fun _ h => (by cases h), fun _ h => (by cases h), fun _ h => (by cases h)⟩,
    ⟨⟨fun _ h => (by cases h), fun before _ _ _ _ h => (by cases before <;> cases h)⟩, fun _ h => (by cases h),
      fun _ h => (by cases h), fun _ h => (by cases h), fun before _ _ h => (by cases before <;> cases h)⟩⟩

variable [Base64]

theorem disciplined {epoch : Nat} {ops : List CollectorOp} {drains : List ProgramDrain} {c : Collector}
    (he : (withEpoch epoch).exec ops = some (drains, c)) (pane : PaneId) :
    (∀ q, (c.view q).Keyed q) ∧ Disciplined (drains.map fun drain => drain.about pane) (c.view pane) :=
  view_invariant pane Disciplined (fun _ _ _ h hstep => h.step hstep) (fun _ _ h => h.drain)
    (sound_withEpoch epoch) (keyed_withEpoch epoch) (disciplined_withEpoch epoch pane) he

/-- No observation drained later is older than an invalidation created by now. -/
theorem observed_after {c c' : Collector} (hc : Sound c) (hkeyed : ∀ q, (c.view q).Keyed q) {pane : PaneId}
    (hdated : Dated (c.view pane)) {ops : List CollectorOp} {drains : List ProgramDrain}
    (he : c.exec ops = some (drains, c')) :
    ∀ gap ∈ c.created, gap.pane = pane → ∀ drain ∈ drains, ∀ e ∈ drain.observations, e.pane = pane →
      gap.connection ≤ e.connection := by
  have hdrain : ∀ history v, (Dated v ∧ (c.view pane).created <+: v.created ∧ ∀ gap ∈ (c.view pane).created,
        ∀ drain ∈ history, ∀ e ∈ drain.observations, gap.connection ≤ e.connection) →
      (Dated v.drained ∧ (c.view pane).created <+: v.drained.created ∧ ∀ gap ∈ (c.view pane).created,
        ∀ drain ∈ history ++ [v.outgoing], ∀ e ∈ drain.observations, gap.connection ≤ e.connection) := by
    rintro history v ⟨hd, hp, hold⟩
    refine ⟨hd.drain, hp, fun gap hgap drain hdrain e he => ?_⟩
    rcases List.mem_append.mp hdrain with hdrain | hdrain
    · exact hold gap hgap drain hdrain e he
    · rw [List.mem_singleton.mp hdrain] at he
      exact hd.queue gap (hp.subset hgap) e he
  obtain ⟨-, -, -, hold⟩ := view_invariant pane (fun history v => Dated v ∧ (c.view pane).created <+: v.created ∧
      ∀ gap ∈ (c.view pane).created, ∀ drain ∈ history, ∀ e ∈ drain.observations, gap.connection ≤ e.connection)
    (fun history v v' ⟨hd, hp, hold⟩ hstep => ⟨(hd.step hstep).1, hp.trans (hd.step hstep).2, hold⟩) hdrain hc hkeyed
    ⟨hdated, List.prefix_refl _, fun _ _ _ h => (by cases h)⟩ he
  intro gap hgap hp drain hdrain e he hpe
  exact hold gap (List.mem_filter.mpr ⟨hgap, by simp [hp]⟩) (drain.about pane) (List.mem_map_of_mem hdrain) e
    (List.mem_filter.mpr ⟨he, by simp [hpe]⟩)

/-- **Epoch discipline.** Over every run, what is drained about a pane rises in (connection,
sequence); in one drain invalidations come first; after an invalidation no older observation is
drained; and between observations of two connections a drain tells of a loss. -/
theorem epoch_discipline (epoch : Nat) (ops : List CollectorOp) :
    ∃ drains c, (withEpoch epoch).exec ops = some (drains, c) ∧ ∀ pane,
      (drains.flatMap fun drain => (drain.about pane).events).Pairwise (fun e e' => e.stamp < e'.stamp) ∧
      (∀ drain ∈ drains, ∀ gap ∈ drain.invalidations, ∀ e ∈ drain.observations,
        gap.pane = pane → e.pane = pane → gap.stamp < e.stamp) ∧
      (∀ ops₁ ops₂ drains₁ drains₂ c₁, ops = ops₁ ++ ops₂ → (withEpoch epoch).exec ops₁ = some (drains₁, c₁) →
        c₁.exec ops₂ = some (drains₂, c) → ∀ gap ∈ c₁.created, gap.pane = pane → ∀ drain ∈ drains₂,
          ∀ e ∈ drain.observations, e.pane = pane → gap.connection ≤ e.connection) ∧
      (∀ drain ∈ drains, ∀ e ∈ drain.observations, ∀ e' ∈ drain.observations, e.pane = pane → e'.pane = pane →
        e.connection = e'.connection) ∧
      ∀ before first between second after, drains = before ++ first :: (between ++ second :: after) →
        ∀ e ∈ first.observations, ∀ e' ∈ second.observations, e.pane = pane → e'.pane = pane →
          e.connection ≠ e'.connection → ∃ drain ∈ between ++ [second], drain.allInvalidated = true ∨
            ∃ gap ∈ drain.invalidations, gap.pane = pane ∧ e.connection < gap.connection := by
  obtain ⟨drains, c, he, -⟩ := (sound_withEpoch epoch).exec ops
  refine ⟨drains, c, he, fun pane => ?_⟩
  obtain ⟨hkeyed, hordered, hdated, hmarked⟩ := disciplined he pane
  have hmem : ∀ {drain : ProgramDrain} {e : ObservedEvent}, e ∈ drain.observations → e.pane = pane →
      e ∈ (drain.about pane).observations := fun he hp => List.mem_filter.mpr ⟨he, by simp [hp]⟩
  have hrising : (drains.flatMap fun drain => (drain.about pane).events).Pairwise fun e e' => e.stamp < e'.stamp := by
    rw [← List.flatMap_map]
    exact hordered.rising.sublist (List.sublist_append_left ..)
  refine ⟨hrising, fun drain hdrain gap hgap e he hg hp => ?_, fun ops₁ ops₂ drains₁ drains₂ c₁ _ h₁ h₂ => ?_,
    fun drain hdrain e he e' he' hp hp' => ?_, fun before first between second after heq e he e' he' hp hp' hne => ?_⟩
  · have hone := (List.pairwise_flatMap.mp hrising).1 drain hdrain
    exact (List.pairwise_append.mp hone).2.2 gap (List.mem_filter.mpr ⟨hgap, by simp [hg]⟩) e (hmem he hp)
  · obtain ⟨hkeyed₁, -, hdated₁, -⟩ := disciplined h₁ pane
    obtain ⟨_, c₁', h₁', hs₁⟩ := (sound_withEpoch epoch).exec ops₁
    obtain rfl : c₁' = c₁ := congrArg Prod.snd (Option.some.inj (h₁'.symm.trans h₁))
    exact observed_after hs₁ hkeyed₁ hdated₁ h₂
  · exact hmarked.separated.same (drain.about pane) (List.mem_map_of_mem hdrain) e (hmem he hp) e' (hmem he' hp')
  · obtain ⟨drain, hdrain, hm⟩ := hmarked.separated.marked (before.map fun drain => drain.about pane) (first.about pane)
      (between.map fun drain => drain.about pane) (second.about pane) (after.map fun drain => drain.about pane)
      (by simp [heq]) e (hmem he hp) e' (hmem he' hp') hne
    have hdrain : drain ∈ (between ++ [second]).map fun drain => drain.about pane := by simpa using hdrain
    obtain ⟨drain, hin, rfl⟩ := List.mem_map.mp hdrain
    refine ⟨drain, hin, hm.imp id fun ⟨gap, hgap, hlt⟩ => ?_⟩
    obtain ⟨hgap, hg⟩ := List.mem_filter.mp hgap
    exact ⟨gap, hgap, by simpa using hg, hlt⟩

end Collector

end TmuxAgents
