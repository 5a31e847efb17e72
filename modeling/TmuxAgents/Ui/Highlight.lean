/-
The highlight of the live lists, over every run of events.

The watcher keeps it valid and in the window. So does the picker, but for a
refresh: `set_rows` there moves the window first and the highlight after.
-/
import TmuxAgents.Lib.Run
import TmuxAgents.Ui.PickerFacts
import TmuxAgents.Ui.WatchFacts

namespace TmuxAgents.Ui

open Run

/-! ## What a list shows -/

namespace WatchModel

/-- An event and when it came. -/
def next (m : WatchModel) (e : Event × Nat) : WatchModel := (m.update e.1 e.2).1

structure Shown (m : WatchModel) : Prop where
  index : m.sel < m.rows.length ∨ m.rows = [] ∧ m.sel = 0
  line : ∀ r, m.selectedRow = some r → m.items[m.drawSelection]? = some (.row r)
  window : 0 < m.geom.viewport → m.rows ≠ [] → InWindow m.view.scroll m.drawLen m.geom.viewport m.drawSelection
  refresh : ∀ rows now r, m.selectedRow = some r →
    r.paneId ∈ (m.next (.rowsRefreshed rows, now)).rows.map AgentRow.paneId →
    (m.next (.rowsRefreshed rows, now)).selectedRow.map AgentRow.paneId = some r.paneId
  listed : ∀ col row i, (m.lineAt col row).bind m.rowAtLine = some i → i < m.rows.length
  cell : ∀ col row, ((m.lineAt col row).bind m.rowAtLine).bind (m.rows[·]?) = (m.paintedAt col row).bind DisplayItem.row?
  layout : m.lastLayout = watchLayout m.width m.pref

theorem Arranged.items_getElem? {m : WatchModel} (h : m.Arranged) {line i : Nat} (hline : m.drawLines[line]? = some (some i)) :
    (m.items[line]?).bind DisplayItem.row? = m.rows[i]? := by
  have hitems := congrArg (·[line]?) h.items_row
  simp only [List.getElem?_map, hline, Option.map_some, Option.bind_some] at hitems
  obtain ⟨item, hitem, hrow⟩ := Option.map_eq_some_iff.mp hitems
  rw [hitem, Option.bind_some, hrow]

theorem next_refresh (m : WatchModel) (rows : List AgentRow) (now : Nat) :
    ∃ common, m.next (.rowsRefreshed rows, now) = { m.setRows rows with common } := ⟨_, previewEffect_eq _⟩

theorem Steady.shown {m : WatchModel} (h : m.Steady) : m.Shown where
  index := by
    rcases h.index with hlt | ⟨hempty, hzero⟩
    · exact .inl hlt
    · exact .inr ⟨List.length_eq_zero_iff.mp hempty, hzero⟩
  line := by
    intro r hselected
    have hsel := (List.getElem?_eq_some_iff.mp hselected).1
    have hitem := h.items_getElem? (h.drawSelection_line hsel)
    rw [← selectedRow, hselected] at hitem
    obtain ⟨item, hget, hrow⟩ := Option.bind_eq_some_iff.mp hitem
    rw [hget, DisplayItem.row?_eq_some.mp hrow]
  window := h.window
  refresh := by
    intro rows now r hselected hlisted
    obtain ⟨common, hnext⟩ := m.next_refresh rows now
    rw [hnext] at hlisted ⊢
    exact setRows_keeps hselected rows hlisted
  listed _ _ _ := h.cell_lt
  cell col row := (h.painted_row col row).symm
  layout := h.layout

end WatchModel

namespace PickerModel

variable (score : Text → Text → Option Nat)

def next (m : PickerModel) (e : Event × Nat) : PickerModel := (m.update score e.1 e.2).1

structure Shown (m : PickerModel) : Prop where
  index : m.sel < m.visible.length ∨ m.visible = [] ∧ m.sel = 0
  line : ∀ r, m.selectedRow = some r → m.visibleRows[m.sel]? = some r
  window : 0 < m.geom.viewport → m.visible ≠ [] → InWindow m.view.scroll m.visible.length m.geom.viewport m.sel
  refresh : ∀ rows now r, m.selectedRow = some r →
    r.paneId ∈ (m.next score (.rowsRefreshed rows, now)).visibleRows.map AgentRow.paneId →
    (m.next score (.rowsRefreshed rows, now)).selectedRow.map AgentRow.paneId = some r.paneId
  listed : ∀ col row i, m.lineAt col row = some i → i < m.visible.length
  cell : ∀ col row, (m.lineAt col row).bind (m.visibleRows[·]?) = m.paintedAt col row

theorem next_refresh (m : PickerModel) (rows : List AgentRow) (now : Nat) :
    ∃ common, m.next score (.rowsRefreshed rows, now) = { m.setRows score rows with common } :=
  ⟨_, selectionPreviewEffect_eq _⟩

theorem Steady.shown {m : PickerModel} (h : m.Steady True) : m.Shown score where
  index := by
    rcases h.index with hlt | ⟨hempty, hzero⟩
    · exact .inl hlt
    · exact .inr ⟨List.length_eq_zero_iff.mp hempty, hzero⟩
  line := by
    intro r hselected
    rw [← h.selectedRow_eq, hselected]
  window := h.window trivial
  refresh := by
    intro rows now r hselected hlisted
    obtain ⟨common, hnext⟩ := m.next_refresh score rows now
    rw [hnext] at hlisted ⊢
    exact h.setRows_keeps score hselected rows hlisted
  listed _ _ _ := lineAt_lt
  cell col row := (h.painted_row col row).symm

/-- What the picker's window needs of an event. -/
def Follows (m : PickerModel) (e : Event × Nat) : Prop :=
  m.visible.length ≤ mostRows ∧ ∀ rows, e.1 = .rowsRefreshed rows → m.FollowsInWindow score rows

theorem run_steady {m : PickerModel} (h : m.Steady True) {events : List (Event × Nat)}
    (hevents : Along (next score) (Follows score) m events) : (run (next score) m events).Steady True :=
  hevents.invariant (fun _ m => m.Steady True) h fun _ e hm hgood => hm.update score hgood.1 (fun _ => hgood.2) e.2

end PickerModel

theorem WatchModel.run_steady {m : WatchModel} (h : m.Steady) {events : List (Event × Nat)}
    (hevents : Along next (fun m _ => m.rows.length ≤ mostRows) m events) : (run next m events).Steady :=
  hevents.invariant (fun _ m => m.Steady) h fun _ e hm hmost => hm.update hmost e.1 e.2

/-- **The highlight stays valid and visible.** The watcher's does over every run of lists that
`i32` can count. The picker's does while every refresh that still lists the highlighted pane
lists it in the window that follows the highlight's old index, and a refresh that does not
puts the highlight out of the window. -/
theorem highlight_shown (score : Text → Text → Option Nat) :
    (∀ rows pref now exitOnJump events,
      Along WatchModel.next (fun m _ => m.rows.length ≤ mostRows) ((WatchModel.new rows pref now).withExitOnJump exitOnJump)
        events →
      (run WatchModel.next ((WatchModel.new rows pref now).withExitOnJump exitOnJump) events).Shown) ∧
    (∀ rows session now events,
      Along (PickerModel.next score) (PickerModel.Follows score) (PickerModel.new score rows session now) events →
      (run (PickerModel.next score) (PickerModel.new score rows session now) events).Shown score ∧
      ∀ refreshed later,
        ((run (PickerModel.next score) (PickerModel.new score rows session now) events).next score
          (.rowsRefreshed refreshed, later)).Windowed ↔
        (run (PickerModel.next score) (PickerModel.new score rows session now) events).FollowsInWindow score refreshed) := by
  constructor
  · intro rows pref now exitOnJump events hevents
    exact (WatchModel.run_steady (WatchModel.new_steady rows pref now exitOnJump) hevents).shown
  · intro rows session now events hevents
    have hnew : (PickerModel.new score rows session now).Steady True :=
      PickerModel.recompute_steady score _ (Nat.zero_lt_succ _) (Nat.zero_lt_succ _)
    have hrun := PickerModel.run_steady score hnew hevents
    refine ⟨hrun.shown score, fun refreshed later => ?_⟩
    obtain ⟨common, hnext⟩ := PickerModel.next_refresh score _ refreshed later
    rw [hnext, ← PickerModel.windowed_setRows_iff score hrun.toListed refreshed]
    rfl

/-- A frame of one body line per row, and a refresh that swaps two rows in it. -/
theorem highlight_shown_swap :
    (run WatchModel.next ((WatchModel.new [rowIn ['1'] ['a'] 1, rowIn ['2'] ['a'] 2] .preview 0).withExitOnJump false)
      [(.resize 40 5, 0), (.rowsRefreshed [rowIn ['1'] ['a'] 3, rowIn ['2'] ['a'] 2], 1000)]).Shown ∧
    (run (PickerModel.next fun _ _ => none) (PickerModel.new (fun _ _ => none) [rowIn ['1'] ['a'] 1, rowIn ['2'] ['a'] 2] [] 0)
      [(.resize 40 5, 0), (.rowsRefreshed [rowIn ['1'] ['a'] 3, rowIn ['2'] ['a'] 2], 1000)]).Shown fun _ _ => none := by
  constructor
  · refine (highlight_shown fun _ _ => none).1 _ _ _ _ _ ?_
    exact ((Along.nil _).concat (by decide)).concat (by decide)
  · refine ((highlight_shown fun _ _ => none).2 _ _ _ _ ?_).1
    refine ((Along.nil _).concat ⟨by decide, nofun⟩).concat ⟨by decide, ?_⟩
    intro rows hrows
    cases hrows
    intro r pos _ hpos _
    have hlt : pos < 2 := (List.findIdx?_eq_some_iff_getElem.mp hpos).1
    constructor
    · exact Nat.zero_le pos
    · exact hlt

/-- A refresh that moves the highlighted pane down a list of two leaves a window of one line
on the other pane. -/
theorem refresh_loses_highlight :
    ¬ ∀ (rows : List AgentRow) (session : Text) (now : Nat) (events : List (Event × Nat)),
      (rows.map AgentRow.paneId).Nodup →
      (∀ refreshed later, (.rowsRefreshed refreshed, later) ∈ events → (refreshed.map AgentRow.paneId).Nodup) →
      (run (PickerModel.next fun _ _ => none) (PickerModel.new (fun _ _ => none) rows session now) events).Windowed := by
  intro h
  have hwindow := h [rowIn ['1'] ['a'] 1, rowIn ['2'] ['a'] 2] [] 0
    [(.resize 40 4, 0), (.rowsRefreshed [rowIn ['1'] ['a'] 3, rowIn ['2'] ['a'] 2], 1000)] (by decide) (by
      intro refreshed later hmem
      simp only [List.mem_cons, Prod.mk.injEq, reduceCtorEq, false_and, Event.rowsRefreshed.injEq, List.not_mem_nil,
        or_false, false_or] at hmem
      rw [hmem.1]
      decide) (by decide) (by decide)
  exact absurd hwindow.below (by decide)

end TmuxAgents.Ui
