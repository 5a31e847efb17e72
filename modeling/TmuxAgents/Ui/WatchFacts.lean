/-
What every event keeps of a watcher: the highlight on the list, the groups over
the rows, the layout the frame derives, and the window around the highlight.

`drawLines` says what each draw line holds. The hit-test, the painted items and
the highlight's line are all read off it.
-/
import TmuxAgents.Ui.GroupFacts
import TmuxAgents.Ui.ListFacts
import TmuxAgents.Ui.Watch

namespace TmuxAgents.Ui

/-- The row of an item, none for a header. -/
def DisplayItem.row? : DisplayItem → Option AgentRow
  | .header _ => none
  | .row r => some r

theorem DisplayItem.row?_eq_some {item : DisplayItem} {r : AgentRow} : item.row? = some r ↔ item = .row r := by
  cases item <;> simp [DisplayItem.row?]

namespace WatchModel

/-- The rows as the `grouped` flag arranges them. -/
def arranged (grouped : Bool) (rows : List AgentRow) : List AgentRow × List Group :=
  if grouped then regroupRows rows else (rows, [])

/-- What each line of an arm holds: a row, or a header. -/
def linesOf (layout : WatchLayout) (rows : List AgentRow) (groups : List Group) : List (Option Nat) :=
  if layout ≠ .listOnly && !groups.isEmpty then lines groups else (List.range rows.length).map some

def drawLines (m : WatchModel) : List (Option Nat) := linesOf m.lastLayout m.rows m.groups

/-- What the draw paints in a cell: the list is handed `scroll` as its first line. -/
def paintedAt (m : WatchModel) (col row : Nat) : Option DisplayItem :=
  if m.geom.interior.Has col row then m.items[m.view.scroll + (row - m.geom.interior.y)]? else none

/-- The groups are over the rows, and there where the rows are grouped. -/
structure Tied (grouped : Bool) (rows : List AgentRow) (groups : List Group) : Prop where
  covers : groups ≠ [] → Contiguous 0 groups ∧ rowCount groups = rows.length
  flat : groups = [] ↔ grouped = false ∨ rows = []

/-- What holds whatever the window. -/
structure Arranged (m : WatchModel) : Prop where
  index : Selection.OnList m.sel m.rows.length
  tied : Tied m.grouped m.rows m.groups
  layout : m.lastLayout = watchLayout m.width m.pref
  width : m.width < 65536
  height : m.height < 65536

/-- The highlight's line is in the window. -/
def Windowed (m : WatchModel) : Prop :=
  0 < m.geom.viewport → m.rows ≠ [] → InWindow m.view.scroll m.drawLen m.geom.viewport m.drawSelection

/-! ## Lines -/

theorem usesHeaders_iff {m : WatchModel} : m.usesHeaders = true ↔ m.lastLayout ≠ .listOnly ∧ m.groups ≠ [] := by
  simp [usesHeaders]

theorem drawLines_headers {m : WatchModel} (h : m.usesHeaders = true) : m.drawLines = lines m.groups := if_pos h

theorem drawLines_flat {m : WatchModel} (h : ¬m.usesHeaders = true) : m.drawLines = (List.range m.rows.length).map some :=
  if_neg h

/-- Contiguous groups are drawn line for line. -/
theorem groups_row {rows : List AgentRow} {groups : List Group} {start : Nat} (hlen : start + rowCount groups ≤ rows.length)
    (h : Contiguous start groups) :
    (groups.flatMap fun g => .header g.name :: (g.members.filterMap (rows[·]?)).map DisplayItem.row).map DisplayItem.row? =
      (lines groups).map fun line => line.bind (rows[·]?) := by
  induction groups generalizing start with
  | nil => rfl
  | cons g groups ih =>
    obtain ⟨-, hmembers, hrest⟩ := h
    rw [rowCount_cons] at hlen
    have hrows : ∀ i ∈ g.members, i < rows.length := by
      intro i hi
      have hrange := (mem_members hmembers).mp hi
      omega
    have hrow : DisplayItem.row? ∘ DisplayItem.row = some := rfl
    rw [List.flatMap_cons, List.map_append, ih (by omega) hrest, lines, List.map_cons, List.map_map, hrow, held_rows hrows]
    simp [DisplayItem.row?, Function.comp_def]

section

variable {m : WatchModel} (h : m.Arranged)

include h

theorem Arranged.drawLen_eq : m.drawLen = m.drawLines.length := by
  by_cases hheaders : m.usesHeaders = true
  · obtain ⟨-, hcount⟩ := h.tied.covers (usesHeaders_iff.mp hheaders).2
    rw [drawLen, if_pos hheaders, drawLines_headers hheaders, ← hcount, displayLen_eq (usesHeaders_iff.mp hheaders).2]
  · simp [drawLen, hheaders, drawLines_flat hheaders]

theorem Arranged.rowAtLine_eq (line : Nat) : m.rowAtLine line = (m.drawLines[line]?).join := by
  by_cases hheaders : m.usesHeaders = true
  · obtain ⟨hcontiguous, hcount⟩ := h.tied.covers (usesHeaders_iff.mp hheaders).2
    rw [rowAtLine, if_pos hheaders, drawLines_headers hheaders, ← hcount,
      rowAtDisplay_line hcontiguous (usesHeaders_iff.mp hheaders).2]
    cases (lines m.groups)[line]? <;> rfl
  · rw [rowAtLine, if_neg hheaders, drawLines_flat hheaders]
    by_cases hline : line < m.rows.length <;> simp [hline]

/-- The highlighted row is on the highlight's line. -/
theorem Arranged.drawSelection_line (hsel : m.sel < m.rows.length) : m.drawLines[m.drawSelection]? = some (some m.sel) := by
  by_cases hheaders : m.usesHeaders = true
  · obtain ⟨hcontiguous, hcount⟩ := h.tied.covers (usesHeaders_iff.mp hheaders).2
    rw [drawSelection, if_pos hheaders, drawLines_headers hheaders, displayIndex_line hcontiguous (hcount ▸ hsel)]
  · rw [drawSelection, if_neg hheaders, drawLines_flat hheaders]
    simp [hsel]

theorem Arranged.drawSelection_lt (hrows : m.rows ≠ []) : m.drawSelection < m.drawLen := by
  have hsel := h.index.lt (List.length_pos_iff.mpr hrows)
  rw [h.drawLen_eq]
  exact (List.getElem?_eq_some_iff.mp (h.drawSelection_line hsel)).1

theorem Arranged.line_lt {i : Nat} (hi : some i ∈ m.drawLines) : i < m.rows.length := by
  by_cases hheaders : m.usesHeaders = true
  · obtain ⟨hcontiguous, hcount⟩ := h.tied.covers (usesHeaders_iff.mp hheaders).2
    rw [drawLines_headers hheaders, mem_lines hcontiguous] at hi
    omega
  · rw [drawLines_flat hheaders] at hi
    simpa using hi

/-- The items drawn are the rows of the lines. -/
theorem Arranged.items_row : m.items.map DisplayItem.row? = m.drawLines.map fun line => line.bind (m.rows[·]?) := by
  have hflat : ((m.rows.map DisplayItem.row).map DisplayItem.row?) =
      ((List.range m.rows.length).map some).map fun line => line.bind (m.rows[·]?) := by
    rw [List.map_map, List.map_map]
    apply List.ext_getElem <;> simp [DisplayItem.row?]
  by_cases hnarrow : m.lastLayout = .listOnly
  · rw [items, if_pos hnarrow, drawLines_flat (by simp [usesHeaders, hnarrow]), hflat]
  rw [items, if_neg hnarrow, displayItems]
  by_cases hgroups : m.groups = []
  · rw [drawLines_flat (by simp [usesHeaders, hgroups]), ← hflat, hgroups]
    rcases h.tied.flat.mp hgroups with hgrouped | hrows
    · simp [hgrouped]
    · simp [hrows]
  · have hgrouped : m.grouped = true := by
      by_contra hflat
      exact hgroups (h.tied.flat.mpr (.inl (by simpa using hflat)))
    rw [drawLines_headers (usesHeaders_iff.mpr ⟨hnarrow, hgroups⟩), hgrouped]
    obtain ⟨hcontiguous, hcount⟩ := h.tied.covers hgroups
    simpa using groups_row (Nat.le_of_eq (by omega)) hcontiguous

/-- A cell is a row where its line is one. -/
theorem Arranged.cell_row (col row : Nat) : (m.lineAt col row).bind m.rowAtLine =
    if m.geom.interior.Has col row then (m.drawLines[m.view.scroll + (row - m.geom.interior.y)]?).join else none := by
  have hfits : m.geom.interior.Fits := watchGeom_fits h.width h.height m.lastLayout
  rw [lineAt, ListGeom.indexAt_eq hfits]
  split
  · by_cases hline : m.view.scroll + (row - m.geom.interior.y) < m.drawLen
    · rw [Option.filter_some, decide_eq_true hline, if_pos rfl, Option.bind_some, h.rowAtLine_eq]
    · rw [Option.filter_some, decide_eq_false hline, if_neg Bool.false_ne_true,
        List.getElem?_eq_none (by rw [← h.drawLen_eq]; omega)]
      rfl
  · rfl

/-- Where a row is painted, a cell resolves to it, and nowhere else to one. -/
theorem Arranged.painted_row (col row : Nat) :
    (m.paintedAt col row).bind DisplayItem.row? = ((m.lineAt col row).bind m.rowAtLine).bind (m.rows[·]?) := by
  rw [h.cell_row, paintedAt]
  split
  · have hline := congrArg (·[m.view.scroll + (row - m.geom.interior.y)]?) h.items_row
    simp only [List.getElem?_map] at hline
    cases hitem : m.items[m.view.scroll + (row - m.geom.interior.y)]? <;>
      cases hdrawn : m.drawLines[m.view.scroll + (row - m.geom.interior.y)]? <;> simp_all
  · rfl

theorem Arranged.cell_lt {col row i : Nat} (hi : (m.lineAt col row).bind m.rowAtLine = some i) : i < m.rows.length := by
  rw [h.cell_row] at hi
  split at hi
  · exact h.line_lt (List.mem_of_getElem? (Option.join_eq_some_iff.mp hi))
  · cases hi

end

/-! ## Events -/

theorem tied_arranged (grouped : Bool) (rows : List AgentRow) :
    Tied grouped (arranged grouped rows).1 (arranged grouped rows).2 := by
  cases grouped with
  | false => constructor <;> simp [arranged]
  | true =>
    constructor
    · exact fun _ => ⟨regroupRows_contiguous rows, rowCount_regroupRows rows⟩
    · simp only [arranged, if_true, Bool.true_eq_false, false_or]
      have hcount := rowCount_regroupRows rows
      constructor
      · intro hgroups
        rw [hgroups] at hcount
        exact List.length_eq_zero_iff.mp hcount.symm
      · intro hrows
        rw [List.length_eq_zero_iff.mp ((length_regroupRows rows).symm.trans (by rw [hrows]; rfl))]
        rfl

theorem regroup_eq (m : WatchModel) :
    m.regroup = { m with rows := (arranged m.grouped m.rows).1, groups := (arranged m.grouped m.rows).2 } := by
  unfold regroup arranged
  cases hgrouped : m.grouped <;> simp

/-- The list is arranged, and its highlight in the window. -/
structure Steady (m : WatchModel) : Prop extends m.Arranged where
  window : m.Windowed

section

variable {m : WatchModel}

theorem Arranged.select (h : m.Arranged) {sel : Nat} (hsel : Selection.OnList sel m.rows.length) :
    Arranged { m with sel } := { h with index := hsel }

theorem Arranged.rest (h : m.Arranged) (view : View) (common : Common) : Arranged { m with view, common } := { h with }

/-- Every change of the list ends here. -/
theorem Arranged.steady (h : m.Arranged) : m.syncView.Steady where
  toArranged := h.rest _ _
  window := by
    intro hview hrows
    have hlen : 0 < m.drawLen := Nat.zero_lt_of_lt (h.drawSelection_lt hrows)
    exact View.scroll_sync m.view m.drawSelection hview hlen ▸ windowTop_inWindow _ hview (h.drawSelection_lt hrows)

theorem Steady.rest (h : m.Steady) (view : View) (common : Common) (hscroll : view.scroll = m.view.scroll) :
    Steady { m with view, common } where
  toArranged := h.toArranged.rest view common
  window := by
    intro hview hrows
    exact hscroll ▸ h.window hview hrows

theorem previewEffect_eq (m : WatchModel) : m.previewEffect.1 = { m with common := m.previewEffect.1.common } := by
  unfold previewEffect
  split <;> rfl

theorem Steady.preview (h : m.Steady) : m.previewEffect.1.Steady := previewEffect_eq m ▸ h.rest _ _ rfl

theorem Arranged.moveBy (h : m.Arranged) (hmost : m.rows.length ≤ mostRows) {delta : Int} (hdelta : delta.natAbs ≤ wheelStep) :
    (m.moveBy delta).Steady := (h.select (h.index.moveBy hmost hdelta)).steady

theorem Arranged.step (h : m.Arranged) (hmost : m.rows.length ≤ mostRows) {delta : Int} (hdelta : delta.natAbs ≤ wheelStep) :
    (m.step delta).Steady := (h.select (h.index.step hmost hdelta)).steady

theorem Arranged.setRows (h : m.Arranged) (rows : List AgentRow) : (m.setRows rows).Steady := by
  have hregroup := regroup_eq { m with rows := sorted rows }
  simp only [WatchModel.setRows, hregroup, recomputeColumns]
  apply Arranged.steady
  refine { h with index := ?_, tied := tied_arranged m.grouped (sorted rows) }
  simpa using Selection.onList_reanchor m.sel ((arranged m.grouped (sorted rows)).1.map AgentRow.paneId) _

/-- The `g` toggle. -/
theorem Arranged.toggle (h : m.Arranged) : (reorderRows { m with grouped := !m.grouped }).Steady := by
  have hregroup := regroup_eq { m with grouped := !m.grouped, rows := sorted m.rows }
  simp only [reorderRows, hregroup]
  apply Arranged.steady
  refine { h with index := ?_, tied := tied_arranged (!m.grouped) (sorted m.rows) }
  simpa using Selection.onList_reanchor m.sel ((arranged (!m.grouped) (sorted m.rows)).1.map AgentRow.paneId) _

/-- A new frame or preference: the layout is derived again. -/
theorem Arranged.relayout (h : m.Arranged) {width height : Nat} (hwidth : width < 65536) (hheight : height < 65536)
    (pref : WidePref) : (relayoutAndPreview { m with width, height, pref }).1.Steady := by
  refine (Arranged.steady ?_).preview
  unfold WatchModel.relayout
  split
  · rename_i hlayout
    exact { h with layout := hlayout.symm, width := hwidth, height := hheight }
  · exact { h with layout := rfl, width := hwidth, height := hheight }

theorem Steady.onKey (h : m.Steady) (hmost : m.rows.length ≤ mostRows) (k : Key) : (m.onKey k).1.Steady := by
  have hkey : Steady { m with view := m.view.setHover none } := h.rest _ m.common rfl
  have hmove : ∀ delta : Int, delta.natAbs ≤ wheelStep →
      (WatchModel.moveBy { m with view := m.view.setHover none } delta).previewEffect.1.Steady :=
    fun delta hdelta => (hkey.moveBy hmost hdelta).preview
  unfold WatchModel.onKey
  dsimp only
  split
  · exact hkey
  · exact hkey
  · exact hkey
  · exact hkey
  · split <;> exact hkey
  · split <;> exact hkey
  · exact hmove (-1) (by decide)
  · exact hmove (-1) (by decide)
  · exact hmove 1 (by decide)
  · exact hmove 1 (by decide)
  · exact hkey.relayout hkey.width hkey.height _
  · exact hkey.toggle
  · exact hkey

theorem Steady.press (h : m.Steady) (line now : Nat) {row : Nat} (hrow : row < m.rows.length) :
    (m.press line row now).1.Steady := by
  have hpress : (syncView { m with view := (m.view.click line now).2, sel := row }).Steady :=
    ((h.toArranged.rest (m.view.click line now).2 m.common).select (.inl hrow)).steady
  unfold WatchModel.press
  dsimp only
  split
  · exact hpress
  · exact hpress.preview

theorem Steady.onMouse (h : m.Steady) (hmost : m.rows.length ≤ mostRows) (mouse : Mouse) (now : Nat) :
    (m.onMouse mouse now).1.Steady := by
  unfold WatchModel.onMouse
  dsimp only
  split
  · exact h.rest _ m.common rfl
  · split
    · exact h
    · rename_i row hrow
      exact h.press _ now (h.cell_lt hrow)
  · exact (h.step hmost (by decide)).preview
  · exact (h.step hmost (by decide)).preview

/-- Every event leaves the list arranged, and its highlight in the window. -/
theorem Steady.update (h : m.Steady) (hmost : m.rows.length ≤ mostRows) (ev : Event) (now : Nat) :
    (m.update ev now).1.Steady := by
  unfold WatchModel.update
  split
  · exact h.rest _ _ rfl
  · split
    · exact h.onKey hmost _
    · exact h.onMouse hmost _ now
    · rename_i width height _
      exact h.relayout width.toNat_lt height.toNat_lt m.pref
    · exact ((h.setRows _).rest _ _ rfl).preview
    all_goals exact h

end

/-- A refresh leaves the highlight on its pane, if that is still listed. -/
theorem setRows_keeps {m : WatchModel} {r : AgentRow} (hselected : m.selectedRow = some r) (rows : List AgentRow)
    (hlisted : r.paneId ∈ (m.setRows rows).rows.map AgentRow.paneId) :
    (m.setRows rows).selectedRow.map AgentRow.paneId = some r.paneId := by
  have hregroup := regroup_eq { m with rows := sorted rows }
  simp only [setRows, hregroup, recomputeColumns, syncView, hselected, Option.map_some] at hlisted ⊢
  rw [selectedRow, ← List.getElem?_map]
  exact Selection.getElem?_reanchor hlisted

/-- A watcher before its first frame. -/
theorem new_steady (rows : List AgentRow) (pref : WidePref) (now : Nat) (exitOnJump : Bool) :
    ((new rows pref now).withExitOnJump exitOnJump).Steady := by
  have hregroup := regroup_eq
    { rows := sorted rows, pref, lastLayout := watchLayout 0 pref, common := Common.new now : WatchModel }
  simp only [new, withExitOnJump, hregroup, recomputeColumns]
  refine ⟨⟨?_, tied_arranged true (sorted rows), rfl, Nat.zero_lt_succ _, Nat.zero_lt_succ _⟩, ?_⟩
  · rcases Nat.eq_zero_or_pos (arranged true (sorted rows)).1.length with hempty | hrows
    · exact .inr ⟨hempty, rfl⟩
    · exact .inl hrows
  · intro hview
    cases pref <;> exact absurd hview (Nat.lt_irrefl 0)

end WatchModel

end TmuxAgents.Ui
