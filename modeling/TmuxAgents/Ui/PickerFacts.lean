/-
What every event keeps of a picker: the highlight on the list, the listing over
the rows, and the window around the highlight, a refresh apart.

A refresh moves the window to the highlight's old index and then the highlight
to its pane, so the pane has to be in the window already (`FollowsInWindow`).
-/
import Mathlib.Data.List.Sort
import TmuxAgents.Ui.ListFacts
import TmuxAgents.Ui.Picker

namespace TmuxAgents.Ui

section

variable (score : Text → Text → Option Nat)

theorem computeVisible_lt {all : List AgentRow} {query : Text} {scope : Option Text} {i : Nat}
    (hi : i ∈ computeVisible score all query scope) : i < all.length := by
  simp only [computeVisible] at hi
  split at hi
  · exact List.mem_range.mp (List.mem_filter.mp hi).1
  · obtain ⟨scored, hscored, rfl⟩ := List.mem_map.mp hi
    rw [byScore, (List.perm_insertionSort _ _).mem_iff, List.mem_filterMap] at hscored
    obtain ⟨j, hj, hjs⟩ := hscored
    obtain ⟨row, -, hrow⟩ := Option.bind_eq_some_iff.mp hjs
    obtain ⟨n, -, rfl⟩ := Option.map_eq_some_iff.mp hrow
    exact List.mem_range.mp (List.mem_filter.mp hj).1

namespace PickerModel

/-- What the draw paints in a cell: the list is handed `scroll` as its first row. -/
def paintedAt (m : PickerModel) (col row : Nat) : Option AgentRow :=
  if m.geom.interior.Has col row then m.visibleRows[m.view.scroll + (row - m.geom.interior.y)]? else none

/-- The session the rows are narrowed to. -/
def scope (m : PickerModel) : Option Text := if m.isScoped then some m.currentSession else none

/-- The panes a listing shows, in order. -/
def panesOf (all : List AgentRow) (visible : List Nat) : List Text := (visible.filterMap (all[·]?)).map AgentRow.paneId

/-- The listing of refreshed rows. -/
def relisted (m : PickerModel) (rows : List AgentRow) : List Nat := computeVisible score (sorted rows) m.query m.scope

/-- What holds whatever the window. -/
structure Listed (m : PickerModel) : Prop where
  index : Selection.OnList m.sel m.visible.length
  visible : ∀ i ∈ m.visible, i < m.all.length
  width : m.width < 65536
  height : m.height < 65536

/-- The highlight is in the window. -/
def Windowed (m : PickerModel) : Prop :=
  0 < m.geom.viewport → m.visible ≠ [] → InWindow m.view.scroll m.visible.length m.geom.viewport m.sel

/-- The listing is over the rows, and its highlight in the window where every refresh found
its pane there (`found`). -/
structure Steady (found : Prop) (m : PickerModel) : Prop extends m.Listed where
  window : found → m.Windowed

/-- If the refreshed listing still has the highlighted pane, it has it in the window that
follows the index the highlight had. -/
def FollowsInWindow (m : PickerModel) (rows : List AgentRow) : Prop :=
  let len := (m.relisted score rows).length
  let top := windowTop m.view.scroll len m.geom.viewport (Selection.clamp m.sel len)
  ∀ r pos, m.selectedRow = some r → (panesOf (sorted rows) (m.relisted score rows)).idxOf? r.paneId = some pos →
    0 < m.geom.viewport → top ≤ pos ∧ pos < top + m.geom.viewport

section

variable {m : PickerModel} {found : Prop}

/-! ## The listing -/

theorem Listed.map_visibleRows (h : m.Listed) : m.visibleRows.map some = m.visible.map (m.all[·]?) := held_rows h.visible

theorem Listed.length_visibleRows (h : m.Listed) : m.visibleRows.length = m.visible.length := by
  simpa using congrArg List.length h.map_visibleRows

theorem Listed.visibleRows_getElem? (h : m.Listed) (i : Nat) : m.visibleRows[i]? = (m.visible[i]?).bind (m.all[·]?) := by
  have hget := congrArg (·[i]?) h.map_visibleRows
  simp only [List.getElem?_map] at hget
  cases hrow : m.visibleRows[i]? <;> cases hindex : m.visible[i]? <;> simp_all

theorem Listed.selectedRow_eq (h : m.Listed) : m.selectedRow = m.visibleRows[m.sel]? := (h.visibleRows_getElem? m.sel).symm

/-- A cell resolves to the row painted in it. -/
theorem Listed.painted_row (h : m.Listed) (col row : Nat) :
    m.paintedAt col row = (m.lineAt col row).bind (m.visibleRows[·]?) := by
  have hfits : m.geom.interior.Fits := pickerGeom_fits h.width h.height m.previewVisible
  rw [lineAt, ListGeom.indexAt_eq hfits, paintedAt]
  split
  · by_cases hline : m.view.scroll + (row - m.geom.interior.y) < m.visible.length
    · rw [Option.filter_some, decide_eq_true hline, if_pos rfl, Option.bind_some]
    · rw [Option.filter_some, decide_eq_false hline, if_neg Bool.false_ne_true,
        List.getElem?_eq_none (by rw [h.length_visibleRows]; omega)]
      rfl
  · rfl

theorem lineAt_lt {col row line : Nat} (hline : m.lineAt col row = some line) : line < m.visible.length := by
  simpa using (Option.filter_eq_some_iff.mp hline).2

/-! ## Events -/

theorem Listed.rest (h : m.Listed) (view : View) (common : Common) : Listed { m with view, common } := { h with }

theorem Listed.select (h : m.Listed) {sel : Nat} (hsel : Selection.OnList sel m.visible.length) :
    Listed { m with sel } := { h with index := hsel }

theorem Listed.steady (h : m.Listed) : m.syncView.Steady found where
  toListed := h.rest _ _
  window := by
    intro _ hview hvisible
    have hlen := List.length_pos_iff.mpr hvisible
    exact View.scroll_sync m.view m.sel hview hlen ▸ windowTop_inWindow _ hview (h.index.lt hlen)

theorem Steady.rest (h : m.Steady found) (view : View) (common : Common) (hscroll : view.scroll = m.view.scroll) :
    Steady found { m with view, common } where
  toListed := h.toListed.rest view common
  window := by
    intro hfound hview hvisible
    exact hscroll ▸ h.window hfound hview hvisible

theorem selectionPreviewEffect_eq (m : PickerModel) :
    m.selectionPreviewEffect.1 = { m with common := m.selectionPreviewEffect.1.common } := by
  unfold selectionPreviewEffect
  split <;> rfl

theorem Steady.preview (h : m.Steady found) : m.selectionPreviewEffect.1.Steady found :=
  selectionPreviewEffect_eq m ▸ h.rest _ _ rfl

/-- The listing is made again, and the window with it. -/
theorem recompute_steady (m : PickerModel) (hwidth : m.width < 65536) (hheight : m.height < 65536) :
    (m.recompute score).Steady found := by
  have hlisted : Listed { m with
      visible := computeVisible score m.all m.query m.scope
      sel := Selection.clamp m.sel (computeVisible score m.all m.query m.scope).length } :=
    { index := Selection.onList_clamp _ _, visible := fun _ => computeVisible_lt score, width := hwidth, height := hheight }
  have hsteady : Steady found _ := hlisted.steady
  exact { hsteady with }

theorem Listed.moveBy (h : m.Listed) (hmost : m.visible.length ≤ mostRows) {delta : Int} (hdelta : delta.natAbs ≤ wheelStep) :
    (m.moveBy delta).Steady found := (h.select (h.index.moveBy hmost hdelta)).steady

theorem Listed.step (h : m.Listed) (hmost : m.visible.length ≤ mostRows) {delta : Int} (hdelta : delta.natAbs ≤ wheelStep) :
    (m.step delta).Steady found := (h.select (h.index.step hmost hdelta)).steady

theorem Listed.setRows (h : m.Listed) (rows : List AgentRow) : (m.setRows score rows).Listed := by
  have hsteady : (recompute score { m with all := sorted rows }).Steady False :=
    recompute_steady score { m with all := sorted rows } h.width h.height
  refine hsteady.toListed.select ?_
  have hlength := hsteady.toListed.length_visibleRows
  rw [← hlength, ← List.length_map (f := AgentRow.paneId)]
  exact Selection.onList_reanchor _ _ _

theorem reanchor_window {ids : List Text} {anchor : Option Text} {len viewport index scroll : Nat} (hids : ids.length = len)
    (hview : 0 < viewport) (hlen : 0 < len) :
    InWindow (windowTop scroll len viewport (Selection.clamp index len)) len viewport
        (Selection.reanchor (Selection.clamp index len) ids anchor) ↔
      ∀ pane pos, anchor = some pane → ids.idxOf? pane = some pos →
        windowTop scroll len viewport (Selection.clamp index len) ≤ pos ∧
          pos < windowTop scroll len viewport (Selection.clamp index len) + viewport := by
  have hclamped := windowTop_inWindow scroll hview ((Selection.onList_clamp index len).lt hlen)
  subst hids
  cases anchor with
  | none =>
    simp only [Selection.reanchor, Selection.clamp_clamp]
    simp [hclamped]
  | some pane =>
    cases hpos : ids.idxOf? pane with
    | none =>
      rw [Selection.reanchor_lost hpos, Selection.clamp_clamp]
      refine iff_of_true hclamped ?_
      intro pane' pos hpane hfound
      cases hpane
      simp [hpos] at hfound
    | some pos =>
      rw [Selection.reanchor_found hpos]
      constructor
      · intro hwindow pane' pos' hpane hpos'
        cases hpane
        rw [hpos] at hpos'
        cases hpos'
        exact ⟨hwindow.above, hwindow.below⟩
      · intro hfound
        obtain ⟨habove, hbelow⟩ := hfound pane pos rfl hpos
        exact ⟨habove, hbelow, windowTop_le _ _ _ _⟩

/-- A refresh leaves the highlight in the window exactly if its pane was there to be found. -/
theorem windowed_setRows_iff (h : m.Listed) (rows : List AgentRow) :
    (m.setRows score rows).Windowed ↔ m.FollowsInWindow score rows := by
  have hsteady : (recompute score { m with all := sorted rows }).Steady False :=
    recompute_steady score { m with all := sorted rows } h.width h.height
  have hlength : (panesOf (sorted rows) (m.relisted score rows)).length = (m.relisted score rows).length := by
    rw [panesOf, List.length_map]
    exact hsteady.toListed.length_visibleRows
  by_cases hshown : 0 < m.geom.viewport ∧ 0 < (m.relisted score rows).length
  · obtain ⟨hview, hlen⟩ := hshown
    have hscroll := View.scroll_sync m.view (Selection.clamp m.sel (m.relisted score rows).length) hview hlen
    have hwindow : (m.setRows score rows).Windowed ↔
        InWindow (windowTop m.view.scroll (m.relisted score rows).length m.geom.viewport
            (Selection.clamp m.sel (m.relisted score rows).length)) (m.relisted score rows).length m.geom.viewport
          (Selection.reanchor (Selection.clamp m.sel (m.relisted score rows).length)
            (panesOf (sorted rows) (m.relisted score rows)) (m.selectedRow.map AgentRow.paneId)) :=
      ⟨fun hwindow => hscroll ▸ hwindow hview (List.length_pos_iff.mp hlen), fun hin _ _ => hscroll.symm ▸ hin⟩
    rw [hwindow, reanchor_window hlength hview hlen]
    constructor
    · intro hfound r pos hselected hpos _
      exact hfound r.paneId pos (by rw [hselected]; rfl) hpos
    · intro hfollows pane pos hanchor hpos
      obtain ⟨r, hselected, rfl⟩ := Option.map_eq_some_iff.mp hanchor
      exact hfollows r pos hselected hpos hview
  · refine iff_of_true ?_ ?_
    · intro hview hvisible
      exact absurd ⟨hview, List.length_pos_iff.mpr hvisible⟩ hshown
    · intro r pos _ hpos hview
      have hlt := (List.findIdx?_eq_some_iff_getElem.mp hpos).1
      exact absurd ⟨hview, hlength ▸ Nat.zero_lt_of_lt hlt⟩ hshown

/-- A refresh leaves the highlight on its pane, if that is still listed. -/
theorem Listed.setRows_keeps (h : m.Listed) {r : AgentRow} (hselected : m.selectedRow = some r) (rows : List AgentRow)
    (hkept : r.paneId ∈ (m.setRows score rows).visibleRows.map AgentRow.paneId) :
    (m.setRows score rows).selectedRow.map AgentRow.paneId = some r.paneId := by
  rw [(h.setRows score rows).selectedRow_eq, ← List.getElem?_map]
  simp only [PickerModel.setRows, hselected, Option.map_some] at hkept ⊢
  exact Selection.getElem?_reanchor hkept

theorem Steady.onKey (h : m.Steady found) (hmost : m.visible.length ≤ mostRows) (k : Key) : (m.onKey score k).1.Steady found := by
  have hkey : Steady found { m with view := m.view.setHover none } := h.rest _ m.common rfl
  unfold PickerModel.onKey
  dsimp only
  split
  · exact hkey
  · exact hkey
  · exact hkey
  · refine Steady.preview ?_
    exact recompute_steady score _ h.width h.height
  · exact (hkey.moveBy hmost (by decide)).preview
  · exact (hkey.moveBy hmost (by decide)).preview
  · refine Steady.preview ?_
    exact recompute_steady score _ h.width h.height
  · split <;> exact hkey
  · refine Steady.preview ?_
    exact recompute_steady score _ h.width h.height

theorem Steady.press (h : m.Steady found) {row : Nat} (hrow : row < m.visible.length) (now : Nat) :
    (m.press row now).1.Steady found := by
  have hpress : (syncView { m with view := (m.view.click row now).2, sel := row }).Steady found :=
    ((h.toListed.rest (m.view.click row now).2 m.common).select (.inl hrow)).steady
  unfold PickerModel.press
  dsimp only
  split
  · exact hpress
  · exact hpress.preview

theorem Steady.onMouse (h : m.Steady found) (hmost : m.visible.length ≤ mostRows) (mouse : Mouse) (now : Nat) :
    (m.onMouse mouse now).1.Steady found := by
  unfold PickerModel.onMouse
  dsimp only
  split
  · exact h.rest _ m.common rfl
  · split
    · exact h
    · rename_i row hrow
      exact h.press (lineAt_lt hrow) now
  · exact (h.step hmost (by decide)).preview
  · exact (h.step hmost (by decide)).preview

theorem Steady.onResize (h : m.Steady found) {width height : Nat} (hwidth : width < 65536) (hheight : height < 65536) :
    (m.onResize width height).1.Steady found := by
  refine (Listed.steady ?_).preview
  exact { index := h.index, visible := h.visible, width := hwidth, height := hheight }

/-- Every event leaves the listing over the rows, and its highlight in the window where
refreshes find its pane there. -/
theorem Steady.update (h : m.Steady found) (hmost : m.visible.length ≤ mostRows) {ev : Event}
    (hrefresh : found → ∀ rows, ev = .rowsRefreshed rows → m.FollowsInWindow score rows) (now : Nat) :
    (m.update score ev now).1.Steady found := by
  unfold PickerModel.update
  split
  · exact h.rest _ _ rfl
  · split
    · exact h.onKey score hmost _
    · exact h.onMouse hmost _ now
    · rename_i width height _
      exact h.onResize width.toNat_lt height.toNat_lt
    · rename_i rows _
      have hsteady : (m.setRows score rows).Steady found :=
        ⟨h.setRows score rows, fun hfound => (windowed_setRows_iff score h.toListed rows).mpr (hrefresh hfound rows rfl)⟩
      exact (hsteady.rest _ _ rfl).preview
    all_goals exact h

end

end PickerModel

end

end TmuxAgents.Ui
