/-
The watcher's presses: what they land on, what they focus, and what every event
leaves on the draw lines.
-/
import TmuxAgents.Ui.Highlight
import TmuxAgents.Ui.Surface

namespace TmuxAgents.Ui.WatchModel

/-- The draw line of the row a press lands on. -/
def landed (m : WatchModel) : Event → Option Nat
  | .mouse mouse =>
    if mouse.kind = .down then (m.lineAt mouse.col.toNat mouse.row.toNat).filter fun line => (m.rowAtLine line).isSome
    else none
  | _ => none

def surface : Surface WatchModel where
  update := update
  landed := landed
  drawn m line := (m.items[line]?).bind DisplayItem.row?
  highlight := drawSelection
  view := view

/-- The panes of an arm, line by line. -/
def panesOf (layout : WatchLayout) (arrangement : List AgentRow × List Group) : List (Option Text) :=
  (linesOf layout arrangement.1 arrangement.2).map fun line => (line.bind (arrangement.1[·]?)).map AgentRow.paneId

/-- The panes an event leaves, line by line: only other rows, another grouping and another
layout move them. -/
def panesAfter (m : WatchModel) : Event → List (Option Text)
  | .rowsRefreshed rows => panesOf m.lastLayout (arranged m.grouped (sorted rows))
  | .key (.char 'g') => panesOf m.lastLayout (arranged (!m.grouped) (sorted m.rows))
  | .key (.char 'p') => panesOf (watchLayout m.width m.pref.toggled) (m.rows, m.groups)
  | .resize width _ => panesOf (watchLayout width.toNat m.pref) (m.rows, m.groups)
  | _ => panesOf m.lastLayout (m.rows, m.groups)

def panes (m : WatchModel) : List (Option Text) := panesOf m.lastLayout (m.rows, m.groups)

/-- The pressed line keeps its pane, if a press is remembered that one at `now` is in time for. -/
def KeepsPressed (now : Nat) (m : WatchModel) (e : Event × Nat) : Prop :=
  m.rows.length ≤ mostRows ∧
    ∀ line pressed, m.view.lastClick = some (line, pressed) → now - pressed ≤ doubleClickMs →
      (m.panesAfter e.1)[line]?.join = (m.panes[line]?).join

section

variable {m : WatchModel}

@[simp] theorem panes_preview (m : WatchModel) : m.previewEffect.1.panes = m.panes := by rw [previewEffect_eq]; rfl

theorem panes_relayout (m : WatchModel) : m.relayoutAndPreview.1.panes = panesOf (watchLayout m.width m.pref) (m.rows, m.groups) := by
  have hrelayout : m.relayout.panes = panesOf (watchLayout m.width m.pref) (m.rows, m.groups) := by
    unfold relayout
    split
    · rename_i hlayout
      rw [hlayout]
      rfl
    · rfl
  rw [relayoutAndPreview, panes_preview]
  exact hrelayout

theorem panes_onKey (m : WatchModel) (k : Key) : (m.onKey k).1.panes = m.panesAfter (.key k) := by
  have hregroup := regroup_eq { m with view := m.view.setHover none, grouped := !m.grouped, rows := sorted m.rows }
  unfold WatchModel.onKey
  dsimp only
  split
  · rfl
  · rfl
  · rfl
  · rfl
  · split <;> rfl
  · split <;> rfl
  · exact panes_preview _
  · exact panes_preview _
  · exact panes_preview _
  · exact panes_preview _
  · exact panes_relayout _
  · simp only [reorderRows, hregroup]
    rfl
  · unfold panesAfter
    split <;> simp_all [panes]

theorem panes_press (m : WatchModel) (line row now : Nat) : (m.press line row now).1.panes = m.panes := by
  unfold WatchModel.press
  dsimp only
  split
  · rfl
  · exact panes_preview _

theorem panes_onMouse (m : WatchModel) (mouse : Mouse) (now : Nat) : (m.onMouse mouse now).1.panes = m.panes := by
  unfold WatchModel.onMouse
  dsimp only
  split
  · rfl
  · split
    · rfl
    · exact panes_press _ _ _ _
  · exact panes_preview _
  · exact panes_preview _

/-- What an event leaves on the lines. -/
theorem panes_next (m : WatchModel) (e : Event × Nat) : (m.next e).panes = m.panesAfter e.1 := by
  obtain ⟨ev, now⟩ := e
  unfold WatchModel.next WatchModel.update
  cases ev with
  | key k => exact panes_onKey m k
  | mouse mouse => exact panes_onMouse m mouse now
  | resize width height => exact panes_relayout _
  | rowsRefreshed rows =>
    have hregroup := regroup_eq { m with rows := sorted rows }
    refine (panes_preview _).trans ?_
    simp only [setRows, hregroup]
    rfl
  | tick | nudge | refreshFailed | previewCaptured => rfl

@[simp] theorem view_preview (m : WatchModel) : m.previewEffect.1.view = m.view := by rw [previewEffect_eq]

@[simp] theorem focusIn_preview (m : WatchModel) : focusIn m.previewEffect.2 = none := by
  unfold previewEffect
  split
  · rfl
  · exact focusIn_capture _ _

theorem focusIn_focusBatch (m : WatchModel) : focusIn m.focusBatch = m.selectedRow := by
  unfold focusBatch
  cases m.selectedRow with
  | none => rfl
  | some row => rfl

theorem lastClick_relayout (m : WatchModel) : m.relayoutAndPreview.1.view.lastClick = m.view.lastClick := by
  have hrelayout : m.relayout.view = m.view := by
    unfold relayout
    split <;> rfl
  simp [relayoutAndPreview, syncView, hrelayout]

/-- A press is a mouse event that lands on a row. -/
theorem landed_eq_some {ev : Event} {line : Nat} (h : m.landed ev = some line) (now : Nat) :
    ∃ row, m.rowAtLine line = some row ∧ m.update ev now = m.press line row now := by
  cases ev with
  | mouse mouse =>
    by_cases hdown : mouse.kind = .down
    · rw [landed, if_pos hdown] at h
      obtain ⟨hline, hrow⟩ := Option.filter_eq_some_iff.mp h
      obtain ⟨row, hrow⟩ := Option.isSome_iff_exists.mp hrow
      refine ⟨row, hrow, ?_⟩
      simp [update, Common.update, onMouse, hdown, hline, hrow]
    · rw [landed, if_neg hdown] at h
      cases h
  | key | tick | nudge | resize | rowsRefreshed | refreshFailed | previewCaptured => cases h

/-- Nothing else is remembered, or jumps. -/
theorem landed_eq_none_mouse {mouse : Mouse} (h : m.landed (.mouse mouse) = none) (now : Nat) :
    (m.update (.mouse mouse) now).1.view.lastClick = m.view.lastClick ∧ focusIn (m.update (.mouse mouse) now).2 = none := by
  have hupdate : m.update (.mouse mouse) now = m.onMouse mouse now := rfl
  rw [hupdate]
  unfold WatchModel.onMouse
  dsimp only
  split
  · exact ⟨rfl, rfl⟩
  · rename_i hdown
    rw [landed, if_pos hdown] at h
    have hnone : (m.lineAt mouse.col.toNat mouse.row.toNat).bind m.rowAtLine = none := by
      cases hline : m.lineAt mouse.col.toNat mouse.row.toNat with
      | none => rfl
      | some line => simpa [hline] using h
    rw [hnone]
    exact ⟨rfl, rfl⟩
  · simp [WatchModel.step, syncView]
  · simp [WatchModel.step, syncView]

theorem lastClick_onKey (m : WatchModel) (k : Key) : (m.onKey k).1.view.lastClick = m.view.lastClick := by
  have hregroup := regroup_eq { m with view := m.view.setHover none, grouped := !m.grouped, rows := sorted m.rows }
  unfold WatchModel.onKey
  dsimp only
  split
  · rfl
  · rfl
  · rfl
  · rfl
  · split <;> rfl
  · split <;> rfl
  · simp [WatchModel.moveBy, syncView, View.setHover]
  · simp [WatchModel.moveBy, syncView, View.setHover]
  · simp [WatchModel.moveBy, syncView, View.setHover]
  · simp [WatchModel.moveBy, syncView, View.setHover]
  · exact lastClick_relayout _
  · simp only [reorderRows, hregroup]
    exact View.lastClick_sync _ _ _ _
  · rfl

/-- Only a press changes what is remembered. -/
theorem lastClick_next {e : Event × Nat} (h : m.landed e.1 = none) : (m.next e).view.lastClick = m.view.lastClick := by
  obtain ⟨ev, now⟩ := e
  unfold WatchModel.next
  cases ev with
  | key k => exact lastClick_onKey m k
  | mouse mouse => exact (landed_eq_none_mouse h now).1
  | resize width height => exact lastClick_relayout _
  | rowsRefreshed rows =>
    have hregroup := regroup_eq { m with rows := sorted rows }
    obtain ⟨common, hnext⟩ := m.next_refresh rows now
    rw [show (m.update (.rowsRefreshed rows) now).1 = { m.setRows rows with common } from hnext]
    simp [setRows, hregroup, recomputeColumns, syncView]
  | tick | nudge | refreshFailed | previewCaptured => rfl

theorem lastClick_press (m : WatchModel) (line row now : Nat) :
    (m.press line row now).1.view.lastClick = (m.view.click line now).2.lastClick := by
  unfold WatchModel.press
  dsimp only
  split <;> simp [syncView]

theorem focusIn_press (m : WatchModel) (line row now : Nat) :
    focusIn (m.press line row now).2 = if (m.view.click line now).1 = .double then m.rows[row]? else none := by
  unfold WatchModel.press
  dsimp only
  cases hclick : (m.view.click line now).1 with
  | double => exact focusIn_focusBatch _
  | single => exact focusIn_preview _

theorem jump_landed {e : Event × Nat} {line : Nat} (hlanded : m.landed e.1 = some line) :
    ∃ row, m.rowAtLine line = some row ∧ surface.jump m e = focusIn (m.press line row e.2).2 := by
  obtain ⟨row, hrow, hupdate⟩ := landed_eq_some hlanded e.2
  refine ⟨row, hrow, ?_⟩
  obtain ⟨ev, now⟩ := e
  cases ev with
  | mouse mouse => exact congrArg (fun updated => focusIn updated.2) hupdate
  | key | tick | nudge | resize | rowsRefreshed | refreshFailed | previewCaptured => cases hlanded

theorem Arranged.drawn_eq (h : m.Arranged) (line : Nat) :
    surface.drawn m line = ((m.drawLines[line]?).join).bind (m.rows[·]?) := by
  have hitems := congrArg (·[line]?) h.items_row
  simp only [List.getElem?_map] at hitems
  unfold surface
  dsimp only
  cases hitem : m.items[line]? <;> cases hline : m.drawLines[line]? <;> simp_all

theorem Arranged.drawn_pane (h : m.Arranged) (line : Nat) :
    (surface.drawn m line).map AgentRow.paneId = (m.panes[line]?).join := by
  rw [h.drawn_eq, panes, panesOf, List.getElem?_map, ← drawLines]
  cases m.drawLines[line]? with
  | none => rfl
  | some held => cases held <;> rfl

theorem Arranged.enter (h : m.Arranged) (now : Nat) :
    surface.focused m (.key .enter, now) = surface.drawn m (surface.highlight m) := by
  have hfocused : surface.focused m (.key .enter, now) = m.selectedRow := focusIn_focusBatch _
  have hhighlight : surface.highlight m = m.drawSelection := rfl
  rw [hfocused, hhighlight, h.drawn_eq]
  by_cases hsel : m.sel < m.rows.length
  · rw [h.drawSelection_line hsel]
    rfl
  · have hrows : m.rows = [] := by
      rcases h.index with hlt | ⟨hempty, -⟩
      · exact absurd hlt hsel
      · exact List.length_eq_zero_iff.mp hempty
    rw [selectedRow, hrows]
    cases hline : (m.drawLines[m.drawSelection]?).join <;> rfl

theorem surface_remembers : surface.Remembers (fun m line => (m.panes[line]?).join) Steady where
  rest := by
    intro m e hlanded
    refine ⟨lastClick_next hlanded, ?_⟩
    obtain ⟨ev, now⟩ := e
    cases ev with
    | mouse mouse => exact (landed_eq_none_mouse hlanded now).2
    | key | tick | nudge | resize | rowsRefreshed | refreshFailed | previewCaptured => rfl
  press := by
    intro m e line hlanded
    obtain ⟨row, -, hupdate⟩ := landed_eq_some hlanded e.2
    have hnext : surface.next m e = (m.press line row e.2).1 := congrArg Prod.fst hupdate
    rw [hnext, panes_press]
    exact ⟨lastClick_press m line row e.2, rfl⟩
  single := by
    intro m e line hlanded hsingle
    obtain ⟨row, -, hjump⟩ := jump_landed hlanded
    have hclick : (m.view.click line e.2).1 = .single := hsingle
    rw [hjump, focusIn_press, hclick]
    rfl
  double := by
    intro m e line hsteady hlanded hdouble
    obtain ⟨row, hrow, hjump⟩ := jump_landed hlanded
    have hclick : (m.view.click line e.2).1 = .double := hdouble
    rw [hjump, focusIn_press, if_pos hclick, hsteady.drawn_eq, ← hsteady.rowAtLine_eq, hrow]
    rfl
  panes m h line := h.drawn_pane line
  enter m h now := h.enter now

end

end TmuxAgents.Ui.WatchModel
