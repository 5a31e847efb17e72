/-
The picker's presses: what they land on, what they focus, and what every event
leaves on the draw lines.
-/
import TmuxAgents.Ui.Highlight
import TmuxAgents.Ui.Surface

namespace TmuxAgents.Ui.PickerModel

/-- The draw line of the row a press lands on. -/
def landed (m : PickerModel) : Event → Option Nat
  | .mouse mouse => if mouse.kind = .down then m.lineAt mouse.col.toNat mouse.row.toNat else none
  | _ => none

def panes (m : PickerModel) : List Text := panesOf m.all m.visible

section

variable (score : Text → Text → Option Nat)

def surface : Surface PickerModel where
  update := update score
  landed := landed
  drawn m line := m.visibleRows[line]?
  highlight := sel
  view := view

/-- The panes an event leaves, line by line: only other rows, another scope and another query
move them. -/
def panesAfter (m : PickerModel) : Event → List Text
  | .rowsRefreshed rows => panesOf (sorted rows) (m.relisted score rows)
  | .key .ctrlS => panesOf m.all (computeVisible score m.all m.query (scope { m with isScoped := !m.isScoped }))
  | .key .backspace => panesOf m.all (computeVisible score m.all m.query.dropLast m.scope)
  | .key (.char c) => panesOf m.all (computeVisible score m.all (m.query ++ [c]) m.scope)
  | _ => panesOf m.all m.visible

/-- The pressed line keeps its pane, if a press is remembered that one at `now` is in time for. -/
def KeepsPressed (now : Nat) (m : PickerModel) (e : Event × Nat) : Prop :=
  m.visible.length ≤ mostRows ∧
    ∀ line pressed, m.view.lastClick = some (line, pressed) → now - pressed ≤ doubleClickMs →
      (m.panesAfter score e.1)[line]? = m.panes[line]?

variable {m : PickerModel}

@[simp] theorem view_preview (m : PickerModel) : m.selectionPreviewEffect.1.view = m.view := by
  rw [selectionPreviewEffect_eq]

@[simp] theorem panes_preview (m : PickerModel) : m.selectionPreviewEffect.1.panes = m.panes := by
  rw [selectionPreviewEffect_eq]
  rfl

@[simp] theorem focusIn_preview (m : PickerModel) : focusIn m.selectionPreviewEffect.2 = none := by
  unfold selectionPreviewEffect
  split
  · rfl
  · exact focusIn_capture _ _

theorem focusIn_focusBatch (m : PickerModel) : focusIn m.focusBatch = m.selectedRow := by
  unfold focusBatch
  cases m.selectedRow with
  | none => rfl
  | some row => rfl

/-! ## What events leave -/

theorem panes_onKey (m : PickerModel) (k : Key) : (m.onKey score k).1.panes = m.panesAfter score (.key k) := by
  unfold PickerModel.onKey
  dsimp only
  cases k with
  | esc | ctrlC | enter => rfl
  | tab => dsimp only; split <;> rfl
  | up | down | ctrlS | backspace | char => exact panes_preview _

theorem panes_press (m : PickerModel) (line now : Nat) : (m.press line now).1.panes = m.panes := by
  unfold PickerModel.press
  dsimp only
  split
  · rfl
  · exact panes_preview _

theorem panes_onMouse (m : PickerModel) (mouse : Mouse) (now : Nat) : (m.onMouse mouse now).1.panes = m.panes := by
  unfold PickerModel.onMouse
  dsimp only
  split
  · rfl
  · split
    · rfl
    · exact panes_press _ _ _
  · exact panes_preview _
  · exact panes_preview _

/-- What an event leaves on the lines. -/
theorem panes_next (m : PickerModel) (e : Event × Nat) : (m.next score e).panes = m.panesAfter score e.1 := by
  obtain ⟨ev, now⟩ := e
  unfold PickerModel.next PickerModel.update
  cases ev with
  | key k => exact panes_onKey score m k
  | mouse mouse => exact panes_onMouse m mouse now
  | resize width height => exact panes_preview _
  | rowsRefreshed rows => exact panes_preview _
  | tick | nudge | refreshFailed | previewCaptured => rfl

theorem lastClick_onKey (m : PickerModel) (k : Key) : (m.onKey score k).1.view.lastClick = m.view.lastClick := by
  unfold PickerModel.onKey
  dsimp only
  cases k with
  | esc | ctrlC | enter => rfl
  | tab => dsimp only; split <;> rfl
  | up | down => simp [PickerModel.moveBy, syncView, View.setHover]
  | ctrlS | backspace | char => simp [recompute, syncView, View.setHover]

/-! ## Presses -/

/-- A press is a mouse event that lands on a row. -/
theorem landed_eq_some {ev : Event} {line : Nat} (h : m.landed ev = some line) (now : Nat) :
    m.update score ev now = m.press line now := by
  cases ev with
  | mouse mouse =>
    by_cases hdown : mouse.kind = .down
    · rw [landed, if_pos hdown] at h
      simp [update, Common.update, onMouse, hdown, h]
    · rw [landed, if_neg hdown] at h
      cases h
  | key | tick | nudge | resize | rowsRefreshed | refreshFailed | previewCaptured => cases h

/-- Nothing else is remembered, or jumps. -/
theorem landed_eq_none_mouse {mouse : Mouse} (h : m.landed (.mouse mouse) = none) (now : Nat) :
    (m.onMouse mouse now).1.view.lastClick = m.view.lastClick ∧ focusIn (m.onMouse mouse now).2 = none := by
  unfold PickerModel.onMouse
  dsimp only
  split
  · exact ⟨rfl, rfl⟩
  · rename_i hdown
    rw [landed, if_pos hdown] at h
    rw [h]
    exact ⟨rfl, rfl⟩
  · simp [PickerModel.step, syncView]
  · simp [PickerModel.step, syncView]

/-- Only a press changes what is remembered. -/
theorem lastClick_next {e : Event × Nat} (h : m.landed e.1 = none) : (m.next score e).view.lastClick = m.view.lastClick := by
  obtain ⟨ev, now⟩ := e
  unfold PickerModel.next
  cases ev with
  | key k => exact lastClick_onKey score m k
  | mouse mouse => exact (landed_eq_none_mouse h now).1
  | resize width height => simp [update, Common.update, onResize, syncView]
  | rowsRefreshed rows => simp [update, Common.update, onRows, setRows, recompute, syncView]
  | tick | nudge | refreshFailed | previewCaptured => rfl

theorem lastClick_press (m : PickerModel) (line now : Nat) :
    (m.press line now).1.view.lastClick = (m.view.click line now).2.lastClick := by
  unfold PickerModel.press
  dsimp only
  split <;> simp [syncView]

theorem focusIn_press (m : PickerModel) (line now : Nat) :
    focusIn (m.press line now).2 =
      if (m.view.click line now).1 = .double then (m.visible[line]?).bind (m.all[·]?) else none := by
  unfold PickerModel.press
  dsimp only
  cases hclick : (m.view.click line now).1 with
  | double => exact focusIn_focusBatch _
  | single => exact focusIn_preview _

theorem jump_landed {e : Event × Nat} {line : Nat} (hlanded : m.landed e.1 = some line) :
    (surface score).jump m e = focusIn (m.press line e.2).2 := by
  have hupdate := landed_eq_some score hlanded e.2
  obtain ⟨ev, now⟩ := e
  cases ev with
  | mouse mouse => exact congrArg (fun updated => focusIn updated.2) hupdate
  | key | tick | nudge | resize | rowsRefreshed | refreshFailed | previewCaptured => cases hlanded

theorem surface_remembers : (surface score).Remembers (fun m line => m.panes[line]?) Listed where
  rest := by
    intro m e hlanded
    refine ⟨lastClick_next score hlanded, ?_⟩
    obtain ⟨ev, now⟩ := e
    cases ev with
    | mouse mouse => exact (landed_eq_none_mouse hlanded now).2
    | key | tick | nudge | resize | rowsRefreshed | refreshFailed | previewCaptured => rfl
  press := by
    intro m e line hlanded
    have hnext : (surface score).next m e = (m.press line e.2).1 := congrArg Prod.fst (landed_eq_some score hlanded e.2)
    rw [hnext, panes_press]
    exact ⟨lastClick_press m line e.2, rfl⟩
  single := by
    intro m e line hlanded hsingle
    have hclick : (m.view.click line e.2).1 = .single := hsingle
    rw [jump_landed score hlanded, focusIn_press, hclick]
    rfl
  double := by
    intro m e line hlisted hlanded hdouble
    have hclick : (m.view.click line e.2).1 = .double := hdouble
    rw [jump_landed score hlanded, focusIn_press, if_pos hclick]
    exact (hlisted.visibleRows_getElem? line).symm
  panes m _ line := (List.getElem?_map ..).symm
  enter m hlisted now := (focusIn_focusBatch _).trans hlisted.selectedRow_eq

end

end TmuxAgents.Ui.PickerModel
