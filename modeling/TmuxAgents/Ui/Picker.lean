/-
The picker's fold (`picker.rs`): the rows, the query and scope that narrow them,
the highlight, and the window it is shown in.

The fuzzy matcher is a parameter: the score of a query on a text, if it matches.
-/
import TmuxAgents.Ui.Group
import TmuxAgents.Ui.ListView

namespace TmuxAgents.Ui

def haystack (row : AgentRow) : Text := row.agent ++ ' ' :: row.locator ++ ' ' :: row.title

/-- `sort_by_key` on the reversed score, a stable sort. -/
def byScore (scored : List (Nat × Nat)) : List (Nat × Nat) := scored.insertionSort fun a b => b.2 ≤ a.2

structure PickerModel where
  all : List AgentRow
  query : Text := []
  isScoped : Bool := false
  currentSession : Text
  /-- The highlighted index among the visible rows. -/
  sel : Nat := 0
  /-- Indices into `all`, in display order. -/
  visible : List Nat := []
  showBranch : Bool := false
  width : Nat := 0
  height : Nat := 0
  view : View := {}
  common : Common

section

variable (score : Text → Text → Option Nat)

def computeVisible (all : List AgentRow) (query : Text) (scope : Option Text) : List Nat :=
  let inScope := (List.range all.length).filter fun i =>
    (all[i]?).any fun row => scope.all fun session => row.session = session
  if query.isEmpty then inScope
  else
    (byScore (inScope.filterMap fun i => (all[i]?).bind fun row =>
      (score query (haystack row)).map fun n => (i, n))).map Prod.fst

namespace PickerModel

variable (m : PickerModel)

def previewVisible : Bool := previewFits m.width

def geom : ListGeom := pickerGeom (frame m.width m.height) m.previewVisible

/-- The rows listed, in display order. -/
def visibleRows : List AgentRow := m.visible.filterMap (m.all[·]?)

def selectedRow : Option AgentRow := (m.visible[m.sel]?).bind (m.all[·]?)

def syncView : PickerModel := { m with view := m.view.sync m.visible.length m.geom.viewport m.sel }

def recompute : PickerModel :=
  let visible := computeVisible score m.all m.query (if m.isScoped then some m.currentSession else none)
  let m := syncView { m with visible, sel := Selection.clamp m.sel visible.length }
  { m with showBranch := m.visibleRows.any fun row => row.branch.any fun b => !b.isEmpty }

def new (rows : List AgentRow) (currentSession : Text) (now : Nat) : PickerModel :=
  recompute score { all := sorted rows, currentSession, common := Common.new now }

def setRows (rows : List AgentRow) : PickerModel :=
  let anchor := m.selectedRow.map AgentRow.paneId
  let m := recompute score { m with all := sorted rows }
  { m with sel := Selection.reanchor m.sel (m.visibleRows.map AgentRow.paneId) anchor }

def moveBy (delta : Int) : PickerModel := syncView { m with sel := Selection.moveBy m.sel m.visible.length delta }

def step (delta : Int) : PickerModel := syncView { m with sel := Selection.step m.sel m.visible.length delta }

def lineAt (col row : Nat) : Option Nat := (m.geom.indexAt m.view.scroll col row).filter fun line => line < m.visible.length

def focusBatch : List Effect :=
  match m.selectedRow with
  | some row => [.focus row, .clearAttention row.paneId row.acknowledgement, .quit]
  | none => [.quit]

def selectionPreviewEffect : PickerModel × List Effect :=
  if !m.previewVisible then (m, [])
  else
    let (common, effects) := m.common.capture (m.selectedRow.map AgentRow.paneId)
    ({ m with common }, effects)

def onKey (k : Key) : PickerModel × List Effect :=
  let m := { m with view := m.view.setHover none }
  match k with
  | .esc | .ctrlC => (m, [.quit])
  | .enter => (m, m.focusBatch)
  | .ctrlS => (recompute score { m with isScoped := !m.isScoped }).selectionPreviewEffect
  | .up => (m.moveBy (-1)).selectionPreviewEffect
  | .down => (m.moveBy 1).selectionPreviewEffect
  | .backspace => (recompute score { m with query := m.query.dropLast }).selectionPreviewEffect
  | .tab =>
    match m.selectedRow with
    | some row => (m, [.actMenu row.paneId])
    | none => (m, [])
  | .char c => (recompute score { m with query := m.query ++ [c] }).selectionPreviewEffect

/-- A press on a row of the list. -/
def press (row now : Nat) : PickerModel × List Effect :=
  let (click, view) := m.view.click row now
  let m := syncView { m with view, sel := row }
  match click with
  | .double => (m, m.focusBatch)
  | .single => m.selectionPreviewEffect

def onMouse (mouse : Mouse) (now : Nat) : PickerModel × List Effect :=
  let line := m.lineAt mouse.col.toNat mouse.row.toNat
  match mouse.kind with
  | .moved => ({ m with view := m.view.setHover line }, [])
  | .down =>
    match line with
    | none => (m, [])
    | some row => m.press row now
  | .scrollUp => (m.step (-wheelStep)).selectionPreviewEffect
  | .scrollDown => (m.step wheelStep).selectionPreviewEffect

def onResize (width height : Nat) : PickerModel × List Effect :=
  let common := if previewFits width != m.previewVisible then m.common.dropPreview else m.common
  (syncView { m with common, width, height }).selectionPreviewEffect

def onRows (rows : List AgentRow) : PickerModel × List Effect :=
  let m := m.setRows score rows
  selectionPreviewEffect { m with common := m.common.forgetTarget }

def update (ev : Event) (now : Nat) : PickerModel × List Effect :=
  match m.common.update ev now with
  | some (common, effects) => ({ m with common }, effects)
  | none =>
    match ev with
    | .key k => m.onKey score k
    | .mouse mouse => m.onMouse mouse now
    | .resize width height => m.onResize width.toNat height.toNat
    | .rowsRefreshed rows => m.onRows score rows
    | .tick | .nudge | .refreshFailed | .previewCaptured _ _ => (m, [])

end PickerModel

end

end TmuxAgents.Ui
