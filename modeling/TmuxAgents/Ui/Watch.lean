/-
The watcher's fold (`watch.rs`): the rows in flat or grouped order, the
highlight, the layout the frame's width derives, and the window the list is
shown in.
-/
import TmuxAgents.Ui.Group
import TmuxAgents.Ui.ListView

namespace TmuxAgents.Ui

/-- A line of the wide arms: a header, which is only drawn, or a row. -/
inductive DisplayItem
  | header (name : Text)
  | row (row : AgentRow)
deriving DecidableEq

structure WatchModel where
  rows : List AgentRow
  sel : Nat := 0
  grouped : Bool := true
  /-- Empty when flat. -/
  groups : List Group := []
  showBranch : Bool := false
  showModel : Bool := false
  showQuota : Bool := false
  pref : WidePref
  exitOnJump : Bool := false
  width : Nat := 0
  height : Nat := 0
  lastLayout : WatchLayout
  view : View := {}
  common : Common

namespace WatchModel

variable (m : WatchModel)

/-- Whether the arm interleaves headers. -/
def usesHeaders : Bool := m.lastLayout ≠ .listOnly && !m.groups.isEmpty

def geom : ListGeom := watchGeom (frame m.width m.height) m.lastLayout

def selectedRow : Option AgentRow := m.rows[m.sel]?

/-- The line the highlight is drawn on. -/
def drawSelection : Nat := if m.usesHeaders then displayIndex m.groups m.sel else m.sel

def drawLen : Nat := if m.usesHeaders then displayLen m.groups m.rows.length else m.rows.length

def rowAtLine (line : Nat) : Option Nat :=
  if m.usesHeaders then rowAtDisplay m.groups m.rows.length line
  else if line < m.rows.length then some line else none

def lineAt (col row : Nat) : Option Nat := (m.geom.indexAt m.view.scroll col row).filter fun line => line < m.drawLen

/-- What the wide arms draw. -/
def displayItems : List DisplayItem :=
  (if m.grouped then [] else m.rows).map .row ++
    (if m.grouped then m.groups else []).flatMap fun g => .header g.name :: (g.members.filterMap (m.rows[·]?)).map .row

/-- What is drawn: the narrow arm has the rows alone. -/
def items : List DisplayItem := if m.lastLayout = .listOnly then m.rows.map .row else m.displayItems

def syncView : WatchModel := { m with view := m.view.sync m.drawLen m.geom.viewport m.drawSelection }

def regroup : WatchModel :=
  if !m.grouped then { m with groups := [] }
  else { m with rows := (regroupRows m.rows).1, groups := (regroupRows m.rows).2 }

def recomputeColumns : WatchModel :=
  { m with
    showBranch := m.rows.any fun row => row.branch.any fun b => !b.isEmpty
    showModel := m.rows.any fun row => row.model.any fun model => !model.isEmpty
    showQuota := m.rows.any fun row => row.quota.isSome }

def new (rows : List AgentRow) (pref : WidePref) (now : Nat) : WatchModel :=
  recomputeColumns (regroup { rows := sorted rows, pref, lastLayout := watchLayout 0 pref, common := Common.new now })

def withExitOnJump (exitOnJump : Bool) : WatchModel := { m with exitOnJump }

def setRows (rows : List AgentRow) : WatchModel :=
  let anchor := m.selectedRow.map AgentRow.paneId
  let m := recomputeColumns (regroup { m with rows := sorted rows })
  syncView { m with sel := Selection.reanchor m.sel (m.rows.map AgentRow.paneId) anchor }

def reorderRows : WatchModel :=
  let anchor := m.selectedRow.map AgentRow.paneId
  let m := regroup { m with rows := sorted m.rows }
  syncView { m with sel := Selection.reanchor m.sel (m.rows.map AgentRow.paneId) anchor }

def moveBy (delta : Int) : WatchModel := syncView { m with sel := Selection.moveBy m.sel m.rows.length delta }

def step (delta : Int) : WatchModel := syncView { m with sel := Selection.step m.sel m.rows.length delta }

def focusBatch : List Effect :=
  match m.selectedRow with
  | none => []
  | some row =>
    [.focus row, .clearAttention row.paneId row.acknowledgement] ++ if m.exitOnJump then [.quit] else []

def previewEffect : WatchModel × List Effect :=
  if m.lastLayout ≠ .listAndPreview then (m, [])
  else
    let (common, effects) := m.common.capture (m.selectedRow.map AgentRow.paneId)
    ({ m with common }, effects)

def relayout : WatchModel :=
  if watchLayout m.width m.pref = m.lastLayout then m
  else { m with lastLayout := watchLayout m.width m.pref, common := m.common.dropPreview }

def relayoutAndPreview : WatchModel × List Effect := m.relayout.syncView.previewEffect

def onKey (k : Key) : WatchModel × List Effect :=
  let m := { m with view := m.view.setHover none }
  match k with
  | .char 'q' | .esc | .ctrlC => (m, [.quit])
  | .enter => (m, m.focusBatch)
  | .char 'a' | .tab =>
    match m.selectedRow with
    | some row => (m, [.actMenu row.paneId])
    | none => (m, [])
  | .up | .char 'k' => (m.moveBy (-1)).previewEffect
  | .down | .char 'j' => (m.moveBy 1).previewEffect
  | .char 'p' => relayoutAndPreview { m with pref := m.pref.toggled }
  | .char 'g' => (reorderRows { m with grouped := !m.grouped }, [])
  | _ => (m, [])

/-- A press on a line that holds a row. -/
def press (line row now : Nat) : WatchModel × List Effect :=
  let (click, view) := m.view.click line now
  let m := syncView { m with view, sel := row }
  match click with
  | .double => (m, m.focusBatch)
  | .single => m.previewEffect

def onMouse (mouse : Mouse) (now : Nat) : WatchModel × List Effect :=
  let line := m.lineAt mouse.col.toNat mouse.row.toNat
  match mouse.kind with
  | .moved => ({ m with view := m.view.setHover (line.filter fun l => (m.rowAtLine l).isSome) }, [])
  | .down =>
    match line.bind m.rowAtLine with
    | none => (m, [])
    | some row => m.press (line.getD row) row now
  | .scrollUp => (m.step (-wheelStep)).previewEffect
  | .scrollDown => (m.step wheelStep).previewEffect

def onRows (rows : List AgentRow) : WatchModel × List Effect :=
  let m := m.setRows rows
  previewEffect { m with common := m.common.forgetTarget }

def update (ev : Event) (now : Nat) : WatchModel × List Effect :=
  match m.common.update ev now with
  | some (common, effects) => ({ m with common }, effects)
  | none =>
    match ev with
    | .key k => m.onKey k
    | .mouse mouse => m.onMouse mouse now
    | .resize width height => relayoutAndPreview { m with width := width.toNat, height := height.toNat }
    | .rowsRefreshed rows => m.onRows rows
    | .tick | .nudge | .refreshFailed | .previewCaptured _ _ => (m, [])

end WatchModel

end TmuxAgents.Ui
