/-
What the two live lists share: the highlighted index (`selection.rs`), the
scroll window and click timing (`view.rs`), where the list stands in the frame
(`layout.rs`), and the refresh deadline and preview cache (`common.rs`).

Indices of a `View` are draw lines, headers included.
-/
import TmuxAgents.Runtime.Row
import TmuxAgents.Ui.Ansi

namespace TmuxAgents.Ui

/-! ## Selection -/

/-- A value as an `i32`. -/
def asI32 (n : Int) : Int := n.bmod (2 ^ 32)

/-- An `i32` as a `usize`. -/
def asUsize (n : Int) : Nat := (n % 2 ^ 64).toNat

namespace Selection

/-- Wrapping at both ends. `%` is that of `i32`. -/
def moveBy (index len : Nat) (delta : Int) : Nat :=
  if len = 0 then index
  else
    let n := asI32 len
    asUsize (asI32 (((asI32 (asI32 index + delta)).tmod n + n)) |>.tmod n)

/-- Stopping at both ends. -/
def step (index len : Nat) (delta : Int) : Nat :=
  if len = 0 then index else asUsize (max 0 (min (asI32 (asI32 index + delta)) (asI32 len - 1)))

def clamp (index len : Nat) : Nat := if len = 0 then 0 else if len ≤ index then len - 1 else index

/-- The highlight goes where the pane it was on is now. -/
def reanchor (index : Nat) (ids : List Text) (anchor : Option Text) : Nat :=
  match anchor with
  | none => clamp index ids.length
  | some pane => (ids.idxOf? pane).getD (clamp index ids.length)

end Selection

/-! ## View -/

/-- Milliseconds. -/
def doubleClickMs : Nat := 400

inductive Click
  | single
  | double
deriving DecidableEq

structure View where
  /-- The first line shown. -/
  scroll : Nat := 0
  hover : Option Nat := none
  /-- The last press: its line, and when. -/
  lastClick : Option (Nat × Nat) := none

namespace View

def setHover (view : View) (line : Option Nat) : View := { view with hover := line }

/-- The selected line comes into the window, and the window not past the end. -/
def sync (view : View) (len viewport selected : Nat) : View :=
  if viewport = 0 ∨ len = 0 then { view with scroll := 0 }
  else
    let scroll :=
      if selected < view.scroll then selected
      else if view.scroll + viewport ≤ selected then selected + 1 - viewport
      else view.scroll
    { view with
      scroll := min scroll (len - viewport)
      hover := view.hover.filter fun line => line < len }

/-- A second press on the line in time closes the pair. -/
def click (view : View) (line now : Nat) : Click × View :=
  if view.lastClick.any fun last => last.1 == line && decide (now - last.2 ≤ doubleClickMs) then
    (.double, { view with lastClick := none })
  else (.single, { view with lastClick := some (line, now) })

end View

/-! ## Layout -/

structure Rect where
  x : Nat
  y : Nat
  width : Nat
  height : Nat
deriving DecidableEq

/-- `saturating_add` of two `u16`. -/
def addU16 (a b : Nat) : Nat := min (a + b) 65535

/-- The body, and the one line under it. -/
def bodyAndFooter (area : Rect) : Rect × Rect :=
  let footerH := if 0 < area.height then 1 else 0
  let bodyH := area.height - footerH
  ({ area with height := bodyH }, { area with y := area.y + bodyH, height := footerH })

structure ListGeom where
  rect : Rect
  bordered : Bool
deriving DecidableEq

namespace ListGeom

def interior (geom : ListGeom) : Rect :=
  if !geom.bordered then geom.rect
  else
    { x := addU16 geom.rect.x 1
      y := addU16 geom.rect.y 1
      width := geom.rect.width - 2
      height := geom.rect.height - 2 }

def viewport (geom : ListGeom) : Nat := geom.interior.height

/-- The draw line of a cell, none outside the interior. -/
def indexAt (geom : ListGeom) (scroll col row : Nat) : Option Nat :=
  let inner := geom.interior
  if inner.x ≤ col ∧ col < addU16 inner.x inner.width ∧ inner.y ≤ row ∧ row < addU16 inner.y inner.height then
    some (scroll + (row - inner.y))
  else none

end ListGeom

def previewMinWidth : Nat := 76

def previewFits (width : Nat) : Bool := previewMinWidth ≤ width

inductive WatchLayout
  | listOnly
  | listAndPreview
  | table
deriving DecidableEq

inductive WidePref
  | preview
  | table
deriving DecidableEq

def WidePref.toggled : WidePref → WidePref
  | .preview => .table
  | .table => .preview

def watchLayout (width : Nat) (pref : WidePref) : WatchLayout :=
  if !previewFits width then .listOnly
  else
    match pref with
    | .preview => .listAndPreview
    | .table => .table

def wideListW : Nat := 34

/-- The list's place in the watcher's frame. -/
def watchGeom (area : Rect) (layout : WatchLayout) : ListGeom :=
  let body := (bodyAndFooter area).1
  match layout with
  | .listOnly => { rect := body, bordered := true }
  | .listAndPreview => { rect := { body with width := min wideListW body.width }, bordered := true }
  | .table =>
    let headerH := if 0 < body.height then 1 else 0
    { rect := { body with y := body.y + headerH, height := body.height - headerH }, bordered := false }

/-- The list's place in the picker's frame. The product is a `u16`. -/
def pickerGeom (area : Rect) (previewVisible : Bool) : ListGeom :=
  let body := (bodyAndFooter area).1
  if !previewVisible then { rect := body, bordered := true }
  else { rect := { body with width := body.width * 55 % 65536 / 100 }, bordered := true }

/-- The frame last seen, at the origin. -/
def frame (width height : Nat) : Rect := { x := 0, y := 0, width, height }

/-! ## Events and effects -/

inductive Key
  | up
  | down
  | enter
  | esc
  | backspace
  | char (c : Char)
  | tab
  | ctrlC
  | ctrlS
deriving DecidableEq

inductive MouseKind
  | down
  | moved
  | scrollUp
  | scrollDown
deriving DecidableEq

structure Mouse where
  kind : MouseKind
  col : UInt16
  row : UInt16
deriving DecidableEq

inductive Event
  | key (k : Key)
  | mouse (m : Mouse)
  | tick
  | nudge
  | resize (width height : UInt16)
  | rowsRefreshed (rows : List AgentRow)
  | refreshFailed
  | previewCaptured (pane ansi : Text)

inductive Effect
  | refresh
  | capturePreview (pane : Text)
  | focus (row : AgentRow)
  | clearAttention (pane : Text) (observation : Option ObservationIdentity)
  | actMenu (pane : Text)
  | quit
deriving DecidableEq

def refreshBatch (due : Bool) : List Effect := if due then [.refresh] else []

/-- Rows one wheel notch moves the selection. -/
def wheelStep : Int := 3

/-! ## Common -/

def refreshIntervalMs : Nat := 1000

/-- The refresh deadline and the preview cache. -/
structure Common where
  last : Nat
  intervalMs : Nat
  text : List (List Span) := []
  forPane : Option Text := none

namespace Common

def new (now : Nat) : Common := { last := now, intervalMs := refreshIntervalMs }

def gateTick (common : Common) (now : Nat) : Bool × Common :=
  if common.intervalMs ≤ now - common.last then (true, { common with last := now }) else (false, common)

def gateForce (common : Common) (now : Nat) : Common := { common with last := now - common.intervalMs }

/-- The events that mean the same on either surface. -/
def update (common : Common) (ev : Event) (now : Nat) : Option (Common × List Effect) :=
  match ev with
  | .tick => some ((common.gateTick now).2, refreshBatch (common.gateTick now).1)
  | .nudge => some (((common.gateForce now).gateTick now).2, refreshBatch true)
  | .refreshFailed => some (common, [])
  | .previewCaptured pane ansi => some ({ common with text := ansiToText ansi, forPane := some pane }, [])
  | _ => none

/-- The selected pane is captured unless it is the one cached. -/
def capture (common : Common) (selPane : Option Text) : Common × List Effect :=
  if selPane = common.forPane then (common, [])
  else
    match selPane with
    | some pane => (common, [.capturePreview pane])
    | none => ({ common with text := [], forPane := none }, [])

def forgetTarget (common : Common) : Common := { common with forPane := none }

def dropPreview (common : Common) : Common := { common with text := [], forPane := none }

end Common

end TmuxAgents.Ui
