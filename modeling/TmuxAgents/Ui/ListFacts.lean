/-
What the two live lists rest on: a highlight that moves stays on the list, a
window that follows it shows it, and a cell of the interior is one of its lines.

The moves are made in `i32`, so they are right of lists of up to `mostRows` rows.
-/
import TmuxAgents.Ui.ListView

namespace TmuxAgents.Ui

/-! ## Selection -/

/-- The rows `i32` has room for: a move adds a length to an index. -/
def mostRows : Nat := 2 ^ 30

theorem asI32_eq {n : Int} (hlow : -2 ^ 31 ≤ n) (hhigh : n < 2 ^ 31) : asI32 n = n := by
  apply Int.bmod_eq_of_le <;> omega

namespace Selection

variable {index len : Nat} {delta : Int}

/-- Inside the bound a move wraps as it reads. -/
theorem moveBy_eq (hlen : 0 < len) (hmost : len ≤ mostRows) (hindex : index < len) (hdelta : delta.natAbs ≤ wheelStep) :
    (moveBy index len delta : Int) = ((index + delta).tmod len + len).tmod len := by
  simp only [mostRows, wheelStep] at hmost hdelta
  have hlow : -(len : Int) < (index + delta : Int).tmod len := Int.lt_tmod_of_pos _ (by omega)
  have hhigh : (index + delta : Int).tmod len < len := Int.tmod_lt_of_pos _ (by omega)
  have hwrap : (0 : Int) ≤ (index + delta : Int).tmod len + len := by omega
  have hnonneg := Int.tmod_nonneg (len : Int) hwrap
  have hlt := Int.tmod_lt_of_pos ((index + delta : Int).tmod len + len) (b := len) (by omega)
  rw [moveBy, if_neg hlen.ne']
  simp only [asI32_eq (n := (len : Int)) (by omega) (by omega), asI32_eq (n := (index : Int)) (by omega) (by omega),
    asI32_eq (n := (index + delta : Int)) (by omega) (by omega),
    asI32_eq (n := ((index + delta : Int).tmod len + len)) (by omega) (by omega), asUsize]
  omega

theorem moveBy_lt (hlen : 0 < len) (hmost : len ≤ mostRows) (hindex : index < len) (hdelta : delta.natAbs ≤ wheelStep) :
    moveBy index len delta < len := by
  have heq := moveBy_eq hlen hmost hindex hdelta
  have hlt := Int.tmod_lt_of_pos ((index + delta : Int).tmod len + len) (b := len) (by omega)
  omega

/-- Inside the bound a step stops at the ends. -/
theorem step_eq (hlen : 0 < len) (hmost : len ≤ mostRows) (hindex : index < len) (hdelta : delta.natAbs ≤ wheelStep) :
    (step index len delta : Int) = max 0 (min (index + delta) (len - 1)) := by
  simp only [mostRows, wheelStep] at hmost hdelta
  rw [step, if_neg hlen.ne']
  simp only [asI32_eq (n := (len : Int)) (by omega) (by omega), asI32_eq (n := (index : Int)) (by omega) (by omega),
    asI32_eq (n := (index + delta : Int)) (by omega) (by omega), asUsize]
  omega

theorem step_lt (hlen : 0 < len) (hmost : len ≤ mostRows) (hindex : index < len) (hdelta : delta.natAbs ≤ wheelStep) :
    step index len delta < len := by
  have heq := step_eq hlen hmost hindex hdelta
  omega

/-- The highlight is on a listed row, or there is none and it rests at 0. -/
def OnList (index len : Nat) : Prop := index < len ∨ len = 0 ∧ index = 0

theorem OnList.lt (h : OnList index len) (hlen : 0 < len) : index < len := by
  rcases h with h | h <;> omega

theorem OnList.moveBy (h : OnList index len) (hmost : len ≤ mostRows) (hdelta : delta.natAbs ≤ wheelStep) :
    OnList (moveBy index len delta) len := by
  rcases h with h | ⟨rfl, rfl⟩
  · exact .inl (moveBy_lt (by omega) hmost h hdelta)
  · exact .inr ⟨rfl, rfl⟩

theorem OnList.step (h : OnList index len) (hmost : len ≤ mostRows) (hdelta : delta.natAbs ≤ wheelStep) :
    OnList (step index len delta) len := by
  rcases h with h | ⟨rfl, rfl⟩
  · exact .inl (step_lt (by omega) hmost h hdelta)
  · exact .inr ⟨rfl, rfl⟩

theorem onList_clamp (index len : Nat) : OnList (clamp index len) len := by
  simp only [OnList, clamp]
  split <;> [skip; split] <;> omega

theorem clamp_clamp (index len : Nat) : clamp (clamp index len) len = clamp index len := by
  simp only [clamp]
  split_ifs <;> omega

variable {ids : List Text} {anchor : Option Text}

/-- The anchor is looked up first. -/
theorem reanchor_found {pane : Text} {pos : Nat} (h : ids.idxOf? pane = some pos) : reanchor index ids (some pane) = pos := by
  simp [reanchor, h]

theorem reanchor_lost {pane : Text} (h : ids.idxOf? pane = none) :
    reanchor index ids (some pane) = clamp index ids.length := by
  simp [reanchor, h]

theorem onList_reanchor (index : Nat) (ids : List Text) (anchor : Option Text) :
    OnList (reanchor index ids anchor) ids.length := by
  cases anchor with
  | none => exact onList_clamp index ids.length
  | some pane =>
    cases hpos : ids.idxOf? pane with
    | none =>
      rw [reanchor_lost hpos]
      exact onList_clamp index ids.length
    | some pos =>
      rw [reanchor_found hpos]
      exact .inl (List.findIdx?_eq_some_iff_getElem.mp hpos).1

/-- A pane that is still listed keeps the highlight. -/
theorem getElem?_reanchor {pane : Text} (h : pane ∈ ids) : ids[reanchor index ids (some pane)]? = some pane := by
  cases hpos : ids.idxOf? pane with
  | none => exact absurd h (List.idxOf?_eq_none_iff.mp hpos)
  | some pos =>
    obtain ⟨hlt, heq, -⟩ := List.findIdx?_eq_some_iff_getElem.mp hpos
    rw [reanchor_found hpos, List.getElem?_eq_getElem hlt, eq_of_beq heq]

end Selection

/-! ## Rows by index -/

/-- Indices below the length hold a row each. -/
theorem held_rows {rows : List AgentRow} {members : List Nat} (h : ∀ i ∈ members, i < rows.length) :
    (members.filterMap (rows[·]?)).map some = members.map (rows[·]?) := by
  rw [List.map_filterMap_some_eq_filter_map_isSome, List.filter_eq_self]
  intro held hheld
  obtain ⟨i, hi, rfl⟩ := List.mem_map.mp hheld
  simpa using h i hi

/-! ## The window -/

/-- The selected line is in the window, and the window not past the end. -/
structure InWindow (scroll len viewport selected : Nat) : Prop where
  above : scroll ≤ selected
  below : selected < scroll + viewport
  tail : scroll ≤ len - min viewport len

/-- The top of a window that follows a selected line. -/
def windowTop (scroll len viewport selected : Nat) : Nat :=
  min (if selected < scroll then selected else if scroll + viewport ≤ selected then selected + 1 - viewport else scroll)
    (len - viewport)

theorem View.scroll_sync (view : View) {len viewport : Nat} (selected : Nat) (hview : 0 < viewport) (hlen : 0 < len) :
    (view.sync len viewport selected).scroll = windowTop view.scroll len viewport selected := by
  rw [View.sync, if_neg (by omega)]
  rfl

theorem windowTop_inWindow {len viewport selected : Nat} (scroll : Nat) (hview : 0 < viewport) (hsel : selected < len) :
    InWindow (windowTop scroll len viewport selected) len viewport selected := by
  simp only [windowTop]
  constructor <;> split <;> [skip; split; skip; split; skip; split] <;> omega

theorem windowTop_le (scroll len viewport selected : Nat) :
    windowTop scroll len viewport selected ≤ len - min viewport len := by
  simp only [windowTop]
  omega

@[simp] theorem View.lastClick_sync (view : View) (len viewport selected : Nat) :
    (view.sync len viewport selected).lastClick = view.lastClick := by
  simp only [View.sync]
  split <;> rfl

/-! ## Cells -/

/-- A cell inside a rectangle. -/
def Rect.Has (rect : Rect) (col row : Nat) : Prop :=
  rect.x ≤ col ∧ col < rect.x + rect.width ∧ rect.y ≤ row ∧ row < rect.y + rect.height

instance (rect : Rect) (col row : Nat) : Decidable (rect.Has col row) := inferInstanceAs (Decidable (_ ∧ _))

/-- A rectangle whose far edges are `u16`s. -/
def Rect.Fits (rect : Rect) : Prop := rect.x + rect.width < 65536 ∧ rect.y + rect.height < 65536

theorem ListGeom.indexAt_eq {geom : ListGeom} (h : geom.interior.Fits) (scroll col row : Nat) :
    geom.indexAt scroll col row =
      if geom.interior.Has col row then some (scroll + (row - geom.interior.y)) else none := by
  obtain ⟨hx, hy⟩ := h
  simp only [ListGeom.indexAt, Rect.Has, addU16, Nat.min_eq_left (by omega : geom.interior.x + geom.interior.width ≤ 65535),
    Nat.min_eq_left (by omega : geom.interior.y + geom.interior.height ≤ 65535)]
  congr

theorem ListGeom.interior_fits {geom : ListGeom} (h : geom.rect.Fits) : geom.interior.Fits := by
  obtain ⟨hx, hy⟩ := h
  simp only [ListGeom.interior, addU16]
  split
  · exact ⟨hx, hy⟩
  · constructor <;> dsimp only <;> omega

theorem body_height (area : Rect) : (bodyAndFooter area).1.height = area.height - 1 := by
  simp only [bodyAndFooter]
  split <;> omega

theorem watchGeom_fits {width height : Nat} (hwidth : width < 65536) (hheight : height < 65536) (layout : WatchLayout) :
    (watchGeom (frame width height) layout).interior.Fits := by
  have hbody := body_height (frame width height)
  apply ListGeom.interior_fits
  cases layout with
  | listOnly => constructor <;> simp [watchGeom, hbody] <;> simp [bodyAndFooter, frame] <;> omega
  | listAndPreview => constructor <;> simp [watchGeom, hbody] <;> simp [bodyAndFooter, frame] <;> omega
  | table =>
    constructor
    · simpa [watchGeom, bodyAndFooter, frame] using hwidth
    · simp only [watchGeom, hbody]
      split <;> simp only [bodyAndFooter, frame] at * <;> omega

theorem pickerGeom_fits {width height : Nat} (hwidth : width < 65536) (hheight : height < 65536) (previewVisible : Bool) :
    (pickerGeom (frame width height) previewVisible).interior.Fits := by
  have hbody := body_height (frame width height)
  apply ListGeom.interior_fits
  cases previewVisible <;> constructor <;> simp [pickerGeom, hbody] <;> simp [bodyAndFooter, frame] <;> omega

end TmuxAgents.Ui
