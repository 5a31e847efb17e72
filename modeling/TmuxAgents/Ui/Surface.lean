/-
A live list as a pointer meets it: what a press lands on, what the list draws,
and what a run of events says of its jumps.

A press is remembered by its draw line (`View.click`), so the second press of a
pair goes to the pane of the first only while nothing between the two puts
another pane on that line (`Remembers.jumpsOnPairs`).
-/
import TmuxAgents.Lib.Pairing
import TmuxAgents.Ui.ListView

namespace TmuxAgents.Ui

open Run

/-! ## Clicks -/

/-- The row a batch focuses. -/
def focusIn (effects : List Effect) : Option AgentRow :=
  effects.findSome? fun effect =>
    match effect with
    | .focus row => some row
    | _ => none

theorem View.click_double {view : View} {line now : Nat} :
    (view.click line now).1 = .double ↔ ∃ t, view.lastClick = some (line, t) ∧ now - t ≤ doubleClickMs := by
  unfold View.click
  split
  · rename_i hany
    refine iff_of_true rfl ?_
    simpa [Option.any_eq_true] using hany
  · rename_i hany
    refine iff_of_false (by simp) ?_
    simpa [Option.any_eq_true] using hany

theorem View.lastClick_click (view : View) (line now : Nat) :
    (view.click line now).2.lastClick = if (view.click line now).1 = .double then none else some (line, now) := by
  unfold View.click
  split <;> rfl

theorem focusIn_capture (common : Common) (pane : Option Text) : focusIn (common.capture pane).2 = none := by
  unfold Common.capture
  split
  · rfl
  · split <;> rfl

/-! ## Surfaces -/

/-- A live list as a pointer meets it. -/
structure Surface (σ : Type) where
  update : σ → Event → Nat → σ × List Effect
  /-- The draw line of the row a press lands on. -/
  landed : σ → Event → Option Nat
  /-- The row drawn on a line. -/
  drawn : σ → Nat → Option AgentRow
  /-- The line drawn as highlighted. -/
  highlight : σ → Nat
  view : σ → View

namespace Surface

variable {σ : Type} (S : Surface σ)

def next (s : σ) (e : Event × Nat) : σ := (S.update s e.1 e.2).1

/-- The row an event focuses. -/
def focused (s : σ) (e : Event × Nat) : Option AgentRow := focusIn (S.update s e.1 e.2).2

/-- The row a mouse event focuses. -/
def jump (s : σ) (e : Event × Nat) : Option AgentRow :=
  match e.1 with
  | .mouse _ => S.focused s e
  | _ => none

/-- What the events so far promise of the next one, a press of which comes at `now`. -/
structure JumpsOnPairs (s : σ) (events : List (Event × Nat)) (now : Nat) : Prop where
  pair : ∀ mouse r, S.jump (run S.next s events) (.mouse mouse, now) = some r →
    ∃ before first between line,
      events = before ++ first :: between ∧
      S.landed (run S.next s before) first.1 = some line ∧
      S.jump (run S.next s before) first = none ∧
      Along S.next (fun s e => S.landed s e.1 = none) (run S.next s (before ++ [first])) between ∧
      now - first.2 ≤ doubleClickMs ∧
      S.landed (run S.next s events) (.mouse mouse) = some line ∧
      S.drawn (run S.next s events) line = some r ∧
      (S.drawn (run S.next s before) line).map AgentRow.paneId = some r.paneId
  three : 2 * (firings S.next S.jump s events).length ≤ (firings S.next (fun s e => S.landed s e.1) s events).length
  enter : ∀ entered, S.focused (run S.next s events) (.key .enter, entered) =
    S.drawn (run S.next s events) (S.highlight (run S.next s events))

/-- The presses of a surface, the last unpaired one remembered. -/
def clicks : Pairing.Machine σ (Event × Nat) Nat where
  step := S.next
  key s e := S.landed s e.1
  time := Prod.snd
  held s := (S.view s).lastClick
  span := doubleClickMs

/-- What a surface does on an event, in the states of an invariant: only a press on a row
changes what is remembered, and only the second of a pair jumps. -/
structure Remembers (panes : σ → Nat → Option Text) (I : σ → Prop) : Prop where
  rest : ∀ s e, S.landed s e.1 = none → (S.view (S.next s e)).lastClick = (S.view s).lastClick ∧ S.jump s e = none
  press : ∀ s e line, S.landed s e.1 = some line →
    (S.view (S.next s e)).lastClick = ((S.view s).click line e.2).2.lastClick ∧ panes (S.next s e) line = panes s line
  single : ∀ s e line, S.landed s e.1 = some line → ((S.view s).click line e.2).1 = .single → S.jump s e = none
  double : ∀ s e line, I s → S.landed s e.1 = some line → ((S.view s).click line e.2).1 = .double →
    S.jump s e = S.drawn s line
  panes : ∀ s, I s → ∀ line, (S.drawn s line).map AgentRow.paneId = panes s line
  enter : ∀ s, I s → ∀ now, S.focused s (.key .enter, now) = S.drawn s (S.highlight s)

variable {S}

theorem closing_iff {s : σ} {e : Event × Nat} {line : Nat} (hlanded : S.landed s e.1 = some line) :
    S.clicks.closing s e = some line ↔ ((S.view s).click line e.2).1 = .double := by
  rw [Pairing.Machine.closing_eq_some, View.click_double]
  exact and_iff_right hlanded

variable {panes : σ → Nat → Option Text} {I : σ → Prop}

theorem Remembers.lawful (h : S.Remembers panes I) : S.clicks.Lawful where
  rest s e hlanded := (h.rest s e hlanded).1
  closed s e line hclosing := by
    have hlanded := (Pairing.Machine.closing_eq_some.mp hclosing).1
    have hdouble := (closing_iff hlanded).mp hclosing
    exact (h.press s e line hlanded).1.trans (by rw [View.lastClick_click, if_pos hdouble])
  opened s e line hlanded hopen := by
    have hsingle : ¬((S.view s).click line e.2).1 = .double := by
      intro hdouble
      rw [(closing_iff hlanded).mpr hdouble] at hopen
      cases hopen
    exact (h.press s e line hlanded).1.trans (by rw [View.lastClick_click, if_neg hsingle]; rfl)

/-- A jump closes a pair. -/
theorem Remembers.jump_closing (h : S.Remembers panes I) {s : σ} {e : Event × Nat} {r : AgentRow} (hjump : S.jump s e = some r) :
    ∃ line, S.clicks.closing s e = some line ∧ (I s → S.drawn s line = some r) := by
  cases hlanded : S.landed s e.1 with
  | none =>
    rw [(h.rest s e hlanded).2] at hjump
    cases hjump
  | some line =>
    cases hclick : ((S.view s).click line e.2).1 with
    | single =>
      rw [h.single s e line hlanded hclick] at hjump
      cases hjump
    | double =>
      refine ⟨line, (closing_iff hlanded).mpr hclick, fun hI => ?_⟩
      rw [← h.double s e line hI hlanded hclick, hjump]

/-- **Jumps go to panes pressed twice**, where the line of a press still in time keeps its pane. -/
theorem Remembers.jumpsOnPairs (h : S.Remembers panes I) {s : σ} (hs : (S.view s).lastClick = none)
    {events : List (Event × Nat)} {now : Nat} (hI : ∀ before after, events = before ++ after → I (run S.next s before))
    (hkeeps : Along S.next (S.clicks.Keeps panes now) s events) : S.JumpsOnPairs s events now where
  pair := by
    intro mouse r hjump
    obtain ⟨line, hclosing, hdrawn⟩ := h.jump_closing hjump
    obtain ⟨before, first, between, hopens, hspan, hpanes⟩ :=
      h.lawful.closes_pair (fun s e line hlanded => (h.press s e line hlanded).2) hs hclosing hkeeps
    have hnow : I (run S.next s events) := hI events [] (List.append_nil _).symm
    have hthen : I (run S.next s before) := hI before (first :: between) hopens.split
    have hunpaired : S.jump (run S.next s before) first = none := by
      cases hfirst : S.jump (run S.next s before) first with
      | none => rfl
      | some r' =>
        obtain ⟨line', hclosing', -⟩ := h.jump_closing hfirst
        have hopen : S.clicks.closing (run S.next s before) first = none := hopens.unpaired
        rw [hopen] at hclosing'
        cases hclosing'
    refine ⟨before, first, between, line, hopens.split, hopens.key, hunpaired, hopens.alone, hspan,
      (Pairing.Machine.closing_eq_some.mp hclosing).1, hdrawn hnow, ?_⟩
    have hkept : panes (run S.next s events) line = panes (run S.next s before) line := hpanes
    rw [h.panes _ hthen, ← hkept, ← h.panes _ hnow, hdrawn hnow]
    rfl
  three := by
    have hclosings := h.lawful.two_mul_closings hs events
    have hjumps : (firings S.next S.jump s events).length ≤ (firings S.next S.clicks.closing s events).length := by
      refine length_firings_le (fun s e hjump => ?_) s events
      obtain ⟨r, hr⟩ := Option.isSome_iff_exists.mp hjump
      obtain ⟨line, hclosing, -⟩ := h.jump_closing hr
      rw [hclosing]
      rfl
    exact (Nat.mul_le_mul_left 2 hjumps).trans hclosings
  enter := h.enter _ (hI events [] (List.append_nil _).symm)

end Surface

end TmuxAgents.Ui
