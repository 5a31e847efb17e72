/-
The event stream (`edge.rs`, and the renderer of `subscribe.rs`): one record for each state
transition between two observations of the rows that were asked for.

A consumer that holds the classes of the first observation and follows the records holds the
classes of the last (`events_replay`), however many observations there were and however their
rows came and went.
-/
import TmuxAgents.Lib.KeyedDiff
import TmuxAgents.Runtime.Row

namespace TmuxAgents.Events

open KeyedDiff (Change replay)

/-! ## The vocabulary -/

inductive StateToken
  /-- A stored state. -/
  | closed (state : AgentState)
  /-- Idle, with output nobody has looked at. -/
  | done
deriving DecidableEq

/-- The row's one class. -/
def StateToken.of (row : AgentRow) : StateToken := if isDone row then .done else .closed row.state

/-- `idle` matches a row that is done as well. -/
def StateToken.matches' : StateToken → AgentRow → Bool
  | .closed state, row => decide (row.state = state)
  | .done, row => isDone row

structure Selector where
  session : Option Text := none
  repo : Option Text := none
  branch : Option Text := none
  agent : Option Text := none
  state : List StateToken := []

namespace Selector

def isEmpty (selector : Selector) : Bool :=
  selector.session.isNone && selector.repo.isNone && selector.branch.isNone && selector.agent.isNone &&
    selector.state.isEmpty

/-- A row without a repository matches as if its names were empty. -/
def matches' (selector : Selector) (row : AgentRow) : Bool :=
  let eq (want : Option Text) (have' : Text) : Bool := want.all fun want => decide (want = have')
  eq selector.session row.session && eq selector.agent row.agent &&
    eq selector.repo ((row.repo.map RepoLabel.name).getD []) && eq selector.branch (row.branch.getD []) &&
    (selector.state.isEmpty || selector.state.any fun token => token.matches' row)

end Selector

/-! ## Edges -/

/-- A row with what else its records show and the waits ask. -/
structure ListedRow extends AgentRow where
  detail : Option Text := none
  turnAt : Nat := 0

def ListedRow.token (row : ListedRow) : StateToken := .of row.toAgentRow

def Selector.retain (selector : Selector) (rows : List ListedRow) : List ListedRow :=
  if selector.isEmpty then rows else rows.filter fun row => selector.matches' row.toAgentRow

/-- One transition: nothing left where the pane appeared, nothing entered where it vanished. -/
structure Edge where
  paneId : Text
  agent : Text
  from' : Option StateToken
  to' : Option StateToken
  detail : Option Text
  locator : Text
  repo : Option RepoLabel

def edge (row : ListedRow) (from' to' : Option StateToken) : Edge where
  paneId := row.paneId
  agent := row.agent
  from'
  to'
  detail := row.detail
  locator := row.locator
  repo := row.repo

/-- The rows by pane, the last of them where they repeat. -/
def byPane (rows : List ListedRow) (paneId : Text) : Option ListedRow :=
  rows.reverse.find? fun row => row.paneId = paneId

/-- What a row of the later observation says: it changed, or it appeared. -/
def arrival (prev : List ListedRow) (row : ListedRow) : Option Edge :=
  match byPane prev row.paneId with
  | some before => if before.token ≠ row.token then some (edge row (some before.token) (some row.token)) else none
  | none => some (edge row none (some row.token))

/-- What a row of the earlier one says that is gone. -/
def departure (next : List ListedRow) (row : ListedRow) : Option Edge :=
  if (byPane next row.paneId).isNone then some (edge row (some row.token) none) else none

def diffRows (prev next : List ListedRow) : List Edge := next.filterMap (arrival prev) ++ prev.filterMap (departure next)

/-! ## The stream -/

/-- The renderer: the first observation is the baseline, and says nothing. -/
def render (selector : Selector) (prevRows : Option (List ListedRow)) (rows : List ListedRow) :
    Option (List ListedRow) × List Edge :=
  let rows := selector.retain rows
  (some rows, prevRows.elim [] fun prev => diffRows prev rows)

/-- The records of a run of observations. -/
def stream (selector : Selector) : Option (List ListedRow) → List (List ListedRow) → List Edge
  | _, [] => []
  | prevRows, rows :: later => (render selector prevRows rows).2 ++ stream selector (render selector prevRows rows).1 later

/-! ## What a consumer holds -/

/-- The class of each pane. -/
def classes (rows : List ListedRow) (paneId : Text) : Option StateToken := (byPane rows paneId).map ListedRow.token

def Edge.change (edge : Edge) : Change Text StateToken where
  key := edge.paneId
  before := edge.from'
  after := edge.to'

/-- Each pane is listed once. -/
def Distinct (rows : List ListedRow) : Prop := (rows.map fun row => row.paneId).Nodup

theorem byPane_key {rows : List ListedRow} {paneId : Text} {row : ListedRow} (h : byPane rows paneId = some row) :
    row.paneId = paneId ∧ row ∈ rows := by
  have hkey := List.find?_some h
  rw [decide_eq_true_eq] at hkey
  exact ⟨hkey, List.mem_reverse.mp (List.mem_of_find?_eq_some h)⟩

theorem byPane_eq_none {rows : List ListedRow} {paneId : Text} :
    byPane rows paneId = none ↔ paneId ∉ rows.map fun row => row.paneId := by
  simp [byPane]

/-- A row of distinct panes is the one its pane is listed by. -/
theorem Distinct.byPane {rows : List ListedRow} (h : Distinct rows) {row : ListedRow} (hrow : row ∈ rows) :
    byPane rows row.paneId = some row := by
  cases hfound : Events.byPane rows row.paneId with
  | none => exact absurd (List.mem_map_of_mem hrow) (byPane_eq_none.mp hfound)
  | some found =>
    obtain ⟨hkey, hmem⟩ := byPane_key hfound
    rw [List.inj_on_of_nodup_map h hmem hrow hkey]

section

variable {prev next : List ListedRow} {row : ListedRow} {e : Edge}

theorem arrival_eq (h : arrival prev row = some e) :
    e = edge row (classes prev row.paneId) (some row.token) ∧ classes prev row.paneId ≠ some row.token := by
  unfold arrival at h
  cases hbefore : byPane prev row.paneId with
  | none =>
    rw [hbefore] at h
    simp only [classes, hbefore, Option.map_none]
    exact ⟨(Option.some.inj h).symm, (Option.some_ne_none _).symm⟩
  | some before =>
    rw [hbefore] at h
    dsimp only at h
    split at h
    next hne =>
      simp only [classes, hbefore, Option.map_some]
      exact ⟨(Option.some.inj h).symm, fun heq => hne (Option.some.inj heq)⟩
    · cases h

theorem arrival_eq_none (h : arrival prev row = none) : classes prev row.paneId = some row.token := by
  unfold arrival at h
  cases hbefore : byPane prev row.paneId with
  | none =>
    rw [hbefore] at h
    cases h
  | some before =>
    rw [hbefore] at h
    dsimp only at h
    split at h
    · cases h
    next heq =>
      rw [classes, hbefore, Option.map_some]
      exact congrArg some (not_not.mp heq)

theorem departure_eq (h : departure next row = some e) :
    e = edge row (some row.token) none ∧ classes next row.paneId = none := by
  unfold departure at h
  split at h
  next hgone =>
    rw [Option.isNone_iff_eq_none] at hgone
    rw [classes, hgone]
    exact ⟨(Option.some.inj h).symm, rfl⟩
  · cases h

/-! ## One step -/

/-- Each record says what its pane was, and what it is. -/
theorem mem_diffRows (hprev : Distinct prev) (hnext : Distinct next) (h : e ∈ diffRows prev next) :
    classes prev e.paneId = e.from' ∧ classes next e.paneId = e.to' ∧ e.from' ≠ e.to' ∧
      ∃ row ∈ prev ++ next, e = edge row e.from' e.to' := by
  rcases List.mem_append.mp h with h | h
  · obtain ⟨row, hrow, harrival⟩ := List.mem_filterMap.mp h
    obtain ⟨rfl, hne⟩ := arrival_eq harrival
    have hafter : classes next row.paneId = some row.token := by rw [classes, hnext.byPane hrow, Option.map_some]
    exact ⟨rfl, hafter, hne, row, List.mem_append_right _ hrow, rfl⟩
  · obtain ⟨row, hrow, hdeparture⟩ := List.mem_filterMap.mp h
    obtain ⟨rfl, hgone⟩ := departure_eq hdeparture
    have hbefore : classes prev row.paneId = some row.token := by rw [classes, hprev.byPane hrow, Option.map_some]
    exact ⟨hbefore, hgone, Option.some_ne_none _, row, List.mem_append_left _ hrow, rfl⟩

/-- Records made from rows carry their panes. -/
theorem panes_sublist {f : ListedRow → Option Edge} (hf : ∀ row e, f row = some e → e.paneId = row.paneId)
    (rows : List ListedRow) :
    ((rows.filterMap f).map Edge.paneId).Sublist (rows.map fun row => row.paneId) := by
  induction rows with
  | nil => exact List.Sublist.slnil
  | cons row rows ih =>
    rw [List.map_cons]
    cases hrow : f row with
    | none =>
      rw [List.filterMap_cons_none hrow]
      exact ih.cons _
    | some e =>
      rw [List.filterMap_cons_some hrow, List.map_cons, hf row e hrow]
      exact ih.cons_cons _

theorem panes_nodup (hprev : Distinct prev) (hnext : Distinct next) :
    ((diffRows prev next).map Edge.paneId).Nodup := by
  rw [diffRows, List.map_append, List.nodup_append]
  have harrivals := panes_sublist (f := arrival prev) (fun row e h => by rw [(arrival_eq h).1]; rfl) next
  have hdepartures := panes_sublist (f := departure next) (fun row e h => by rw [(departure_eq h).1]; rfl) prev
  refine ⟨hnext.sublist harrivals, hprev.sublist hdepartures, fun a ha b hb heq => ?_⟩
  -- A pane that arrives is listed; one that departs is not.
  obtain ⟨e, he, rfl⟩ := List.mem_map.mp hb
  obtain ⟨row, -, hdeparture⟩ := List.mem_filterMap.mp he
  obtain ⟨rfl, hgone⟩ := departure_eq hdeparture
  have hlisted := harrivals.subset ha
  rw [classes, Option.map_eq_none_iff, byPane_eq_none] at hgone
  rw [heq] at hlisted
  exact hgone hlisted

/-- The records of one step lead from the classes before it to those after it. -/
theorem replay_diffRows (hprev : Distinct prev) (hnext : Distinct next) :
    replay ((diffRows prev next).map Edge.change) (classes prev) = some (classes next) := by
  have hkeys : ((diffRows prev next).map Edge.change).map Change.key = (diffRows prev next).map Edge.paneId := by
    rw [List.map_map]
    rfl
  refine KeyedDiff.replay_eq_some (by rw [hkeys]; exact panes_nodup hprev hnext) (fun change hchange => ?_)
    (fun change hchange => ?_) fun paneId hpane => ?_
  · obtain ⟨e, he, rfl⟩ := List.mem_map.mp hchange
    exact (mem_diffRows hprev hnext he).1
  · obtain ⟨e, he, rfl⟩ := List.mem_map.mp hchange
    exact (mem_diffRows hprev hnext he).2.1
  · rw [hkeys] at hpane
    have hnone : ∀ e ∈ diffRows prev next, e.paneId ≠ paneId := fun e he heq => hpane (heq ▸ List.mem_map_of_mem he)
    cases hafter : byPane next paneId with
    | some row =>
      obtain ⟨rfl, hrow⟩ := byPane_key hafter
      cases harrival : arrival prev row with
      | some e =>
        have he : e ∈ diffRows prev next := List.mem_append_left _ (List.mem_filterMap.mpr ⟨row, hrow, harrival⟩)
        exact absurd (by rw [(arrival_eq harrival).1]; rfl) (hnone e he)
      | none =>
        rw [arrival_eq_none harrival, classes, hafter, Option.map_some]
    | none =>
      rw [classes, hafter, Option.map_none]
      cases hbefore : byPane prev paneId with
      | none => rw [classes, hbefore, Option.map_none]
      | some row =>
        obtain ⟨rfl, hrow⟩ := byPane_key hbefore
        have hdeparture : departure next row = some (edge row (some row.token) none) := by
          rw [departure, hafter]
          rfl
        have he : edge row (some row.token) none ∈ diffRows prev next :=
          List.mem_append_right _ (List.mem_filterMap.mpr ⟨row, hrow, hdeparture⟩)
        exact absurd rfl (hnone _ he)

end

/-! ## Runs -/

theorem Distinct.retain {rows : List ListedRow} (h : Distinct rows) (selector : Selector) :
    Distinct (selector.retain rows) := by
  unfold Selector.retain
  split
  · exact h
  · exact h.sublist (List.filter_sublist.map _)

variable {selector : Selector}

/-- The records from one observation on. -/
theorem replay_stream {prev : List ListedRow} (hprev : Distinct prev) {later : List (List ListedRow)}
    (hlater : ∀ rows ∈ later, Distinct rows) :
    replay ((stream selector (some prev) later).map Edge.change) (classes prev) =
      some (classes ((later.getLast?.map selector.retain).getD prev)) := by
  induction later generalizing prev with
  | nil => rfl
  | cons rows later ih =>
    have hrows := (hlater rows List.mem_cons_self).retain selector
    have hrest := ih hrows fun r hr => hlater r (List.mem_cons_of_mem _ hr)
    have hstream : stream selector (some prev) (rows :: later) =
        diffRows prev (selector.retain rows) ++ stream selector (some (selector.retain rows)) later := rfl
    rw [hstream, List.map_append, KeyedDiff.replay_append, replay_diffRows hprev hrows, Option.bind_some, hrest]
    cases later with
    | nil => rfl
    | cons r later => rfl

/-- Every record of a stream is of two observations, one after the other. -/
theorem mem_stream {prev : List ListedRow} {later : List (List ListedRow)} {e : Edge}
    (h : e ∈ stream selector (some prev) later) :
    ∃ before after, before ∈ prev :: later.map selector.retain ∧ after ∈ later.map selector.retain ∧
      e ∈ diffRows before after := by
  induction later generalizing prev with
  | nil => cases h
  | cons rows later ih =>
    rcases List.mem_append.mp h with h | h
    · exact ⟨prev, selector.retain rows, List.mem_cons_self, List.mem_cons_self, h⟩
    · obtain ⟨before, after, hbefore, hafter, he⟩ := ih h
      exact ⟨before, after, List.mem_cons_of_mem _ hbefore, List.mem_cons_of_mem _ hafter, he⟩

/-- **The event stream is lossless.** Over any observations, each of distinct panes: whoever holds the classes of the
first and follows the records finds every pane as each record says it was, and ends with the classes of the last; no
record says that nothing moved; and each is of a row that was observed and asked for. -/
theorem events_replay (selector : Selector) {first : List ListedRow} {later : List (List ListedRow)}
    (h : ∀ rows ∈ first :: later, Distinct rows) :
    replay ((stream selector none (first :: later)).map Edge.change) (classes (selector.retain first)) =
        some (classes (selector.retain ((first :: later).getLast (List.cons_ne_nil _ _)))) ∧
      ∀ e ∈ stream selector none (first :: later), e.from' ≠ e.to' ∧
        ∃ rows ∈ first :: later, ∃ row ∈ selector.retain rows, e = edge row e.from' e.to' := by
  have hfirst := (h first List.mem_cons_self).retain selector
  have hlater : ∀ rows ∈ later, Distinct rows := fun rows hrows => h rows (List.mem_cons_of_mem _ hrows)
  have hstream : stream selector none (first :: later) = stream selector (some (selector.retain first)) later := rfl
  refine ⟨?_, fun e he => ?_⟩
  · rw [hstream, replay_stream hfirst hlater]
    cases later with
    | nil => rfl
    | cons rows later =>
      rw [List.getLast_cons_cons, List.getLast?_eq_some_getLast (List.cons_ne_nil rows later)]
      rfl
  · rw [hstream] at he
    obtain ⟨before, after, hbefore, hafter, he⟩ := mem_stream he
    have hselected : ∀ rows ∈ selector.retain first :: later.map selector.retain,
        ∃ observed ∈ first :: later, rows = selector.retain observed := by
      intro rows hrows
      rw [← List.map_cons (f := selector.retain)] at hrows
      obtain ⟨observed, hobserved, rfl⟩ := List.mem_map.mp hrows
      exact ⟨observed, hobserved, rfl⟩
    obtain ⟨seen, hseen, rfl⟩ := hselected before hbefore
    obtain ⟨seen', hseen', rfl⟩ := hselected after (List.mem_cons_of_mem _ hafter)
    obtain ⟨-, -, hne, row, hrow, heq⟩ := mem_diffRows ((h seen hseen).retain selector) ((h seen' hseen').retain selector) he
    refine ⟨hne, ?_⟩
    rcases List.mem_append.mp hrow with hrow | hrow
    · exact ⟨seen, hseen, row, hrow, heq⟩
    · exact ⟨seen', hseen', row, hrow, heq⟩

/-! ### A pane that comes, and one that goes -/

def listed (paneId : String) (state : AgentState) (attention : Bool) : ListedRow where
  paneId := paneId.toList
  agent := "claude".toList
  state
  since := 0
  session := "work".toList
  windowIndex := 1
  paneIndex := 0
  title := []
  attention

def oneMorning : List (List ListedRow) :=
  [[listed "%1" .working false], [listed "%1" .blocked false, listed "%2" .working false], [listed "%2" .idle true]]

theorem events_replay_morning :
    (stream {} none oneMorning).map (fun e => (e.paneId, e.from', e.to')) =
        [("%1".toList, some (.closed .working), some (.closed .blocked)), ("%2".toList, none, some (.closed .working)),
          ("%2".toList, some (.closed .working), some .done), ("%1".toList, some (.closed .blocked), none)] ∧
      replay ((stream {} none oneMorning).map Edge.change) (classes [listed "%1" .working false]) =
        some (classes [listed "%2" .idle true]) := by
  have hdistinct : ∀ rows ∈ oneMorning, Distinct rows := by
    unfold Distinct
    decide
  exact ⟨by decide, (events_replay {} hdistinct).1⟩

end TmuxAgents.Events
