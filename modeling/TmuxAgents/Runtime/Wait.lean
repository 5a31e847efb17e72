/-
Waiting for an agent (`wait.rs`): one cycle after another, until one of them shows what was waited for,
or that it cannot come.

The waiter keeps a few latches from one cycle to the next. What it answers is what the whole of the
cycles so far would say (`wait_history`): a pane is gone only once it was seen, its agent only once it
carried one, a name means the first pane that answered to it, and a barrier the panes of the first cycle.
-/
import TmuxAgents.Runtime.Events

namespace TmuxAgents.Wait

open Events (ListedRow Selector StateToken)

/-! ## The waiter -/

/-- The latest instant of the row that a wait may have been started for. -/
def episodeAt (row : ListedRow) : Nat := max row.since row.turnAt

structure Goal where
  until' : List StateToken
  since : Option Nat

def Goal.matches' (goal : Goal) (row : ListedRow) : Bool :=
  goal.until'.any (fun token => token.matches' row.toAgentRow) && goal.since.all fun floor => decide (floor < episodeAt row)

inductive Target
  | pane (paneId : Text)
  | agent (name : Text)
  | any
  | all
  | count (n : Nat)

/-- What one cycle's rows say of the target. -/
inductive Step
  | matched (rows : List ListedRow)
  /-- A pane that was seen is gone. -/
  | vanished (paneId : Text)
  /-- It is there, and its agent is gone. -/
  | departed (paneId : Text)
  | ambiguous (paneIds : List Text)
  | empty
  | waiting

structure PaneLatch where
  observedPane : Bool := false
  observedAgent : Bool := false
  warnedNonagent : Bool := false

structure Latches where
  pane : PaneLatch := {}
  pinned : Option Text := none
  members : Option (List Text) := none

/-- The rows of a cycle, and whether a listing of the panes behind it has one, where it answers. -/
structure Cycle where
  rows : List ListedRow
  listed : Text → Option Bool

def rowOf (rows : List ListedRow) (paneId : Text) : Option ListedRow := rows.find? fun row => row.paneId = paneId

def evalPane (paneId : Text) (cycle : Cycle) (goal : Goal) (latch : PaneLatch) : Step × PaneLatch :=
  match rowOf cycle.rows paneId with
  | some row =>
    (if goal.matches' row then .matched [row] else .waiting, { latch with observedPane := true, observedAgent := true })
  | none =>
    match cycle.listed paneId with
    | some true =>
      let latch := { latch with observedPane := true }
      if latch.observedAgent then (.departed paneId, latch) else (.waiting, { latch with warnedNonagent := true })
    | some false => (if latch.observedPane then .vanished paneId else .waiting, latch)
    | none => (.waiting, latch)

/-- The rows in scope. -/
def scope (selector : Selector) (rows : List ListedRow) : List ListedRow :=
  rows.filter fun row => selector.matches' row.toAgentRow

/-- The members of a barrier, one after the other. The first that is lost ends it. -/
def evalMembers (cycle : Cycle) (goal : Goal) : List Text → List ListedRow → Bool → Step
  | [], matched, waiting => if waiting then .waiting else .matched matched
  | member :: members, matched, waiting =>
    match (evalPane member cycle goal { observedPane := true, observedAgent := true, warnedNonagent := true }).1 with
    | .matched rows => evalMembers cycle goal members (matched ++ rows) waiting
    | .waiting => evalMembers cycle goal members matched true
    | terminal => terminal

def evalAll (cycle : Cycle) (selector : Selector) (goal : Goal) (latches : Latches) : Step × Latches :=
  match latches.members with
  | some members => (evalMembers cycle goal members [] false, latches)
  | none =>
    let members := (scope selector cycle.rows).map fun row => row.paneId
    if members.isEmpty then (.empty, latches)
    else (evalMembers cycle goal members [] false, { latches with members := some members })

def evaluate (target : Target) (cycle : Cycle) (selector : Selector) (goal : Goal) (latches : Latches) : Step × Latches :=
  match target with
  | .pane paneId =>
    let (step, pane) := evalPane paneId cycle goal latches.pane
    (step, { latches with pane })
  | .agent _ =>
    match latches.pinned with
    | some paneId =>
      let (step, pane) := evalPane paneId cycle goal latches.pane
      (step, { latches with pane })
    | none =>
      match scope selector cycle.rows with
      | [] => (.waiting, latches)
      | [only] =>
        let (step, pane) := evalPane only.paneId cycle goal latches.pane
        (step, { latches with pane, pinned := some only.paneId })
      | many => (.ambiguous (many.map fun row => row.paneId), latches)
  | .any =>
    match cycle.rows.find? fun row => selector.matches' row.toAgentRow && goal.matches' row with
    | some row => (.matched [row], latches)
    | none => (.waiting, latches)
  | .all => evalAll cycle selector goal latches
  | .count n =>
    let hits := (scope selector cycle.rows).filter goal.matches'
    (if n ≤ hits.length then .matched hits else .waiting, latches)

/-- What a pass of the loop gets from its cycle. -/
inductive Report
  | cycle (cycle : Cycle)
  /-- The server is slow to answer, and is waited for. -/
  | timeout
  | serverGone
  | failed

/-- A pass of the loop, and whether the deadline has passed when it is looked at. -/
structure Pass where
  report : Report
  expired : Bool

inductive Exit
  | success (rows : List ListedRow)
  | failure
  | ambiguous (paneIds : List Text)
  | usage
  | vanished (paneId : Text)
  | departed (paneId : Text)
  | timedOut

/-- The exit code. -/
def Exit.code : Exit → Nat
  | .success _ => 0
  | .failure => 1
  | .ambiguous _ => 1
  | .usage => 2
  | .vanished _ => 3
  | .departed _ => 4
  | .timedOut => 124

/-- How a step ends the wait, if it does. -/
def Step.exit : Step → Option Exit
  | .matched rows => some (.success rows)
  | .vanished paneId => some (.vanished paneId)
  | .departed paneId => some (.departed paneId)
  | .ambiguous paneIds => some (.ambiguous paneIds)
  | .empty => some .usage
  | .waiting => none

/-- The loop, which has not returned where the passes run out. -/
def run (target : Target) (selector : Selector) (goal : Goal) : Latches → List Pass → Option Exit
  | _, [] => none
  | latches, pass :: later =>
    match pass.report with
    | .serverGone => some .failure
    | .failed => some .failure
    | .timeout => if pass.expired then some .timedOut else run target selector goal latches later
    | .cycle cycle =>
      match (evaluate target cycle selector goal latches).1.exit with
      | some exit => some exit
      | none =>
        if pass.expired then some .timedOut
        else run target selector goal (evaluate target cycle selector goal latches).2 later

/-! ## What the cycles so far say -/

def carried (history : List Cycle) (paneId : Text) : Bool := history.any fun cycle => (rowOf cycle.rows paneId).isSome

def seen (history : List Cycle) (paneId : Text) : Bool :=
  history.any fun cycle => (rowOf cycle.rows paneId).isSome || cycle.listed paneId = some true

/-- Of one pane, from the cycles before and this one. -/
def paneVerdict (goal : Goal) (history : List Cycle) (now : Cycle) (paneId : Text) : Step :=
  match rowOf now.rows paneId with
  | some row => if goal.matches' row then .matched [row] else .waiting
  | none =>
    match now.listed paneId with
    | some true => if carried history paneId then .departed paneId else .waiting
    | some false => if seen history paneId then .vanished paneId else .waiting
    | none => .waiting

def Step.isTerminal : Step → Bool
  | .matched _ => false
  | .waiting => false
  | _ => true

def Step.rows : Step → List ListedRow
  | .matched rows => rows
  | _ => []

def Step.isWaiting : Step → Bool
  | .waiting => true
  | _ => false

/-- Of several, all at once, behind others that were waited for or not: the first that is lost, or that some are
waited for, or the rows of all. -/
def barrier (matched : List ListedRow) (waiting : Bool) (steps : List Step) : Step :=
  match steps.find? Step.isTerminal with
  | some step => step
  | none => if waiting || steps.any Step.isWaiting then .waiting else .matched (matched ++ steps.flatMap Step.rows)

/-- The cycles from the first that has a row in scope. -/
def fromFirst (selector : Selector) (cycles : List Cycle) : List Cycle :=
  cycles.dropWhile fun cycle => (scope selector cycle.rows).isEmpty

/-- Of the target. -/
def verdict (target : Target) (selector : Selector) (goal : Goal) (history : List Cycle) (now : Cycle) : Step :=
  match target with
  | .pane paneId => paneVerdict goal history now paneId
  | .agent _ =>
    match fromFirst selector (history ++ [now]) with
    | [] => .waiting
    | first :: _ =>
      match scope selector first.rows with
      | [only] => paneVerdict goal (fromFirst selector history) now only.paneId
      | many => .ambiguous (many.map fun row => row.paneId)
  | .any => ((scope selector now.rows).find? goal.matches').elim .waiting fun row => .matched [row]
  | .all =>
    let members := (scope selector (history.head?.getD now).rows).map fun row => row.paneId
    if members.isEmpty then .empty else barrier [] false (members.map (paneVerdict goal history now))
  | .count n =>
    let hits := (scope selector now.rows).filter goal.matches'
    if n ≤ hits.length then .matched hits else .waiting

/-- The loop, by what the cycles so far say. -/
def runVerdict (target : Target) (selector : Selector) (goal : Goal) : List Cycle → List Pass → Option Exit
  | _, [] => none
  | history, pass :: later =>
    match pass.report with
    | .serverGone => some .failure
    | .failed => some .failure
    | .timeout => if pass.expired then some .timedOut else runVerdict target selector goal history later
    | .cycle cycle =>
      match (verdict target selector goal history cycle).exit with
      | some exit => some exit
      | none => if pass.expired then some .timedOut else runVerdict target selector goal (history ++ [cycle]) later

/-- The cycles that the passes got. -/
def cyclesOf (passes : List Pass) : List Cycle :=
  passes.filterMap fun pass =>
    match pass.report with
    | .cycle cycle => some cycle
    | _ => none

/-! ## The latches -/

section

variable {goal : Goal} {history : List Cycle} {now : Cycle} {paneId : Text}

theorem carried_append : carried (history ++ [now]) paneId = (carried history paneId || (rowOf now.rows paneId).isSome) := by
  simp [carried]

theorem seen_append : seen (history ++ [now]) paneId =
    (seen history paneId || ((rowOf now.rows paneId).isSome || decide (now.listed paneId = some true))) := by
  simp [seen]

/-- The latches of one pane say what the cycles have shown of it. -/
structure PaneLatch.Tells (history : List Cycle) (paneId : Text) (latch : PaneLatch) : Prop where
  pane : latch.observedPane = seen history paneId
  agent : latch.observedAgent = carried history paneId

theorem evalPane_tells (goal : Goal) (now : Cycle) {latch : PaneLatch} (h : latch.Tells history paneId) :
    (evalPane paneId now goal latch).1 = paneVerdict goal history now paneId ∧
      (evalPane paneId now goal latch).2.Tells (history ++ [now]) paneId := by
  unfold evalPane paneVerdict
  cases hrow : rowOf now.rows paneId with
  | some row => exact ⟨rfl, by rw [seen_append, hrow]; simp, by rw [carried_append, hrow]; simp⟩
  | none =>
    cases hlisted : now.listed paneId with
    | none => exact ⟨rfl, by rw [seen_append, hrow, hlisted, h.pane]; simp, by rw [carried_append, hrow, h.agent]; simp⟩
    | some alive =>
      cases alive with
      | true =>
        dsimp only
        rw [h.agent]
        cases hcarried : carried history paneId with
        | true => exact ⟨rfl, by rw [seen_append, hrow, hlisted]; simp, by rw [carried_append, hrow, hcarried]; rfl⟩
        | false => exact ⟨rfl, by rw [seen_append, hrow, hlisted]; simp, by rw [carried_append, hrow, hcarried]; rfl⟩
      | false =>
        dsimp only
        rw [h.pane]
        exact ⟨rfl, by rw [seen_append, hrow, hlisted, h.pane]; simp, by rw [carried_append, hrow, h.agent]; simp⟩

/-- A member of a barrier was seen with its agent. -/
theorem evalPane_member {member : Text} (h : carried history member = true ∨ (rowOf now.rows member).isSome = true) :
    (evalPane member now goal { observedPane := true, observedAgent := true, warnedNonagent := true }).1 =
      paneVerdict goal history now member := by
  unfold evalPane paneVerdict
  cases hrow : rowOf now.rows member with
  | some row => rfl
  | none =>
    rw [hrow] at h
    have hcarried : carried history member = true := h.resolve_right Bool.noConfusion
    have hseen : seen history member = true := by
      rw [seen, List.any_eq_true]
      obtain ⟨cycle, hcycle, hsome⟩ := List.any_eq_true.mp hcarried
      exact ⟨cycle, hcycle, by rw [hsome, Bool.true_or]⟩
    cases hlisted : now.listed member with
    | none => rfl
    | some alive => cases alive <;> simp [hcarried, hseen]

theorem evalMembers_eq {members : List Text}
    (h : ∀ member ∈ members, carried history member = true ∨ (rowOf now.rows member).isSome = true)
    (matched : List ListedRow) (waiting : Bool) :
    evalMembers now goal members matched waiting =
      barrier matched waiting (members.map (paneVerdict goal history now)) := by
  induction members generalizing matched waiting with
  | nil => cases waiting <;> simp [evalMembers, barrier]
  | cons member members ih =>
    have hrest := ih fun m hm => h m (List.mem_cons_of_mem _ hm)
    rw [evalMembers, evalPane_member (h member List.mem_cons_self), List.map_cons]
    cases paneVerdict goal history now member with
    | matched rows =>
      dsimp only
      rw [hrest]
      simp [barrier, Step.isTerminal, Step.isWaiting, Step.rows]
    | waiting =>
      dsimp only
      rw [hrest]
      simp [barrier, Step.isTerminal, Step.isWaiting]
    | vanished paneId => rfl
    | departed paneId => rfl
    | ambiguous paneIds => rfl
    | empty => rfl

end

/-- The panes in scope. -/
def panesOf (selector : Selector) (cycle : Cycle) : List Text := (scope selector cycle.rows).map fun row => row.paneId

theorem rowOf_panesOf {selector : Selector} {cycle : Cycle} {paneId : Text} (h : paneId ∈ panesOf selector cycle) :
    (rowOf cycle.rows paneId).isSome = true := by
  obtain ⟨row, hrow, rfl⟩ := List.mem_map.mp h
  rw [rowOf, List.find?_isSome]
  exact ⟨row, List.mem_of_mem_filter hrow, decide_eq_true rfl⟩

/-- The latches say what a wait needs to know of the cycles so far. -/
def Latches.Tells (target : Target) (selector : Selector) (history : List Cycle) (latches : Latches) : Prop :=
  match target with
  | .pane paneId => latches.pane.Tells history paneId
  | .agent _ =>
    (fromFirst selector history = [] ∧ latches = {}) ∨
      ∃ first later only, fromFirst selector history = first :: later ∧ scope selector first.rows = [only] ∧
        latches.pinned = some only.paneId ∧ latches.pane.Tells (first :: later) only.paneId
  | .all =>
    (history = [] ∧ latches.members = none) ∨
      ∃ first later, history = first :: later ∧ latches.members = some (panesOf selector first) ∧ panesOf selector first ≠ []
  | _ => True

theorem Latches.Tells.start (target : Target) (selector : Selector) : Latches.Tells target selector [] {} := by
  cases target with
  | pane paneId => exact ⟨rfl, rfl⟩
  | agent name => exact .inl ⟨rfl, rfl⟩
  | all => exact .inl ⟨rfl, rfl⟩
  | any => trivial
  | count n => trivial

section

variable {target : Target} {selector : Selector} {goal : Goal} {history : List Cycle} {now : Cycle} {latches : Latches}

theorem fromFirst_append (now : Cycle) (h : fromFirst selector history ≠ []) :
    fromFirst selector (history ++ [now]) = fromFirst selector history ++ [now] := by
  rw [fromFirst, fromFirst, List.dropWhile_append]
  have hempty : (history.dropWhile fun cycle => (scope selector cycle.rows).isEmpty).isEmpty = false :=
    List.isEmpty_eq_false_iff.mpr h
  rw [hempty]
  rfl

theorem fromFirst_append_nil (now : Cycle) (h : fromFirst selector history = []) :
    fromFirst selector (history ++ [now]) = fromFirst selector [now] := by
  have hempty : (history.dropWhile fun cycle => (scope selector cycle.rows).isEmpty).isEmpty = true :=
    List.isEmpty_iff.mpr h
  rw [fromFirst, fromFirst, List.dropWhile_append, hempty]
  rfl

theorem fromFirst_single : fromFirst selector [now] = if (scope selector now.rows).isEmpty then [] else [now] := by
  rw [fromFirst, List.dropWhile_cons]
  rfl

/-- One cycle of a wait: the verdict of all so far, and latches that tell them. -/
theorem evaluate_tells (goal : Goal) (now : Cycle) (h : latches.Tells target selector history) :
    (evaluate target now selector goal latches).1 = verdict target selector goal history now ∧
      ((evaluate target now selector goal latches).1.exit = none →
        (evaluate target now selector goal latches).2.Tells target selector (history ++ [now])) := by
  cases target with
  | pane paneId =>
    obtain ⟨hstep, hlatch⟩ := evalPane_tells goal now h
    exact ⟨hstep, fun _ => hlatch⟩
  | agent name =>
    rcases h with ⟨hnone, rfl⟩ | ⟨first, later, only, hfirst, hscope, hpinned, hlatch⟩
    · -- No row in scope yet: this cycle's may be the first.
      have hfrom := (fromFirst_append_nil now hnone).trans fromFirst_single
      simp only [evaluate, verdict, hfrom]
      cases hrows : scope selector now.rows with
      | nil => exact ⟨rfl, fun _ => .inl ⟨by rw [hfrom, hrows]; rfl, rfl⟩⟩
      | cons only more =>
        cases more with
        | cons other more =>
          refine ⟨by simp [hrows], fun hexit => ?_⟩
          cases hexit
        | nil =>
          have htells : PaneLatch.Tells [] only.paneId {} := ⟨rfl, rfl⟩
          obtain ⟨hstep, hlatch⟩ := evalPane_tells goal now htells
          refine ⟨by simp [hrows, hnone, hstep], fun _ => .inr ⟨now, [], only, ?_, hrows, rfl, hlatch⟩⟩
          rw [hfrom, hrows]
          rfl
    · have hne : fromFirst selector history ≠ [] := by
        rw [hfirst]
        exact List.cons_ne_nil _ _
      obtain ⟨hstep, htells⟩ := evalPane_tells goal now hlatch
      have hfrom := (fromFirst_append now hne).trans (by rw [hfirst, List.cons_append])
      simp only [evaluate, verdict, hpinned, hfrom, hscope, hfirst]
      exact ⟨hstep, fun _ => .inr ⟨first, later ++ [now], only, hfrom, hscope, rfl, htells⟩⟩
  | any =>
    have hfind : (scope selector now.rows).find? goal.matches' =
        now.rows.find? fun row => selector.matches' row.toAgentRow && goal.matches' row := by
      rw [scope, List.find?_filter]
      simp only [Bool.decide_and, Bool.decide_eq_true]
    simp only [evaluate, verdict, hfind]
    cases now.rows.find? fun row => selector.matches' row.toAgentRow && goal.matches' row with
    | none => exact ⟨rfl, fun _ => trivial⟩
    | some row => exact ⟨rfl, fun _ => trivial⟩
  | all =>
    rcases h with ⟨rfl, hnone⟩ | ⟨first, later, rfl, hmembers, hne⟩
    · simp only [evaluate, evalAll, hnone, verdict, List.head?_nil, Option.getD_none]
      by_cases hempty : ((scope selector now.rows).map fun row => row.paneId).isEmpty = true
      · simp only [if_pos hempty]
        exact ⟨(if_pos hempty).symm, fun hexit => by cases hexit⟩
      · simp only [if_neg hempty]
        have hlisted : ∀ member ∈ panesOf selector now,
            carried [] member = true ∨ (rowOf now.rows member).isSome = true :=
          fun member hmember => .inr (rowOf_panesOf hmember)
        refine ⟨(evalMembers_eq hlisted [] false).trans (if_neg hempty).symm, fun _ => .inr ⟨now, [], rfl, rfl, ?_⟩⟩
        exact fun heq => hempty (List.isEmpty_iff.mpr heq)
    · have hempty : ((scope selector first.rows).map fun row => row.paneId).isEmpty = false := List.isEmpty_eq_false_iff.mpr hne
      have hlisted : ∀ member ∈ panesOf selector first,
          carried (first :: later) member = true ∨ (rowOf now.rows member).isSome = true := by
        intro member hmember
        rw [carried, List.any_cons, rowOf_panesOf hmember]
        exact .inl rfl
      simp only [evaluate, evalAll, hmembers, verdict, List.head?_cons, Option.getD_some, hempty]
      exact ⟨evalMembers_eq hlisted [] false, fun _ => .inr ⟨first, later ++ [now], rfl, hmembers, hne⟩⟩
  | count n => exact ⟨rfl, fun _ => trivial⟩

theorem run_eq (goal : Goal) (h : latches.Tells target selector history) (passes : List Pass) :
    run target selector goal latches passes = runVerdict target selector goal history passes := by
  induction passes generalizing history latches with
  | nil => rfl
  | cons pass later ih =>
    obtain ⟨report, expired⟩ := pass
    cases report with
    | serverGone => rfl
    | failed => rfl
    | timeout =>
      rw [run, runVerdict]
      dsimp only
      rw [ih h]
    | cycle now =>
      obtain ⟨hstep, hnext⟩ := evaluate_tells goal now h
      rw [run, runVerdict]
      dsimp only
      rw [← hstep]
      cases hexit : (evaluate target now selector goal latches).1.exit with
      | some exit => rfl
      | none => rw [ih (hnext hexit)]

end

/-! ## The answers -/

/-- The rows are those of the target. -/
def Covers (target : Target) (selector : Selector) (goal : Goal) (history : List Cycle) (now : Cycle)
    (rows : List ListedRow) : Prop :=
  match target with
  | .pane paneId => rows.map (fun row => row.paneId) = [paneId]
  | .agent _ => ∃ first later, fromFirst selector (history ++ [now]) = first :: later ∧
      rows.map (fun row => row.paneId) = panesOf selector first
  | .any => ∃ row ∈ scope selector now.rows, rows = [row]
  | .all => rows.map (fun row => row.paneId) = panesOf selector (history.head?.getD now)
  | .count n => n ≤ rows.length ∧ rows = (scope selector now.rows).filter goal.matches'

/-- What an exit says of the cycles before and the one it was made on. -/
def Promised (target : Target) (selector : Selector) (goal : Goal) (history : List Cycle) (now : Cycle) : Exit → Prop
  | .success rows => (∀ row ∈ rows, row ∈ now.rows ∧ goal.matches' row = true) ∧ Covers target selector goal history now rows
  | .vanished paneId => seen history paneId = true ∧ rowOf now.rows paneId = none ∧ now.listed paneId = some false
  | .departed paneId => carried history paneId = true ∧ rowOf now.rows paneId = none ∧ now.listed paneId = some true
  | .ambiguous paneIds => 2 ≤ paneIds.length
  | .usage => panesOf selector (history.head?.getD now) = []
  | .failure => False
  | .timedOut => False

section

variable {target : Target} {selector : Selector} {goal : Goal} {history : List Cycle} {now : Cycle} {paneId : Text}

/-- What the verdict on one pane says, with more cycles before it. -/
theorem paneVerdict_cases (goal : Goal) (now : Cycle) (paneId : Text) {recent : List Cycle} (h : recent <:+ history) :
    (paneVerdict goal recent now paneId).exit = none ∨
      (∃ row ∈ now.rows, row.paneId = paneId ∧ goal.matches' row = true ∧
        paneVerdict goal recent now paneId = .matched [row]) ∨
      (seen history paneId = true ∧ rowOf now.rows paneId = none ∧ now.listed paneId = some false ∧
        paneVerdict goal recent now paneId = .vanished paneId) ∨
      (carried history paneId = true ∧ rowOf now.rows paneId = none ∧ now.listed paneId = some true ∧
        paneVerdict goal recent now paneId = .departed paneId) := by
  unfold paneVerdict
  cases hrow : rowOf now.rows paneId with
  | some row =>
    have hfound := List.find?_some hrow
    rw [decide_eq_true_eq] at hfound
    dsimp only
    split
    next hgoal => exact .inr (.inl ⟨row, List.mem_of_find?_eq_some hrow, hfound, hgoal, rfl⟩)
    · exact .inl rfl
  | none =>
    cases hlisted : now.listed paneId with
    | none => exact .inl rfl
    | some alive =>
      cases alive with
      | true =>
        dsimp only
        split
        next hcarried =>
          obtain ⟨cycle, hcycle, hsome⟩ := List.any_eq_true.mp hcarried
          exact .inr (.inr (.inr ⟨List.any_eq_true.mpr ⟨cycle, h.subset hcycle, hsome⟩, rfl, rfl, rfl⟩))
        · exact .inl rfl
      | false =>
        dsimp only
        split
        next hseen =>
          obtain ⟨cycle, hcycle, hsome⟩ := List.any_eq_true.mp hseen
          exact .inr (.inr (.inl ⟨List.any_eq_true.mpr ⟨cycle, h.subset hcycle, hsome⟩, rfl, rfl, rfl⟩))
        · exact .inl rfl

/-- How several end: by one that is lost, or with the rows of all. -/
theorem barrier_exit {steps : List Step} {exit : Exit} (h : (barrier [] false steps).exit = some exit) :
    (∃ step ∈ steps, step.isTerminal = true ∧ step.exit = some exit) ∨
      (exit = .success (steps.flatMap Step.rows) ∧ ∀ step ∈ steps, step.exit ≠ none ∧ step.isTerminal = false) := by
  unfold barrier at h
  cases hfind : steps.find? Step.isTerminal with
  | some step =>
    rw [hfind] at h
    exact .inl ⟨step, List.mem_of_find?_eq_some hfind, List.find?_some hfind, h⟩
  | none =>
    rw [hfind] at h
    dsimp only at h
    split at h
    · cases h
    next hwaiting =>
      refine .inr ⟨(Option.some.inj h).symm, fun step hstep => ⟨fun hexit => hwaiting ?_, ?_⟩⟩
      · rw [Bool.false_or, List.any_eq_true]
        refine ⟨step, hstep, ?_⟩
        cases step with
        | waiting => rfl
        | matched rows => cases hexit
        | vanished paneId => cases hexit
        | departed paneId => cases hexit
        | ambiguous paneIds => cases hexit
        | empty => cases hexit
      · simpa using List.find?_eq_none.mp hfind step hstep

/-- The rows of members that all satisfy the goal. -/
theorem barrier_rows {members : List Text}
    (h : ∀ step ∈ members.map (paneVerdict goal history now), step.exit ≠ none ∧ step.isTerminal = false) :
    (∀ row ∈ (members.map (paneVerdict goal history now)).flatMap Step.rows, row ∈ now.rows ∧ goal.matches' row = true) ∧
      ((members.map (paneVerdict goal history now)).flatMap Step.rows).map (fun row => row.paneId) = members := by
  induction members with
  | nil => exact ⟨fun row hrow => (List.not_mem_nil hrow).elim, rfl⟩
  | cons member members ih =>
    obtain ⟨hrows, hpanes⟩ := ih fun step hstep => h step (List.mem_cons_of_mem _ hstep)
    obtain ⟨hexit, hterminal⟩ := h (paneVerdict goal history now member) List.mem_cons_self
    rw [List.map_cons, List.flatMap_cons]
    rcases paneVerdict_cases goal now member (List.suffix_refl history) with hnone | ⟨row, hrow, hid, hgoal, hstep⟩ | hlost | hlost
    · exact absurd hnone hexit
    · rw [hstep, Step.rows, List.singleton_append, List.map_cons, hpanes, hid]
      refine ⟨fun r hr => ?_, rfl⟩
      rcases List.mem_cons.mp hr with rfl | hr
      · exact ⟨hrow, hgoal⟩
      · exact hrows r hr
    · rw [hlost.2.2.2] at hterminal
      cases hterminal
    · rw [hlost.2.2.2] at hterminal
      cases hterminal

theorem paneVerdict_promised {recent : List Cycle} (h : recent <:+ history)
    (hcovers : ∀ row, row.paneId = paneId → paneVerdict goal recent now paneId = .matched [row] →
      Covers target selector goal history now [row]) {exit : Exit}
    (hexit : (paneVerdict goal recent now paneId).exit = some exit) : Promised target selector goal history now exit := by
  rcases paneVerdict_cases goal now paneId h with hnone | ⟨row, hrow, hid, hgoal, hstep⟩ | ⟨hseen, hrow, hlisted, hstep⟩ |
    ⟨hcarried, hrow, hlisted, hstep⟩
  · rw [hnone] at hexit
    cases hexit
  · rw [hstep] at hexit
    cases hexit
    refine ⟨fun r hr => ?_, hcovers row hid hstep⟩
    rw [List.mem_singleton.mp hr]
    exact ⟨hrow, hgoal⟩
  · rw [hstep] at hexit
    cases hexit
    exact ⟨hseen, hrow, hlisted⟩
  · rw [hstep] at hexit
    cases hexit
    exact ⟨hcarried, hrow, hlisted⟩

theorem verdict_promised {exit : Exit} (h : (verdict target selector goal history now).exit = some exit) :
    Promised target selector goal history now exit := by
  cases target with
  | pane paneId => exact paneVerdict_promised (List.suffix_refl history) (fun row hid _ => by rw [Covers]; simp [hid]) h
  | agent name =>
    simp only [verdict] at h
    cases hfrom : fromFirst selector (history ++ [now]) with
    | nil =>
      rw [hfrom] at h
      cases h
    | cons first later =>
      rw [hfrom] at h
      dsimp only at h
      have hsome : (scope selector first.rows).isEmpty = false := by
        have hhead := List.head?_dropWhile_not (fun cycle : Cycle => (scope selector cycle.rows).isEmpty) (history ++ [now])
        rw [fromFirst] at hfrom
        rw [hfrom] at hhead
        simpa using hhead
      cases hscope : scope selector first.rows with
      | nil =>
        rw [hscope] at hsome
        cases hsome
      | cons only more =>
        rw [hscope] at h
        cases more with
        | nil =>
          have hcovers : ∀ row : ListedRow, row.paneId = only.paneId → Covers (.agent name) selector goal history now [row] := by
            intro row hid
            refine ⟨first, later, hfrom, ?_⟩
            rw [panesOf, hscope, List.map_singleton, List.map_singleton, hid]
          exact paneVerdict_promised (List.dropWhile_suffix _) (fun row hid _ => hcovers row hid) h
        | cons other more =>
          cases h
          show 2 ≤ _
          simp
  | any =>
    simp only [verdict] at h
    cases hfind : (scope selector now.rows).find? goal.matches' with
    | none =>
      rw [hfind] at h
      cases h
    | some row =>
      rw [hfind] at h
      cases h
      have hmem := List.mem_of_find?_eq_some hfind
      refine ⟨fun r hr => ?_, row, hmem, rfl⟩
      rw [List.mem_singleton.mp hr]
      exact ⟨List.mem_of_mem_filter hmem, List.find?_some hfind⟩
  | all =>
    simp only [verdict] at h
    split at h
    next hempty =>
      cases h
      exact List.isEmpty_iff.mp hempty
    · rcases barrier_exit h with ⟨step, hstep, hterminal, hexit⟩ | ⟨rfl, hall⟩
      · obtain ⟨member, hmember, rfl⟩ := List.mem_map.mp hstep
        refine paneVerdict_promised (List.suffix_refl history) (fun row _ hmatched => ?_) hexit
        rw [hmatched] at hterminal
        cases hterminal
      · exact ⟨(barrier_rows hall).1, (barrier_rows hall).2⟩
  | count n =>
    simp only [verdict] at h
    split at h
    next hle =>
      cases h
      refine ⟨fun row hrow => ?_, hle, rfl⟩
      obtain ⟨hscope, hgoal⟩ := List.mem_filter.mp hrow
      exact ⟨List.mem_of_mem_filter hscope, hgoal⟩
    · cases h

/-- The server is there, the cycle has not failed, and time is left. -/
structure Pass.GoesOn (pass : Pass) : Prop where
  there : pass.report ≠ .serverGone
  sound : pass.report ≠ .failed
  live : pass.expired = false

/-- How a pass ends the wait, behind these cycles. -/
def Ends (target : Target) (selector : Selector) (goal : Goal) (history : List Cycle) (pass : Pass) (exit : Exit) : Prop :=
  (exit = .failure ∧ (pass.report = .serverGone ∨ pass.report = .failed)) ∨
    (exit = .timedOut ∧ pass.expired = true ∧
      ∀ now, pass.report = .cycle now → (verdict target selector goal history now).exit = none) ∨
    ∃ now, pass.report = .cycle now ∧ (verdict target selector goal history now).exit = some exit ∧
      Promised target selector goal history now exit

/-- The loop ends at the first pass that ends it. -/
theorem runVerdict_ends {passes : List Pass} {exit : Exit} (h : runVerdict target selector goal history passes = some exit) :
    ∃ before pass after, passes = before ++ pass :: after ∧ (∀ p ∈ before, p.GoesOn) ∧
      (∀ earlier cycle later, cyclesOf before = earlier ++ cycle :: later →
        (verdict target selector goal (history ++ earlier) cycle).exit = none) ∧
      Ends target selector goal (history ++ cyclesOf before) pass exit := by
  induction passes generalizing history with
  | nil => cases h
  | cons pass later ih =>
    obtain ⟨report, expired⟩ := pass
    have hfirst : Ends target selector goal history ⟨report, expired⟩ exit →
        ∃ before pass after, (⟨report, expired⟩ : Pass) :: later = before ++ pass :: after ∧ (∀ p ∈ before, p.GoesOn) ∧
          (∀ earlier cycle later, cyclesOf before = earlier ++ cycle :: later →
            (verdict target selector goal (history ++ earlier) cycle).exit = none) ∧
          Ends target selector goal (history ++ cyclesOf before) pass exit := by
      intro hends
      refine ⟨[], _, later, rfl, fun p hp => (List.not_mem_nil hp).elim, fun earlier cycle later hsplit => ?_, ?_⟩
      · exact absurd hsplit.symm (List.append_ne_nil_of_right_ne_nil _ (List.cons_ne_nil _ _))
      · rw [show cyclesOf [] = [] from rfl, List.append_nil]
        exact hends
    cases report with
    | serverGone => exact hfirst (.inl ⟨(Option.some.inj h).symm, .inl rfl⟩)
    | failed => exact hfirst (.inl ⟨(Option.some.inj h).symm, .inr rfl⟩)
    | timeout =>
      rw [runVerdict] at h
      dsimp only at h
      split at h
      next hexpired => exact hfirst (.inr (.inl ⟨(Option.some.inj h).symm, hexpired, fun now hnow => by cases hnow⟩))
      next hexpired =>
        obtain ⟨before, pass, after, rfl, hlive, hwaiting, hends⟩ := ih h
        refine ⟨⟨.timeout, expired⟩ :: before, pass, after, rfl, fun p hp => ?_, hwaiting, hends⟩
        rcases List.mem_cons.mp hp with rfl | hp
        · exact ⟨nofun, nofun, Bool.eq_false_of_not_eq_true hexpired⟩
        · exact hlive p hp
    | cycle now =>
      rw [runVerdict] at h
      dsimp only at h
      cases hexit : (verdict target selector goal history now).exit with
      | some found =>
        rw [hexit] at h
        rw [Option.some.inj h] at hexit
        exact hfirst (.inr (.inr ⟨now, rfl, hexit, verdict_promised hexit⟩))
      | none =>
        rw [hexit] at h
        dsimp only at h
        split at h
        next hexpired =>
          refine hfirst (.inr (.inl ⟨(Option.some.inj h).symm, hexpired, fun cycle hcycle => ?_⟩))
          cases hcycle
          exact hexit
        next hexpired =>
          obtain ⟨before, pass, after, rfl, hlive, hwaiting, hends⟩ := ih h
          have hcycles : cyclesOf (⟨.cycle now, expired⟩ :: before) = now :: cyclesOf before := rfl
          refine ⟨⟨.cycle now, expired⟩ :: before, pass, after, rfl, fun p hp => ?_, fun earlier cycle later hsplit => ?_, ?_⟩
          · rcases List.mem_cons.mp hp with rfl | hp
            · exact ⟨nofun, nofun, Bool.eq_false_of_not_eq_true hexpired⟩
            · exact hlive p hp
          · rw [hcycles, List.cons_eq_append_iff] at hsplit
            rcases hsplit with ⟨rfl, hsplit⟩ | ⟨rest, rfl, hsplit⟩
            · cases hsplit
              rw [List.append_nil]
              exact hexit
            · have hquiet := hwaiting rest cycle later hsplit
              rwa [List.append_assoc] at hquiet
          · rw [hcycles, List.append_cons]
            exact hends

end

/-- **A wait answers what its cycles say.** Whatever is waited for and whatever the cycles show, the loop with its latches
answers as one that looks through all the cycles so far; it ends at the first pass that ends it; and what its exit says
holds: rows of this very cycle that satisfy the goal, and all that the target asks for; a pane that was seen and is gone;
a pane that is there without the agent that was seen in it; and no time left. -/
theorem wait_history (target : Target) (selector : Selector) (goal : Goal) (passes : List Pass) :
    run target selector goal {} passes = runVerdict target selector goal [] passes ∧
      ∀ exit, run target selector goal {} passes = some exit →
        ∃ before pass after, passes = before ++ pass :: after ∧ (∀ p ∈ before, p.GoesOn) ∧
          (∀ earlier cycle later, cyclesOf before = earlier ++ cycle :: later →
            (verdict target selector goal earlier cycle).exit = none) ∧
          Ends target selector goal (cyclesOf before) pass exit := by
  have heq := run_eq goal (Latches.Tells.start target selector) passes
  refine ⟨heq, fun exit hexit => ?_⟩
  rw [heq] at hexit
  obtain ⟨before, pass, after, hsplit, hlive, hwaiting, hends⟩ := runVerdict_ends hexit
  exact ⟨before, pass, after, hsplit, hlive, hwaiting, hends⟩

end TmuxAgents.Wait
