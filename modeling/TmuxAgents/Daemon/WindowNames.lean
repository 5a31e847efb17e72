/-
The names the daemon gives windows (`window_names.rs` of the daemon and of tma-tmux, and `decide` of
tma-runtime's): a window with an agent is named for what its agents do. The first rename saves what it
finds on the window itself, and a pass that finds no agent there, or the daemon as it ends, puts that
back.

A pass reads a window, decides, and writes; between two of its calls anybody may rename the window.
What tmux makes of a name is its own: it refuses some, and stores some otherwise than they are given.
Which of a window's agents it is named for, and what is known of that one, is an input.
-/
import Mathlib.Logic.Relation
import TmuxAgents.Runtime.WindowName

namespace TmuxAgents.WindowNames

/-- What tmux makes of a text. -/
structure Tmux where
  /-- Of a window's name; nothing where it is refused. -/
  stored : Text → Option Text
  /-- Of an option's value. -/
  kept : Text → Text

/-- A window. An option that is unset is empty. -/
structure Window where
  name : Text
  /-- At the window's own scope; the window inherits the option otherwise. -/
  automaticRename : Option Bool
  nameOrig : Text := []
  autorenameOrig : Text := []
  nameLast : Text := []
deriving DecidableEq

inductive Key
  | automaticRename
  | nameOrig
  | autorenameOrig
  | nameLast
deriving DecidableEq

inductive Command
  | renameWindow (name : Text)
  | set (key : Key) (value : Text)
  | unset (key : Key)
deriving DecidableEq

def flag : Bool → Text
  | true => "on".toList
  | false => "off".toList

def readFlag (value : Text) : Option Bool :=
  if value = flag true then some true else if value = flag false then some false else none

/-- The sentinel of an `automatic-rename` that the window inherits. -/
def autorenameUnset : Text := ['-']

namespace Tmux

variable (tmux : Tmux)

/-- `rename-window` turns `automatic-rename` off. A flag and the sentinel are kept as they are. -/
def exec (window : Window) : Command → Option Window
  | .renameWindow name => (tmux.stored name).map fun name => { window with name, automaticRename := some false }
  | .set .automaticRename value => (readFlag value).map fun on => { window with automaticRename := some on }
  | .set .nameOrig value => some { window with nameOrig := tmux.kept value }
  | .set .autorenameOrig value => some { window with autorenameOrig := value }
  | .set .nameLast value => some { window with nameLast := tmux.kept value }
  | .unset .automaticRename => some { window with automaticRename := none }
  | .unset .nameOrig => some { window with nameOrig := [] }
  | .unset .autorenameOrig => some { window with autorenameOrig := [] }
  | .unset .nameLast => some { window with nameLast := [] }

/-- A chain ends at the first command that is refused. -/
def apply (window : Window) : List Command → Window
  | [] => window
  | command :: commands =>
    match tmux.exec window command with
    | none => window
    | some window => apply window commands

/-- A name that is a name to tmux, and an option's value, as it is. -/
def Plain (name : Text) : Prop := name ≠ [] ∧ tmux.stored name = some name ∧ tmux.kept name = name

end Tmux

/-! ## Chains -/

structure SavedOriginal where
  name : Text
  automaticRename : Option Bool
deriving DecidableEq

def SavedOriginal.autorename (saved : SavedOriginal) : Text := saved.automaticRename.elim autorenameUnset flag

def renameCommands (name : Text) (saveOriginal : Option SavedOriginal) : List Command :=
  (match saveOriginal with
    | none => []
    | some saved => [.set .nameOrig saved.name, .set .autorenameOrig saved.autorename]) ++
    [.renameWindow name, .set .nameLast name]

def restoreCommands (originalName : Text) (originalAutomaticRename : Option Text) : List Command :=
  [.renameWindow originalName,
   match originalAutomaticRename with
   | some value => if value ≠ autorenameUnset then .set .automaticRename value else .unset .automaticRename
   | none => .unset .automaticRename,
   .unset .nameOrig, .unset .autorenameOrig, .unset .nameLast]

/-! ## A pass -/

/-- What a pass reads of a window. -/
structure Row where
  name : Text
  nameOrig : Option Text
  autorenameOrig : Option Text
  nameLast : Option Text
deriving DecidableEq

def present (field : Text) : Option Text := if field = [] then none else some field

def Window.row (window : Window) : Row where
  name := window.name
  nameOrig := present window.nameOrig
  autorenameOrig := present window.autorenameOrig
  nameLast := present window.nameLast

inductive WindowNameAction
  | leave
  | rename (name : Text) (saveOriginal : Bool)
  | restore
deriving DecidableEq

/-- What a pass does with a window whose agents ask for a name, or that has none. -/
def Row.decide (row : Row) (desired : Option Text) : WindowNameAction :=
  match desired with
  | none => if row.nameOrig.isSome then .restore else .leave
  | some [] => .leave
  | some desired =>
    if row.nameLast.any fun last => last ≠ row.name then .leave
    else if row.nameLast = some desired then .leave
    else .rename desired (!row.nameOrig.isSome)

inductive Stage
  | idle
  | decided (row : Row) (action : WindowNameAction)
  /-- What the window's own `automatic-rename` is has been read, to be saved. -/
  | looked (row : Row) (name : Text) (automaticRename : Option Bool)

structure World where
  window : Window
  stage : Stage := .idle
  /-- The window as the first rename found it, until it is restored. -/
  base : Option SavedOriginal := none

/-- Nothing of the daemon's is on the window. -/
def Window.Untouched (window : Window) : Prop :=
  window.nameOrig = [] ∧ window.autorenameOrig = [] ∧ window.nameLast = []

instance (window : Window) : Decidable window.Untouched := inferInstanceAs (Decidable (_ ∧ _ ∧ _))

/-- The daemon alone writes the options of its own. -/
inductive World.Step (tmux : Tmux) (world : World) : World → Prop
  | reconcile (idle : world.stage = .idle) (template : NameTemplate) (winner : Option NameFields) :
    Step tmux world
      { world with stage := .decided world.window.row (world.window.row.decide (winner.map template.render)) }
  | restoreAll (idle : world.stage = .idle) (renamed : world.window.row.nameOrig.isSome) :
    Step tmux world { world with stage := .decided world.window.row .restore }
  | look {row : Row} {name : Text} (decided : world.stage = .decided row (.rename name true)) :
    Step tmux world { world with stage := .looked row name world.window.automaticRename }
  | take {row : Row} {name : Text} {automaticRename : Option Bool}
    (looked : world.stage = .looked row name automaticRename) :
    Step tmux world
      { window := tmux.apply world.window (renameCommands name (some { name := row.name, automaticRename }))
        base := world.base.or (some { name := row.name, automaticRename }) }
  | rename {row : Row} {name : Text} (decided : world.stage = .decided row (.rename name false)) :
    Step tmux world { world with window := tmux.apply world.window (renameCommands name none), stage := .idle }
  | restore {row : Row} {original : Text} (decided : world.stage = .decided row .restore)
    (saved : row.nameOrig = some original) {window : Window}
    (applied : tmux.apply world.window (restoreCommands original row.autorenameOrig) = window) :
    Step tmux world { window, base := if window.Untouched then none else world.base }
  /-- There is nothing to do, a call fails before it does a thing, or the daemon dies. -/
  | abandon : Step tmux world { world with stage := .idle }
  | byHand (name : Text) :
    Step tmux world { world with window := { world.window with name, automaticRename := some false } }
  | automatic (name : Text) (on : world.window.automaticRename ≠ some false) :
    Step tmux world { world with window := { world.window with name } }
  | configure (automaticRename : Option Bool) :
    Step tmux world { world with window := { world.window with automaticRename } }

/-! ## What a chain leaves -/

@[simp] theorem readFlag_flag (on : Bool) : readFlag (flag on) = some on := by cases on <;> rfl

theorem flag_ne_unset (on : Bool) : flag on ≠ autorenameUnset := by
  cases on with
  | false => exact fun h => absurd (congrArg List.length h) (by decide)
  | true => exact fun h => absurd (congrArg List.length h) (by decide)

theorem SavedOriginal.autorename_ne_nil (saved : SavedOriginal) : saved.autorename ≠ [] := by
  obtain ⟨name, automaticRename⟩ := saved
  cases automaticRename with
  | none => exact List.cons_ne_nil _ _
  | some on => cases on <;> exact List.cons_ne_nil _ _

theorem present_of_ne_nil {field : Text} (h : field ≠ []) : present field = some field := if_neg h

namespace Tmux

variable {tmux : Tmux}

/-- A rename leaves what was saved. -/
theorem apply_rename (window : Window) (name : Text) :
    (tmux.apply window (renameCommands name none)).nameOrig = window.nameOrig ∧
      (tmux.apply window (renameCommands name none)).autorenameOrig = window.autorenameOrig := by
  simp only [renameCommands, List.nil_append, apply, exec]
  cases tmux.stored name with
  | none => exact ⟨rfl, rfl⟩
  | some stored => exact ⟨rfl, rfl⟩

/-- The first rename saves, whether or not tmux takes the name. -/
theorem apply_take (window : Window) (name : Text) (saved : SavedOriginal) :
    (tmux.apply window (renameCommands name (some saved))).nameOrig = tmux.kept saved.name ∧
      (tmux.apply window (renameCommands name (some saved))).autorenameOrig = saved.autorename := by
  have hchain : tmux.apply window (renameCommands name (some saved)) =
      tmux.apply { window with nameOrig := tmux.kept saved.name, autorenameOrig := saved.autorename }
        (renameCommands name none) := rfl
  rw [hchain]
  exact apply_rename _ name

/-- A plain name is restored, with the `automatic-rename` that was saved, and nothing else stays. -/
theorem apply_restore {saved : SavedOriginal} (hplain : tmux.Plain saved.name) (window : Window) :
    tmux.apply window (restoreCommands saved.name (some saved.autorename)) =
      { name := saved.name, automaticRename := saved.automaticRename } := by
  obtain ⟨name, automaticRename⟩ := saved
  have hstored : tmux.stored name = some name := hplain.2.1
  cases automaticRename with
  | none => simp [restoreCommands, SavedOriginal.autorename, apply, exec, hstored]
  | some on => simp [restoreCommands, SavedOriginal.autorename, apply, exec, hstored, flag_ne_unset]

end Tmux

/-! ## What a pass knows -/

/-- The bookkeeping it read is the window's. -/
structure Row.Reads (row : Row) (window : Window) : Prop where
  nameOrig : row.nameOrig = present window.nameOrig
  autorenameOrig : row.autorenameOrig = present window.autorenameOrig
  nameLast : row.nameLast = present window.nameLast

theorem Row.Reads.row (window : Window) : window.row.Reads window := ⟨rfl, rfl, rfl⟩

/-- A rename saves where nothing is saved, and is of a name nobody gave by hand. -/
def WindowNameAction.Due (row : Row) : WindowNameAction → Prop
  | .leave => True
  | .rename _ saveOriginal => row.nameOrig.isSome = !saveOriginal ∧ ∀ last, row.nameLast = some last → last = row.name
  | .restore => row.nameOrig.isSome = true

theorem Row.decide_due (row : Row) (desired : Option Text) : (row.decide desired).Due row := by
  unfold Row.decide
  split
  · split
    · assumption
    · trivial
  · trivial
  · split
    · trivial
    · rename_i hlast
      split
      · trivial
      · refine ⟨by rw [Bool.not_not], fun last hread => ?_⟩
        simpa [hread] using hlast

def Stage.Sound (window : Window) : Stage → Prop
  | .idle => True
  | .decided row action => row.Reads window ∧ action.Due row
  | .looked row name _ => row.Reads window ∧ (WindowNameAction.rename name true).Due row

namespace World

variable {tmux : Tmux}

structure Sound (tmux : Tmux) (world : World) : Prop where
  untouched : world.base = none → world.window.Untouched
  saved : ∀ saved, world.base = some saved → tmux.Plain saved.name →
    world.window.nameOrig = saved.name ∧ world.window.autorenameOrig = saved.autorename
  stage : world.stage.Sound world.window

theorem Sound.start (name : Text) (automaticRename : Option Bool) :
    World.Sound tmux { window := { name, automaticRename } } where
  untouched _ := ⟨rfl, rfl, rfl⟩
  saved _ h := nomatch h
  stage := trivial

/-- Nothing but a name, or the window's `automatic-rename`, was set. -/
theorem Sound.other {world : World} (h : world.Sound tmux) {window : Window}
    (horig : window.nameOrig = world.window.nameOrig)
    (hauto : window.autorenameOrig = world.window.autorenameOrig) (hlast : window.nameLast = world.window.nameLast) :
    World.Sound tmux { world with window } := by
  obtain ⟨name, automaticRename, nameOrig, autorenameOrig, nameLast⟩ := window
  dsimp only at horig hauto hlast
  subst horig hauto hlast
  refine ⟨h.untouched, h.saved, ?_⟩
  have hstage := h.stage
  cases hfound : world.stage with
  | idle => trivial
  | decided row action =>
    rw [hfound] at hstage
    exact ⟨⟨hstage.1.nameOrig, hstage.1.autorenameOrig, hstage.1.nameLast⟩, hstage.2⟩
  | looked row wanted automaticRename =>
    rw [hfound] at hstage
    exact ⟨⟨hstage.1.nameOrig, hstage.1.autorenameOrig, hstage.1.nameLast⟩, hstage.2⟩

theorem Sound.base_ne_none {world : World} (h : world.Sound tmux) {row : Row} (hreads : row.Reads world.window)
    (hheld : row.nameOrig.isSome = true) : world.base ≠ none := by
  intro hnone
  rw [hreads.nameOrig, (h.untouched hnone).1] at hheld
  cases hheld

/-- The saved name is read as saved. -/
theorem Sound.nameOrig_eq {world : World} (h : world.Sound tmux) {saved : SavedOriginal} (hbase : world.base = some saved)
    (hplain : tmux.Plain saved.name) {row : Row} (hreads : row.Reads world.window) :
    row.nameOrig = some saved.name ∧ row.autorenameOrig = some saved.autorename := by
  obtain ⟨horig, hauto⟩ := h.saved saved hbase hplain
  rw [hreads.nameOrig, hreads.autorenameOrig, horig, hauto]
  exact ⟨present_of_ne_nil hplain.1, present_of_ne_nil saved.autorename_ne_nil⟩

theorem Sound.restores {world : World} (h : world.Sound tmux) {row : Row} (decided : world.stage = .decided row .restore)
    {saved : SavedOriginal} (hbase : world.base = some saved) (hplain : tmux.Plain saved.name) {original : Text}
    (hread : row.nameOrig = some original) :
    tmux.apply world.window (restoreCommands original row.autorenameOrig) =
      { name := saved.name, automaticRename := saved.automaticRename } := by
  have hstage := h.stage
  rw [decided] at hstage
  obtain ⟨horig, hauto⟩ := h.nameOrig_eq hbase hplain hstage.1
  rw [horig] at hread
  cases hread
  rw [hauto]
  exact Tmux.apply_restore hplain world.window

theorem Sound.step {world world' : World} (h : world.Sound tmux) (hs : world.Step tmux world') : world'.Sound tmux := by
  cases hs with
  | reconcile idle template winner => exact ⟨h.untouched, h.saved, Row.Reads.row _, Row.decide_due _ _⟩
  | restoreAll idle renamed => exact ⟨h.untouched, h.saved, Row.Reads.row _, renamed⟩
  | look decided =>
    have hstage := h.stage
    rw [decided] at hstage
    exact ⟨h.untouched, h.saved, hstage⟩
  | @take row name automaticRename looked =>
    have hstage := h.stage
    rw [looked] at hstage
    obtain ⟨hreads, hfree, -⟩ := hstage
    obtain ⟨hkept, hauto⟩ := tmux.apply_take world.window name { name := row.name, automaticRename }
    refine ⟨fun hnone => ?_, fun saved hsaved hplain => ?_, trivial⟩
    · cases hbase : world.base <;> simp [hbase] at hnone
    · cases hbase : world.base with
      | none =>
        simp only [hbase, Option.none_or, Option.some.injEq] at hsaved
        subst hsaved
        exact ⟨hkept.trans hplain.2.2, hauto⟩
      | some base =>
        -- a plain name would have been read as saved
        simp only [hbase, Option.some_or, Option.some.injEq] at hsaved
        subst hsaved
        rw [(h.nameOrig_eq hbase hplain hreads).1] at hfree
        cases hfree
  | @rename row name decided =>
    have hstage := h.stage
    rw [decided] at hstage
    obtain ⟨hreads, hheld, -⟩ := hstage
    obtain ⟨horig, hauto⟩ := tmux.apply_rename world.window name
    refine ⟨fun hnone => absurd hnone (h.base_ne_none hreads hheld), fun saved hsaved hplain => ?_, trivial⟩
    · rw [horig, hauto]
      exact h.saved saved hsaved hplain
  | @restore row original decided saved window applied =>
    refine ⟨fun hnone => ?_, fun base hbase hplain => ?_, trivial⟩
    · by_cases huntouched : window.Untouched
      · exact huntouched
      · have hstage := h.stage
        rw [decided] at hstage
        rw [if_neg huntouched] at hnone
        exact absurd hnone (h.base_ne_none hstage.1 hstage.2)
    · -- a plain name was restored, so nothing is saved
      have huntouched : window.Untouched := by
        rw [← applied]
        by_cases hsame : world.base = some base
        · rw [h.restores decided hsame hplain saved]
          exact ⟨rfl, rfl, rfl⟩
        · split at hbase
          · cases hbase
          · exact absurd hbase hsame
      rw [if_pos huntouched] at hbase
      cases hbase
  | abandon => exact ⟨h.untouched, h.saved, trivial⟩
  | byHand name => exact h.other rfl rfl rfl
  | automatic name on => exact h.other rfl rfl rfl
  | configure automaticRename => exact h.other rfl rfl rfl

/-- A rename is decided, of a window as the pass read it. -/
def Renames (world : World) (row : Row) : Prop :=
  (∃ name saveOriginal, world.stage = .decided row (.rename name saveOriginal)) ∨
    ∃ name automaticRename, world.stage = .looked row name automaticRename

theorem Sound.renames {world : World} (h : world.Sound tmux) {row : Row} (hrenames : world.Renames row) :
    row.Reads world.window ∧ ∀ last, row.nameLast = some last → last = row.name := by
  have hstage := h.stage
  rcases hrenames with ⟨name, saveOriginal, decided⟩ | ⟨name, automaticRename, looked⟩
  · rw [decided] at hstage
    exact ⟨hstage.1, hstage.2.2⟩
  · rw [looked] at hstage
    exact ⟨hstage.1, hstage.2.2⟩

end World

/-- **A window gets its name back.** In every run of passes, renames by hand and by tmux, changes of the window's
`automatic-rename` and calls that fail, with a window that starts as any: where nothing is saved, nothing of the
daemon's is on the window; a pass renames a window that is named as it read it only over the name the daemon gave it
last, or where it gave none yet; and where the name that was saved is plain to tmux, no pass saves another, a pass that
finds no agent decides to restore, and the restore leaves the window with that name and the `automatic-rename` that was
saved with it, and with nothing of the daemon's. -/
theorem names_restored {tmux : Tmux} {name : Text} {automaticRename : Option Bool} {world : World}
    (h : Relation.ReflTransGen (World.Step tmux) { window := { name, automaticRename } } world) :
    (world.base = none → world.window.Untouched) ∧
    (∀ row, world.Renames row → world.window.name = row.name →
      world.window.nameLast = [] ∨ world.window.nameLast = world.window.name) ∧
    ∀ saved, world.base = some saved → tmux.Plain saved.name →
      (∀ row name, world.stage ≠ .decided row (.rename name true)) ∧
      world.window.row.decide none = .restore ∧
      ∀ row original, world.stage = .decided row .restore → row.nameOrig = some original →
        tmux.apply world.window (restoreCommands original row.autorenameOrig) =
          { name := saved.name, automaticRename := saved.automaticRename } := by
  have hsound : world.Sound tmux := by
    induction h with
    | refl => exact World.Sound.start name automaticRename
    | tail _ taken ih => exact ih.step taken
  refine ⟨hsound.untouched, fun row hrenames hsame => ?_,
    fun saved hbase hplain => ⟨fun row wanted decided => ?_, ?_, ?_⟩⟩
  · obtain ⟨hreads, hlast⟩ := hsound.renames hrenames
    by_cases hnone : world.window.nameLast = []
    · exact .inl hnone
    · refine .inr (Eq.trans ?_ hsame.symm)
      exact hlast _ (hreads.nameLast.trans (present_of_ne_nil hnone))
  · have hstage := hsound.stage
    rw [decided] at hstage
    obtain ⟨hreads, hfree, -⟩ := hstage
    rw [(hsound.nameOrig_eq hbase hplain hreads).1] at hfree
    cases hfree
  · have horig := (hsound.nameOrig_eq hbase hplain (Row.Reads.row world.window)).1
    simp only [Row.decide, horig, Option.isSome_some, if_true]
  · exact fun row original decided hread => hsound.restores decided hbase hplain hread

def plain : Tmux := { stored := some, kept := id }

def shell : Window := { name := "shell".toList, automaticRename := none }

def working : Text := "app:working".toList

def app : NameFields := ⟨"claude".toList, "working".toList, [], "app".toList, "main".toList⟩

/-- A window that inherited its `automatic-rename` inherits it again. -/
theorem names_restored_shell :
    plain.apply (plain.apply shell (renameCommands working (some ⟨shell.name, none⟩)))
      (restoreCommands shell.name (some autorenameUnset)) = shell := by
  let saved : SavedOriginal := ⟨shell.name, none⟩
  let renamed := plain.apply shell (renameCommands working (some saved))
  let decided : World := { window := shell, stage := .decided shell.row (.rename working true) }
  let looked : World := { window := shell, stage := .looked shell.row working none }
  let taken : World := { window := renamed, base := some saved }
  have hread : World.Step plain { window := shell } decided := .reconcile rfl .default (some app)
  have hlook : World.Step plain decided looked := .look rfl
  have htake : World.Step plain looked taken := @World.Step.take plain looked shell.row working none rfl
  have hgone : World.Step plain taken { taken with stage := .decided renamed.row .restore } := .reconcile rfl .default none
  have hplain : plain.Plain saved.name := ⟨List.cons_ne_nil _ _, rfl, rfl⟩
  obtain ⟨-, -, hrestores⟩ := names_restored ((((Relation.ReflTransGen.single hread).tail hlook).tail htake).tail hgone)
  exact (hrestores saved rfl hplain).2.2 renamed.row shell.name rfl rfl

end TmuxAgents.WindowNames
