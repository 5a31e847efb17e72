/-
The connection registry (`serve/conn.rs`): what bounds the serve processes of a host.

A process claims one of `max` numbered marker files by creating it exclusively, and writes
its pid into it afterwards; a marker that names no live process is swept and claimed anew.
Creating, writing the pid line, reading, removing and dying are one step each, and the steps
of any number of processes interleave as they like.
-/
import Mathlib.Data.List.Basic
import Mathlib.Logic.Function.Basic
import TmuxAgents.Lib.Run

namespace TmuxAgents.Serve.Conn

abbrev Pid := Nat

/-- One pass to sweep, one to take what the sweep freed. -/
def passes : Nat := 2

/-- A marker file. `pid` is what it says, once the line is written. Which file it is (`inode`) and
who created it are known here, not to its readers. -/
structure Marker where
  inode : Nat
  owner : Pid
  pid : Option Pid
deriving DecidableEq

/-- Where a process is in `Connection::open`, or with what it returned. -/
inductive Stage
  | idle
  /-- Before the exclusive create of a slot. -/
  | trying (pass slot : Nat)
  /-- The slot has a marker, and the first pass looks whose. -/
  | reading (slot : Nat)
  /-- Nobody alive is named in what was read: that file, or none. -/
  | removing (slot : Nat) (read : Option Nat)
  /-- The marker is created and empty. -/
  | writing (slot inode : Nat)
  /-- `open` returned `Ok`. -/
  | holding (slot inode : Nat)
  /-- `open` returned `Full`. -/
  | full
  | dead
deriving DecidableEq

namespace Stage

/-- The call of `open` has not returned. -/
def opening : Stage → Bool
  | trying .. | reading _ | removing .. | writing .. => true
  | _ => false

/-- The slot a process is at. -/
def slot : Stage → Option Nat
  | trying _ slot | reading slot | removing slot _ | writing slot _ | holding slot _ => some slot
  | _ => none

/-- The marker file a process has created, and its slot. -/
def handle : Stage → Option (Nat × Nat)
  | writing slot inode | holding slot inode => some (slot, inode)
  | _ => none

/-- The marker file a process is about to sweep, and its slot. -/
def condemned : Stage → Option (Nat × Nat)
  | removing slot read => read.map fun inode => (slot, inode)
  | _ => none

end Stage

/-- A process, with the number of its calls of `open` so far. -/
structure Process where
  calls : Nat := 0
  stage : Stage := .idle
deriving DecidableEq

/-- The slots of a cap: zero is read as one. -/
def slots (max : Nat) : Nat := Nat.max max 1

/-- The slot after this one, or the next pass, or the end of the call. -/
def advance (max pass slot : Nat) : Stage :=
  if slot + 1 < slots max then .trying pass (slot + 1)
  else if pass + 1 < passes then .trying (pass + 1) 0
  else .full

structure Registry where
  markers : Nat → Option Marker := fun _ => none
  processes : Pid → Process := fun _ => {}
  /-- The file that is created next. -/
  fresh : Nat := 0

inductive Step
  | openCall (pid : Pid)
  | create (pid : Pid)
  | writePid (pid : Pid)
  | read (pid : Pid)
  | remove (pid : Pid)
  | drop (pid : Pid)
  | crash (pid : Pid)
deriving DecidableEq

namespace Registry

def alive (registry : Registry) (pid : Pid) : Bool := (registry.processes pid).stage != .dead

/-- An absent marker, or one that names nobody, counts as dead. -/
def holderAlive (registry : Registry) (slot : Nat) : Bool :=
  match registry.markers slot with
  | none => false
  | some marker => marker.pid.any registry.alive

def setProcess (registry : Registry) (pid : Pid) (process : Process) : Registry :=
  { registry with processes := Function.update registry.processes pid process }

def setStage (registry : Registry) (pid : Pid) (stage : Stage) : Registry :=
  registry.setProcess pid { registry.processes pid with stage }

def setMarker (registry : Registry) (slot : Nat) (marker : Option Marker) : Registry :=
  { registry with markers := Function.update registry.markers slot marker }

/-- One step. A step that its process has not come to does nothing. -/
def step (max : Nat) (registry : Registry) : Step → Registry
  | .openCall pid =>
    match (registry.processes pid).stage with
    | .idle | .full =>
      registry.setProcess pid { calls := (registry.processes pid).calls + 1, stage := .trying 0 0 }
    | _ => registry
  | .create pid =>
    match (registry.processes pid).stage with
    | .trying pass slot =>
      match registry.markers slot with
      | none =>
        let marker : Marker := { inode := registry.fresh, owner := pid, pid := none }
        { (registry.setStage pid (.writing slot registry.fresh)).setMarker slot (some marker) with
          fresh := registry.fresh + 1 }
      | some _ => registry.setStage pid (if pass = 0 then .reading slot else advance max pass slot)
    | _ => registry
  | .writePid pid =>
    match (registry.processes pid).stage with
    | .writing slot inode =>
      match registry.markers slot with
      | none => registry.setStage pid (.holding slot inode)
      | some marker =>
        -- A file that was removed is written all the same, and nobody reads it.
        if marker.inode = inode then
          (registry.setStage pid (.holding slot inode)).setMarker slot (some { marker with pid := some pid })
        else registry.setStage pid (.holding slot inode)
    | _ => registry
  | .read pid =>
    match (registry.processes pid).stage with
    | .reading slot =>
      registry.setStage pid
        (if registry.holderAlive slot then advance max 0 slot
        else .removing slot ((registry.markers slot).map Marker.inode))
    | _ => registry
  | .remove pid =>
    match (registry.processes pid).stage with
    | .removing slot _ => (registry.setStage pid (advance max 0 slot)).setMarker slot none
    | _ => registry
  | .drop pid =>
    match (registry.processes pid).stage with
    | .holding slot _ => (registry.setStage pid .idle).setMarker slot none
    | _ => registry
  | .crash pid => registry.setStage pid .dead

def run (max : Nat) (steps : List Step) : Registry := Run.run (step max) {} steps

/-- A live process with a connection, in this slot. -/
def Holds (registry : Registry) (pid : Pid) (slot : Nat) : Prop :=
  ∃ inode, (registry.processes pid).stage = .holding slot inode

/-- A slot with the marker of a live process, which holds it or is claiming it. -/
def Occupied (registry : Registry) (slot : Nat) : Prop :=
  ∃ marker, registry.markers slot = some marker ∧ registry.alive marker.owner = true

end Registry

/-! ## The cap -/

/-- The slot was occupied at some moment of a process's call. -/
def OccupiedDuring (max : Nat) (steps : List Step) (pid : Pid) (call slot : Nat) : Prop :=
  ∃ before after, steps = before ++ after ∧ ((Registry.run max before).processes pid).calls = call ∧
    ((Registry.run max before).processes pid).stage.opening = true ∧ (Registry.run max before).Occupied slot

/-- The cap holds. -/
structure CapHolds (max : Nat) (steps : List Step) : Prop where
  capped : ∀ pids : List Pid, pids.Nodup → (∀ pid ∈ pids, ∃ slot, (Registry.run max steps).Holds pid slot) →
    pids.length ≤ slots max
  named : ∀ pid slot, (Registry.run max steps).Holds pid slot →
    ∃ marker, (Registry.run max steps).markers slot = some marker ∧ marker.pid = some pid
  swept : ∀ before after pid slot read marker, steps = before ++ .remove pid :: after →
    ((Registry.run max before).processes pid).stage = .removing slot read →
      (Registry.run max before).markers slot = some marker → (Registry.run max before).alive marker.owner = false
  full : ∀ pid, ((Registry.run max steps).processes pid).stage = .full →
    ∀ slot < slots max, OccupiedDuring max steps pid ((Registry.run max steps).processes pid).calls slot

/-- A second process reads the marker of the first before it says whose it is. -/
def emptyMarkerSwept : List Step :=
  [.openCall 0, .create 0, .openCall 1, .create 1, .read 1, .remove 1, .create 1, .writePid 1, .writePid 0]

/-- **Two processes can hold the one slot.** -/
theorem empty_marker_admits_two :
    (Registry.run 1 emptyMarkerSwept).Holds 0 0 ∧ (Registry.run 1 emptyMarkerSwept).Holds 1 0 ∧
      ¬ CapHolds 1 emptyMarkerSwept := by
  have hfirst : (Registry.run 1 emptyMarkerSwept).Holds 0 0 := ⟨0, by decide +kernel⟩
  have hsecond : (Registry.run 1 emptyMarkerSwept).Holds 1 0 := ⟨1, by decide +kernel⟩
  refine ⟨hfirst, hsecond, fun h => ?_⟩
  have htwo := h.capped [0, 1] (by decide) (by
    intro pid hpid
    simp only [List.mem_cons, List.not_mem_nil, or_false] at hpid
    rcases hpid with rfl | rfl
    · exact ⟨0, hfirst⟩
    · exact ⟨0, hsecond⟩)
  revert htwo
  decide

end TmuxAgents.Serve.Conn
