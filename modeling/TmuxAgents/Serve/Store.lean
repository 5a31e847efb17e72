/-
The device store under any number of commands and readers at once.

Each command loads the whole file, and later renames a new one over it; a reader keeps a
memo of the file. Loading, renaming, `stat` and reading are one step each, and the steps
interleave as they like.
-/
import Mathlib.Logic.Function.Basic
import TmuxAgents.Lib.Run
import TmuxAgents.Serve.Device

namespace TmuxAgents.Serve

abbrev CallId := Nat
abbrev ReaderId := Nat

/-! ## The file -/

/-- The file-identity tuple a cache compares. -/
structure FileMemo where
  dev : Nat
  ino : Nat
  size : Nat
  mtime : Int
  mtimeNsec : Int
deriving DecidableEq

/-- A file with its records, unless it is malformed. -/
structure File where
  memo : FileMemo
  records : Option (List Device)
deriving DecidableEq

/-- An absent file is an empty store, and a malformed one an error. -/
def load (file : Option File) : Except DeviceError (List Device) :=
  match file with
  | none => .ok []
  | some file =>
    match file.records with
    | none => .error .parse
    | some devices => .ok devices

/-- `Store::get` -/
def storeGet (file : Option File) (id : Text) : Except DeviceError (Option Device) :=
  match load file with
  | .error e => .error e
  | .ok devices => .ok (recordOf devices id)

/-- A memo over the store. -/
structure Cache where
  memo : Option FileMemo := none
  devices : List Device := []
  loaded : Bool := false
  statCalls : Nat := 0
  parseCalls : Nat := 0
deriving DecidableEq

/-- The tuple has not moved. -/
def Cache.current (cache : Cache) (memo : Option FileMemo) : Bool := cache.loaded && cache.memo == memo

/-! ## Commands and readers -/

/-- Where a command is: it has loaded `base`, and what it is to write is made of it. -/
inductive Call
  | fresh
  | ready (command : Command) (base devices : List Device) (device : Device)
  | returned (result : Except DeviceError Device)

/-- A reader, and the `Cache::get` it is in after its `stat`. -/
structure Reader where
  cache : Cache := {}
  pending : Option (Text × Option FileMemo) := none

/-- A command that returned `Ok`. -/
structure Entry where
  call : CallId
  command : Command
  device : Device
deriving DecidableEq

structure World where
  file : Option File
  calls : CallId → Call := fun _ => .fresh
  readers : ReaderId → Reader := fun _ => {}
  /-- The commands that returned `Ok`, in that order. -/
  log : List Entry := []

inductive Step
  | load (call : CallId) (command : Command)
  /-- The rename, which gives the file another identity. -/
  | write (call : CallId) (memo : FileMemo)
  | writeFails (call : CallId)
  | stat (reader : ReaderId) (id : Text)
  | reload (reader : ReaderId)
deriving DecidableEq

namespace World

def setCall (world : World) (call : CallId) (state : Call) : World :=
  { world with calls := Function.update world.calls call state }

def setReader (world : World) (reader : ReaderId) (state : Reader) : World :=
  { world with readers := Function.update world.readers reader state }

def fileMemo (world : World) : Option FileMemo := world.file.map File.memo

/-- One step. A step that its command or reader has not come to does nothing. -/
def step (world : World) : Step → World
  | .load call command =>
    match world.calls call with
    | .fresh =>
      match Serve.load world.file with
      | .error e => world.setCall call (.returned (.error e))
      | .ok base =>
        match command.apply base with
        | .error e => world.setCall call (.returned (.error e))
        | .ok written => world.setCall call (.ready command base written.1 written.2)
    | _ => world
  | .write call memo =>
    match world.calls call with
    | .ready command _ devices device =>
      { world.setCall call (.returned (.ok device)) with
        file := some { memo, records := some devices }
        log := world.log ++ [{ call, command, device }] }
    | _ => world
  | .writeFails call =>
    match world.calls call with
    | .ready _ _ _ _ => world.setCall call (.returned (.error .io))
    | _ => world
  | .stat reader id =>
    match (world.readers reader).pending with
    | some _ => world
    | none =>
      let cache := { (world.readers reader).cache with statCalls := (world.readers reader).cache.statCalls + 1 }
      if cache.current world.fileMemo then world.setReader reader { cache }
      else world.setReader reader { cache, pending := some (id, world.fileMemo) }
  | .reload reader =>
    match (world.readers reader).pending with
    | none => world
    | some get =>
      let cache := (world.readers reader).cache
      match Serve.load world.file with
      | .error _ => world.setReader reader { cache }
      | .ok devices =>
        world.setReader reader { cache :=
          { cache with devices, memo := get.2, loaded := true, parseCalls := cache.parseCalls + 1 } }

/-- What a `Cache::get` answers at a step that ends it, and for which id. -/
def answer (world : World) : Step → Option (Text × Except DeviceError (Option Device))
  | .stat reader id =>
    match (world.readers reader).pending with
    | some _ => none
    | none =>
      let cache := (world.readers reader).cache
      if cache.current world.fileMemo then some (id, .ok (recordOf cache.devices id)) else none
  | .reload reader =>
    match (world.readers reader).pending with
    | none => none
    | some get =>
      match Serve.load world.file with
      | .error e => some (get.1, .error e)
      | .ok devices => some (get.1, .ok (recordOf devices get.1))
  | _ => none

def run (file : Option File) (steps : List Step) : World := Run.run step { file } steps

end World

/-! ## Updates that are kept -/

/-- The commands run one after another, each with the answer it gave. -/
inductive Replays : List Device → List Entry → List Device → Prop
  | nil (devices : List Device) : Replays devices [] devices
  | cons {devices devices' final : List Device} {entry : Entry} {entries : List Entry}
    (applied : entry.command.apply devices = .ok (devices', entry.device)) (rest : Replays devices' entries final) :
    Replays devices (entry :: entries) final

/-- One command had returned `Ok` when another had not begun. -/
def Precedes (file : Option File) (steps : List Step) (first second : CallId) : Prop :=
  ∃ before after, steps = before ++ after ∧ (∃ entry ∈ (World.run file before).log, entry.call = first) ∧
    (World.run file before).calls second = .fresh

/-- No update is lost. -/
structure UpdatesKept (file : Option File) (steps : List Step) : Prop where
  serial : ∃ start final order, load file = .ok start ∧ load (World.run file steps).file = .ok final ∧
    order.Perm (World.run file steps).log ∧
    (∀ p ∈ order, ∀ q ∈ order, Precedes file steps p.call q.call → [p, q].Sublist order) ∧ Replays start order final
  revoked : ∀ older newer call name device final,
    (World.run file steps).log = older ++ ⟨call, .revoke name, device⟩ :: newer →
      (∀ entry ∈ newer, entry.command.isPair = true → entry.device.id ≠ device.id) →
        load (World.run file steps).file = .ok final → recordOf final device.id = none
  granted : ∀ older newer call name scope device final,
    (World.run file steps).log = older ++ ⟨call, .grant name scope, device⟩ :: newer →
      (∀ entry ∈ newer, entry.command.isGrant = false → entry.device.id ≠ device.id) →
        load (World.run file steps).file = .ok final →
          ∃ found, recordOf final device.id = some found ∧ found.allows scope = true
  names : ∀ final, load (World.run file steps).file = .ok final → (final.map Device.name).Nodup
  cache : ∀ before next after id result, steps = before ++ next :: after →
    (World.run file before).answer next = some (id, result) → result = storeGet (World.run file before).file id

def phone : Command := .pair ['k'] ['p'] [] false 0

def memoOf (ino : Nat) : FileMemo := ⟨0, ino, 0, 0, 0⟩

/-- A grant that loads the device before its revocation and writes it after. -/
def lostRevocation : List Step :=
  [.load 0 phone, .write 0 (memoOf 0), .load 1 (.grant ['p'] .actAlways), .load 2 (.revoke ['p']),
    .write 2 (memoOf 1), .write 1 (memoOf 2)]

/-- **A revocation can be lost.** Both commands returned `Ok`, and the device has its record. -/
theorem revocation_lost_to_a_grant :
    ((World.run none lostRevocation).log.map fun entry => entry.command) =
      [phone, .revoke ['p'], .grant ['p'] .actAlways] ∧
    load (World.run none lostRevocation).file =
      .ok [{ id := ['k'], name := ['p'], scopes := [.read, .actAnswer, .actSteer, .actAlways], pairedAtMs := 0 }] ∧
    ¬ UpdatesKept none lostRevocation := by
  have hlog : (World.run none lostRevocation).log =
      [⟨0, phone, pairedDevice ['k'] ['p'] [] false 0⟩] ++
        ⟨2, .revoke ['p'], pairedDevice ['k'] ['p'] [] false 0⟩ ::
          [⟨1, .grant ['p'] .actAlways, ⟨['k'], ['p'], [.read, .actAnswer, .actSteer, .actAlways], 0⟩⟩] := by
    decide +kernel
  have hfile : load (World.run none lostRevocation).file =
      .ok [⟨['k'], ['p'], [.read, .actAnswer, .actSteer, .actAlways], 0⟩] := rfl
  refine ⟨by rw [hlog]; rfl, hfile, fun h => ?_⟩
  have habsent := h.revoked _ _ _ _ _ _ hlog (by simp [Command.isPair]) hfile
  revert habsent
  decide

end TmuxAgents.Serve
