/-
The installer's JSON hooks editors (`install/claude_json.rs`): tma's entry is put into each
event's array of a settings file, and taken out again. The nested shape of Claude's settings
and the flat one of cursor's share them.

Whether an entry is tma's is asked of the entry and not of its commands.
-/
import TmuxAgents.Install.JsonValue

namespace TmuxAgents.Install

/-! ## Wrapper commands -/

/-- `paths::WRAPPER_NAME` -/
def wrapperName : Text := "tma-hook".toList

/-- The command an agent's config invokes for one event. -/
def wrapperCommand (wrapper agent event : Text) : Text := wrapper ++ ' ' :: (agent ++ ' ' :: event)

/-- `Path::file_name`: the last component, when it names something. -/
def fileName (path : Text) : Option Text :=
  ((path.splitOn '/').filter fun part => part ≠ [] ∧ part ≠ ['.']).getLast?.filter fun name => name ≠ ['.', '.']

/-- Parsed from the right, so that a wrapper under a path with spaces still matches. -/
def isWrapperCommand (cmd agent event : Text) : Bool :=
  (Text.stripSuffix cmd (' ' :: (agent ++ ' ' :: event))).bind fileName == some wrapperName

/-! ## Shapes -/

/-- What the two shapes differ in. -/
structure HookShape where
  noun : Text
  makeEntry : Text → Value
  entryCommands : Value → List Text
  /-- Run on the root object before inserting. -/
  preInsert : Option (Members → Members)
  /-- Run on the root object after `hooks` was pruned from it. -/
  postPrune : Option (Members → Members)

def hooksKey : Text := "hooks".toList
def commandKey : Text := "command".toList
def typeKey : Text := "type".toList
def versionKey : Text := "version".toList

def commandEntry (cmd : Text) : Value :=
  .obj [(hooksKey, .arr [.obj [(typeKey, .str commandKey), (commandKey, .str cmd)]])]

def nestedCommands (entry : Value) : List Text :=
  match entry.get? hooksKey with
  | some (.arr items) => items.filterMap fun c => (c.get? commandKey).bind Value.asStr
  | _ => []

def cursorCommandEntry (cmd : Text) : Value := .obj [(commandKey, .str cmd)]

def flatCommands (entry : Value) : List Text := (((entry.get? commandKey).bind Value.asStr).map fun c => [c]).getD []

/-- The schema version is set when absent. -/
def cursorSetVersion (root : Members) : Members :=
  if (Assoc.get? root versionKey).isNone then Assoc.set root versionKey (.num ['1']) else root

/-- A lone `version: 1` is taken to be the one that was set. -/
def cursorDropVersion (root : Members) : Members :=
  match Assoc.get? root versionKey with
  | some (.num token) => if token = ['1'] then Assoc.remove root versionKey else root
  | _ => root

def claudeShape : HookShape where
  noun := "settings".toList
  makeEntry := commandEntry
  entryCommands := nestedCommands
  preInsert := none
  postPrune := none

def cursorShape : HookShape where
  noun := "cursor hooks.json".toList
  makeEntry := cursorCommandEntry
  entryCommands := flatCommands
  preInsert := some cursorSetVersion
  postPrune := some cursorDropVersion

/-! ## The editors -/

inductive EditError
  | parse (e : ParseError)
  | refused (message : Text)

section

variable (shape : HookShape) (agent event : Text)

def entryIsOurs (entry : Value) : Bool := (shape.entryCommands entry).any fun c => isWrapperCommand c agent event

def entryIsCurrent (cmd : Text) (entry : Value) : Bool := (shape.entryCommands entry).any fun c => c == cmd

/-- An event's array after installing: ours under another wrapper are gone, and ours is there once. -/
def installEntries (cmd : Text) (entries : List Value) : List Value :=
  let kept := entries.filter fun e => !entryIsOurs shape agent event e || entryIsCurrent shape cmd e
  if kept.any (entryIsCurrent shape cmd) then kept else kept ++ [shape.makeEntry cmd]

/-- One turn of the install loop. The event's array is made when there is none. -/
def installEvent (wrapper : Text) (hooks : Members) (event : Text) : Except EditError Members :=
  let hooks := if (Assoc.get? hooks event).isNone then hooks ++ [(event, Value.arr [])] else hooks
  match Assoc.get? hooks event with
  | some (.arr entries) =>
    .ok (Assoc.set hooks event (.arr (installEntries shape agent event (wrapperCommand wrapper agent event) entries)))
  | _ => .error (.refused (shape.noun ++ " hooks event entry is not an array".toList))

def installEvents (wrapper : Text) (hooks : Members) : List Text → Except EditError Members
  | [] => .ok hooks
  | event :: events =>
    match installEvent shape agent wrapper hooks event with
    | .error e => .error e
    | .ok hooks => installEvents wrapper hooks events

/-- The root object with tma's hooks in it. -/
def installRoot (wrapper : Text) (events : List Text) (root : Members) : Except EditError Members :=
  let root := (shape.preInsert.getD id) root
  let root := if (Assoc.get? root hooksKey).isNone then Assoc.set root hooksKey (.obj []) else root
  match Assoc.get? root hooksKey with
  | some (.obj hooks) =>
    match installEvents shape agent wrapper hooks events with
    | .error e => .error e
    | .ok hooks => .ok (Assoc.set root hooksKey (.obj hooks))
  | _ => .error (.refused (shape.noun ++ " `hooks` is not an object".toList))

def editHooksInstall (old wrapper : Text) (events : List Text) : Except EditError Text :=
  match parse old with
  | .error e => .error (.parse e)
  | .ok (.obj root) =>
    match installRoot shape agent wrapper events root with
    | .error e => .error e
    | .ok root => .ok (toPretty (.obj root))
  | .ok _ => .error (.refused (shape.noun ++ " root is not a JSON object".toList))

/-- One turn of the uninstall loop. An array that is empty goes with its key. -/
def uninstallEvent (hooks : Members) (event : Text) : Members :=
  let hooks : Members := match Assoc.get? hooks event with
    | some (.arr entries) => Assoc.set hooks event (.arr (entries.filter fun e => !entryIsOurs shape agent event e))
    | _ => hooks
  match Assoc.get? hooks event with
  | some (.arr []) => Assoc.remove hooks event
  | _ => hooks

def uninstallRoot (events : List Text) (root : Members) : Members :=
  match Assoc.get? root hooksKey with
  | some (.obj hooks) =>
    let hooks := events.foldl (uninstallEvent shape agent) hooks
    if hooks.isEmpty then (shape.postPrune.getD id) (Assoc.remove root hooksKey)
    else Assoc.set root hooksKey (.obj hooks)
  | _ => root

def editHooksUninstall (old : Text) (events : List Text) : Except EditError Text :=
  match parse old with
  | .error e => .error (.parse e)
  | .ok (.obj root) => .ok (toPretty (.obj (uninstallRoot shape agent events root)))
  | .ok _ => .ok old

end

end TmuxAgents.Install
