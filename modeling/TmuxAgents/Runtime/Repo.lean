/-
Repository labels (`repo.rs`): one `git rev-parse` for each working directory,
remembered for a while.

`git` is a parameter: what it says of a directory under a budget, after the
calls made so far. A refresh reads the clock once before it primes the memo and
once for each row.
-/
import Mathlib.Data.List.Sort
import TmuxAgents.Fold.Engine
import TmuxAgents.Lib.Assoc
import TmuxAgents.Runtime.Row

namespace TmuxAgents.Repo

/-! ## Bounds -/

/-- Milliseconds. -/
def memoTtl : Nat := 5000

def deadline : Nat := 3000

def seedBudget : Nat := 250

structure RepoInfo where
  repoName : Text
  branch : Text
  isWorktree : Bool
deriving DecidableEq

/-! ## Paths -/

inductive Component
  | rootDir
  | curDir
  | parentDir
  | normal (name : Text)
deriving DecidableEq

/-- A path's components: empty ones are dropped, and `.` but at a relative path's start. -/
def components (path : Text) : List Component :=
  let parts := (path.splitOn '/').filter fun part => !part.isEmpty
  let one (part : Text) : Component := if part = ['.', '.'] then .parentDir else .normal part
  if path.head? = some '/' then .rootDir :: (parts.filter (· ≠ ['.'])).map one
  else
    match parts with
    | ['.'] :: rest => .curDir :: (rest.filter (· ≠ ['.'])).map one
    | _ => (parts.filter (· ≠ ['.'])).map one

def join (base raw : Text) : Text :=
  if base.isEmpty || base.getLast? = some '/' then base ++ raw else base ++ '/' :: raw

/-- The path so far, and a component of what is joined to it. -/
def fold (out : List Component) : Component → List Component
  | .curDir => out
  | .parentDir =>
    match out.getLast? with
    | some (.normal _) => out.dropLast
    | some .rootDir => out
    | _ => out ++ [.parentDir]
  | part => out ++ [part]

def resolveGitPath (base gitPath : Text) : List Component :=
  (components (if gitPath.head? = some '/' then gitPath else join base gitPath)).foldl fold []

def parent (path : List Component) : Option (List Component) :=
  match path.getLast? with
  | none => none
  | some .rootDir => none
  | some _ => some path.dropLast

def fileName (path : List Component) : Option Text :=
  match path.getLast? with
  | some (.normal name) => some name
  | _ => none

/-- All three lines, of a call that went well. -/
def parseRevParse (cwd stdout : Text) (exitOk : Bool) : Option RepoInfo :=
  if !exitOk then none
  else
    match (textLines stdout).map fun line => trimEnd (trimStart line) with
    | branch :: commonLine :: gitDirLine :: _ =>
      if branch.isEmpty || commonLine.isEmpty || gitDirLine.isEmpty then none
      else
        let common := resolveGitPath cwd commonLine
        let gitDir := resolveGitPath cwd gitDirLine
        ((parent common).bind fileName).map fun repoName =>
          { repoName, branch, isWorktree := gitDir != common && common.isPrefixOf gitDir }
    | _ => none

/-! ## The memo -/

structure MemoEntry where
  at_ : Nat
  info : Option RepoInfo
deriving DecidableEq

abbrev Memo := List (Text × MemoEntry)

/-- A directory and the budget it was asked about under. -/
abbrev Call := Text × Nat

structure World where
  memo : Memo
  log : List Call

def memoGet (memo : Memo) (cwd : Text) (now : Nat) : Option (Option RepoInfo) :=
  match Assoc.get? memo cwd with
  | none => none
  | some entry => if now - entry.at_ < memoTtl then some entry.info else none

def memoPut (memo : Memo) (cwd : Text) (now : Nat) (info : Option RepoInfo) : Memo := Assoc.set memo cwd { at_ := now, info }

/-! ## Git -/

inductive RevParse
  | done (stdout : Text) (exitOk : Bool)
  | failed
  | timedOut
deriving DecidableEq

/-- `known` is worth remembering. -/
inductive Resolved
  | known (info : Option RepoInfo)
  | unknown
deriving DecidableEq

def conclude (cwd : Text) : RevParse → Resolved
  | .done stdout exitOk => .known (parseRevParse cwd stdout exitOk)
  | .failed => .known none
  | .timedOut => .unknown

section

variable (git : List Call → Text → Nat → RevParse)

/-- All children are spawned before any is asked: what they say depends on the calls before the batch. -/
def runRevParseBatch (log : List Call) (cwds : List Text) (budget : Nat) : List RevParse × List Call :=
  (cwds.map fun cwd => git log cwd budget, log ++ cwds.map fun cwd => (cwd, budget))

def resolveBatchUncached (log : List Call) (cwds : List Text) (budget : Nat) : List Resolved × List Call :=
  let (out, log) := runRevParseBatch git log cwds budget
  ((out.zip cwds).map fun p => conclude p.2 p.1, log)

/-- A definite answer alone is remembered, at the reading before the call. -/
def resolve (world : World) (cwd : Text) (now : Nat) : Option RepoInfo × World :=
  if cwd.isEmpty then (none, world)
  else
    match memoGet world.memo cwd now with
    | some hit => (hit, world)
    | none =>
      let (resolved, log) := resolveBatchUncached git world.log [cwd] deadline
      match resolved.getLast? with
      | some (.known info) => (info, { memo := memoPut world.memo cwd now info, log })
      | _ => (none, { world with log })

/-- The directories to ask about, each once, in order. -/
def coldCwds (memo : Memo) (cwds : List Text) (now : Nat) : List Text :=
  (cwds.filter fun cwd => !cwd.isEmpty && (memoGet memo cwd now).isNone).dedup.insertionSort (· ≤ ·)

/-- The answers of a batch, put in one by one. -/
def remember (memo : Memo) (now : Nat) (answers : List (Text × Resolved)) : Memo :=
  answers.foldl (fun memo answer =>
    match answer.2 with
    | .known info => memoPut memo answer.1 now info
    | .unknown => memo) memo

def prime (world : World) (cwds : List Text) (now budget : Nat) : World :=
  let cold := coldCwds world.memo cwds now
  if cold.isEmpty then world
  else
    let (resolved, log) := resolveBatchUncached git world.log cold budget
    { memo := remember world.memo now (cold.zip resolved), log }

def label (info : RepoInfo) : RepoLabel :=
  { name := info.repoName, branch := info.branch, worktree := info.isWorktree }

/-- The rows one by one, the clock read for each. -/
def annotateEach (clock : Nat → Nat) (world : World) : List AgentRow → List AgentRow × World
  | [] => ([], world)
  | row :: rows =>
    let (info, world) := match row.cwd with
      | none => (none, world)
      | some cwd => resolve git world cwd (clock 0)
    let (rows, world) := annotateEach (fun k => clock (k + 1)) world rows
    ({ row with repo := info.map label } :: rows, world)

def annotateWithin (clock : Nat → Nat) (world : World) (rows : List AgentRow) (budget : Nat) : List AgentRow × World :=
  annotateEach git (fun k => clock (k + 1)) (prime git world (rows.filterMap AgentRow.cwd) (clock 0) budget) rows

def annotateRows (clock : Nat → Nat) (world : World) (rows : List AgentRow) : List AgentRow × World :=
  annotateWithin git clock world rows deadline

def annotateSeedRows (clock : Nat → Nat) (world : World) (rows : List AgentRow) : List AgentRow × World :=
  annotateWithin git clock world rows seedBudget

end

end TmuxAgents.Repo
