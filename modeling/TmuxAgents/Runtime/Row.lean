/-
A resolved agent row (`row.rs`): what every surface lists a pane by.
-/
import Mathlib.Data.Char
import Mathlib.Data.List.Lex
import TmuxAgents.Lib.Text
import TmuxAgents.Program.Project

namespace TmuxAgents

/-- The repository annotation of a pane whose directory resolved to one. -/
structure RepoLabel where
  name : Text
  branch : Text
  worktree : Bool
deriving DecidableEq

/-- The account-quota annotation. -/
structure QuotaLabel where
  pct : Nat
  window : Text
  resetsAtMs : Option Nat
deriving DecidableEq

/-- What a row was read from, as it is encoded. -/
abbrev ObservationIdentity := Text

structure AgentRow where
  acknowledgement : Option ObservationIdentity := none
  paneId : Text
  agent : Text
  state : AgentState
  /-- 0 when unknown. -/
  since : Nat
  session : Text
  windowIndex : Nat
  paneIndex : Nat
  title : Text
  attention : Bool := false
  quota : Option QuotaLabel := none
  model : Option Text := none
  cwd : Option Text := none
  repo : Option RepoLabel := none
deriving DecidableEq

namespace AgentRow

/-- `session:window.pane`. -/
def locator (row : AgentRow) : Text :=
  row.session ++ ':' :: Text.decimal row.windowIndex ++ '.' :: Text.decimal row.paneIndex

def branch (row : AgentRow) : Option Text := row.repo.map RepoLabel.branch

end AgentRow

/-- Rank 1 is the `done` pseudo-state's. -/
def sortRank : AgentState → Nat
  | .blocked => 0
  | .working => 2
  | .idle => 3
  | .unknown => 4

/-- Finished, with output nobody has looked at. -/
def isDone (row : AgentRow) : Bool := row.state = .idle && row.attention

def rowRank (row : AgentRow) : Nat := if isDone row then 1 else sortRank row.state

end TmuxAgents
