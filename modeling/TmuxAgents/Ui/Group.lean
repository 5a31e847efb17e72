/-
The watch table's grouping (`group.rs`): rows rolled up by repository, groups in
the order of their most urgent member, and the two maps between a row and the
line it is drawn on.
-/
import Mathlib.Data.List.Sort
import Mathlib.Data.Prod.Lex
import Mathlib.Order.WithBot
import TmuxAgents.Lib.Assoc
import TmuxAgents.Runtime.Row

namespace TmuxAgents.Ui

/-! ## The flat order -/

/-- Rank, then longest in its state. -/
def rowUrgency (row : AgentRow) : Nat ×ₗ Nat := toLex (rowRank row, row.since)

/-- `sorted`, a stable sort. -/
def sorted (rows : List AgentRow) : List AgentRow := rows.insertionSort fun a b => rowUrgency a ≤ rowUrgency b

/-! ## Groups -/

def noRepo : Text := "(no repo)".toList

/-- A header's label and the rows under it. -/
structure Group where
  name : Text
  members : List Nat
deriving DecidableEq

/-- A repository's name, or none. -/
abbrev RepoKey := Option Text

def repoKey (row : AgentRow) : RepoKey := row.repo.map RepoLabel.name

abbrev Buckets := List (RepoKey × List Nat)

/-- A row joins its repository's bucket, or opens one. -/
def joinBucket (buckets : Buckets) (key : RepoKey) (i : Nat) : Buckets :=
  Assoc.set buckets key ((Assoc.get? buckets key).getD [] ++ [i])

/-- The rows from `i` on join. -/
def bucketsFrom (i : Nat) (buckets : Buckets) : List AgentRow → Buckets
  | [] => buckets
  | row :: rows => bucketsFrom (i + 1) (joinBucket buckets (repoKey row) i) rows

def buckets (rows : List AgentRow) : Buckets := bucketsFrom 0 [] rows

/-- The best rank among the members, and the least `since` at that rank. -/
def urgency (rows : List AgentRow) (members : List Nat) : Nat ×ₗ Nat :=
  let held := members.filterMap (rows[·]?)
  let best := ((held.map rowRank).min?).getD 255
  toLex (best, (((held.filter fun row => rowRank row = best).map AgentRow.since).min?).getD 0)

/-- What groups are ordered by: urgency, display name, repository key. -/
def groupOrder (rows : List AgentRow) (bucket : RepoKey × List Nat) : (Nat ×ₗ Nat) ×ₗ (Text ×ₗ WithBot Text) :=
  toLex (urgency rows bucket.2, toLex (bucket.1.getD noRepo, (bucket.1 : WithBot Text)))

def orderedBuckets (rows : List AgentRow) : Buckets :=
  (buckets rows).insertionSort fun a b => groupOrder rows a ≤ groupOrder rows b

def groupRows (rows : List AgentRow) : List Group :=
  (orderedBuckets rows).map fun bucket => { name := bucket.1.getD noRepo, members := bucket.2 }

/-! ## Display order -/

/-- The groups again, their members numbered on from `start`. -/
def cachedFrom (start : Nat) : List Group → List Group
  | [] => []
  | g :: groups => { g with members := List.range' start g.members.length } :: cachedFrom (start + g.members.length) groups

/-- The rows in group order, and the groups over them. -/
def regroupRows (rows : List AgentRow) : List AgentRow × List Group :=
  let groups := groupRows rows
  (groups.flatMap fun g => g.members.filterMap (rows[·]?), cachedFrom 0 groups)

/-! ## Lines -/

def displayIndexFrom (headers : Nat) (sel : Nat) : List Group → Nat
  | [] => sel
  | g :: groups => if g.members.contains sel then sel + (headers + 1) else displayIndexFrom (headers + 1) sel groups

/-- The line of a row: one header more for each group at or before its own. -/
def displayIndex (groups : List Group) (sel : Nat) : Nat := displayIndexFrom 0 sel groups

def rowAtFrom (cursor line : Nat) : List Group → Option Nat
  | [] => none
  | g :: groups =>
    if line = cursor then none
    else if line < cursor + 1 + g.members.length then g.members.head?.map (line - (cursor + 1) + ·)
    else rowAtFrom (cursor + 1 + g.members.length) line groups

/-- The row a line holds, none for a header or past the end. -/
def rowAtDisplay (groups : List Group) (flatLen line : Nat) : Option Nat :=
  if groups.isEmpty then (if line < flatLen then some line else none) else rowAtFrom 0 line groups

def displayLen (groups : List Group) (flatLen : Nat) : Nat :=
  if groups.isEmpty then flatLen else flatLen + groups.length

end TmuxAgents.Ui
