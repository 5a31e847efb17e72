/-
Parsing a stream as it arrives, by parsing what has arrived from its start each
time. The verdicts of a parser are stable when no more input changes one that is
not `needMore`; then what is read does not depend on how the input was cut.

A parser returns nothing where it would index out of bounds.
-/
import Mathlib.Algebra.Order.Ring.Nat
import Mathlib.Data.List.Basic

namespace Incremental

variable {α β : Type*}

/-- The verdict on a buffer. -/
inductive ParseStatus (α : Type*)
  /-- A whole frame, decoded from the front of the buffer. -/
  | complete (frame : α)
  /-- The buffer is a valid prefix so far. -/
  | needMore
  /-- Unrecoverable. -/
  | invalid
deriving DecidableEq

/-- What a reader hands on: the frame, or nothing. -/
def ParseStatus.frame? : ParseStatus α → Option α
  | .complete frame => some frame
  | .needMore | .invalid => none

/-- A verdict that is not `needMore` survives whatever arrives after it. -/
def Stable (parse : List β → Option (ParseStatus α)) : Prop :=
  ∀ buf status, parse buf = some status → status ≠ .needMore → ∀ more, parse (buf ++ more) = some status

/-- A prefix that leads to a whole frame needs more, or is decided as the whole is. -/
theorem Stable.prefix {parse : List β → Option (ParseStatus α)} (h : Stable parse) {buf more : List β}
    {before after : ParseStatus α} (hbefore : parse buf = some before) (hafter : parse (buf ++ more) = some after) :
    before = .needMore ∨ before = after := by
  by_cases hmore : before = .needMore
  · exact .inl hmore
  · rw [h buf before hbefore hmore more] at hafter
    exact .inr (Option.some.inj hafter)

section Readers

variable (parse : List β → Option (ParseStatus α))

/-- A blocking reader: after each chunk it parses what it has, until the input ends. -/
def readAll (buf : List β) : List (List β) → Option (Option α)
  | [] => (parse buf).map ParseStatus.frame?
  | chunk :: chunks => do
    match ← parse buf with
    | .complete frame => some (some frame)
    | .invalid => some none
    | .needMore => readAll (buf ++ chunk) chunks

/-- What becomes of a parked connection. -/
inductive Advance (α : Type*)
  | complete (frame : α)
  | park
  | drop
deriving DecidableEq

/-- One read of a parked connection, and whether the peer is still open after it. -/
def advance (isOpen : Bool) (buf : List β) : Option (Advance α) :=
  (parse buf).map fun status => match status with
    | .complete frame => .complete frame
    | .invalid => .drop
    | .needMore => if isOpen then .park else .drop

/-- Reads of a parked connection, as long as it stays parked; the peer is open until the last,
and after it if `isOpen`. -/
def advanceAll (isOpen : Bool) (buf : List β) : List (List β) → Option (Advance α)
  | [] => advance parse isOpen buf
  | chunk :: chunks => do
    match ← advance parse true buf with
    | .park => advanceAll isOpen (buf ++ chunk) chunks
    | decided => some decided

variable {parse} (hstable : Stable parse) (htotal : ∀ buf, (parse buf).isSome = true)

include hstable htotal

/-- **A reader sees the whole**: its answer is the verdict on all the input, however it was cut. -/
theorem readAll_eq (chunks : List (List β)) : ∀ buf,
    readAll parse buf chunks = (parse (buf ++ chunks.flatten)).map ParseStatus.frame? := by
  induction chunks with
  | nil =>
    intro buf
    rw [readAll, List.flatten_nil, List.append_nil]
  | cons chunk chunks ih =>
    intro buf
    obtain ⟨status, hstatus⟩ := Option.isSome_iff_exists.mp (htotal buf)
    rw [readAll, hstatus, List.flatten_cons]
    cases status with
    | complete frame =>
      rw [hstable buf _ hstatus (by simp)]
      rfl
    | invalid =>
      rw [hstable buf _ hstatus (by simp)]
      rfl
    | needMore =>
      rw [← List.append_assoc]
      exact ih (buf ++ chunk)

/-- **A parked connection sees the whole**, too. -/
theorem advanceAll_eq (isOpen : Bool) (chunks : List (List β)) : ∀ buf,
    advanceAll parse isOpen buf chunks = advance parse isOpen (buf ++ chunks.flatten) := by
  induction chunks with
  | nil =>
    intro buf
    rw [advanceAll, List.flatten_nil, List.append_nil]
  | cons chunk chunks ih =>
    intro buf
    obtain ⟨status, hstatus⟩ := Option.isSome_iff_exists.mp (htotal buf)
    rw [advanceAll, advance, hstatus, List.flatten_cons]
    cases status with
    | complete frame =>
      rw [advance, hstable buf _ hstatus (by simp)]
      rfl
    | invalid =>
      rw [advance, hstable buf _ hstatus (by simp)]
      rfl
    | needMore =>
      rw [← List.append_assoc]
      exact ih (buf ++ chunk)

end Readers

end Incremental
