/-
Changes to a keyed table, and their replay.

A change says what its key held and what it holds then. A replay is strict: a change that does not
find what it left is an error. Changes under different keys replay in any order, and what they give
is told by each alone (`replay_eq_some`); replays compose (`replay_append`).
-/
import Mathlib.Data.List.Nodup
import Mathlib.Logic.Function.Basic

namespace KeyedDiff

variable {κ γ : Type*}

/-- A key, what it held and what it holds then; nothing where it is not in the table. -/
structure Change (κ γ : Type*) where
  key : κ
  before : Option γ
  after : Option γ

variable [DecidableEq κ] [DecidableEq γ]

def Change.apply (change : Change κ γ) (held : κ → Option γ) : Option (κ → Option γ) :=
  if held change.key = change.before then some (Function.update held change.key change.after) else none

def replay : List (Change κ γ) → (κ → Option γ) → Option (κ → Option γ)
  | [], held => some held
  | change :: changes, held => (change.apply held).bind (replay changes)

theorem replay_append (a b : List (Change κ γ)) (held : κ → Option γ) :
    replay (a ++ b) held = (replay a held).bind (replay b) := by
  induction a generalizing held with
  | nil => rfl
  | cons change a ih =>
    rw [List.cons_append, replay, replay]
    cases change.apply held with
    | none => rfl
    | some held' => exact ih held'

/-- Changes under different keys, each of what the table holds, lead to the table that holds what they say. -/
theorem replay_eq_some {changes : List (Change κ γ)} {held held' : κ → Option γ} (hkeys : (changes.map Change.key).Nodup)
    (hbefore : ∀ change ∈ changes, held change.key = change.before)
    (hafter : ∀ change ∈ changes, held' change.key = change.after)
    (hother : ∀ key ∉ changes.map Change.key, held' key = held key) : replay changes held = some held' := by
  induction changes generalizing held with
  | nil => exact congrArg some (funext fun key => (hother key List.not_mem_nil).symm)
  | cons change changes ih =>
    rw [List.map_cons, List.nodup_cons] at hkeys
    have happly : change.apply held = some (Function.update held change.key change.after) :=
      if_pos (hbefore change List.mem_cons_self)
    rw [replay, happly, Option.bind_some]
    refine ih hkeys.2 (fun c hc => ?_) (fun c hc => hafter c (List.mem_cons_of_mem _ hc)) fun key hkey => ?_
    · have hne : c.key ≠ change.key := fun heq => hkeys.1 (heq ▸ List.mem_map_of_mem hc)
      rw [Function.update_of_ne hne]
      exact hbefore c (List.mem_cons_of_mem _ hc)
    · by_cases heq : key = change.key
      · rw [heq, Function.update_self]
        exact hafter change List.mem_cons_self
      · rw [Function.update_of_ne heq]
        refine hother key fun hmem => ?_
        rw [List.map_cons, List.mem_cons] at hmem
        exact hmem.elim heq hkey

end KeyedDiff
