/-
Reachability in graphs a program walks by hand.

`Searched` is the invariant of a worklist search over a relation: what has been
seen and what is still on the frontier. `climb_iff` is the rule for a bounded
walk along a partial function: with as many steps as there are nodes, the walk
finds whatever there is to find, cycles or not.
-/
import Mathlib.Data.List.Nodup
import Mathlib.Data.List.Perm.Subperm
import Mathlib.Data.Nat.Find
import Mathlib.Logic.Relation

namespace Reach

open Relation (ReflTransGen)

variable {α : Type*}

/-! ## Searches -/

section Search

variable {child : α → α → Prop} {root : α} {frontier seen : List α}

/-- A search from the root that has seen these nodes and has those to go. -/
structure Searched (child : α → α → Prop) (root : α) (frontier seen : List α) : Prop where
  nodup : seen.Nodup
  reached : ∀ x ∈ seen, ReflTransGen child root x
  pending : ∀ x ∈ frontier, ReflTransGen child root x
  closed : ∀ x ∈ seen, ∀ y, child x y → y ∈ seen ∨ y ∈ frontier
  started : root ∈ seen ∨ root ∈ frontier

theorem Searched.start : Searched child root [root] [] where
  nodup := List.nodup_nil
  reached := by simp
  pending := by simp [ReflTransGen.refl]
  closed := by simp
  started := by simp

/-- A node that was seen before. -/
theorem Searched.skip {x : α} (h : Searched child root (x :: frontier) seen) (hx : x ∈ seen) :
    Searched child root frontier seen where
  nodup := h.nodup
  reached := h.reached
  pending := fun y hy => h.pending y (List.mem_cons_of_mem _ hy)
  closed := by
    intro y hy z hz
    rcases h.closed y hy z hz with hz | hz
    · exact .inl hz
    · rcases List.mem_cons.mp hz with rfl | hz
      · exact .inl hx
      · exact .inr hz
  started := by
    rcases h.started with hr | hr
    · exact .inl hr
    · rcases List.mem_cons.mp hr with rfl | hr
      · exact .inl hx
      · exact .inr hr

/-- A new node, whose new children join the frontier. -/
theorem Searched.visit {x : α} (h : Searched child root (x :: frontier) seen) (hx : x ∉ seen) {more : List α}
    (hmore : ∀ y ∈ more, child x y) (hall : ∀ y, child x y → y ∈ seen ++ [x] ∨ y ∈ more) :
    Searched child root (more ++ frontier) (seen ++ [x]) where
  nodup := by
    refine List.nodup_append.mpr ⟨h.nodup, List.nodup_singleton x, ?_⟩
    intro y hy z hz hyz
    rw [List.mem_singleton.mp hz] at hyz
    exact hx (hyz ▸ hy)
  reached := by
    intro y hy
    rcases List.mem_append.mp hy with hy | hy
    · exact h.reached y hy
    · rw [List.mem_singleton.mp hy]
      exact h.pending x List.mem_cons_self
  pending := by
    intro y hy
    rcases List.mem_append.mp hy with hy | hy
    · exact (h.pending x List.mem_cons_self).tail (hmore y hy)
    · exact h.pending y (List.mem_cons_of_mem _ hy)
  closed := by
    intro y hy z hz
    rcases List.mem_append.mp hy with hy | hy
    · rcases h.closed y hy z hz with hz | hz
      · exact .inl (List.mem_append_left _ hz)
      · rcases List.mem_cons.mp hz with rfl | hz
        · exact .inl (by simp)
        · exact .inr (List.mem_append_right _ hz)
    · rw [List.mem_singleton.mp hy] at hz
      exact (hall z hz).imp_right (List.mem_append_left _)
  started := by
    rcases h.started with hr | hr
    · exact .inl (List.mem_append_left _ hr)
    · rcases List.mem_cons.mp hr with rfl | hr
      · exact .inl (by simp)
      · exact .inr (List.mem_append_right _ hr)

/-- **A search with nothing to go has seen what is reachable.** -/
theorem Searched.done (h : Searched child root [] seen) (x : α) : x ∈ seen ↔ ReflTransGen child root x := by
  refine ⟨h.reached x, fun hx => ?_⟩
  induction hx with
  | refl => exact h.started.resolve_right List.not_mem_nil
  | tail _ hchild ih => exact (h.closed _ ih _ hchild).resolve_right List.not_mem_nil

end Search

/-! ## Climbs -/

section Climb

variable (parent : α → Option α) (hit : α → Bool)

/-- Does a walk of at most so many nodes along `parent` meet a hit? -/
def climb : Nat → α → Bool
  | 0, _ => false
  | n + 1, a =>
    if hit a then true
    else
      match parent a with
      | some b => climb n b
      | none => false

/-- The node so many steps along `parent`. -/
def nth : Nat → α → Option α
  | 0, a => some a
  | k + 1, a => (parent a).bind (nth k)

variable {parent hit}

theorem nth_add (i j : Nat) (a : α) : nth parent (i + j) a = (nth parent i a).bind (nth parent j) := by
  induction i generalizing a with
  | zero => rw [Nat.zero_add, nth, Option.bind_some]
  | succ i ih =>
    rw [Nat.succ_add, nth, nth, Option.bind_assoc]
    exact congrArg _ (funext ih)

theorem reaches_iff {a b : α} :
    ReflTransGen (fun x y => parent x = some y) a b ↔ ∃ k, nth parent k a = some b := by
  constructor
  · intro h
    induction h with
    | refl => exact ⟨0, rfl⟩
    | tail _ hstep ih =>
      obtain ⟨k, hk⟩ := ih
      exact ⟨k + 1, by rw [nth_add, hk, Option.bind_some, nth, hstep]; rfl⟩
  · rintro ⟨k, hk⟩
    induction k generalizing a with
    | zero =>
      cases hk
      exact .refl
    | succ k ih =>
      obtain ⟨c, hc, hk⟩ := Option.bind_eq_some_iff.mp hk
      exact .head hc (ih hk)

theorem climb_of_nth {n k : Nat} {a b : α} (hk : nth parent k a = some b) (hb : hit b = true) (hlt : k < n) :
    climb parent hit n a = true := by
  induction k generalizing n a with
  | zero =>
    cases hk
    obtain ⟨n, rfl⟩ : ∃ m, n = m + 1 := ⟨n - 1, by omega⟩
    rw [climb, if_pos hb]
  | succ k ih =>
    obtain ⟨c, hc, hk⟩ := Option.bind_eq_some_iff.mp hk
    obtain ⟨n, rfl⟩ : ∃ m, n = m + 1 := ⟨n - 1, by omega⟩
    rw [climb]
    split
    · rfl
    · simp only [hc]
      exact ih hk (by omega)

theorem nth_of_climb {n : Nat} {a : α} (h : climb parent hit n a = true) :
    ∃ k b, nth parent k a = some b ∧ hit b = true := by
  induction n generalizing a with
  | zero => cases h
  | succ n ih =>
    rw [climb] at h
    split at h
    next ha => exact ⟨0, a, rfl, ha⟩
    next =>
      split at h
      next c hc =>
        obtain ⟨k, b, hk, hb⟩ := ih h
        exact ⟨k + 1, b, by rw [nth, hc, Option.bind_some, hk], hb⟩
      next => cases h

/-- **A climb of as many nodes as there are is as good as an unbounded one.** -/
theorem climb_iff {nodes : List α} (hhit : ∀ a, hit a = true → a ∈ nodes)
    (hparent : ∀ a b, parent a = some b → a ∈ nodes) (a : α) :
    climb parent hit nodes.length a = true ↔
      ∃ b, ReflTransGen (fun x y => parent x = some y) a b ∧ hit b = true := by
  constructor
  · intro h
    obtain ⟨k, b, hk, hb⟩ := nth_of_climb h
    exact ⟨b, reaches_iff.mpr ⟨k, hk⟩, hb⟩
  · rintro ⟨b, hreach, hb⟩
    classical
    have hfound : ∃ k, ∃ b, nth parent k a = some b ∧ hit b = true := by
      obtain ⟨k, hk⟩ := reaches_iff.mp hreach
      exact ⟨k, b, hk, hb⟩
    obtain ⟨c, hc, hhitc⟩ := Nat.find_spec hfound
    have hleast (i : Nat) (hi : i < Nat.find hfound) := Nat.find_min hfound hi
    generalize Nat.find hfound = k at hc hleast
    -- The first hit is met before any node is met twice, so the nodes up to it are distinct.
    have hpoint (i : Nat) (hi : i ≤ k) : ∃ x ∈ nodes, nth parent i a = some x := by
      obtain ⟨j, rfl⟩ := Nat.exists_eq_add_of_le hi
      rw [nth_add] at hc
      obtain ⟨x, hx, hj⟩ := Option.bind_eq_some_iff.mp hc
      refine ⟨x, ?_, hx⟩
      cases j with
      | zero =>
        cases hj
        exact hhit _ hhitc
      | succ j =>
        obtain ⟨y, hy, -⟩ := Option.bind_eq_some_iff.mp hj
        exact hparent _ _ hy
    have hne {i j : Nat} (hij : i < j) (hj : j ≤ k) : nth parent i a ≠ nth parent j a := by
      intro heq
      obtain ⟨rest, rfl⟩ := Nat.exists_eq_add_of_le hj
      refine hleast (i + rest) (by omega) ⟨c, ?_, hhitc⟩
      rw [nth_add, heq, ← nth_add, hc]
    have hnodup : ((List.range (k + 1)).map fun i => nth parent i a).Nodup := by
      refine List.Nodup.map_on ?_ List.nodup_range
      intro i hi j hj heq
      rw [List.mem_range] at hi hj
      rcases Nat.lt_trichotomy i j with h | h | h
      · exact absurd heq (hne h (by omega))
      · exact h
      · exact absurd heq.symm (hne h (by omega))
    have hsubset : ((List.range (k + 1)).map fun i => nth parent i a) ⊆ nodes.map some := by
      intro x hx
      obtain ⟨i, hi, rfl⟩ := List.mem_map.mp hx
      obtain ⟨y, hy, heq⟩ := hpoint i (by rw [List.mem_range] at hi; omega)
      exact List.mem_map.mpr ⟨y, hy, heq.symm⟩
    have hlength := (hnodup.subperm hsubset).length_le
    simp only [List.length_map, List.length_range] at hlength
    exact climb_of_nth hc hhitc (by omega)

end Climb

end Reach
