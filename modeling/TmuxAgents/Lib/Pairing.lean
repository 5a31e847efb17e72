/-
Presses that pair up: a machine holds its last unpaired press, and the next
press of the same key, if it comes in time, closes the pair.

`closes_pair` finds the press a closing one pairs with. What a state shows under
the held key is what it showed then, if every operation in between kept it; one
too old to be closed need not be kept.
-/
import TmuxAgents.Lib.Run

namespace Pairing

open Run

structure Machine (σ ω κ : Type*) where
  step : σ → ω → σ
  /-- The key an operation presses, if it is a press. -/
  key : σ → ω → Option κ
  time : ω → Nat
  /-- The unpaired press: its key, and when. -/
  held : σ → Option (κ × Nat)
  span : Nat

variable {σ ω κ α : Type*} [DecidableEq κ]

namespace Machine

variable (M : Machine σ ω κ)

/-- The key of a press that is the second of a pair. -/
def closing (s : σ) (op : ω) : Option κ :=
  (M.key s op).filter fun k => (M.held s).any fun last => decide (last.1 = k ∧ M.time op - last.2 ≤ M.span)

structure Lawful : Prop where
  rest : ∀ s op, M.key s op = none → M.held (M.step s op) = M.held s
  closed : ∀ s op k, M.closing s op = some k → M.held (M.step s op) = none
  opened : ∀ s op k, M.key s op = some k → M.closing s op = none → M.held (M.step s op) = some (k, M.time op)

variable {M}

theorem closing_eq_some {s : σ} {op : ω} {k : κ} :
    M.closing s op = some k ↔ M.key s op = some k ∧ ∃ t, M.held s = some (k, t) ∧ M.time op - t ≤ M.span := by
  simp only [closing, Option.filter_eq_some_iff, Option.any_eq_true, decide_eq_true_eq]
  constructor
  · intro h
    obtain ⟨hkey, ⟨k', t⟩, hheld, rfl, hspan⟩ := h
    exact ⟨hkey, t, hheld, hspan⟩
  · intro h
    obtain ⟨hkey, t, hheld, hspan⟩ := h
    exact ⟨hkey, (k, t), hheld, rfl, hspan⟩

/-- The press a held one is: the last press of the run, and unpaired. -/
structure Opens (M : Machine σ ω κ) (s : σ) (ops : List ω) (k : κ) (before : List ω) (first : ω) (between : List ω) : Prop where
  split : ops = before ++ first :: between
  key : M.key (run M.step s before) first = some k
  unpaired : M.closing (run M.step s before) first = none
  alone : Along M.step (fun s op => M.key s op = none) (run M.step s (before ++ [first])) between

/-- A held press was made, and nothing pressed since. -/
theorem Lawful.held_opens (h : M.Lawful) {s : σ} (hs : M.held s = none) {ops : List ω} {k : κ} {t : Nat}
    (hheld : M.held (run M.step s ops) = some (k, t)) :
    ∃ before first between, M.Opens s ops k before first between ∧ M.time first = t := by
  induction ops using List.reverseRecOn with
  | nil => simp [hs] at hheld
  | append_singleton ops op ih =>
    rw [run_concat] at hheld
    cases hkey : M.key (run M.step s ops) op with
    | none =>
      rw [h.rest _ _ hkey] at hheld
      obtain ⟨before, first, between, hopens, htime⟩ := ih hheld
      refine ⟨before, first, between ++ [op], ⟨?_, hopens.key, hopens.unpaired, ?_⟩, htime⟩
      · rw [hopens.split, List.append_assoc, List.cons_append]
      · refine hopens.alone.concat ?_
        rw [← run_append, List.append_assoc, List.singleton_append, ← hopens.split]
        exact hkey
    | some pressed =>
      cases hclosing : M.closing (run M.step s ops) op with
      | some closed =>
        rw [h.closed _ _ _ hclosing] at hheld
        cases hheld
      | none =>
        rw [h.opened _ _ _ hkey hclosing] at hheld
        cases hheld
        exact ⟨ops, op, [], ⟨rfl, hkey, hclosing, .nil _⟩, rfl⟩

/-- What is shown under the held key is kept, if a press at `now` is in time to close it. -/
def Keeps (M : Machine σ ω κ) (shows : σ → κ → α) (now : Nat) (s : σ) (op : ω) : Prop :=
  ∀ k t, M.held s = some (k, t) → now - t ≤ M.span → shows (M.step s op) k = shows s k

theorem Lawful.held_alone (h : M.Lawful) {s : σ} {ops : List ω} (hops : Along M.step (fun s op => M.key s op = none) s ops) :
    M.held (run M.step s ops) = M.held s :=
  hops.invariant (fun _ s' => M.held s' = M.held s) rfl fun _ op hheld hkey => (h.rest _ op hkey).trans hheld

/-- Until the next press the held key shows what it did. -/
theorem Lawful.shows_alone (h : M.Lawful) {shows : σ → κ → α} {s : σ} {k : κ} {t now : Nat} (hheld : M.held s = some (k, t))
    (hspan : now - t ≤ M.span) {ops : List ω} (hops : Along M.step (fun s op => M.key s op = none) s ops)
    (hkeeps : Along M.step (M.Keeps shows now) s ops) :
    shows (run M.step s ops) k = shows s k := by
  induction ops using List.reverseRecOn with
  | nil => rfl
  | append_singleton ops op ih =>
    have hlast : M.held (run M.step s ops) = some (k, t) := (h.held_alone hops.of_append).trans hheld
    rw [run_concat, hkeeps.last k t hlast hspan, ih hops.of_append hkeeps.of_append]

/-- **A closing press has its first.** It was unpaired, is the last press before, was made
under the same key in time, and the key showed then what it shows now. -/
theorem Lawful.closes_pair (h : M.Lawful) {shows : σ → κ → α}
    (hpress : ∀ s op k, M.key s op = some k → shows (M.step s op) k = shows s k) {s : σ} (hs : M.held s = none)
    {ops : List ω} {op : ω} {k : κ} (hop : M.closing (run M.step s ops) op = some k)
    (hkeeps : Along M.step (M.Keeps shows (M.time op)) s ops) :
    ∃ before first between, M.Opens s ops k before first between ∧ M.time op - M.time first ≤ M.span ∧
      shows (run M.step s ops) k = shows (run M.step s before) k := by
  obtain ⟨-, t, hheld, hspan⟩ := closing_eq_some.mp hop
  obtain ⟨before, first, between, hopens, rfl⟩ := h.held_opens hs hheld
  refine ⟨before, first, between, hopens, hspan, ?_⟩
  have hsplit : ops = (before ++ [first]) ++ between := by rw [hopens.split, List.append_assoc, List.singleton_append]
  have hfirst : M.held (run M.step s (before ++ [first])) = some (k, M.time first) := by
    rw [run_concat, h.opened _ _ _ hopens.key hopens.unpaired]
  rw [hsplit] at hkeeps
  rw [hsplit, run_append, h.shows_alone hfirst hspan hopens.alone hkeeps.after, run_concat, hpress _ _ _ hopens.key]

/-- **Pairs do not share presses.** There are at least twice as many presses as pairs. -/
theorem Lawful.two_mul_closings (h : M.Lawful) {s : σ} (hs : M.held s = none) (ops : List ω) :
    2 * (firings M.step M.closing s ops).length ≤ (firings M.step M.key s ops).length := by
  suffices hheld : ∀ s, 2 * (firings M.step M.closing s ops).length + (M.held (run M.step s ops)).toList.length ≤
      (firings M.step M.key s ops).length + (M.held s).toList.length by
    have hrun := hheld s
    rw [hs] at hrun
    simp only [Option.toList_none, List.length_nil] at hrun
    omega
  clear hs
  intro s
  induction ops generalizing s with
  | nil => simp
  | cons op ops ih =>
    have hrest := ih (M.step s op)
    rw [firings_cons, firings_cons, run_cons, List.length_append, List.length_append]
    cases hclosing : M.closing s op with
    | some k =>
      obtain ⟨hkey, t, hheld, -⟩ := closing_eq_some.mp hclosing
      rw [h.closed _ _ _ hclosing] at hrest
      simp only [hkey, hheld, Option.toList_some, Option.toList_none, List.length_singleton, List.length_nil] at hrest ⊢
      omega
    | none =>
      cases hkey : M.key s op with
      | none =>
        rw [h.rest _ _ hkey] at hrest
        simp only [Option.toList_none, List.length_nil]
        omega
      | some k =>
        rw [h.opened _ _ _ hkey hclosing] at hrest
        simp only [Option.toList_some, Option.toList_none, List.length_singleton, List.length_nil] at hrest ⊢
        omega

end Machine

end Pairing
