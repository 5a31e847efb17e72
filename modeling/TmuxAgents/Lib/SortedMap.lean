/-
Maps kept as the list of their entries in key order, so that a walk over the
entries is a walk in key order. An insertion replaces the entry of its key.
-/
import Mathlib.Algebra.Order.Ring.Nat
import Mathlib.Order.Defs.LinearOrder
import Mathlib.Data.List.Nodup
import Mathlib.Algebra.BigOperators.Group.List.Basic

/-- A finite map whose entries are listed in key order. -/
structure SortedMap (κ : Type*) [LinearOrder κ] (β : Type*) where
  entries : List (κ × β)
  sorted : entries.Pairwise fun a b => a.1 < b.1
deriving DecidableEq

namespace SortedMap

variable {κ : Type*} [LinearOrder κ] {β γ : Type*}

def empty : SortedMap κ β := ⟨[], .nil⟩

def get? (m : SortedMap κ β) (k : κ) : Option β := (m.entries.find? fun e => e.1 = k).map Prod.snd

def contains (m : SortedMap κ β) (k : κ) : Bool := (m.get? k).isSome

def keys (m : SortedMap κ β) : List κ := m.entries.map Prod.fst

def values (m : SortedMap κ β) : List β := m.entries.map Prod.snd

def size (m : SortedMap κ β) : Nat := m.entries.length

def erase (m : SortedMap κ β) (k : κ) : SortedMap κ β :=
  ⟨m.entries.filter fun e => e.1 ≠ k, m.sorted.filter _⟩

def insert (m : SortedMap κ β) (k : κ) (v : β) : SortedMap κ β where
  entries := m.entries.filter (fun e => e.1 < k) ++ (k, v) :: m.entries.filter fun e => k < e.1
  sorted := by
    rw [List.pairwise_append, List.pairwise_cons]
    refine ⟨m.sorted.filter _, ⟨fun b hb => ?_, m.sorted.filter _⟩, fun a ha b hb => ?_⟩
    · simpa using (List.mem_filter.mp hb).2
    · have hak : a.1 < k := by simpa using (List.mem_filter.mp ha).2
      rcases List.mem_cons.mp hb with rfl | hb
      · exact hak
      · exact hak.trans (by simpa using (List.mem_filter.mp hb).2)

/-- Every value changed in place. -/
def mapValues (m : SortedMap κ β) (f : β → γ) : SortedMap κ γ :=
  ⟨m.entries.map fun e => (e.1, f e.2), List.pairwise_map.mpr m.sorted⟩

/-! ## Looking up -/

theorem mem_entries {m : SortedMap κ β} {k : κ} {v : β} : (k, v) ∈ m.entries ↔ m.get? k = some v := by
  obtain ⟨l, hl⟩ := m
  unfold get?
  dsimp only
  induction l with
  | nil => simp
  | cons e l ih =>
    obtain ⟨hlt, hl⟩ := List.pairwise_cons.mp hl
    by_cases he : e.1 = k
    · rw [List.find?_cons_of_pos (by simpa using he)]
      constructor
      · rintro h
        rcases List.mem_cons.mp h with rfl | h
        · rfl
        · exact absurd he (ne_of_lt (hlt _ h))
      · intro h
        obtain rfl : e.2 = v := Option.some.inj h
        exact he ▸ List.mem_cons_self
    · rw [List.find?_cons_of_neg (by simpa using he), ← ih hl, List.mem_cons]
      exact or_iff_right fun h => he (by rw [← h])

theorem mem_keys {m : SortedMap κ β} {k : κ} : k ∈ m.keys ↔ ∃ v, m.get? k = some v := by
  simp only [keys, List.mem_map, Prod.exists, exists_and_right, exists_eq_right, mem_entries]

theorem mem_values {m : SortedMap κ β} {v : β} : v ∈ m.values ↔ ∃ k, m.get? k = some v := by
  simp only [values, List.mem_map, Prod.exists, exists_eq_right, mem_entries]

theorem contains_iff {m : SortedMap κ β} {k : κ} : m.contains k = true ↔ ∃ v, m.get? k = some v :=
  Option.isSome_iff_exists

theorem contains_eq_false {m : SortedMap κ β} {k : κ} : m.contains k = false ↔ m.get? k = none := by
  simp [contains]

theorem keys_nodup (m : SortedMap κ β) : m.keys.Nodup :=
  List.pairwise_map.mpr (m.sorted.imp fun h => ne_of_lt h)

@[simp] theorem get?_empty (k : κ) : (empty : SortedMap κ β).get? k = none := rfl

theorem mem_entries_insert {m : SortedMap κ β} {k : κ} {v : β} {e : κ × β} :
    e ∈ (m.insert k v).entries ↔ e = (k, v) ∨ e.1 ≠ k ∧ e ∈ m.entries := by
  simp only [insert, List.mem_append, List.mem_filter, decide_eq_true_eq, List.mem_cons]
  constructor
  · rintro (⟨h, hlt⟩ | h | ⟨h, hlt⟩)
    · exact .inr ⟨ne_of_lt hlt, h⟩
    · exact .inl h
    · exact .inr ⟨ne_of_gt hlt, h⟩
  · rintro (h | ⟨hne, h⟩)
    · exact .inr (.inl h)
    · rcases lt_or_gt_of_ne hne with hlt | hlt
      · exact .inl ⟨h, hlt⟩
      · exact .inr (.inr ⟨h, hlt⟩)

theorem get?_eq_iff {m : SortedMap κ β} {k : κ} {o : Option β} :
    m.get? k = o ↔ ∀ v, (k, v) ∈ m.entries ↔ o = some v := by
  simp only [mem_entries]
  exact ⟨fun h v => by rw [h], fun h => Option.ext h⟩

@[simp] theorem get?_insert (m : SortedMap κ β) (k : κ) (v : β) (k' : κ) :
    (m.insert k v).get? k' = if k' = k then some v else m.get? k' := by
  rw [get?_eq_iff]
  intro v'
  rw [mem_entries_insert, mem_entries, Prod.mk.injEq]
  by_cases h : k' = k
  · simp [h, eq_comm]
  · simp [h]

@[simp] theorem get?_erase (m : SortedMap κ β) (k k' : κ) :
    (m.erase k).get? k' = if k' = k then none else m.get? k' := by
  rw [get?_eq_iff]
  intro v
  simp only [erase, List.mem_filter, mem_entries, decide_eq_true_eq]
  by_cases h : k' = k <;> simp [h]

@[simp] theorem get?_mapValues (m : SortedMap κ β) (f : β → γ) (k : κ) :
    (m.mapValues f).get? k = (m.get? k).map f := by
  simp only [get?, mapValues, List.find?_map, Function.comp_def, Option.map_map]

@[simp] theorem keys_mapValues (m : SortedMap κ β) (f : β → γ) : (m.mapValues f).keys = m.keys := by
  simp [keys, mapValues, Function.comp_def]

@[simp] theorem values_mapValues (m : SortedMap κ β) (f : β → γ) : (m.mapValues f).values = m.values.map f := by
  simp [values, mapValues, Function.comp_def]

theorem entries_nodup (m : SortedMap κ β) : m.entries.Nodup :=
  m.sorted.imp fun h he => absurd (congrArg Prod.fst he) (ne_of_lt h)

/-- A map is what it answers. -/
theorem ext_get? {m m' : SortedMap κ β} (h : ∀ k, m.get? k = m'.get? k) : m = m' := by
  have hperm : m.entries.Perm m'.entries := by
    refine (List.perm_ext_iff_of_nodup m.entries_nodup m'.entries_nodup).mpr fun e => ?_
    rw [show e = (e.1, e.2) from rfl, mem_entries, mem_entries, h]
  have hentries : m.entries = m'.entries :=
    hperm.eq_of_pairwise (fun a b _ _ hab hba => absurd hab (not_lt_of_gt hba)) m.sorted m'.sorted
  cases m
  cases m'
  simpa using hentries

theorem insert_insert (m : SortedMap κ β) (k : κ) (v v' : β) : (m.insert k v).insert k v' = m.insert k v' := by
  refine ext_get? fun k' => ?_
  by_cases h : k' = k <;> simp [h]

/-! ## Sums over the values -/

/-- A sum, with one key's part taken out. -/
theorem sum_values (m : SortedMap κ β) (k : κ) (f : β → Nat) :
    (m.values.map f).sum = (m.get? k).elim 0 f + ((m.erase k).values.map f).sum := by
  have hperm : m.entries.Perm (((m.get? k).elim [] fun v => [(k, v)]) ++ (m.erase k).entries) := by
    have hk : ∀ e ∈ (m.erase k).entries, e.1 ≠ k := fun e he => by simpa using (List.mem_filter.mp he).2
    have hnodup : (((m.get? k).elim [] fun v => [(k, v)]) ++ (m.erase k).entries).Nodup := by
      refine List.nodup_append.mpr ⟨?_, (m.erase k).entries_nodup, fun a ha b hb hab => ?_⟩
      · cases m.get? k <;> simp
      · cases hg : m.get? k with
        | none => simp [hg] at ha
        | some v =>
          obtain rfl : a = (k, v) := by simpa [hg] using ha
          exact hk b hb (by rw [← hab])
    refine (List.perm_ext_iff_of_nodup m.entries_nodup hnodup).mpr fun e => ?_
    rw [List.mem_append, show e = (e.1, e.2) from rfl, mem_entries, mem_entries, get?_erase]
    by_cases he : e.1 = k
    · rw [he]
      cases m.get? k <;> simp [eq_comm]
    · rw [if_neg he]
      refine (or_iff_right fun hmem => he ?_).symm
      cases hg : m.get? k with
      | none => simp [hg] at hmem
      | some v =>
        rw [hg] at hmem
        obtain rfl : e = (k, v) := List.mem_singleton.mp hmem
        rfl
  have hsum := (hperm.map fun e => f e.2).sum_eq
  simp only [values, List.map_map, Function.comp_def]
  rw [hsum, List.map_append, List.sum_append]
  cases m.get? k <;> simp

theorem erase_insert (m : SortedMap κ β) (k : κ) (v : β) : (m.insert k v).erase k = m.erase k := by
  refine ext_get? fun k' => ?_
  by_cases h : k' = k <;> simp [h]

theorem sum_insert (m : SortedMap κ β) (k : κ) (v : β) (f : β → Nat) :
    ((m.insert k v).values.map f).sum + (m.get? k).elim 0 f = (m.values.map f).sum + f v := by
  have h₁ := sum_values (m.insert k v) k f
  have h₂ := sum_values m k f
  rw [erase_insert, get?_insert, if_pos rfl, Option.elim_some] at h₁
  omega

/-- Each value is a part of the sum. -/
theorem le_sum_values {m : SortedMap κ β} {k : κ} {v : β} (h : m.get? k = some v) (f : β → Nat) :
    f v ≤ (m.values.map f).sum := by
  rw [sum_values m k f, h]
  exact Nat.le_add_right _ _

/-- A walk over the values that only one key can contribute to. -/
theorem filterMap_values {m : SortedMap κ β} {k : κ} {f : β → Option γ}
    (h : ∀ k' v, m.get? k' = some v → k' ≠ k → f v = none) :
    m.values.filterMap f = ((m.get? k).bind f).toList := by
  have hnone : ∀ l : List (κ × β), (∀ e ∈ l, e ∈ m.entries ∧ e.1 ≠ k) → (l.map Prod.snd).filterMap f = [] := by
    intro l hl
    rw [List.filterMap_eq_nil_iff]
    intro v hv
    obtain ⟨e, he, rfl⟩ := List.mem_map.mp hv
    exact h e.1 e.2 (mem_entries.mp (hl e he).1) (hl e he).2
  cases hk : m.get? k with
  | none =>
    refine hnone m.entries fun e he => ⟨he, fun heq => ?_⟩
    rw [← heq, mem_entries.mp he] at hk
    cases hk
  | some v =>
    obtain ⟨l₁, l₂, hl⟩ := List.append_of_mem (mem_entries.mpr hk)
    have hsorted := hl ▸ m.sorted
    obtain ⟨-, hv, hlt⟩ := List.pairwise_append.mp hsorted
    have h₁ := hnone l₁ fun e he => ⟨by simp [hl, he], (hlt e he (k, v) List.mem_cons_self).ne⟩
    have h₂ := hnone l₂ fun e he => ⟨by simp [hl, he], ((List.pairwise_cons.mp hv).1 e he).ne'⟩
    rw [values, hl, List.map_append, List.map_cons, List.filterMap_append, List.filterMap_cons, h₁, h₂]
    cases hf : f v <;> simp [hf]

end SortedMap
