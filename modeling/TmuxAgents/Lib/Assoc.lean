/-
Association lists in the order they were written, in which a key may occur twice.

Reading and replacing concern the first entry under a key, removing concerns all of them.
-/
import Mathlib.Data.List.Basic
import Mathlib.Data.List.Count
import Mathlib.Data.Prod.Basic

namespace Assoc

variable {κ β : Type*} [DecidableEq κ]

/-- The first value under a key. -/
def get? : List (κ × β) → κ → Option β
  | [], _ => none
  | e :: l, k => if e.1 = k then some e.2 else get? l k

/-- The first value under a key is replaced, or the key appended. -/
def set : List (κ × β) → κ → β → List (κ × β)
  | [], k, v => [(k, v)]
  | e :: l, k, v => if e.1 = k then (e.1, v) :: l else e :: set l k v

def remove (l : List (κ × β)) (k : κ) : List (κ × β) := l.filter fun e => e.1 ≠ k

variable {l l' : List (κ × β)} {k k' : κ} {v v' : β}

@[simp] theorem get?_nil : get? ([] : List (κ × β)) k = none := rfl

theorem get?_cons {e : κ × β} : get? (e :: l) k = if e.1 = k then some e.2 else get? l k := rfl

theorem set_nil : set ([] : List (κ × β)) k v = [(k, v)] := rfl

theorem set_cons {e : κ × β} : set (e :: l) k v = if e.1 = k then (e.1, v) :: l else e :: set l k v := rfl

theorem get?_eq_none : get? l k = none ↔ ∀ e ∈ l, e.1 ≠ k := by
  induction l with
  | nil => simp
  | cons e l ih =>
    simp only [get?_cons, List.forall_mem_cons]
    by_cases he : e.1 = k
    · simp [he]
    · simp only [he, if_false, ih, ne_eq, not_false_eq_true, true_and]

theorem mem_of_get? (h : get? l k = some v) : (k, v) ∈ l := by
  induction l with
  | nil => cases h
  | cons e l ih =>
    simp only [get?_cons] at h
    split at h
    · rename_i he
      cases h
      rw [← he]
      exact List.mem_cons_self
    · exact List.mem_cons_of_mem e (ih h)

/-- With distinct keys, what is listed is found. -/
theorem get?_of_mem {e : κ × β} (hkeys : (l.map Prod.fst).Nodup) (h : e ∈ l) : get? l e.1 = some e.2 := by
  induction l with
  | nil => cases h
  | cons e' l ih =>
    rw [List.map_cons, List.nodup_cons] at hkeys
    rcases List.mem_cons.mp h with rfl | h
    · simp [get?_cons]
    · have hne : e'.1 ≠ e.1 := by
        intro heq
        exact hkeys.1 (heq ▸ List.mem_map.mpr ⟨e, h, rfl⟩)
      rw [get?_cons, if_neg hne, ih hkeys.2 h]

theorem get?_append_of_none (h : get? l k = none) : get? (l ++ l') k = get? l' k := by
  induction l with
  | nil => rfl
  | cons e l ih =>
    simp only [get?_cons, List.cons_append] at h ⊢
    split at h
    · cases h
    · rename_i he
      rw [if_neg he]
      exact ih h

/-- A filter by the keys alone. -/
theorem get?_filter (p : κ → Bool) : get? (l.filter fun e => p e.1) k = if p k then get? l k else none := by
  induction l with
  | nil => exact (ite_self _).symm
  | cons e l ih =>
    by_cases hp : p e.1 = true
    · rw [@List.filter_cons_of_pos _ (fun e => p e.1) e l hp, get?_cons, get?_cons, ih]
      by_cases he : e.1 = k
      · rw [if_pos he, if_pos he, if_pos (he ▸ hp)]
      · rw [if_neg he, if_neg he]
    · rw [@List.filter_cons_of_neg _ (fun e => p e.1) e l hp, ih, get?_cons]
      by_cases he : e.1 = k
      · rw [if_neg (he ▸ hp), if_neg (he ▸ hp)]
      · rw [if_neg he]

/-! ## Replacing -/

theorem set_of_none (h : get? l k = none) : set l k v = l ++ [(k, v)] := by
  induction l with
  | nil => rfl
  | cons e l ih =>
    simp only [get?_cons, set_cons] at h ⊢
    split at h
    · cases h
    · rename_i he
      rw [if_neg he, ih h]
      rfl

@[simp] theorem get?_set_self : get? (set l k v) k = some v := by
  induction l with
  | nil => simp [set_nil, get?_cons]
  | cons e l ih =>
    simp only [set_cons]
    split
    · rename_i he
      simp [get?_cons, he]
    · rename_i he
      simp only [get?_cons, he, if_false]
      exact ih

theorem get?_set_other (h : k' ≠ k) : get? (set l k v) k' = get? l k' := by
  induction l with
  | nil => simp [set_nil, get?_cons, h.symm]
  | cons e l ih =>
    simp only [set_cons]
    split
    · rename_i he
      simp only [get?_cons, he]
      rw [if_neg h.symm, if_neg h.symm]
    · simp only [get?_cons, ih]

@[simp] theorem set_set : set (set l k v) k v' = set l k v' := by
  induction l with
  | nil => simp [set_nil, set_cons]
  | cons e l ih =>
    simp only [set_cons]
    split
    · rename_i he
      simp [set_cons, he]
    · rename_i he
      simp only [set_cons, he, if_false, ih]

/-- A value is replaced by itself. -/
theorem set_of_get? (h : get? l k = some v) : set l k v = l := by
  induction l with
  | nil => cases h
  | cons e l ih =>
    simp only [get?_cons, set_cons] at h ⊢
    split at h
    · rename_i he
      cases h
      rw [if_pos he]
    · rename_i he
      rw [if_neg he, ih h]

theorem set_append_of_none (h : get? l k = none) : set (l ++ l') k v = l ++ set l' k v := by
  induction l with
  | nil => rfl
  | cons e l ih =>
    simp only [get?_cons, set_cons, List.cons_append] at h ⊢
    split at h
    · cases h
    · rename_i he
      rw [if_neg he, ih h]

theorem mem_set {e : κ × β} (h : e ∈ set l k v) : e ∈ l ∨ e = (k, v) := by
  induction l with
  | nil => exact .inr (List.mem_singleton.mp h)
  | cons e' l ih =>
    simp only [set_cons] at h
    split at h
    · rename_i he
      rcases List.mem_cons.mp h with rfl | h
      · exact .inr (by rw [he])
      · exact .inl (List.mem_cons_of_mem e' h)
    · rcases List.mem_cons.mp h with rfl | h
      · exact .inl List.mem_cons_self
      · exact (ih h).imp_left (List.mem_cons_of_mem e')

/-! ## Removing -/

theorem remove_of_none (h : get? l k = none) : remove l k = l := by
  refine List.filter_eq_self.mpr fun e he => ?_
  exact decide_eq_true (get?_eq_none.mp h e he)

theorem length_remove_lt (h : get? l k = some v) : (remove l k).length < l.length :=
  List.length_filter_lt_length_iff_exists.mpr ⟨(k, v), mem_of_get? h, by simp⟩

theorem remove_append : remove (l ++ l') k = remove l k ++ remove l' k := List.filter_append ..

@[simp] theorem remove_singleton : remove [(k, v)] k = [] := by simp [remove]

theorem remove_singleton_other (h : k' ≠ k) : remove [(k', v)] k = [(k', v)] := by simp [remove, h]

/-- A key that was appended is removed again. -/
theorem remove_set_of_none (h : get? l k = none) : remove (set l k v) k = l := by
  rw [set_of_none h, remove_append, remove_of_none h, remove_singleton, List.append_nil]

@[simp] theorem get?_remove_self : get? (remove l k) k = none :=
  get?_eq_none.mpr fun _ he => of_decide_eq_true (List.mem_filter.mp he).2

theorem get?_remove_other (h : k' ≠ k) : get? (remove l k) k' = get? l k' := by
  induction l with
  | nil => rfl
  | cons e l ih =>
    unfold remove at ih ⊢
    by_cases he : e.1 = k
    · rw [List.filter_cons_of_neg (by simp [he]), ih]
      simp only [get?_cons, he]
      rw [if_neg h.symm]
    · rw [List.filter_cons_of_pos (by simp [he])]
      simp only [get?_cons, ih]

theorem mem_remove {e : κ × β} (h : e ∈ remove l k) : e ∈ l := (List.mem_filter.mp h).1

theorem remove_set : remove (set l k v) k = remove l k := by
  induction l with
  | nil => simp [set_nil, remove]
  | cons e l ih =>
    unfold remove at ih ⊢
    simp only [set_cons]
    split
    · rename_i he
      rw [List.filter_cons_of_neg (by simp [he]), List.filter_cons_of_neg (by simp [he])]
    · rename_i he
      rw [List.filter_cons_of_pos (by simpa using he), List.filter_cons_of_pos (by simpa using he), ih]

theorem remove_set_other (h : k' ≠ k) : remove (set l k' v) k = set (remove l k) k' v := by
  induction l with
  | nil => exact remove_singleton_other h
  | cons e l ih =>
    unfold remove at ih ⊢
    simp only [set_cons]
    by_cases he : e.1 = k'
    · have hk : decide (e.1 ≠ k) = true := by simp [he, h]
      rw [if_pos he, List.filter_cons_of_pos (by exact hk), List.filter_cons_of_pos (by exact hk), set_cons, if_pos he]
    · rw [if_neg he]
      by_cases hk : e.1 = k
      · rw [List.filter_cons_of_neg (by simp [hk]), List.filter_cons_of_neg (by simp [hk]), ih]
      · rw [List.filter_cons_of_pos (by simp [hk]), List.filter_cons_of_pos (by simp [hk]), set_cons, if_neg he, ih]

/-- Two keys are replaced in either order, when the second is there to be replaced. -/
theorem set_comm {w : β} (h : k' ≠ k) (hget : get? l k = some w) :
    set (set l k' v) k v' = set (set l k v') k' v := by
  induction l with
  | nil => cases hget
  | cons e l ih =>
    simp only [get?_cons] at hget
    by_cases he : e.1 = k
    · simp only [set_cons, he, if_true, if_false, h.symm]
    · rw [if_neg he] at hget
      by_cases hk : e.1 = k'
      · simp only [set_cons, hk, if_true, if_false, h]
      · simp only [set_cons, he, hk, if_false, ih hget]

/-! ## Keys -/

/-- Members a key is not among are not touched by replacing it. -/
theorem filter_set {p : κ → Bool} (h : p k = false) : ((set l k v).filter fun e => p e.1) = l.filter fun e => p e.1 := by
  induction l with
  | nil => simp [set_nil, h]
  | cons e l ih =>
    simp only [set_cons]
    split
    · rename_i he
      rw [List.filter_cons_of_neg (by simp [he, h]), List.filter_cons_of_neg (by simp [he, h])]
    · rw [List.filter_cons, List.filter_cons, ih]

theorem filter_remove {p : κ → Bool} (h : p k = false) :
    ((remove l k).filter fun e => p e.1) = l.filter fun e => p e.1 := by
  rw [remove, List.filter_filter]
  refine List.filter_congr fun e _ => ?_
  by_cases he : e.1 = k
  · simp [he, h]
  · simp [he]

theorem keys_set_of_some (h : get? l k = some v) : (set l k v').map Prod.fst = l.map Prod.fst := by
  induction l with
  | nil => cases h
  | cons e l ih =>
    simp only [get?_cons, set_cons] at h ⊢
    split at h
    · rename_i he
      rw [if_pos he]
      rfl
    · rename_i he
      rw [if_neg he, List.map_cons, List.map_cons, ih h]

theorem length_set_of_some (h : get? l k = some v) : (set l k v').length = l.length := by
  have hkeys := congrArg List.length (@keys_set_of_some _ _ _ l k v v' h)
  rwa [List.length_map, List.length_map] at hkeys

theorem length_set_le : (set l k v).length ≤ l.length + 1 := by
  cases hget : get? l k with
  | some old => exact Nat.le_trans (Nat.le_of_eq (length_set_of_some hget)) (Nat.le_succ _)
  | none =>
    rw [set_of_none hget, List.length_append]
    exact Nat.le_refl _

theorem nodup_set (h : (l.map Prod.fst).Nodup) : ((set l k v).map Prod.fst).Nodup := by
  cases hget : get? l k with
  | some old =>
    rw [keys_set_of_some hget]
    exact h
  | none =>
    rw [set_of_none hget, List.map_append]
    refine List.nodup_append.mpr ⟨h, by simp, fun a ha b hb => ?_⟩
    obtain ⟨e, he, rfl⟩ := List.mem_map.mp ha
    rw [List.mem_singleton.mp hb]
    exact get?_eq_none.mp hget e he

theorem nodup_remove (h : (l.map Prod.fst).Nodup) : ((remove l k).map Prod.fst).Nodup :=
  h.sublist (List.filter_sublist.map Prod.fst)

/-! ## What the values hold -/

section

variable {γ : Type*} [DecidableEq γ] {f : κ → β → List γ}

/-- With distinct keys, what is under a key is counted under the first value it has. -/
theorem count_flatMap (h : (l.map Prod.fst).Nodup) (c : γ) :
    (l.flatMap fun e => (f e.1 e.2).map (Prod.mk e.1)).count (k, c) = (((get? l k).map (f k)).getD []).count c := by
  induction l with
  | nil => rfl
  | cons e l ih =>
    obtain ⟨hnot, h⟩ := List.nodup_cons.mp h
    rw [List.flatMap_cons, List.count_append, get?_cons]
    by_cases he : e.1 = k
    · have hrest : (k, c) ∉ l.flatMap fun e => (f e.1 e.2).map (Prod.mk e.1) := by
        intro hmem
        obtain ⟨e', he', hmem⟩ := List.mem_flatMap.mp hmem
        obtain ⟨c', -, heq⟩ := List.mem_map.mp hmem
        exact hnot (List.mem_map.mpr ⟨e', he', (congrArg Prod.fst heq).trans he.symm⟩)
      rw [List.count_eq_zero_of_not_mem hrest, if_pos he, he,
        List.count_map_of_injective _ _ (Prod.mk_right_injective k)]
      rfl
    · have hhead : (k, c) ∉ (f e.1 e.2).map (Prod.mk e.1) := by
        intro hmem
        obtain ⟨c', -, heq⟩ := List.mem_map.mp hmem
        exact he (congrArg Prod.fst heq)
      rw [List.count_eq_zero_of_not_mem hhead, if_neg he, ih h, Nat.zero_add]

/-- **Two lists with distinct keys hold the same when they do key by key.** -/
theorem perm_flatMap_iff (h : (l.map Prod.fst).Nodup) (h' : (l'.map Prod.fst).Nodup) :
    (l.flatMap fun e => (f e.1 e.2).map (Prod.mk e.1)).Perm (l'.flatMap fun e => (f e.1 e.2).map (Prod.mk e.1)) ↔
      ∀ k, (((get? l k).map (f k)).getD []).Perm (((get? l' k).map (f k)).getD []) := by
  simp only [List.perm_iff_count, Prod.forall, count_flatMap h, count_flatMap h']

end

end Assoc
