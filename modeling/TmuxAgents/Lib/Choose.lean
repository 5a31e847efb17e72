/-
The choices of Rust's iterators: `max_by` and `max_by_key` keep the last of
several equal maxima, `min_by_key` the first of several equal minima, and
`iter_mut().find` hands out the first match to be changed in place.
-/
import Mathlib.Algebra.Order.Ring.Nat
import Mathlib.Order.Defs.LinearOrder
import Mathlib.Data.List.Induction

namespace Choose

variable {α β γ : Type*}

/-- The last maximum of a list under a comparison. -/
def maxBy (cmp : α → α → Ordering) : List α → Option α
  | [] => none
  | a :: l => some (l.foldl (fun best x => if cmp best x = .gt then best else x) a)

section Keys

variable [LinearOrder β]

/-- The last maximum of a list by a key. -/
def maxByKey (key : α → β) : List α → Option α
  | [] => none
  | a :: l => some (l.foldl (fun best x => if key x < key best then best else x) a)

/-- The first minimum of a list by a key. -/
def minByKey (key : α → β) : List α → Option α
  | [] => none
  | a :: l => some (l.foldl (fun best x => if key x < key best then x else best) a)

end Keys

/-- The list with its first match changed. -/
def modifyFirst (p : α → Bool) (f : α → α) : List α → List α
  | [] => []
  | a :: l => if p a then f a :: l else a :: modifyFirst p f l

/-- A fold that keeps one of its two arguments answers a member. -/
theorem foldl_mem (pick : α → α → α) (h : ∀ a b, pick a b = a ∨ pick a b = b) (a : α) (l : List α) :
    l.foldl pick a ∈ a :: l := by
  induction l generalizing a with
  | nil => simp
  | cons b l ih =>
    rw [List.foldl_cons]
    have hm := ih (pick a b)
    rcases h a b with h | h <;> rw [h] at hm <;> simp only [List.mem_cons, h] at hm ⊢ <;> tauto

theorem maxBy_mem {cmp : α → α → Ordering} {l : List α} {a : α} (h : maxBy cmp l = some a) : a ∈ l := by
  cases l with
  | nil => simp [maxBy] at h
  | cons b l =>
    simp only [maxBy, Option.some.injEq] at h
    rw [← h]
    exact foldl_mem _ (fun _ _ => by split <;> simp) b l

@[simp] theorem maxBy_eq_none {cmp : α → α → Ordering} {l : List α} : maxBy cmp l = none ↔ l = [] := by
  cases l <;> simp [maxBy]

section Comparison

variable {cmp : α → α → Ordering} [Std.TransCmp cmp]

theorem foldl_maxBy_isLE (a : α) (l : List α) :
    ∀ x ∈ a :: l, (cmp x (l.foldl (fun best x => if cmp best x = .gt then best else x) a)).isLE = true := by
  induction l generalizing a with
  | nil =>
    intro x hx
    rw [List.mem_singleton.mp hx]
    exact Std.ReflCmp.isLE_rfl
  | cons b l ih =>
    intro x hx
    rw [List.foldl_cons]
    have hhead := ih (if cmp a b = .gt then a else b) _ List.mem_cons_self
    have hpick : (cmp a (if cmp a b = .gt then a else b)).isLE = true ∧
        (cmp b (if cmp a b = .gt then a else b)).isLE = true := by
      split
      · rename_i hgt
        have hswap : cmp b a = (cmp a b).swap := Std.OrientedCmp.eq_swap
        exact ⟨Std.ReflCmp.isLE_rfl, by rw [hswap, hgt]; rfl⟩
      · rename_i hle
        exact ⟨Ordering.isLE_iff_ne_gt.mpr hle, Std.ReflCmp.isLE_rfl⟩
    rcases List.mem_cons.mp hx with rfl | hx
    · exact Std.TransCmp.isLE_trans hpick.1 hhead
    · rcases List.mem_cons.mp hx with rfl | hx
      · exact Std.TransCmp.isLE_trans hpick.2 hhead
      · exact ih _ x (List.mem_cons_of_mem _ hx)

/-- The choice is a maximum. -/
theorem maxBy_isLE {l : List α} {a : α} (h : maxBy cmp l = some a) : ∀ x ∈ l, (cmp x a).isLE = true := by
  cases l with
  | nil => simp [maxBy] at h
  | cons b l =>
    simp only [maxBy, Option.some.injEq] at h
    rw [← h]
    exact foldl_maxBy_isLE b l

/-- Where no two elements compare as equal, the choice is the same in every order. -/
theorem maxBy_perm {l l' : List α} (hp : l.Perm l') (heq : ∀ a ∈ l, ∀ b ∈ l, cmp a b = .eq → a = b) :
    maxBy cmp l = maxBy cmp l' := by
  cases h : maxBy cmp l with
  | none =>
    rw [maxBy_eq_none] at h
    subst h
    rw [← hp.nil_eq]
    rfl
  | some a =>
    cases h' : maxBy cmp l' with
    | none =>
      rw [maxBy_eq_none] at h'
      subst h'
      rw [hp.eq_nil] at h
      cases h
    | some b =>
      have hb : b ∈ l := hp.mem_iff.mpr (maxBy_mem h')
      have hab := maxBy_isLE h' a (hp.mem_iff.mp (maxBy_mem h))
      have hba := maxBy_isLE h b hb
      rw [heq a (maxBy_mem h) b hb (Std.OrientedCmp.isLE_antisymm hab hba)]

end Comparison

section Keys

variable [LinearOrder β]

theorem maxByKey_mem {key : α → β} {l : List α} {a : α} (h : maxByKey key l = some a) : a ∈ l := by
  cases l with
  | nil => simp [maxByKey] at h
  | cons b l =>
    simp only [maxByKey, Option.some.injEq] at h
    rw [← h]
    exact foldl_mem _ (fun _ _ => by split <;> simp) b l

@[simp] theorem maxByKey_eq_none {key : α → β} {l : List α} : maxByKey key l = none ↔ l = [] := by
  cases l <;> simp [maxByKey]

theorem foldl_maxByKey_le (key : α → β) (a : α) (l : List α) :
    ∀ x ∈ a :: l, key x ≤ key (l.foldl (fun best x => if key x < key best then best else x) a) := by
  induction l generalizing a with
  | nil => simp
  | cons b l ih =>
    intro x hx
    rw [List.foldl_cons]
    have hhead := ih (if key b < key a then a else b) _ List.mem_cons_self
    simp only [List.mem_cons] at hx
    rcases hx with rfl | rfl | hx
    · refine le_trans ?_ hhead
      split
      · exact le_refl _
      · exact not_lt.mp ‹_›
    · refine le_trans ?_ hhead
      split
      · exact le_of_lt ‹_›
      · exact le_refl _
    · exact ih _ x (List.mem_cons_of_mem _ hx)

theorem maxByKey_le {key : α → β} {l : List α} {a : α} (h : maxByKey key l = some a) :
    ∀ x ∈ l, key x ≤ key a := by
  cases l with
  | nil => simp [maxByKey] at h
  | cons b l =>
    simp only [maxByKey, Option.some.injEq] at h
    rw [← h]
    exact foldl_maxByKey_le key b l

/-- One more element that no other exceeds is chosen. -/
theorem maxByKey_concat {key : α → β} {l : List α} {x : α} (h : ∀ a ∈ l, key a ≤ key x) :
    maxByKey key (l ++ [x]) = some x := by
  cases l with
  | nil => rfl
  | cons a l =>
    have hbest : maxByKey key (a :: l) = some (l.foldl (fun best x => if key x < key best then best else x) a) := rfl
    rw [List.cons_append, maxByKey, List.foldl_append, List.foldl_cons, List.foldl_nil,
      if_neg (not_lt.mpr (h _ (maxByKey_mem hbest)))]

theorem minByKey_mem {key : α → β} {l : List α} {a : α} (h : minByKey key l = some a) : a ∈ l := by
  cases l with
  | nil => simp [minByKey] at h
  | cons b l =>
    simp only [minByKey, Option.some.injEq] at h
    rw [← h]
    exact foldl_mem _ (fun _ _ => by split <;> simp) b l

@[simp] theorem minByKey_eq_none {key : α → β} {l : List α} : minByKey key l = none ↔ l = [] := by
  cases l <;> simp [minByKey]

/-- A head below the rest is the minimum. -/
theorem minByKey_head {key : α → β} {a : α} {l : List α} (h : ∀ x ∈ l, key a < key x) :
    minByKey key (a :: l) = some a := by
  simp only [minByKey, Option.some.injEq]
  induction l with
  | nil => rfl
  | cons b l ih =>
    rw [List.foldl_cons, if_neg (not_lt.mpr (le_of_lt (h b List.mem_cons_self)))]
    exact ih fun x hx => h x (List.mem_cons_of_mem _ hx)

/-- One more element is chosen only where it is smaller. -/
theorem minByKey_concat (key : α → β) (l : List α) (x : α) :
    minByKey key (l ++ [x]) = match minByKey key l with
      | none => some x
      | some best => some (if key x < key best then x else best) := by
  cases l with
  | nil => rfl
  | cons a l => simp only [List.cons_append, minByKey, List.foldl_append, List.foldl_cons, List.foldl_nil]

theorem minByKey_le {key : α → β} {l : List α} {a : α} (h : minByKey key l = some a) : ∀ x ∈ l, key a ≤ key x := by
  induction l using List.reverseRecOn generalizing a with
  | nil => simp [minByKey] at h
  | append_singleton l b ih =>
    rw [minByKey_concat] at h
    intro x hx
    rw [List.mem_append, List.mem_singleton] at hx
    cases hbest : minByKey key l with
    | none =>
      rw [minByKey_eq_none] at hbest
      subst hbest
      cases h
      rw [hx.resolve_left List.not_mem_nil]
    | some best =>
      simp only [hbest, Option.some.injEq] at h
      rw [← h]
      split
      next hlt =>
        rcases hx with hx | rfl
        · exact (le_of_lt hlt).trans (ih hbest x hx)
        · exact le_refl _
      next hle =>
        rcases hx with hx | rfl
        · exact ih hbest x hx
        · exact not_lt.mp hle

/-- Where keys tell elements apart, the choice is the one minimum. -/
theorem minByKey_eq_some_iff {key : α → β} {l : List α} (hkey : ∀ a ∈ l, ∀ b ∈ l, key a = key b → a = b) {a : α} :
    minByKey key l = some a ↔ a ∈ l ∧ ∀ x ∈ l, key a ≤ key x := by
  refine ⟨fun h => ⟨minByKey_mem h, minByKey_le h⟩, ?_⟩
  rintro ⟨ha, hle⟩
  cases h : minByKey key l with
  | none =>
    rw [minByKey_eq_none] at h
    subst h
    cases ha
  | some b =>
    have hb := minByKey_mem h
    rw [hkey a ha b hb (le_antisymm (hle b hb) (minByKey_le h a ha))]

/-- Choosing among images is choosing among the originals by the image's key. -/
theorem minByKey_map (key : γ → β) (f : α → γ) (l : List α) :
    minByKey key (l.map f) = (minByKey (fun x => key (f x)) l).map f := by
  cases l with
  | nil => rfl
  | cons a l =>
    simp only [List.map_cons, minByKey, Option.map_some, Option.some.injEq]
    induction l generalizing a with
    | nil => rfl
    | cons b l ih =>
      simp only [List.map_cons, List.foldl_cons]
      split <;> exact ih _

end Keys

theorem modifyFirst_eq {p : α → Bool} {f : α → α} {l₁ l₂ : List α} {a : α} (h₁ : ∀ x ∈ l₁, p x = false)
    (ha : p a = true) : modifyFirst p f (l₁ ++ a :: l₂) = l₁ ++ f a :: l₂ := by
  induction l₁ with
  | nil => simp [modifyFirst, ha]
  | cons b l₁ ih =>
    have hb := h₁ b List.mem_cons_self
    simp only [List.cons_append, modifyFirst, hb, Bool.false_eq_true, if_false]
    rw [ih fun x hx => h₁ x (List.mem_cons_of_mem _ hx)]

/-- Around the first match, what a search finds and what changing it leaves. -/
theorem modifyFirst_of_find? {p : α → Bool} {f : α → α} {l : List α} {a : α} (h : l.find? p = some a) :
    ∃ l₁ l₂, l = l₁ ++ a :: l₂ ∧ modifyFirst p f l = l₁ ++ f a :: l₂ := by
  obtain ⟨ha, l₁, l₂, rfl, h₁⟩ := List.find?_eq_some_iff_append.mp h
  exact ⟨l₁, l₂, rfl, modifyFirst_eq (fun x hx => by simpa using h₁ x hx) ha⟩

/-- An element of the changed list was there, or is the changed match. -/
theorem mem_modifyFirst {p : α → Bool} {f : α → α} {l : List α} {x : α} (h : x ∈ modifyFirst p f l) :
    x ∈ l ∨ ∃ a ∈ l, p a = true ∧ x = f a := by
  induction l with
  | nil => cases h
  | cons a l ih =>
    rw [modifyFirst] at h
    split at h
    · rename_i hp
      rcases List.mem_cons.mp h with rfl | h
      · exact .inr ⟨a, List.mem_cons_self, hp, rfl⟩
      · exact .inl (List.mem_cons_of_mem _ h)
    · rcases List.mem_cons.mp h with rfl | h
      · exact .inl List.mem_cons_self
      · rcases ih h with h | ⟨b, hb, hp, rfl⟩
        · exact .inl (List.mem_cons_of_mem _ h)
        · exact .inr ⟨b, List.mem_cons_of_mem _ hb, hp, rfl⟩

/-- Changing the first match keeps what the change keeps. -/
theorem map_modifyFirst {p : α → Bool} {f : α → α} {g : α → γ} (h : ∀ a, p a = true → g (f a) = g a) (l : List α) :
    (modifyFirst p f l).map g = l.map g := by
  induction l with
  | nil => rfl
  | cons a l ih =>
    rw [modifyFirst]
    split
    · rename_i hp
      simp only [List.map_cons, h a hp]
    · simp only [List.map_cons, ih]

/-- After the first match by a key is changed, its key finds it changed and the others what they found. -/
theorem find?_modifyFirst [DecidableEq γ] {key : α → γ} {k : γ} {f : α → α}
    (h : ∀ a, key a = k → key (f a) = k) (l : List α) (k' : γ) :
    (modifyFirst (fun a => decide (key a = k)) f l).find? (fun a => decide (key a = k')) =
      if k' = k then (l.find? fun a => decide (key a = k)).map f else l.find? fun a => decide (key a = k') := by
  induction l with
  | nil => simp [modifyFirst]
  | cons a l ih =>
    by_cases ha : key a = k
    · have hf := h a ha
      by_cases hk : k' = k
      · subst hk
        simp [modifyFirst, ha, hf]
      · have hne : ¬ k = k' := fun heq => hk heq.symm
        simp [modifyFirst, ha, hf, hk, hne]
    · rw [modifyFirst]
      simp only [ha, decide_false, Bool.false_eq_true, if_false, List.find?_cons]
      by_cases hk : k' = k
      · subst hk
        simp only [ha, decide_false, if_true] at ih ⊢
        exact ih
      · simp only [hk, if_false] at ih ⊢
        by_cases ha' : key a = k'
        · simp [ha']
        · simp only [ha', decide_false]
          exact ih

/-- With distinct keys, the elements of a key are the one a search finds. -/
theorem filter_key_eq_find? [DecidableEq γ] {key : α → γ} {l : List α} (h : (l.map key).Nodup) (k : γ) :
    l.filter (fun a => decide (key a = k)) = (l.find? fun a => decide (key a = k)).toList := by
  induction l with
  | nil => rfl
  | cons a l ih =>
    simp only [List.map_cons, List.nodup_cons] at h
    by_cases ha : key a = k
    · have hnone : l.filter (fun a => decide (key a = k)) = [] := by
        rw [List.filter_eq_nil_iff]
        intro b hb hbk
        exact h.1 (List.mem_map.mpr ⟨b, hb, (of_decide_eq_true hbk).trans ha.symm⟩)
      simp [ha, hnone]
    · simp [ha, ih h.2]

/-- With distinct keys, a search for a key finds the same in every order. -/
theorem find?_key_perm [DecidableEq γ] {key : α → γ} {l l' : List α} (hp : l.Perm l') (h : (l.map key).Nodup)
    (k : γ) : (l.find? fun a => decide (key a = k)) = l'.find? fun a => decide (key a = k) := by
  have hl' : (l'.map key).Nodup := (hp.map key).nodup_iff.mp h
  have hfilter := hp.filter fun a => decide (key a = k)
  rw [filter_key_eq_find? h, filter_key_eq_find? hl'] at hfilter
  cases hf : l.find? fun a => decide (key a = k) with
  | none =>
    rw [hf] at hfilter
    exact (Option.toList_eq_nil_iff.mp (List.nil_perm.mp hfilter)).symm
  | some a =>
    rw [hf] at hfilter
    exact (Option.toList_eq_singleton_iff.mp (List.singleton_perm.mp hfilter).symm).symm

/-- With distinct keys, taking out the first entry of a key takes out the only one. -/
theorem key_ne_of_mem_eraseP [DecidableEq β] {key : α → β} {k : β} : ∀ {l : List α}, (l.map key).Nodup →
    ∀ a ∈ l.eraseP (fun x => key x == k), key a ≠ k
  | [], _, a, h => by simp at h
  | b :: l, hd, a, h => by
    simp only [List.map_cons, List.nodup_cons, List.mem_map, not_exists, not_and] at hd
    by_cases hb : key b = k
    · have hl : a ∈ l := by simpa [List.eraseP_cons, hb] using h
      exact fun he => hd.1 a hl (he.trans hb.symm)
    · rw [List.eraseP_cons, show (key b == k) = false by simpa using hb] at h
      simp only [cond_false, List.mem_cons] at h
      rcases h with rfl | h
      · exact hb
      · exact key_ne_of_mem_eraseP hd.2 a h

/-- With distinct keys, taking out the first entry of a key keeps the others. -/
theorem eraseP_key [DecidableEq γ] {key : α → γ} {l : List α} (h : (l.map key).Nodup) (k : γ) :
    l.eraseP (fun a => key a == k) = l.filter fun a => key a != k := by
  induction l with
  | nil => rfl
  | cons a l ih =>
    rw [List.map_cons, List.nodup_cons] at h
    by_cases ha : key a = k
    · have hrest : ∀ b ∈ l, (key b != k) = true := fun b hb => by
        rw [bne_iff_ne]
        rintro heq
        exact h.1 (List.mem_map.mpr ⟨b, hb, heq.trans ha.symm⟩)
      rw [List.eraseP_cons_of_pos (by simp [ha]), List.filter_cons_of_neg (by simp [ha]), List.filter_eq_self.mpr hrest]
    · rw [List.eraseP_cons_of_neg (by simp [ha]), List.filter_cons_of_pos (by simp [ha]), ih h.2]

end Choose
