/-
A bounded list of keyed entries, least recently stored first, and the map it
lists.

Storing an entry takes the old one of its key out, makes room if the list is
full, and appends. Every entry carries the stamp it was stored with, so the
list is sorted and the entry room is made from is its head. `Lists` ties the
list to the map; `Lists.put` is the refinement.
-/
import Mathlib.Data.Set.Card
import TmuxAgents.Lib.Choose

namespace Recency

variable {κ α : Type*}

section Lists

variable (key : α → κ) (stamp : α → Nat) (cap : Nat)

/-- Distinct keys, rising stamps, within the bound. -/
structure Ordered (l : List α) : Prop where
  keys : (l.map key).Nodup
  stamps : l.Pairwise fun a b => stamp a < stamp b
  length : l.length ≤ cap

variable {key stamp cap} {l : List α}

theorem ordered_nil : Ordered key stamp cap [] := ⟨List.nodup_nil, List.Pairwise.nil, Nat.zero_le _⟩

theorem Ordered.sublist (h : Ordered key stamp cap l) {l' : List α} (hl : l'.Sublist l) :
    Ordered key stamp cap l' :=
  ⟨h.keys.sublist (hl.map key), h.stamps.sublist hl, hl.length_le.trans h.length⟩

variable [DecidableEq κ]

variable (key cap) in
/-- The list an entry of key `k` is appended to. -/
def displace (l : List α) (k : κ) : List α :=
  let kept := l.eraseP fun a => key a == k
  if kept.length = cap then kept.tail else kept

theorem displace_sublist (k : κ) : (displace key cap l k).Sublist (l.eraseP fun a => key a == k) := by
  unfold displace
  dsimp only
  split
  · exact List.tail_sublist _
  · exact .refl _

/-- Where the key is new and the list full, the head makes room. -/
theorem displace_full {k : κ} {oldest : α} {rest : List α} (hk : ∀ a ∈ oldest :: rest, key a ≠ k)
    (hfull : (oldest :: rest).length = cap) : displace key cap (oldest :: rest) k = rest := by
  have herase : (oldest :: rest).eraseP (fun a => key a == k) = oldest :: rest :=
    List.eraseP_of_forall_not fun a ha => by simp [hk a ha]
  unfold displace
  rw [herase]
  exact if_pos hfull

theorem displace_new {k : κ} (hk : ∀ a ∈ l, key a ≠ k) (hroom : l.length ≠ cap) : displace key cap l k = l := by
  have herase : l.eraseP (fun a => key a == k) = l := List.eraseP_of_forall_not fun a ha => by simp [hk a ha]
  unfold displace
  rw [herase]
  exact if_neg hroom

/-- Where the key is stored, its entry makes room and nothing else leaves. -/
theorem Ordered.displace_stored (h : Ordered key stamp cap l) {k : κ} (hk : ∃ a ∈ l, key a = k) :
    displace key cap l k = l.filter fun a => key a != k := by
  obtain ⟨a, ha, rfl⟩ := hk
  have hlength : (l.eraseP fun b => key b == key a).length = l.length - 1 :=
    List.length_eraseP_of_mem ha (beq_self_eq_true _)
  have hpos := List.length_pos_of_mem ha
  have hle := h.length
  unfold displace
  dsimp only
  rw [if_neg (by omega), Choose.eraseP_key h.keys]

theorem mem_displace_key (h : Ordered key stamp cap l) {k : κ} {a : α} (ha : a ∈ displace key cap l k) :
    a ∈ l ∧ key a ≠ k := by
  have ha := (displace_sublist k).subset ha
  exact ⟨List.eraseP_sublist.subset ha, Choose.key_ne_of_mem_eraseP h.keys a ha⟩

/-- Storing an entry with a later stamp keeps the order. -/
theorem Ordered.push (h : Ordered key stamp cap l) (hcap : 0 < cap) {a : α} (hlater : ∀ b ∈ l, stamp b < stamp a) :
    Ordered key stamp cap (displace key cap l (key a) ++ [a]) := by
  have hkept : Ordered key stamp cap (displace key cap l (key a)) :=
    h.sublist ((displace_sublist (key a)).trans List.eraseP_sublist)
  refine ⟨?_, ?_, ?_⟩
  · rw [List.map_append, List.map_singleton, List.nodup_append]
    refine ⟨hkept.keys, List.nodup_singleton _, fun k hk k' hk' => ?_⟩
    obtain ⟨b, hb, rfl⟩ := List.mem_map.mp hk
    rw [List.mem_singleton.mp hk']
    exact (mem_displace_key h hb).2
  · rw [List.pairwise_append]
    refine ⟨hkept.stamps, List.pairwise_singleton _ _, fun b hb c hc => ?_⟩
    rw [List.mem_singleton.mp hc]
    exact hlater b (mem_displace_key h hb).1
  · have hlength : (displace key cap l (key a)).length < cap := by
      have hle := (h.sublist (List.eraseP_sublist (p := fun b => key b == key a))).length
      unfold displace
      dsimp only
      split
      · rw [List.length_tail]
        omega
      · omega
    rw [List.length_append, List.length_singleton]
    exact hlength

end Lists

/-! ## The map -/

section Maps

variable (key : α → κ) (stamp : α → Nat) (cap : Nat)

/-- The list holds exactly the entries of the map. -/
def Lists (l : List α) (m : κ → Option α) : Prop := ∀ k a, m k = some a ↔ a ∈ l ∧ key a = k

def Full (m : κ → Option α) : Prop := {k | m k ≠ none}.ncard = cap

/-- The entry of `k` has the least stamp. -/
def Oldest (m : κ → Option α) (k : κ) : Prop :=
  ∃ a, m k = some a ∧ ∀ k' b, m k' = some b → stamp a ≤ stamp b

open Classical in
/-- The map with one more entry: a new key of a full map costs the oldest entry. -/
noncomputable def put (m : κ → Option α) (a : α) : κ → Option α := fun k =>
  if k = key a then some a
  else if m (key a) = none ∧ Full cap m ∧ Oldest stamp m k then none
  else m k

/-- The entries that pass a test. -/
def keep (p : α → Bool) (m : κ → Option α) : κ → Option α := fun k => (m k).filter p

variable {key stamp cap} {l : List α} {m : κ → Option α}

theorem lists_nil : Lists key [] (fun _ => none) := fun k a => by simp

theorem Lists.stored (h : Lists key l m) {k : κ} : m k ≠ none ↔ ∃ a ∈ l, key a = k := by
  rw [Option.ne_none_iff_exists']
  exact exists_congr fun a => h k a

theorem Lists.mem (h : Lists key l m) {a : α} (ha : a ∈ l) : m (key a) = some a := (h _ a).mpr ⟨ha, rfl⟩

theorem Lists.filter (h : Lists key l m) (p : α → Bool) : Lists key (l.filter p) (keep p m) := fun k a => by
  rw [keep, Option.filter_eq_some_iff, h k a, List.mem_filter, and_right_comm]

/-- In a sorted list the oldest entry is the head. -/
theorem Lists.oldest_iff {oldest : α} {rest : List α} (h : Lists key (oldest :: rest) m)
    (hstamps : (oldest :: rest).Pairwise fun a b => stamp a < stamp b) {k : κ} :
    Oldest stamp m k ↔ k = key oldest := by
  have hhead : ∀ a ∈ rest, stamp oldest < stamp a := (List.pairwise_cons.mp hstamps).1
  constructor
  · rintro ⟨a, ha, hleast⟩
    obtain ⟨hmem, rfl⟩ := (h k a).mp ha
    rcases List.mem_cons.mp hmem with rfl | hmem
    · rfl
    · exact absurd (hleast _ oldest (h.mem List.mem_cons_self)) (Nat.not_le.mpr (hhead a hmem))
  · rintro rfl
    refine ⟨oldest, h.mem List.mem_cons_self, fun k' b hb => ?_⟩
    rcases List.mem_cons.mp ((h k' b).mp hb).1 with rfl | hmem
    · exact Nat.le_refl _
    · exact Nat.le_of_lt (hhead b hmem)

variable [DecidableEq κ]

theorem Lists.full_iff (h : Lists key l m) (hkeys : (l.map key).Nodup) : Full cap m ↔ l.length = cap := by
  have hset : {k | m k ≠ none} = ↑(l.map key).toFinset := by
    ext k
    rw [Set.mem_ofPred_eq, h.stored, Finset.mem_coe, List.mem_toFinset, List.mem_map]
  unfold Full
  rw [hset, Set.ncard_coe_finset, List.toFinset_card_of_nodup hkeys, List.length_map]

/-- **Storing in the list is storing in the map.** -/
theorem Lists.put (h : Lists key l m) (hl : Ordered key stamp cap l) (hcap : 0 < cap) (a : α) :
    Lists key (displace key cap l (key a) ++ [a]) (put key stamp cap m a) := by
  intro k b
  -- Every other key keeps its entry, except where room is made.
  have hothers : ∀ {kept : List α}, displace key cap l (key a) = kept →
      (k ≠ key a → (Recency.put key stamp cap m a k = some b ↔ b ∈ kept ∧ key b = k)) →
      (Recency.put key stamp cap m a k = some b ↔ b ∈ displace key cap l (key a) ++ [a] ∧ key b = k) := by
    rintro kept rfl hk
    rw [List.mem_append, List.mem_singleton]
    by_cases hka : k = key a
    · subst hka
      rw [Recency.put, if_pos rfl, Option.some.injEq]
      constructor
      · rintro rfl
        exact ⟨.inr rfl, rfl⟩
      · rintro ⟨hb | rfl, hkey⟩
        · exact absurd hkey (mem_displace_key hl hb).2
        · rfl
    · rw [hk hka]
      refine and_congr_left fun hkey => ⟨.inl, fun hb => hb.resolve_right ?_⟩
      rintro rfl
      exact hka hkey.symm
  by_cases hstored : ∃ c ∈ l, key c = key a
  · refine hothers (hl.displace_stored hstored) fun hka => ?_
    rw [Recency.put, if_neg hka, if_neg fun hnone => h.stored.mpr hstored hnone.1, h k b, List.mem_filter,
      bne_iff_ne, and_assoc]
    exact and_congr_right fun _ => ⟨fun hkey => ⟨fun heq => hka (hkey.symm.trans heq), hkey⟩, And.right⟩
  have hnew : ∀ c ∈ l, key c ≠ key a := fun c hc hkey => hstored ⟨c, hc, hkey⟩
  have hnone : m (key a) = none := by_contra fun hne => hstored (h.stored.mp hne)
  by_cases hfull : l.length = cap
  · cases l with
    | nil => exact absurd hfull hcap.ne
    | cons oldest rest =>
      refine hothers (displace_full hnew hfull) fun hka => ?_
      have hkeys := (List.nodup_cons.mp hl.keys).1
      rw [Recency.put, if_neg hka]
      by_cases hk : k = key oldest
      · rw [if_pos ⟨hnone, (h.full_iff hl.keys).mpr hfull, (h.oldest_iff hl.stamps).mpr hk⟩]
        refine iff_of_false (fun hb => nomatch hb) ?_
        rintro ⟨hb, rfl⟩
        exact hkeys (hk ▸ List.mem_map_of_mem hb)
      · rw [if_neg fun hevict => hk ((h.oldest_iff hl.stamps).mp hevict.2.2), h k b, List.mem_cons]
        refine and_congr_left fun hkey => ⟨fun hb => hb.resolve_left ?_, .inr⟩
        rintro rfl
        exact hk hkey.symm
  · refine hothers (displace_new hnew hfull) fun hka => ?_
    rw [Recency.put, if_neg hka, if_neg fun hevict => hfull ((h.full_iff hl.keys).mp hevict.2.1), h k b]

end Maps

end Recency
