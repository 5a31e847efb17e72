/-
What one step on the ledger can do (`Pass`), and what it leaves of a slot.

Every theorem about the ledger splits on `Pass`: what the step shows, and the
entries it writes. `Sole` is the state of one slot, and `Sole.written` what a
write leaves of it, the eviction included.
-/
import Mathlib.Data.List.Perm.Subperm
import TmuxAgents.Dispatch.Slots

namespace TmuxAgents.Slots

/-! ## Reading and rendering -/

theorem readLines_record {n : Nat} {e : Entry} {lines : List Line} :
    readLines n (.record e :: lines) =
      if e.atMs < 2 ^ 63 then (readLines (n + 1) lines).map (e :: ·) else .error n := by
  by_cases he : e.atMs < 2 ^ 63
  · rw [if_pos he]
    simp only [readLines, parseEntry, if_pos he]
    cases readLines (n + 1) lines <;> rfl
  · rw [if_neg he]
    simp only [readLines, parseEntry, if_neg he]

theorem readLines_render {entries : List Entry} (h : ∀ e ∈ entries, e.atMs < 2 ^ 63) (n : Nat) :
    readLines n (render entries) = .ok entries := by
  induction entries generalizing n with
  | nil => rfl
  | cons e entries ih =>
    have hrest := ih (fun x hx => h x (List.mem_cons_of_mem _ hx)) (n + 1)
    rw [render, List.map_cons, readLines_record, if_pos (h e List.mem_cons_self), ← render, hrest]
    rfl

/-- A rendered file reads back as it was, or not at all. -/
theorem readLines_render_ok {entries found : List Entry} {n : Nat}
    (h : readLines n (render entries) = .ok found) : found = entries := by
  induction entries generalizing n found with
  | nil => exact (Except.ok.inj h).symm
  | cons e entries ih =>
    rw [render, List.map_cons, readLines_record, ← render] at h
    split at h
    · cases hr : readLines (n + 1) (render entries) with
      | error line => rw [hr] at h; cases h
      | ok rest =>
        rw [hr] at h
        rw [← Except.ok.inj h, ih hr]
    · cases h

/-! ## Eviction -/

theorem sortByAt_perm (entries : List Entry) : List.Perm (sortByAt entries) entries :=
  List.perm_insertionSort _ entries

@[simp] theorem mem_sortByAt {e : Entry} {entries : List Entry} : e ∈ sortByAt entries ↔ e ∈ entries :=
  (sortByAt_perm entries).mem_iff

/-- Eviction only leaves out. -/
theorem evict_subperm (entries : List Entry) (nowMs : Nat) : List.Subperm (evict entries nowMs) entries := by
  unfold evict
  split
  · exact .refl entries
  · dsimp only
    generalize hkept : (entries.filter fun e => e.receipt.isNone || !isExpired e.atMs nowMs) = kept
    have hle : List.Subperm kept entries := hkept ▸ List.filter_sublist.subperm
    split
    · exact hle
    · refine .trans ?_ hle
      have hsplit := List.filter_append_perm (fun e : Entry => e.receipt.isNone) kept
      refine .trans ?_ hsplit.subperm
      refine (List.subperm_append_left _).mpr (.trans ?_ (sortByAt_perm _).subperm)
      split
      · exact (List.drop_sublist _ _).subperm
      · exact .refl _

theorem mem_of_mem_evict {e : Entry} {entries : List Entry} {nowMs : Nat} (h : e ∈ evict entries nowMs) :
    e ∈ entries := (evict_subperm entries nowMs).subset h

/-- A claim in flight is never evicted. -/
theorem mem_evict_of_pending {e : Entry} {entries : List Entry} (h : e ∈ entries) (hp : e.receipt = none)
    (nowMs : Nat) : e ∈ evict entries nowMs := by
  unfold evict
  split
  · exact h
  · dsimp only
    split
    · simp [h, hp]
    · simp [h, hp]

theorem evict_of_length_le {entries : List Entry} (h : entries.length ≤ maxEntries) (nowMs : Nat) :
    evict entries nowMs = entries := if_pos h

/-- Only a receipt is evicted, and only from over the cap. -/
theorem evicted_of_not_mem {e : Entry} {entries : List Entry} {nowMs : Nat} (h : e ∈ entries)
    (hout : e ∉ evict entries nowMs) : e.receipt.isSome ∧ maxEntries < entries.length := by
  constructor
  · cases hr : e.receipt with
    | none => exact absurd (mem_evict_of_pending h hr nowMs) hout
    | some receipt => rfl
  · by_contra hle
    rw [evict_of_length_le (by omega)] at hout
    exact hout h

/-- What a write of these entries leaves out. -/
def evictions (entries : List Entry) (nowMs : Nat) : List Event :=
  (entries.filter fun e => decide (e ∉ evict entries nowMs)).map fun e => .evicted e entries.length

theorem mem_evictions {x : Event} {entries : List Entry} {nowMs : Nat} :
    x ∈ evictions entries nowMs ↔
      ∃ e ∈ entries, e ∉ evict entries nowMs ∧ x = .evicted e entries.length := by
  simp only [evictions, List.mem_map, List.mem_filter, decide_eq_true_eq, and_assoc, eq_comm (a := x)]

/-! ## What a step does -/

/-- The guard of a claim in flight. -/
def Entry.guard (e : Entry) : SlotGuard := { slot := e.slot, pid := e.pid, claimedAt := e.atMs }

@[simp] theorem ours_iff {g : SlotGuard} {e : Entry} : g.ours e = true ↔ e.guard = g := by
  cases g
  simp only [SlotGuard.ours, Bool.and_eq_true, beq_iff_eq, Entry.guard, SlotGuard.mk.injEq, and_assoc]

/-- A slot's entry, as a claim looks it up. -/
def slotEntry (slot : String) (entries : List Entry) : Option Entry := entries.find? fun e => e.slot == slot

theorem slotEntry_some {slot : String} {entries : List Entry} {e : Entry} (h : slotEntry slot entries = some e) :
    e ∈ entries ∧ e.slot = slot :=
  ⟨List.mem_of_find?_eq_some h, by simpa using List.find?_some h⟩

theorem slotEntry_exists {slot : String} {entries : List Entry} (h : ∃ e ∈ entries, e.slot = slot) :
    ∃ e, slotEntry slot entries = some e := by
  obtain ⟨e, he, hslot⟩ := h
  cases hf : slotEntry slot entries with
  | some found => exact ⟨found, rfl⟩
  | none =>
    have hnone := List.find?_eq_none.mp hf e he
    simp [hslot] at hnone

/-- A locked read-modify-write of a readable ledger: what it shows, and the entries it writes and
the clock it writes them by, if it writes. -/
inductive Pass (entries : List Entry) : List Event → Option (List Entry × Nat) → Prop
  | idle : Pass entries [] none
  | crashed {pid : Int} : Pass entries [.crashed pid] none
  | hit {slot : String} {nowMs : Nat} {e : Entry} {receipt : Receipt} (found : slotEntry slot entries = some e)
    (settled : e.receipt = some receipt) (live : isExpired e.atMs nowMs = false) :
    Pass entries [.hit slot nowMs e.atMs receipt] none
  | waiting {slot : String} {nowMs : Nat} {e : Entry} (found : slotEntry slot entries = some e)
    (flying : e.receipt = none) : Pass entries [.waiting slot nowMs] none
  | took {entry : Entry} (fresh : entry.receipt = none)
    (free : ∀ e, slotEntry entry.slot entries = some e →
      e.receipt.isSome ∧ isExpired e.atMs entry.atMs = true) :
    Pass entries [.claimed entry.guard]
      (some (entries.filter (fun e => e.slot ≠ entry.slot) ++ [entry], entry.atMs))
  | gaveUp {slot : String} {nowMs : Nat} {e : Entry} (found : slotEntry slot entries = some e)
    (flying : e.receipt = none) :
    Pass entries [.hit slot nowMs e.atMs .unknown]
      (some (Choose.modifyFirst (fun e => e.slot == slot) (fun e => { e with receipt := some .unknown }) entries,
        nowMs))
  | stray {guard : SlotGuard} {receipt : Option Receipt} (lost : entries.any guard.ours = false) :
    Pass entries [.resolved guard receipt] none
  | settled {guard : SlotGuard} {receipt : Receipt} (own : entries.any guard.ours = true) :
    Pass entries [.resolved guard (some receipt)]
      (some (Choose.modifyFirst guard.ours (fun e => { e with receipt := some receipt }) entries, guard.claimedAt))
  | gaveBack {guard : SlotGuard} (own : entries.any guard.ours = true) :
    Pass entries [.resolved guard none] (some (entries.filter (fun e => !guard.ours e), guard.claimedAt))

/-- What a step shows and the file it leaves, given what its pass wrote. -/
def Committed (ledger : Ledger) (shown : List Event) :
    Option (List Entry × Nat) → List Event × Ledger → Prop
  | none, after => after.1 = shown ∧ after.2.file = ledger.file
  | some (entries, nowMs), after =>
    after.1 = shown ++ evictions entries nowMs ∧ after.2.file = render (sortByAt (evict entries nowMs))

theorem Ledger.take_pass {ledger : Ledger} {entries : List Entry} {pid : Int} {slot pane action : String}
    {device : Option String} {nowMs : Nat}
    (free : ∀ e, slotEntry slot entries = some e → e.receipt.isSome ∧ isExpired e.atMs nowMs = true) :
    ∃ shown wrote, Pass entries shown wrote ∧
      Committed ledger shown wrote (ledger.take entries pid slot pane action device nowMs) := by
  let entry : Entry := ⟨slot, pane, action, device, nowMs, pid, none⟩
  have htook : Pass entries [.claimed entry.guard] _ := .took rfl free
  exact ⟨_, _, htook, rfl, rfl⟩

theorem Ledger.claim_pass {ledger : Ledger} {entries : List Entry} (h : ledger.read = .ok entries) (pid : Int)
    (slot pane action : String) (device : Option String) (nowMs : Nat) (waits : Bool) :
    ∃ shown wrote, Pass entries shown wrote ∧
      Committed ledger shown wrote (ledger.claim pid slot pane action device nowMs waits) := by
  simp only [Ledger.claim, h]
  split
  · rename_i hnone
    exact take_pass fun e he => by rw [slotEntry, hnone] at he; cases he
  · rename_i e hsome
    split
    · rename_i receipt hr
      split
      · rename_i hlive
        exact ⟨_, _, .hit hsome hr (by simpa using hlive), rfl, rfl⟩
      · rename_i hexp
        refine take_pass fun e' he' => ?_
        rw [slotEntry, hsome] at he'
        obtain rfl := Option.some.inj he'
        exact ⟨by rw [hr]; rfl, by simpa using hexp⟩
    · rename_i hr
      split
      · exact ⟨_, _, .waiting hsome hr, rfl, rfl⟩
      · exact ⟨_, _, .gaveUp hsome hr, rfl, rfl⟩

theorem Ledger.consume_pass {ledger : Ledger} {entries : List Entry} (h : ledger.read = .ok entries)
    (guard : SlotGuard) (receipt : Option Receipt) :
    ∃ shown wrote, Pass entries shown wrote ∧ Committed ledger shown wrote (ledger.consume guard receipt) := by
  unfold Ledger.consume
  split
  · have hread : Ledger.read { ledger with guards := ledger.guards.erase guard } = .ok entries := h
    cases receipt with
    | some receipt =>
      cases hany : entries.any guard.ours with
      | true =>
        refine ⟨[.resolved guard (some receipt)], _, .settled hany, ?_⟩
        simp only [Ledger.resolve, hread, hany, if_true]
        exact ⟨rfl, rfl⟩
      | false =>
        refine ⟨[.resolved guard (some receipt)], _, .stray hany, ?_⟩
        simp only [Ledger.resolve, hread, hany, Bool.false_eq_true, if_false]
        exact ⟨rfl, rfl⟩
    | none =>
      cases hany : entries.any guard.ours with
      | true =>
        refine ⟨[.resolved guard none], _, .gaveBack hany, ?_⟩
        simp only [Ledger.resolve, hread, hany, Bool.not_true, Bool.false_eq_true, if_false]
        exact ⟨rfl, rfl⟩
      | false =>
        refine ⟨[.resolved guard none], _, .stray hany, ?_⟩
        simp only [Ledger.resolve, hread, hany, Bool.not_false, if_true]
        exact ⟨rfl, rfl⟩
  · exact ⟨_, _, .idle, rfl, rfl⟩

/-- On a readable ledger, a step is a pass. -/
theorem Ledger.act_pass {ledger : Ledger} {entries : List Entry} (h : ledger.read = .ok entries) (op : Op) :
    ∃ shown wrote, Pass entries shown wrote ∧ Committed ledger shown wrote (ledger.act op) := by
  cases op with
  | claim pid slot pane action device nowMs waits => exact claim_pass h ..
  | write guard receipt => exact consume_pass h ..
  | release guard => exact consume_pass h ..
  | drop guard => exact consume_pass h ..
  | crash pid => exact ⟨_, _, .crashed, rfl, rfl⟩

/-- What a step on an unreadable ledger shows. -/
inductive Refused : List Event → Prop
  | idle : Refused []
  | crashed {pid : Int} : Refused [.crashed pid]
  | torn {slot : String} {nowMs line : Nat} : Refused [.torn slot nowMs line]
  | resolved {guard : SlotGuard} {receipt : Option Receipt} : Refused [.resolved guard receipt]

theorem Ledger.consume_torn {ledger : Ledger} {line : Nat} (h : ledger.read = .error line) (guard : SlotGuard)
    (receipt : Option Receipt) :
    (ledger.consume guard receipt).2.file = ledger.file ∧ Refused (ledger.consume guard receipt).1 := by
  unfold Ledger.consume
  split
  · have hread : Ledger.read { ledger with guards := ledger.guards.erase guard } = .error line := h
    rw [Ledger.resolve, hread]
    exact ⟨rfl, .resolved⟩
  · exact ⟨rfl, .idle⟩

/-- A step on an unreadable ledger leaves the file alone. -/
theorem Ledger.act_torn {ledger : Ledger} {line : Nat} (h : ledger.read = .error line) (op : Op) :
    (ledger.act op).2.file = ledger.file ∧ Refused (ledger.act op).1 := by
  cases op with
  | claim pid slot pane action device nowMs waits =>
    rw [Ledger.act, Ledger.claim, h]
    exact ⟨rfl, .torn⟩
  | write guard receipt => exact consume_torn h guard (some receipt)
  | release guard => exact consume_torn h guard none
  | drop guard => exact consume_torn h guard none
  | crash pid => exact ⟨rfl, .crashed⟩

/-- The entries a pass leaves in the file. -/
def leaves (entries : List Entry) : Option (List Entry × Nat) → List Entry
  | none => entries
  | some (written, nowMs) => sortByAt (evict written nowMs)

theorem Committed.read_eq {ledger : Ledger} {entries found : List Entry} {shown : List Event}
    {wrote : Option (List Entry × Nat)} {after : List Event × Ledger} (hread : ledger.read = .ok entries)
    (h : Committed ledger shown wrote after) (hfound : after.2.read = .ok found) :
    found = leaves entries wrote := by
  cases wrote with
  | none =>
    rw [Ledger.read, h.2] at hfound
    exact (Except.ok.inj (hread.symm.trans hfound)).symm
  | some w =>
    rw [Ledger.read, h.2] at hfound
    exact readLines_render_ok hfound

/-! ## One slot -/

/-- The slot has an entry, and whatever entry it has is as `Q` says. -/
structure Sole (Q : Entry → Prop) (slot : String) (entries : List Entry) : Prop where
  present : ∃ e ∈ entries, e.slot = slot
  all : ∀ e ∈ entries, e.slot = slot → Q e

variable {Q : Entry → Prop} {slot : String} {entries : List Entry}

/-- What a claim of the slot would look at. -/
theorem Sole.looked_up (h : Sole Q slot entries) {e : Entry} (he : slotEntry slot entries = some e) : Q e :=
  h.all e (slotEntry_some he).1 (slotEntry_some he).2

/-- A write leaves the slot as it is, or leaves it out. -/
theorem Sole.written (h : Sole Q slot entries) (nowMs : Nat) :
    Sole Q slot (sortByAt (evict entries nowMs)) ∨
      ∃ e, e.slot = slot ∧ Q e ∧ .evicted e entries.length ∈ evictions entries nowMs := by
  obtain ⟨e, he, hslot⟩ := h.present
  by_cases hkept : e ∈ evict entries nowMs
  · refine .inl ⟨⟨e, mem_sortByAt.mpr hkept, hslot⟩, fun e' he' => ?_⟩
    exact h.all e' (mem_of_mem_evict (mem_sortByAt.mp he'))
  · exact .inr ⟨e, hslot, h.all e he hslot, mem_evictions.mpr ⟨e, he, hkept, rfl⟩⟩

theorem Sole.filter (h : Sole Q slot entries) {keep : Entry → Bool}
    (hkeep : ∀ e, e.slot = slot → Q e → keep e = true) : Sole Q slot (entries.filter keep) := by
  obtain ⟨e, he, hslot⟩ := h.present
  refine ⟨⟨e, List.mem_filter.mpr ⟨he, hkeep e hslot (h.all e he hslot)⟩, hslot⟩, fun e' he' => ?_⟩
  exact h.all e' (List.mem_filter.mp he').1

theorem Sole.append_other (h : Sole Q slot entries) {e : Entry} (hne : e.slot ≠ slot) :
    Sole Q slot (entries ++ [e]) := by
  obtain ⟨e', he', hslot⟩ := h.present
  refine ⟨⟨e', List.mem_append_left _ he', hslot⟩, fun x hx hxs => ?_⟩
  rcases List.mem_append.mp hx with hx | hx
  · exact h.all x hx hxs
  · obtain rfl := List.mem_singleton.mp hx
    exact absurd hxs hne

theorem mem_modifyFirst {p : Entry → Bool} {f : Entry → Entry} {x : Entry}
    (h : x ∈ Choose.modifyFirst p f entries) : x ∈ entries ∨ ∃ e ∈ entries, p e = true ∧ x = f e := by
  induction entries with
  | nil => cases h
  | cons a entries ih =>
    simp only [Choose.modifyFirst] at h
    split at h
    · rename_i hp
      rcases List.mem_cons.mp h with rfl | h
      · exact .inr ⟨a, List.mem_cons_self, hp, rfl⟩
      · exact .inl (List.mem_cons_of_mem _ h)
    · rcases List.mem_cons.mp h with rfl | h
      · exact .inl List.mem_cons_self
      · rcases ih h with h | ⟨e, he, hp, rfl⟩
        · exact .inl (List.mem_cons_of_mem _ h)
        · exact .inr ⟨e, List.mem_cons_of_mem _ he, hp, rfl⟩

theorem modifyFirst_map_slot {p : Entry → Bool} {f : Entry → Entry} (hf : ∀ e, (f e).slot = e.slot)
    (entries : List Entry) : (Choose.modifyFirst p f entries).map Entry.slot = entries.map Entry.slot := by
  induction entries with
  | nil => rfl
  | cons a entries ih =>
    simp only [Choose.modifyFirst]
    split
    · rw [List.map_cons, List.map_cons, hf]
    · rw [List.map_cons, List.map_cons, ih]

theorem exists_mem_modifyFirst {p : Entry → Bool} {f : Entry → Entry} (hf : ∀ e, (f e).slot = e.slot)
    (h : ∃ e ∈ entries, e.slot = slot) : ∃ e ∈ Choose.modifyFirst p f entries, e.slot = slot := by
  obtain ⟨e, he, hslot⟩ := h
  have hmem : slot ∈ (Choose.modifyFirst p f entries).map Entry.slot := by
    rw [modifyFirst_map_slot hf]
    exact List.mem_map.mpr ⟨e, he, hslot⟩
  exact List.mem_map.mp hmem

theorem Sole.modifyFirst (h : Sole Q slot entries) {p : Entry → Bool} {f : Entry → Entry}
    (hf : ∀ e, (f e).slot = e.slot) (hQ : ∀ e, e.slot = slot → p e = true → Q e → Q (f e)) :
    Sole Q slot (Choose.modifyFirst p f entries) := by
  refine ⟨exists_mem_modifyFirst hf h.present, fun x hx hxs => ?_⟩
  rcases mem_modifyFirst hx with hx | ⟨y, hy, hp, rfl⟩
  · exact h.all x hx hxs
  · rw [hf] at hxs
    exact hQ y hxs hp (h.all y hy hxs)

/-- A fresh claim is its slot's only entry. -/
theorem Sole.taken (entry : Entry) (hQ : Q entry) :
    Sole Q entry.slot (entries.filter (fun e => e.slot ≠ entry.slot) ++ [entry]) := by
  refine ⟨⟨entry, by simp, rfl⟩, fun e he hslot => ?_⟩
  simp only [List.mem_append, List.mem_filter, decide_eq_true_eq, List.mem_singleton] at he
  rcases he with ⟨-, hne⟩ | rfl
  · exact absurd hslot hne
  · exact hQ

/-- A step keeps a slot as it is, unless what it shows ends that (`Exit`) or its write left the slot out. -/
theorem Ledger.sole_step {ledger : Ledger} {op : Op} {Exit : List Event → Prop}
    (h : ∀ entries, ledger.read = .ok entries → Sole Q slot entries)
    (hpass : ∀ entries shown written nowMs, ledger.read = .ok entries → Sole Q slot entries →
      (∀ x ∈ shown, x ∈ (ledger.act op).1) → Pass entries shown (some (written, nowMs)) →
        Exit shown ∨ Sole Q slot written) :
    (∃ shown, (∀ x ∈ shown, x ∈ (ledger.act op).1) ∧ Exit shown) ∨
      (∃ e held, .evicted e held ∈ (ledger.act op).1 ∧ e.slot = slot ∧ Q e ∧ e.receipt.isSome ∧ maxEntries < held) ∨
      ∀ entries, (ledger.act op).2.read = .ok entries → Sole Q slot entries := by
  cases hread : ledger.read with
  | error line =>
    refine .inr (.inr fun entries he => h entries ?_)
    rwa [Ledger.read, (act_torn hread op).1] at he
  | ok entries =>
    obtain ⟨shown, wrote, hp, hc⟩ := act_pass hread op
    have hsole := h entries hread
    cases wrote with
    | none => exact .inr (.inr fun found hfound => hc.read_eq hread hfound ▸ hsole)
    | some w =>
      obtain ⟨written, nowMs⟩ := w
      have hmem : ∀ x, x ∈ (ledger.act op).1 ↔ x ∈ shown ∨ x ∈ evictions written nowMs := by
        intro x
        rw [hc.1, List.mem_append]
      rcases hpass entries shown written nowMs hread hsole (fun x hx => (hmem x).mpr (.inl hx)) hp with
        hexit | hwritten
      · exact .inl ⟨shown, fun x hx => (hmem x).mpr (.inl hx), hexit⟩
      · rcases hwritten.written nowMs with hleft | ⟨e, hslot, hQ, hout⟩
        · exact .inr (.inr fun found hfound => hc.read_eq hread hfound ▸ hleft)
        · obtain ⟨e', he', hnot, heq⟩ := mem_evictions.mp hout
          obtain ⟨rfl, -⟩ := Event.evicted.inj heq
          obtain ⟨hsome, hover⟩ := evicted_of_not_mem he' hnot
          exact .inr (.inl ⟨e, _, (hmem _).mpr (.inr hout), hslot, hQ, hsome, hover⟩)

end TmuxAgents.Slots
