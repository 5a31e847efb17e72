/-
A reported receipt.

Once some caller was told a receipt, every claim of the slot within the TTL is
told the same one, as long as no guard resolves an entry that another caller
already settled (`receipt_final`). A slow claimer's guard does: it still
matches the entry a takeover resolved, overwrites the receipt that was
reported (`late_write_overwrites`) or gives the slot back
(`late_drop_reopens`).
-/
import TmuxAgents.Dispatch.SlotRuns

namespace TmuxAgents.Slots

/-- The ledger parses, and a slot has one entry at most. -/
structure Sound (entries : List Entry) : Prop where
  slots : (entries.map Entry.slot).Nodup
  dated : ∀ e ∈ entries, e.atMs < 2 ^ 63

theorem Sound.sole {Q : Entry → Prop} {slot : String} {entries : List Entry} {e : Entry} (h : Sound entries)
    (he : e ∈ entries) (hslot : e.slot = slot) (hQ : Q e) : Sole Q slot entries := by
  refine ⟨⟨e, he, hslot⟩, fun e' he' hslot' => ?_⟩
  rw [List.inj_on_of_nodup_map h.slots he' he (hslot'.trans hslot.symm)]
  exact hQ

theorem Sound.written {entries : List Entry} (h : Sound entries) (nowMs : Nat) :
    Sound (sortByAt (evict entries nowMs)) := by
  obtain ⟨kept, hperm, hsub⟩ := (sortByAt_perm (evict entries nowMs)).subperm.trans (evict_subperm entries nowMs)
  refine ⟨(hperm.map Entry.slot).nodup_iff.mp ((hsub.map _).nodup h.slots), fun e he => h.dated e ?_⟩
  exact hsub.subset (hperm.mem_iff.mpr he)

theorem Sound.modifyFirst {p : Entry → Bool} {f : Entry → Entry} {entries : List Entry} (h : Sound entries)
    (hf : ∀ e, (f e).slot = e.slot ∧ (f e).atMs = e.atMs) : Sound (Choose.modifyFirst p f entries) := by
  refine ⟨by rw [modifyFirst_map_slot fun e => (hf e).1]; exact h.slots, fun x hx => ?_⟩
  rcases mem_modifyFirst hx with hx | ⟨e, he, -, rfl⟩
  · exact h.dated x hx
  · rw [(hf e).2]
    exact h.dated e he

theorem Sound.filter {entries : List Entry} (h : Sound entries) (keep : Entry → Bool) :
    Sound (entries.filter keep) :=
  ⟨(List.filter_sublist.map _).nodup h.slots, fun e he => h.dated e (List.mem_filter.mp he).1⟩

theorem Sound.taken {entries : List Entry} (h : Sound entries) {entry : Entry} (hdated : entry.atMs < 2 ^ 63) :
    Sound (entries.filter (fun e => e.slot ≠ entry.slot) ++ [entry]) := by
  refine ⟨?_, fun e he => ?_⟩
  · rw [List.map_append, List.map_singleton, List.nodup_append]
    refine ⟨(h.filter _).slots, List.nodup_singleton _, fun s hs t ht heq => ?_⟩
    obtain ⟨e, he, rfl⟩ := List.mem_map.mp hs
    obtain rfl := List.mem_singleton.mp ht
    exact absurd heq (by simpa using (List.mem_filter.mp he).2)
  · rcases List.mem_append.mp he with he | he
    · exact (h.filter _).dated e he
    · exact List.mem_singleton.mp he ▸ hdated

/-- What a step must find for reported receipts to be final: a guard that is written or given back finds
its entry (if it is still there) without a receipt, or with the one it writes; and claims are dated in
what the file can hold. -/
structure Ledger.Unsettled (ledger : Ledger) (op : Op) : Prop where
  own : ∀ guard receipt entries e, op.resolves = some (guard, receipt) → guard ∈ ledger.guards →
    ledger.read = .ok entries → e ∈ entries → guard.ours e = true →
    e.receipt = none ∨ receipt.isSome ∧ e.receipt = receipt
  dated : ∀ slot nowMs, op.asks = some (slot, nowMs) → nowMs < 2 ^ 63

/-- The steps that find what they resolve unsettled. -/
abbrev Ledger.UnsettledStep : Ledger → List Event → Ledger → Prop := Trace.Acts Ledger.act Ledger.Unsettled

/-- The ledger reads, soundly. -/
def Ledger.Readable (ledger : Ledger) : Prop := ∃ entries, ledger.read = .ok entries ∧ Sound entries

theorem Ledger.Readable.step {ledger : Ledger} {op : Op} (h : ledger.Readable) (hok : ledger.Unsettled op) :
    (ledger.act op).2.Readable := by
  obtain ⟨entries, hread, hs⟩ := h
  obtain ⟨shown, wrote, hp, hc⟩ := act_pass hread op
  cases wrote with
  | none => exact ⟨entries, by rw [Ledger.read, hc.2]; exact hread, hs⟩
  | some w =>
    obtain ⟨written, nowMs⟩ := w
    have hwritten : Sound written := by
      cases hp with
      | @took entry fresh free =>
        refine hs.taken ?_
        have hclaimed : .claimed entry.guard ∈ (ledger.act op).1 := by rw [hc.1]; simp
        rcases act_mem hclaimed with
          ⟨e, held, he⟩ | ⟨ask, hx, hop⟩ | ⟨g, r, hr, -, -⟩ | ⟨p, hcr, -⟩
        · cases he
        · obtain rfl := Option.some.inj hx
          exact hok.dated _ _ hop
        · cases hr
        · cases hcr
      | gaveUp found flying => exact hs.modifyFirst fun _ => ⟨rfl, rfl⟩
      | settled own => exact hs.modifyFirst fun _ => ⟨rfl, rfl⟩
      | gaveBack own => exact hs.filter _
    have hkept := hwritten.written nowMs
    exact ⟨_, by rw [Ledger.read, hc.2]; exact readLines_render hkept.dated 1, hkept⟩

/-! ## From the report on -/

/-- What replaces a reported receipt: the slot is evicted, or taken by a claim dated past the TTL. -/
def Replaced (slot : String) (atMs : Nat) (shown : List Event) : Prop :=
  (∃ e held, .evicted e held ∈ shown ∧ e.slot = slot) ∨
    ∃ guard, .claimed guard ∈ shown ∧ guard.slot = slot ∧ atMs + ttlMs ≤ guard.claimedAt

theorem Replaced.mono {slot : String} {atMs : Nat} {shown shown' : List Event} (h : Replaced slot atMs shown)
    (hle : ∀ x ∈ shown, x ∈ shown') : Replaced slot atMs shown' := by
  rcases h with ⟨e, held, h, hrest⟩ | ⟨guard, h, hrest⟩
  · exact .inl ⟨e, held, hle _ h, hrest⟩
  · exact .inr ⟨guard, hle _ h, hrest⟩

/-- The slot's entry carries the receipt. -/
def Settled (slot : String) (atMs : Nat) (receipt : Receipt) (ledger : Ledger) : Prop :=
  ∀ entries, ledger.read = .ok entries → Sole (fun e => e.atMs = atMs ∧ e.receipt = some receipt) slot entries

theorem Settled.of_hit {ledger ledger' : Ledger} {op : Op} {slot : String} {nowMs atMs : Nat} {receipt : Receipt}
    {before after : List Event} (h : ledger.Readable)
    (hop : ledger.act op = (before ++ .hit slot nowMs atMs receipt :: after, ledger')) :
    Replaced slot atMs after ∨ Settled slot atMs receipt ledger' := by
  obtain ⟨entries, hread, hs⟩ := h
  obtain rfl : before = [] := Ledger.act_first hop fun _ _ => (by simp)
  have hhit : .hit slot nowMs atMs receipt ∈ (ledger.act op).1 := by rw [hop]; simp
  obtain ⟨wrote, hp, hc⟩ := Ledger.shown_pass hread hhit fun _ _ => (by simp)
  rw [hop] at hc
  cases hp with
  | hit found settled live =>
    obtain ⟨he, hslot⟩ := slotEntry_some found
    exact .inr fun found' hfound => hc.read_eq hread hfound ▸ hs.sole he hslot ⟨rfl, settled⟩
  | @gaveUp _ _ e found flying =>
    obtain ⟨he, hslot⟩ := slotEntry_some found
    let settle : Entry → Entry := fun e => { e with receipt := some .unknown }
    obtain ⟨l₁, l₂, -, hmodified⟩ := Choose.modifyFirst_of_find? (f := settle) found
    have hmem : settle e ∈ Choose.modifyFirst (fun e : Entry => e.slot == slot) settle entries := by
      rw [hmodified]
      simp
    have hsound : Sound (Choose.modifyFirst (fun e : Entry => e.slot == slot) settle entries) :=
      hs.modifyFirst fun _ => ⟨rfl, rfl⟩
    have hsole := hsound.sole (Q := fun x => x.atMs = e.atMs ∧ x.receipt = some .unknown) hmem hslot ⟨rfl, rfl⟩
    rcases hsole.written nowMs with hleft | ⟨x, hx, -, hout⟩
    · exact .inr fun found' hfound => hc.read_eq hread hfound ▸ hleft
    · have hafter : after = evictions (Choose.modifyFirst (fun e : Entry => e.slot == slot) settle entries) nowMs := by
        simpa using hc.1
      exact .inl (.inl ⟨x, _, hafter ▸ hout, hx⟩)

theorem Settled.step {ledger : Ledger} {op : Op} {slot : String} {atMs : Nat} {receipt : Receipt}
    (h : Settled slot atMs receipt ledger) (hok : ledger.Unsettled op) :
    Replaced slot atMs (ledger.act op).1 ∨ Settled slot atMs receipt (ledger.act op).2 := by
  have hpass : ∀ entries shown written nowMs, ledger.read = .ok entries →
      Sole (fun e => e.atMs = atMs ∧ e.receipt = some receipt) slot entries →
      (∀ x ∈ shown, x ∈ (ledger.act op).1) → Pass entries shown (some (written, nowMs)) →
      Replaced slot atMs shown ∨ Sole (fun e => e.atMs = atMs ∧ e.receipt = some receipt) slot written := by
    intro entries shown written nowMs hread hs hshown hp
    cases hp with
    | @took entry fresh free =>
      by_cases hslot : entry.slot = slot
      · refine .inl (.inr ⟨entry.guard, List.mem_singleton_self _, hslot, ?_⟩)
        obtain ⟨e, he⟩ := slotEntry_exists hs.present
        have hat := (hs.looked_up he).1
        have hexp := (free e (by rw [hslot]; exact he)).2
        simp only [isExpired, decide_eq_true_eq] at hexp
        simp only [Entry.guard, ttlMs] at hexp ⊢
        omega
      · refine .inr ((hs.filter fun e he _ => ?_).append_other hslot)
        simpa [he] using Ne.symm hslot
    | @gaveUp s nowMs e found flying =>
      refine .inr (hs.modifyFirst (fun _ => rfl) fun e' he' hp hQ => ?_)
      -- a slot that was given up on was in flight, and this one has a receipt
      obtain rfl : e'.slot = s := by simpa using hp
      obtain rfl := he'
      rw [(hs.looked_up found).2] at flying
      cases flying
    | @settled guard written own =>
      obtain ⟨hop, hheld⟩ := Ledger.act_resolved (hshown _ (List.mem_singleton_self _))
      have hsame : ∀ e ∈ entries, e.slot = slot → guard.ours e = true → some written = some receipt := by
        intro e he hslot hours
        have hr := (hs.all e he hslot).2
        rcases hok.own guard _ entries e hop hheld hread he hours with hnone | ⟨-, heq⟩
        · rw [hr] at hnone
          cases hnone
        · exact heq.symm.trans hr
      refine .inr ⟨?_, fun x hx hslot => ?_⟩
      · exact exists_mem_modifyFirst (fun _ => rfl) hs.present
      · rcases mem_modifyFirst hx with hx | ⟨e, he, hours, rfl⟩
        · exact hs.all x hx hslot
        · exact ⟨(hs.all e he hslot).1, hsame e he hslot hours⟩
    | @gaveBack guard own =>
      obtain ⟨hop, hheld⟩ := Ledger.act_resolved (hshown _ (List.mem_singleton_self _))
      obtain ⟨e, he, hslot⟩ := hs.present
      have hkeep : ∀ e ∈ entries, e.slot = slot → (!guard.ours e) = true := by
        intro e he hslot
        cases hours : guard.ours e with
        | false => rfl
        | true =>
          rcases hok.own guard _ entries e hop hheld hread he hours with hnone | ⟨hsome, -⟩
          · rw [(hs.all e he hslot).2] at hnone
            cases hnone
          · cases hsome
      refine .inr ⟨⟨e, List.mem_filter.mpr ⟨he, hkeep e he hslot⟩, hslot⟩, fun x hx => ?_⟩
      exact hs.all x (List.mem_filter.mp hx).1
  rcases Ledger.sole_step h hpass with ⟨shown, hmem, hexit⟩ | ⟨e, held, hmem, hslot, -⟩ | hsettled
  · exact .inl (hexit.mono hmem)
  · exact .inl (.inl ⟨e, held, hmem, hslot⟩)
  · exact .inr hsettled

/-- A claim of a settled slot within the TTL answers the receipt. -/
theorem Settled.answers {ledger : Ledger} {op : Op} {slot : String} {nowMs atMs : Nat} {receipt : Receipt}
    {x : Event} (h : Settled slot atMs receipt ledger) (hreadable : ledger.Readable)
    (hx : x ∈ (ledger.act op).1) (hasks : x.asks = some (slot, nowMs)) (hwithin : nowMs < atMs + ttlMs) :
    x = .hit slot nowMs atMs receipt := by
  obtain ⟨entries, hread, -⟩ := hreadable
  have hs := h entries hread
  have hne : ∀ e held, x ≠ .evicted e held := by rintro e held rfl; cases hasks
  obtain ⟨wrote, hp, -⟩ := Ledger.shown_pass hread hx hne
  cases hp with
  | hit found settled live =>
    obtain ⟨rfl, rfl⟩ := Prod.mk.inj (Option.some.inj hasks)
    obtain ⟨hat, hr⟩ := hs.looked_up found
    rw [hr] at settled
    rw [hat, Option.some.inj settled]
  | waiting found flying =>
    obtain ⟨rfl, rfl⟩ := Prod.mk.inj (Option.some.inj hasks)
    rw [(hs.looked_up found).2] at flying
    cases flying
  | gaveUp found flying =>
    obtain ⟨rfl, rfl⟩ := Prod.mk.inj (Option.some.inj hasks)
    rw [(hs.looked_up found).2] at flying
    cases flying
  | @took entry fresh free =>
    obtain ⟨hslot, rfl⟩ := Prod.mk.inj (Option.some.inj hasks)
    obtain ⟨e, he⟩ := slotEntry_exists hs.present
    have hat := (hs.looked_up he).1
    have hexp := (free e (by rw [show entry.slot = slot from hslot]; exact he)).2
    simp only [isExpired, decide_eq_true_eq] at hexp
    simp only [Entry.guard, ttlMs] at hexp hwithin
    omega
  | _ => cases hasks

/-- Once a receipt was reported, every claim of the slot within the TTL reports it, unless the slot was
evicted or a claim dated past the TTL took it. -/
def Final (shown : List Event) : Prop :=
  ∀ pre slot nowMs atMs receipt mid x later post,
    shown = pre ++ .hit slot nowMs atMs receipt :: mid ++ x :: post → x.asks = some (slot, later) →
    later < atMs + ttlMs → Replaced slot atMs mid ∨ x = .hit slot later atMs receipt

theorem final_of_trace {ledger : Ledger} {shown : List Event} (h : Trace Ledger.UnsettledStep .new shown ledger) :
    Final shown := by
  intro pre slot nowMs atMs receipt mid x later post hx hasks hwithin
  refine Trace.between Ledger.Readable
    (fun x mid ledger => ∀ slot nowMs atMs receipt, x = .hit slot nowMs atMs receipt →
      Replaced slot atMs mid ∨ Settled slot atMs receipt ledger)
    (fun x mid y => ∀ slot nowMs atMs receipt later, x = .hit slot nowMs atMs receipt →
      y.asks = some (slot, later) → later < atMs + ttlMs → Replaced slot atMs mid ∨ y = .hit slot later atMs receipt)
    ?_ ?_ ?_ ?_ ?_ ⟨[], rfl, ⟨.nil, fun _ h => (by cases h)⟩⟩ h hx slot nowMs atMs receipt later rfl hasks hwithin
  · rintro ledger out ledger' hreadable ⟨op, hok, hop⟩
    have hstep := hreadable.step hok
    rwa [hop] at hstep
  · rintro ledger before x after ledger' hreadable ⟨op, -, hop⟩ slot nowMs atMs receipt rfl
    exact Settled.of_hit hreadable hop
  · rintro ledger x mid out ledger' - hsince ⟨op, hok, hop⟩ slot nowMs atMs receipt rfl
    rcases hsince slot nowMs atMs receipt rfl with hreplaced | hsettled
    · exact .inl (hreplaced.mono fun x hx => List.mem_append_left _ hx)
    · have hstep := hsettled.step hok
      rw [hop] at hstep
      exact hstep.imp_left fun hreplaced => hreplaced.mono fun x hx => List.mem_append_right _ hx
  · rintro ledger before x mid y after ledger' - ⟨op, -, hop⟩ slot nowMs atMs receipt later rfl hasks -
    rw [List.append_assoc, List.cons_append] at hop
    obtain ⟨e, held, rfl⟩ := Ledger.act_tail hop y (by simp)
    cases hasks
  · rintro ledger x mid before y after ledger' hreadable hsince ⟨op, -, hop⟩ slot nowMs atMs receipt later rfl
      hasks hwithin
    rcases hsince slot nowMs atMs receipt rfl with hreplaced | hsettled
    · exact .inl (hreplaced.mono fun x hx => List.mem_append_left _ hx)
    · have hy : y ∈ (ledger.act op).1 := by rw [hop]; simp
      exact .inr (hsettled.answers hreadable hy hasks hwithin)

/-- **A reported receipt is final** in every run that resolves no settled entry. -/
theorem receipt_final {ops : List Op} (h : Trace.Meets Ledger.act Ledger.Unsettled .new ops) :
    Final (Trace.play Ledger.act .new ops).1 :=
  final_of_trace (Trace.play_trace Ledger.act h)

theorem Ledger.unsettled_claim {ledger : Ledger} {pid : Int} {slot pane action : String} {device : Option String}
    {nowMs : Nat} {waits : Bool} (h : nowMs < 2 ^ 63) :
    ledger.Unsettled (.claim pid slot pane action device nowMs waits) :=
  ⟨fun _ _ _ _ hop => (by cases hop), fun _ _ hop => (Prod.mk.inj (Option.some.inj hop)).2 ▸ h⟩

/-- A claim, its receipt, and a replay. -/
def replay : List Op :=
  [.claim 1 "s" "%1" "approve" none 0 false, .write ⟨"s", 1, 0⟩ ⟨"sent", none, 0⟩,
    .claim 2 "s" "%1" "approve" none 1 false, .claim 3 "s" "%1" "approve" none 2 false]

theorem receipt_final_replay : Trace.Meets Ledger.act Ledger.Unsettled .new replay ∧
    Final (Trace.play Ledger.act .new replay).1 := by
  have hwrite : Ledger.Unsettled ⟨[.record ⟨"s", "%1", "approve", none, 0, 1, none⟩], [⟨"s", 1, 0⟩]⟩
      (.write ⟨"s", 1, 0⟩ ⟨"sent", none, 0⟩) := by
    refine ⟨fun guard receipt entries e _ _ hread he _ => .inl ?_, fun _ _ hop => (by cases hop)⟩
    obtain rfl := Except.ok.inj hread
    rw [List.mem_singleton.mp he]
  have hmeets : Trace.Meets Ledger.act Ledger.Unsettled .new replay :=
    ⟨Ledger.unsettled_claim (by decide), hwrite, Ledger.unsettled_claim (by decide),
      Ledger.unsettled_claim (by decide), trivial⟩
  exact ⟨hmeets, receipt_final hmeets⟩

/-- A slow claimer: its claim is given up on and reported unknown, and then it writes its receipt. -/
def lateWrite : List Op :=
  [.claim 1 "s" "%1" "approve" none 0 false, .claim 2 "s" "%1" "approve" none 1 false,
    .write ⟨"s", 1, 0⟩ ⟨"sent", none, 0⟩, .claim 3 "s" "%1" "approve" none 2 false]

/-- The same claimer dropping its guard instead. -/
def lateDrop : List Op :=
  [.claim 1 "s" "%1" "approve" none 0 false, .claim 2 "s" "%1" "approve" none 1 false,
    .drop ⟨"s", 1, 0⟩, .claim 3 "s" "%1" "approve" none 2 false]

/-- A receipt that was reported is overwritten by the claimer it was reported for. -/
theorem late_write_overwrites : (Trace.play Ledger.act .new lateWrite).1 =
    [.claimed ⟨"s", 1, 0⟩, .hit "s" 1 0 .unknown, .resolved ⟨"s", 1, 0⟩ (some ⟨"sent", none, 0⟩),
      .hit "s" 2 0 ⟨"sent", none, 0⟩] := by decide

/-- A slot that was reported fired-unknown is claimable again. -/
theorem late_drop_reopens : (Trace.play Ledger.act .new lateDrop).1 =
    [.claimed ⟨"s", 1, 0⟩, .hit "s" 1 0 .unknown, .resolved ⟨"s", 1, 0⟩ none, .claimed ⟨"s", 3, 2⟩] := by decide

theorem not_final : ¬ (Final (Trace.play Ledger.act .new lateWrite).1 ∨ Final (Trace.play Ledger.act .new lateDrop).1) := by
  have hresolved : ∀ receipt, ¬ Replaced "s" 0 [.resolved ⟨"s", 1, 0⟩ receipt] := by
    rintro receipt (⟨e, held, h, -⟩ | ⟨guard, h, -⟩) <;> simp at h
  rintro (h | h)
  · rcases h [.claimed ⟨"s", 1, 0⟩] "s" 1 0 .unknown [.resolved ⟨"s", 1, 0⟩ (some ⟨"sent", none, 0⟩)]
      (.hit "s" 2 0 ⟨"sent", none, 0⟩) 2 [] late_write_overwrites rfl (by decide) with hreplaced | hsame
    · exact hresolved _ hreplaced
    · revert hsame
      decide
  · rcases h [.claimed ⟨"s", 1, 0⟩] "s" 1 0 .unknown [.resolved ⟨"s", 1, 0⟩ none] (.claimed ⟨"s", 3, 2⟩) 2 []
      late_drop_reopens rfl (by decide) with hreplaced | hsame
    · exact hresolved _ hreplaced
    · cases hsame

end TmuxAgents.Slots
