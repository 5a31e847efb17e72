/-
Claims over whole runs, whatever the processes do and whatever their clocks say.

A claim stays its slot's only entry until its guard gives it back, its receipt
is evicted, or a claim dated past the TTL takes the slot (`claims_apart`).
-/
import TmuxAgents.Dispatch.SlotFacts

namespace TmuxAgents.Slots

/-- The slot and the clock a pass of `claim` answered or refused for. -/
def Event.asks : Event → Option (String × Nat)
  | .claimed guard => some (guard.slot, guard.claimedAt)
  | .hit slot nowMs _ _ => some (slot, nowMs)
  | .waiting slot nowMs => some (slot, nowMs)
  | .torn slot nowMs _ => some (slot, nowMs)
  | .resolved _ _ => none
  | .evicted _ _ => none
  | .crashed _ => none

/-- The slot a `claim` returned an answer for. -/
def Event.answers : Event → Option String
  | .claimed guard => some guard.slot
  | .hit slot _ _ _ => some slot
  | _ => none

/-! ## One step at a time -/

/-- What a step on a readable ledger shows, the evictions apart. -/
theorem Ledger.act_shows {ledger : Ledger} {entries : List Entry} (h : ledger.read = .ok entries) (op : Op) :
    ∃ shown wrote tail, Pass entries shown wrote ∧ (ledger.act op).1 = shown ++ tail ∧
      ∀ x ∈ tail, ∃ e held, x = .evicted e held := by
  obtain ⟨shown, wrote, hp, hc⟩ := act_pass h op
  cases wrote with
  | none => exact ⟨shown, none, [], hp, by rw [hc.1, List.append_nil], fun x hx => (by cases hx)⟩
  | some w =>
    refine ⟨shown, _, _, hp, hc.1, fun x hx => ?_⟩
    obtain ⟨e, -, -, rfl⟩ := mem_evictions.mp hx
    exact ⟨e, _, rfl⟩

theorem Pass.shown_length {entries : List Entry} {shown : List Event} {wrote : Option (List Entry × Nat)}
    (h : Pass entries shown wrote) : shown.length ≤ 1 := by
  cases h <;> simp

theorem Refused.shown_length {shown : List Event} (h : Refused shown) : shown.length ≤ 1 := by
  cases h <;> simp

/-- A step shows one thing, and then evictions. -/
theorem Ledger.act_head (ledger : Ledger) (op : Op) : (ledger.act op).1 = [] ∨
    ∃ x tail, (ledger.act op).1 = x :: tail ∧ ∀ y ∈ tail, ∃ e held, y = .evicted e held := by
  have hone : ∃ shown tail, (ledger.act op).1 = shown ++ tail ∧ shown.length ≤ 1 ∧
      ∀ x ∈ tail, ∃ e held, x = Event.evicted e held := by
    cases hread : ledger.read with
    | error line =>
      exact ⟨_, [], (List.append_nil _).symm, (act_torn hread op).2.shown_length, fun x hx => (by cases hx)⟩
    | ok entries =>
      obtain ⟨shown, wrote, tail, hp, hout, htail⟩ := act_shows hread op
      exact ⟨shown, tail, hout, hp.shown_length, htail⟩
  obtain ⟨shown, tail, hout, hlen, htail⟩ := hone
  cases shown with
  | nil =>
    cases tail with
    | nil => exact .inl hout
    | cons x rest => exact .inr ⟨x, rest, hout, fun y hy => htail y (List.mem_cons_of_mem _ hy)⟩
  | cons x rest =>
    obtain rfl : rest = [] := List.length_eq_zero_iff.mp (by simpa using hlen)
    exact .inr ⟨x, tail, hout, htail⟩

/-- Nothing but evictions follows anything a step shows. -/
theorem Ledger.act_tail {ledger ledger' : Ledger} {op : Op} {before after : List Event} {x : Event}
    (h : ledger.act op = (before ++ x :: after, ledger')) : ∀ y ∈ after, ∃ e held, y = .evicted e held := by
  rcases act_head ledger op with hnil | ⟨z, tail, hout, htail⟩
  · rw [h] at hnil
    exact absurd hnil (by simp)
  · rw [h] at hout
    intro y hy
    cases before with
    | nil => exact htail y ((List.cons.inj hout).2 ▸ hy)
    | cons b before =>
      refine htail y ((List.cons.inj hout).2 ▸ ?_)
      exact List.mem_append_right _ (List.mem_cons_of_mem _ hy)

/-- Nothing precedes an answer, a refusal or a resolution in what its step shows. -/
theorem Ledger.act_first {ledger ledger' : Ledger} {op : Op} {before after : List Event} {x : Event}
    (h : ledger.act op = (before ++ x :: after, ledger')) (hx : ∀ e held, x ≠ .evicted e held) : before = [] := by
  rcases act_head ledger op with hnil | ⟨z, tail, hout, htail⟩
  · rw [h] at hnil
    exact absurd hnil (by simp)
  · rw [h] at hout
    cases before with
    | nil => rfl
    | cons b before =>
      have hmem : x ∈ tail := (List.cons.inj hout).2 ▸ List.mem_append_right _ List.mem_cons_self
      obtain ⟨e, held, rfl⟩ := htail x hmem
      exact absurd rfl (hx e held)

/-- The pass behind an event that is not an eviction. -/
theorem Ledger.shown_pass {ledger : Ledger} {entries : List Entry} (h : ledger.read = .ok entries) {op : Op}
    {x : Event} (hx : x ∈ (ledger.act op).1) (hne : ∀ e held, x ≠ .evicted e held) :
    ∃ wrote, Pass entries [x] wrote ∧ Committed ledger [x] wrote (ledger.act op) := by
  obtain ⟨shown, wrote, hp, hc⟩ := act_pass h op
  have hmem : x ∈ shown := by
    cases wrote with
    | none => rwa [hc.1] at hx
    | some w =>
      rw [hc.1, List.mem_append] at hx
      rcases hx with hx | hx
      · exact hx
      · obtain ⟨e, -, -, rfl⟩ := mem_evictions.mp hx
        exact absurd rfl (hne e _)
  obtain rfl : shown = [x] := by
    have hlen := hp.shown_length
    cases shown with
    | nil => cases hmem
    | cons y rest =>
      obtain rfl : rest = [] := List.length_eq_zero_iff.mp (by simpa using hlen)
      rw [List.mem_singleton.mp hmem]
  exact ⟨wrote, hp, hc⟩

/-- A claim that was just made is its slot's only entry. -/
theorem Ledger.claimed_sole {ledger : Ledger} {op : Op} {guard : SlotGuard}
    (h : .claimed guard ∈ (ledger.act op).1) :
    ∀ entries, (ledger.act op).2.read = .ok entries →
      Sole (fun e => e.guard = guard ∧ e.receipt = none) guard.slot entries := by
  intro found hfound
  cases hread : ledger.read with
  | error line =>
    have href := (act_torn hread op).2
    cases hshown : (ledger.act op).1 with
    | nil => rw [hshown] at h; cases h
    | cons x rest =>
      rw [hshown] at h href
      cases href <;> simp at h
  | ok entries =>
    obtain ⟨wrote, hp, hc⟩ := shown_pass hread h fun _ _ => (by simp)
    cases hp with
    | @took entry fresh free =>
      have hsole : Sole (fun e => e.guard = entry.guard ∧ e.receipt = none) entry.slot
          (entries.filter (fun e => e.slot ≠ entry.slot) ++ [entry]) := .taken entry ⟨rfl, fresh⟩
      rcases hsole.written entry.atMs with hleft | ⟨e, -, ⟨-, hnone⟩, hout⟩
      · exact hc.read_eq hread hfound ▸ hleft
      · obtain ⟨e', he', hnot, heq⟩ := mem_evictions.mp hout
        obtain ⟨rfl, -⟩ := Event.evicted.inj heq
        exact absurd (mem_evict_of_pending he' hnone _) hnot

theorem Ledger.torn_claims_nothing {ledger : Ledger} {line : Nat} (h : ledger.read = .error line) {op : Op}
    {guard : SlotGuard} : .claimed guard ∉ (ledger.act op).1 := by
  have href := (act_torn h op).2
  intro hmem
  cases hshown : (ledger.act op).1 with
  | nil => rw [hshown] at hmem; cases hmem
  | cons x rest =>
    rw [hshown] at hmem href
    cases href <;> simp at hmem

/-! ## Between two claims -/

/-- The steps of the host's processes. -/
abbrev Ledger.Step : Ledger → List Event → Ledger → Prop := Trace.Acts Ledger.act fun _ _ => True

/-- What ends a claim: its guard gave it back, its receipt was evicted from over the cap, or a claim
dated past its TTL took the slot. -/
def Ended (first : SlotGuard) (shown : List Event) : Prop :=
  .resolved first none ∈ shown ∨
    (∃ e held, .evicted e held ∈ shown ∧ e.guard = first ∧ e.receipt.isSome ∧ maxEntries < held) ∨
    ∃ guard, .claimed guard ∈ shown ∧ guard.slot = first.slot ∧ first.claimedAt + ttlMs ≤ guard.claimedAt

theorem Ended.mono {first : SlotGuard} {shown shown' : List Event} (h : Ended first shown)
    (hle : ∀ x ∈ shown, x ∈ shown') : Ended first shown' := by
  rcases h with h | ⟨e, held, h, hrest⟩ | ⟨guard, h, hrest⟩
  · exact .inl (hle _ h)
  · exact .inr (.inl ⟨e, held, hle _ h, hrest⟩)
  · exact .inr (.inr ⟨guard, hle _ h, hrest⟩)

/-- Until it is ended, a claim's entry is its slot's only one. -/
def Stands (first : SlotGuard) (ledger : Ledger) : Prop :=
  ∀ entries, ledger.read = .ok entries → Sole (fun e => e.guard = first) first.slot entries

theorem Stands.step {first : SlotGuard} {ledger : Ledger} (h : Stands first ledger) (op : Op) :
    Ended first (ledger.act op).1 ∨ Stands first (ledger.act op).2 := by
  have hpass : ∀ entries shown written nowMs, ledger.read = .ok entries →
      Sole (fun e => e.guard = first) first.slot entries → (∀ x ∈ shown, x ∈ (ledger.act op).1) →
      Pass entries shown (some (written, nowMs)) →
      Ended first shown ∨ Sole (fun e => e.guard = first) first.slot written := by
    intro entries shown written nowMs _ hs _ hp
    cases hp with
    | @took entry fresh free =>
      by_cases hslot : entry.slot = first.slot
      · refine .inl (.inr (.inr ⟨entry.guard, List.mem_singleton_self _, hslot, ?_⟩))
        obtain ⟨e, he⟩ := slotEntry_exists hs.present
        have hguard := hs.looked_up he
        have hexp := (free e (by rw [hslot]; exact he)).2
        rw [← hguard]
        simp only [isExpired, decide_eq_true_eq] at hexp
        simp only [Entry.guard, ttlMs] at hexp ⊢
        omega
      · refine .inr ((hs.filter fun e he _ => ?_).append_other hslot)
        simpa [he] using Ne.symm hslot
    | gaveUp found flying => exact .inr (hs.modifyFirst (fun _ => rfl) fun _ _ _ hQ => hQ)
    | settled own => exact .inr (hs.modifyFirst (fun _ => rfl) fun _ _ _ hQ => hQ)
    | @gaveBack guard own =>
      by_cases hg : guard = first
      · exact .inl (.inl (by simp [hg]))
      · refine .inr (hs.filter fun e _ hQ => ?_)
        cases ho : guard.ours e with
        | false => rfl
        | true => exact absurd ((ours_iff.mp ho).symm.trans hQ) hg
  rcases Ledger.sole_step h hpass with ⟨shown, hmem, hexit⟩ | ⟨e, held, hmem, -, hQ, hsome, hover⟩ | hstands
  · exact .inl (hexit.mono hmem)
  · exact .inl (.inr (.inl ⟨e, held, hmem, hQ, hsome, hover⟩))
  · exact .inr hstands

/-- A claim within the TTL of one that stands is not granted. -/
theorem Stands.not_claimed {first second : SlotGuard} {ledger : Ledger} (h : Stands first ledger) {op : Op}
    (hslot : second.slot = first.slot) (hclaimed : .claimed second ∈ (ledger.act op).1) :
    first.claimedAt + ttlMs ≤ second.claimedAt := by
  cases hread : ledger.read with
  | error line => exact absurd hclaimed (Ledger.torn_claims_nothing hread)
  | ok entries =>
    obtain ⟨wrote, hp, -⟩ := Ledger.shown_pass hread hclaimed fun _ _ => (by simp)
    cases hp with
    | @took entry fresh free =>
      obtain ⟨e, he⟩ := slotEntry_exists (h entries hread).present
      have hguard := (h entries hread).looked_up he
      have hexp := (free e (by rw [show entry.slot = first.slot from hslot]; exact he)).2
      rw [← hguard]
      simp only [isExpired, decide_eq_true_eq] at hexp
      simp only [Entry.guard, ttlMs] at hexp ⊢
      omega

theorem claims_between {ledger ledger' : Ledger} {shown pre mid post : List Event} {first second : SlotGuard}
    (h : Trace Ledger.Step ledger shown ledger')
    (hx : shown = pre ++ .claimed first :: mid ++ .claimed second :: post) (hslot : second.slot = first.slot)
    (hwithin : second.claimedAt < first.claimedAt + ttlMs) : Ended first mid := by
  refine Trace.between (fun _ => True)
    (fun x mid ledger => ∀ first, x = .claimed first → Ended first mid ∨ Stands first ledger)
    (fun x mid y => ∀ first second, x = .claimed first → y = .claimed second → second.slot = first.slot →
      second.claimedAt < first.claimedAt + ttlMs → Ended first mid)
    (fun _ _ _ _ _ => trivial) ?_ ?_ ?_ ?_ trivial h hx first second rfl rfl hslot hwithin
  · rintro ledger before x after ledger' - ⟨op, -, hop⟩ first rfl
    refine .inr fun entries he => ?_
    have hclaimed : .claimed first ∈ (ledger.act op).1 := by rw [hop]; simp
    have hsole := Ledger.claimed_sole hclaimed entries (by rw [hop]; exact he)
    exact ⟨hsole.present, fun e hmem hs => (hsole.all e hmem hs).1⟩
  · rintro ledger x mid out ledger' - hsince ⟨op, -, hop⟩ first rfl
    rcases hsince first rfl with hended | hstands
    · exact .inl (hended.mono fun x hx => List.mem_append_left _ hx)
    · rcases hstands.step op with hended | hstands
      · rw [hop] at hended
        exact .inl (hended.mono fun x hx => List.mem_append_right _ hx)
      · rw [hop] at hstands
        exact .inr hstands
  · rintro ledger before x mid y after ledger' - ⟨op, -, hop⟩ first second rfl rfl - -
    rw [List.append_assoc, List.cons_append] at hop
    obtain ⟨e, held, he⟩ := Ledger.act_tail hop (.claimed second) (by simp)
    cases he
  · rintro ledger x mid before y after ledger' - hsince ⟨op, -, hop⟩ first second rfl rfl hslot hwithin
    rcases hsince first rfl with hended | hstands
    · exact hended.mono fun x hx => List.mem_append_left _ hx
    · have hclaimed : .claimed second ∈ (ledger.act op).1 := by rw [hop]; simp
      have hle := hstands.not_claimed hslot hclaimed
      omega

/-! ## A claim in flight -/

/-- A claim's entry is its slot's only one, and has no receipt. -/
def Flies (first : SlotGuard) (ledger : Ledger) : Prop :=
  ∀ entries, ledger.read = .ok entries → Sole (fun e => e.guard = first ∧ e.receipt = none) first.slot entries

/-- What takes a claim out of flight: one of its guards, or an answer for its slot. -/
def Landed (first : SlotGuard) (shown : List Event) : Prop :=
  (∃ receipt, .resolved first receipt ∈ shown) ∨ ∃ x ∈ shown, x.answers = some first.slot

theorem Landed.mono {first : SlotGuard} {shown shown' : List Event} (h : Landed first shown)
    (hle : ∀ x ∈ shown, x ∈ shown') : Landed first shown' := by
  rcases h with ⟨receipt, h⟩ | ⟨x, h, hx⟩
  · exact .inl ⟨receipt, hle _ h⟩
  · exact .inr ⟨x, hle _ h, hx⟩

theorem Flies.step {first : SlotGuard} {ledger : Ledger} (h : Flies first ledger) (op : Op) :
    Landed first (ledger.act op).1 ∨ Flies first (ledger.act op).2 := by
  have hpass : ∀ entries shown written nowMs, ledger.read = .ok entries →
      Sole (fun e => e.guard = first ∧ e.receipt = none) first.slot entries →
      (∀ x ∈ shown, x ∈ (ledger.act op).1) → Pass entries shown (some (written, nowMs)) →
      Landed first shown ∨ Sole (fun e => e.guard = first ∧ e.receipt = none) first.slot written := by
    intro entries shown written nowMs _ hs _ hp
    cases hp with
    | @took entry fresh free =>
      by_cases hslot : entry.slot = first.slot
      · exact .inl (.inr ⟨_, List.mem_singleton_self _, congrArg some hslot⟩)
      · refine .inr ((hs.filter fun e he _ => ?_).append_other hslot)
        simpa [he] using Ne.symm hslot
    | @gaveUp slot nowMs e found flying =>
      by_cases hslot : slot = first.slot
      · exact .inl (.inr ⟨_, List.mem_singleton_self _, congrArg some hslot⟩)
      · refine .inr (hs.modifyFirst (fun _ => rfl) fun e he hp _ => ?_)
        exact absurd (by simpa [he] using hp) (Ne.symm hslot)
    | @settled guard receipt own =>
      by_cases hg : guard = first
      · subst hg
        exact .inl (.inl ⟨_, List.mem_singleton_self _⟩)
      · refine .inr (hs.modifyFirst (fun _ => rfl) fun e _ hp hQ => ?_)
        exact absurd ((ours_iff.mp hp).symm.trans hQ.1) hg
    | @gaveBack guard own =>
      by_cases hg : guard = first
      · subst hg
        exact .inl (.inl ⟨_, List.mem_singleton_self _⟩)
      · refine .inr (hs.filter fun e _ hQ => ?_)
        cases ho : guard.ours e with
        | false => rfl
        | true => exact absurd ((ours_iff.mp ho).symm.trans hQ.1) hg
  rcases Ledger.sole_step h hpass with ⟨shown, hmem, hexit⟩ | ⟨e, held, hmem, -, ⟨-, hnone⟩, hsome, -⟩ | hflies
  · exact .inl (hexit.mono hmem)
  · rw [hnone] at hsome
    cases hsome
  · exact .inr hflies

/-- The only answer for a slot in flight is fired-unknown. -/
theorem Flies.answered {first : SlotGuard} {ledger : Ledger} (h : Flies first ledger) {op : Op} {x : Event}
    (hx : x ∈ (ledger.act op).1) (hanswers : x.answers = some first.slot) :
    ∃ nowMs, x = .hit first.slot nowMs first.claimedAt .unknown := by
  have hne : ∀ e held, x ≠ .evicted e held := by rintro e held rfl; cases hanswers
  cases hread : ledger.read with
  | error line =>
    have href := (Ledger.act_torn hread op).2
    cases hshown : (ledger.act op).1 with
    | nil => rw [hshown] at hx; cases hx
    | cons y rest =>
      rw [hshown] at hx href
      cases href <;> obtain rfl := List.mem_singleton.mp hx <;> cases hanswers
  | ok entries =>
    have hs := h entries hread
    obtain ⟨wrote, hp, -⟩ := Ledger.shown_pass hread hx hne
    cases hp with
    | @hit slot nowMs e receipt found settled live =>
      obtain rfl := Option.some.inj hanswers
      rw [(hs.looked_up found).2] at settled
      cases settled
    | @took entry fresh free =>
      obtain ⟨e, he⟩ := slotEntry_exists hs.present
      have hsome := (free e (by rw [show entry.slot = first.slot from Option.some.inj hanswers]; exact he)).1
      rw [(hs.looked_up he).2] at hsome
      cases hsome
    | @gaveUp slot nowMs e found flying =>
      obtain rfl := Option.some.inj hanswers
      exact ⟨nowMs, by rw [← (hs.looked_up found).1]; rfl⟩
    | _ => cases hanswers

theorem answer_in_flight {ledger ledger' : Ledger} {shown pre mid post : List Event} {first : SlotGuard} {x : Event}
    (h : Trace Ledger.Step ledger shown ledger') (hx : shown = pre ++ .claimed first :: mid ++ x :: post)
    (hanswers : x.answers = some first.slot) :
    Landed first mid ∨ ∃ nowMs, x = .hit first.slot nowMs first.claimedAt .unknown := by
  refine Trace.between (fun _ => True)
    (fun x mid ledger => ∀ first, x = .claimed first → Landed first mid ∨ Flies first ledger)
    (fun x mid y => ∀ first, x = .claimed first → y.answers = some first.slot →
      Landed first mid ∨ ∃ nowMs, y = .hit first.slot nowMs first.claimedAt .unknown)
    (fun _ _ _ _ _ => trivial) ?_ ?_ ?_ ?_ trivial h hx first rfl hanswers
  · rintro ledger before x after ledger' - ⟨op, -, hop⟩ first rfl
    have hclaimed : .claimed first ∈ (ledger.act op).1 := by rw [hop]; simp
    exact .inr fun entries he => Ledger.claimed_sole hclaimed entries (by rw [hop]; exact he)
  · rintro ledger x mid out ledger' - hsince ⟨op, -, hop⟩ first rfl
    rcases hsince first rfl with hlanded | hflies
    · exact .inl (hlanded.mono fun x hx => List.mem_append_left _ hx)
    · have hstep := hflies.step op
      rw [hop] at hstep
      exact hstep.imp_left fun hlanded => hlanded.mono fun x hx => List.mem_append_right _ hx
  · rintro ledger before x mid y after ledger' - ⟨op, -, hop⟩ first rfl hanswers
    rw [List.append_assoc, List.cons_append] at hop
    obtain ⟨e, held, rfl⟩ := Ledger.act_tail hop y (by simp)
    cases hanswers
  · rintro ledger x mid before y after ledger' - hsince ⟨op, -, hop⟩ first rfl hanswers
    rcases hsince first rfl with hlanded | hflies
    · exact .inl (hlanded.mono fun x hx => List.mem_append_left _ hx)
    · have hy : y ∈ (ledger.act op).1 := by rw [hop]; simp
      exact .inr (hflies.answered hy hanswers)

/-! ## A dead process -/

theorem Ledger.take_guards {ledger : Ledger} {entries : List Entry} {pid : Int} {slot pane action : String}
    {device : Option String} {nowMs : Nat} {guard : SlotGuard}
    (h : guard ∈ (ledger.take entries pid slot pane action device nowMs).2.guards) :
    .claimed guard ∈ (ledger.take entries pid slot pane action device nowMs).1 ∨ guard ∈ ledger.guards := by
  rcases List.mem_cons.mp h with rfl | h
  · exact .inl List.mem_cons_self
  · exact .inr h

theorem Ledger.consume_guards {ledger : Ledger} {g guard : SlotGuard} {receipt : Option Receipt}
    (h : guard ∈ (ledger.consume g receipt).2.guards) : guard ∈ ledger.guards := by
  have hresolve : ∀ l : Ledger, (l.resolve g receipt).2.guards = l.guards := by
    intro l
    unfold Ledger.resolve
    repeat' split
    all_goals rfl
  unfold Ledger.consume at h
  split at h
  · have hleft : guard ∈ (Ledger.resolve { ledger with guards := ledger.guards.erase g } g receipt).2.guards := h
    rw [hresolve] at hleft
    exact List.mem_of_mem_erase hleft
  · exact h

/-- A guard is held because a claim showed it, or was held before. -/
theorem Ledger.act_guards {ledger : Ledger} {op : Op} {guard : SlotGuard}
    (h : guard ∈ (ledger.act op).2.guards) : .claimed guard ∈ (ledger.act op).1 ∨ guard ∈ ledger.guards := by
  cases op with
  | claim pid slot pane action device nowMs waits =>
    simp only [Ledger.act, Ledger.claim] at h ⊢
    split at h
    · exact .inr h
    · split at h
      · exact take_guards h
      · split at h
        · split at h
          · exact .inr h
          · rename_i hexp
            rw [if_neg hexp]
            exact take_guards h
        · split at h
          · exact .inr h
          · exact .inr h
  | write g receipt => exact .inr (consume_guards h)
  | release g => exact .inr (consume_guards h)
  | drop g => exact .inr (consume_guards h)
  | crash pid => exact .inr (List.mem_filter.mp h).1

theorem Ledger.resolve_shows {ledger : Ledger} {guard : SlotGuard} {receipt : Option Receipt} {x : Event}
    (h : x ∈ (ledger.resolve guard receipt).1) : ∃ e held, x = .evicted e held := by
  unfold Ledger.resolve at h
  repeat' split at h
  all_goals first
    | cases h
    | obtain ⟨e, -, -, rfl⟩ := mem_evictions.mp h
      exact ⟨e, _, rfl⟩

/-- The guard an operation resolves, and how. -/
def Op.resolves : Op → Option (SlotGuard × Option Receipt)
  | .write guard receipt => some (guard, some receipt)
  | .release guard => some (guard, none)
  | .drop guard => some (guard, none)
  | .claim .. => none
  | .crash _ => none

/-- The slot and the clock an operation claims by. -/
def Op.asks : Op → Option (String × Nat)
  | .claim _ slot _ _ _ nowMs _ => some (slot, nowMs)
  | _ => none

/-- What an operation shows tells which operation it was. -/
theorem Ledger.act_mem {ledger : Ledger} {op : Op} {x : Event} (h : x ∈ (ledger.act op).1) :
    (∃ e held, x = .evicted e held) ∨ (∃ ask, x.asks = some ask ∧ op.asks = some ask) ∨
      (∃ guard receipt, x = .resolved guard receipt ∧ op.resolves = some (guard, receipt) ∧ guard ∈ ledger.guards) ∨
      ∃ pid, x = .crashed pid ∧ op = .crash pid := by
  have hof : ∀ g r, op.resolves = some (g, r) → x ∈ (ledger.consume g r).1 →
      (∃ e held, x = .evicted e held) ∨ ∃ guard receipt, x = .resolved guard receipt ∧
        op.resolves = some (guard, receipt) ∧ guard ∈ ledger.guards := by
    intro g r hop hg
    unfold Ledger.consume at hg
    split at hg
    · rename_i hheld
      rcases List.mem_cons.mp hg with rfl | hg
      · exact .inr ⟨g, r, rfl, hop, hheld⟩
      · exact .inl (resolve_shows hg)
    · cases hg
  cases op with
  | claim pid slot pane action device nowMs waits =>
    have hhead : ∀ y tail, (ledger.claim pid slot pane action device nowMs waits).1 = y :: tail →
        y.asks = some (slot, nowMs) := by
      intro y tail hy
      unfold Ledger.claim Ledger.take at hy
      repeat' split at hy
      all_goals exact (List.cons.inj hy).1 ▸ rfl
    rcases act_head ledger (.claim pid slot pane action device nowMs waits) with hnil | ⟨y, tail, hout, htail⟩
    · rw [hnil] at h
      cases h
    · rw [hout] at h
      rcases List.mem_cons.mp h with rfl | h
      · exact .inr (.inl ⟨_, hhead _ _ hout, rfl⟩)
      · exact .inl (htail _ h)
  | write g r => exact (hof g (some r) rfl h).imp_right fun h => .inr (.inl h)
  | release g => exact (hof g none rfl h).imp_right fun h => .inr (.inl h)
  | drop g => exact (hof g none rfl h).imp_right fun h => .inr (.inl h)
  | crash pid => exact .inr (.inr (.inr ⟨pid, List.mem_singleton.mp h, rfl⟩))

/-- A resolution is shown by the operation that resolves a guard still held. -/
theorem Ledger.act_resolved {ledger : Ledger} {op : Op} {guard : SlotGuard} {receipt : Option Receipt}
    (h : .resolved guard receipt ∈ (ledger.act op).1) :
    op.resolves = some (guard, receipt) ∧ guard ∈ ledger.guards := by
  rcases act_mem h with ⟨e, held, he⟩ | ⟨ask, hasks, -⟩ | ⟨g, r, hr, hop, hheld⟩ | ⟨pid, hc, -⟩
  · cases he
  · cases hasks
  · obtain ⟨rfl, rfl⟩ := Event.resolved.inj hr
    exact ⟨hop, hheld⟩
  · cases hc

theorem Ledger.act_crashed {ledger : Ledger} {op : Op} {pid : Int} (h : .crashed pid ∈ (ledger.act op).1) :
    op = .crash pid := by
  rcases act_mem h with ⟨e, held, he⟩ | ⟨ask, hasks, -⟩ | ⟨g, r, hr, -, -⟩ | ⟨p, hc, hop⟩
  · cases he
  · cases hasks
  · cases hr
  · rw [hop, Event.crashed.inj hc]

/-- What a process held when it died is never resolved. -/
theorem dead_resolves_nothing {ledger ledger' : Ledger} {shown pre mid post : List Event} {pid : Int}
    {guard : SlotGuard} {receipt : Option Receipt} (h : Trace Ledger.Step ledger shown ledger')
    (hx : shown = pre ++ .crashed pid :: mid ++ .resolved guard receipt :: post) (hpid : guard.pid = pid) :
    .claimed guard ∈ mid := by
  refine Trace.between (fun _ => True)
    (fun x mid ledger => ∀ pid, x = .crashed pid → ∀ guard ∈ ledger.guards, guard.pid = pid → .claimed guard ∈ mid)
    (fun x mid y => ∀ pid guard receipt, x = .crashed pid → y = .resolved guard receipt → guard.pid = pid →
      .claimed guard ∈ mid)
    (fun _ _ _ _ _ => trivial) ?_ ?_ ?_ ?_ trivial h hx pid guard receipt rfl rfl hpid
  · rintro ledger before x after ledger' - ⟨op, -, hop⟩ pid rfl guard hg hpid
    have hcrashed : .crashed pid ∈ (ledger.act op).1 := by rw [hop]; simp
    obtain rfl : op = .crash pid := Ledger.act_crashed hcrashed
    obtain rfl : { ledger with guards := ledger.guards.filter fun g => g.pid ≠ pid } = ledger' :=
      (Prod.mk.inj hop).2
    simp [hpid] at hg
  · rintro ledger x mid out ledger' - hsince ⟨op, -, hop⟩ pid rfl guard hg hpid
    have hafter : guard ∈ (ledger.act op).2.guards := by rw [hop]; exact hg
    have hheld := Ledger.act_guards hafter
    rw [hop] at hheld
    rcases hheld with hclaimed | hheld
    · exact List.mem_append_right _ hclaimed
    · exact List.mem_append_left _ (hsince pid rfl guard hheld hpid)
  · rintro ledger before x mid y after ledger' - ⟨op, -, hop⟩ pid guard receipt rfl rfl -
    rw [List.append_assoc, List.cons_append] at hop
    obtain ⟨e, held, he⟩ := Ledger.act_tail hop (.resolved guard receipt) (by simp)
    cases he
  · rintro ledger x mid before y after ledger' - hsince ⟨op, -, hop⟩ pid guard receipt rfl rfl hpid
    have hresolved : .resolved guard receipt ∈ (ledger.act op).1 := by rw [hop]; simp
    exact List.mem_append_left _ (hsince pid rfl guard (Ledger.act_resolved hresolved).2 hpid)

/-! ## At most once -/

/-- What is true of everything the host's processes are shown. -/
structure AtMostOnce (shown : List Event) : Prop where
  /-- A slot claimed again within the TTL was given back, evicted as a receipt, or taken past the TTL. -/
  apart : ∀ pre first mid second post, shown = pre ++ .claimed first :: mid ++ .claimed second :: post →
    second.slot = first.slot → second.claimedAt < first.claimedAt + ttlMs → Ended first mid
  /-- Only receipts are evicted, and only from over the cap. -/
  spared : ∀ e held, .evicted e held ∈ shown → e.receipt.isSome ∧ maxEntries < held
  /-- The first answer for a slot whose claim nobody resolved is fired-unknown. -/
  unknown : ∀ pre first mid x post, shown = pre ++ .claimed first :: mid ++ x :: post →
    x.answers = some first.slot → (∀ receipt, .resolved first receipt ∉ mid) →
    (∀ y ∈ mid, y.answers ≠ some first.slot) → ∃ nowMs, x = .hit first.slot nowMs first.claimedAt .unknown
  /-- What a process held when it died is never resolved. -/
  dead : ∀ pre pid mid guard receipt post, shown = pre ++ .crashed pid :: mid ++ .resolved guard receipt :: post →
    guard.pid = pid → .claimed guard ∈ mid

theorem Ledger.act_evicted {ledger : Ledger} {op : Op} {e : Entry} {held : Nat}
    (h : .evicted e held ∈ (ledger.act op).1) : e.receipt.isSome ∧ maxEntries < held := by
  cases hread : ledger.read with
  | error line =>
    have href := (act_torn hread op).2
    cases hshown : (ledger.act op).1 with
    | nil => rw [hshown] at h; cases h
    | cons y rest =>
      rw [hshown] at h href
      cases href <;> simp at h
  | ok entries =>
    obtain ⟨shown, wrote, hp, hc⟩ := act_pass hread op
    have hshown : .evicted e held ∉ shown := by
      intro hmem
      cases hp <;> simp at hmem
    cases wrote with
    | none => exact absurd (hc.1 ▸ h) hshown
    | some w =>
      rw [hc.1] at h
      obtain ⟨e', he', hnot, heq⟩ := mem_evictions.mp ((List.mem_append.mp h).resolve_left hshown)
      obtain ⟨rfl, rfl⟩ := Event.evicted.inj heq
      exact evicted_of_not_mem he' hnot

theorem atMostOnce_of_trace {ledger ledger' : Ledger} {shown : List Event}
    (h : Trace Ledger.Step ledger shown ledger') : AtMostOnce shown where
  apart := fun _ _ _ _ _ hx hslot hwithin => claims_between h hx hslot hwithin
  spared := fun e held he => by
    refine Trace.all_shown (fun _ => True) (fun x => ∀ e held, x = .evicted e held → e.receipt.isSome ∧ maxEntries < held)
      (fun _ _ _ _ _ => trivial) ?_ trivial h _ he e held rfl
    rintro ledger out ledger' - ⟨op, -, hop⟩ x hx e held rfl
    exact Ledger.act_evicted (by rw [hop]; exact hx)
  unknown := fun pre first mid x post hx hanswers hresolved hmid => by
    rcases answer_in_flight h hx hanswers with (⟨receipt, hr⟩ | ⟨y, hy, hya⟩) | hunknown
    · exact absurd hr (hresolved receipt)
    · exact absurd hya (hmid y hy)
    · exact hunknown
  dead := fun _ _ _ _ _ _ hx hpid => dead_resolves_nothing h hx hpid

/-- **A slot is dispatched at most once.** From whatever the file holds and whoever holds guards, over any
order of claims, writes, releases, drops and crashes; and a ledger that does not parse claims nothing, ever. -/
theorem claims_apart (ledger : Ledger) (ops : List Op) :
    AtMostOnce (Trace.play Ledger.act ledger ops).1 ∧
      ∀ line, ledger.read = .error line → ∀ guard, .claimed guard ∉ (Trace.play Ledger.act ledger ops).1 := by
  have htrace := Trace.play_trace Ledger.act (Trace.meets_true Ledger.act ledger ops)
  refine ⟨atMostOnce_of_trace htrace, fun line htorn guard hmem => ?_⟩
  refine Trace.all_shown (fun l => l.read = .error line) (fun x => ∀ guard, x ≠ .claimed guard) ?_ ?_ htorn htrace
    _ hmem guard rfl
  · rintro l out l' hread ⟨op, -, hop⟩
    have hfile := (Ledger.act_torn hread op).1
    rw [hop] at hfile
    rwa [Ledger.read, hfile]
  · rintro l out l' hread ⟨op, -, hop⟩ x hx guard rfl
    exact Ledger.torn_claims_nothing hread (by rw [hop]; exact hx)

/-- A clock that stepped back: the slot is taken past the TTL of its receipt, given back, and claimed
again by a clock within the TTL. -/
def steppedBack : List Op :=
  [.claim 1 "s" "%1" "approve" none 0 false, .write ⟨"s", 1, 0⟩ ⟨"sent", none, 0⟩,
    .claim 2 "s" "%1" "approve" none ttlMs false, .release ⟨"s", 2, ttlMs⟩,
    .claim 3 "s" "%1" "approve" none 1 false]

theorem claims_not_apart : ¬ ∀ ops pre first mid second post,
    (Trace.play Ledger.act .new ops).1 = pre ++ .claimed first :: mid ++ .claimed second :: post →
    second.slot = first.slot → second.claimedAt < first.claimedAt + ttlMs →
    .resolved first none ∈ mid ∨ ∃ e held, .evicted e held ∈ mid ∧ e.guard = first := by
  intro h
  have hshown : (Trace.play Ledger.act .new steppedBack).1 =
      [] ++ .claimed ⟨"s", 1, 0⟩ ::
        [.resolved ⟨"s", 1, 0⟩ (some ⟨"sent", none, 0⟩), .claimed ⟨"s", 2, ttlMs⟩, .resolved ⟨"s", 2, ttlMs⟩ none] ++
        .claimed ⟨"s", 3, 1⟩ :: [] := by decide
  rcases h steppedBack _ _ _ _ _ hshown rfl (by decide) with hback | ⟨e, held, hout, -⟩
  · revert hback
    decide
  · simp at hout

end TmuxAgents.Slots
