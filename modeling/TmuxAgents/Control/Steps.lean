/-
Each method of the collector, as the steps it takes.

Every lemma is a total-correctness triple: on accounts that agree
(`Books`) the method returns, and what it returns is reached by the steps
named. The loops go through `Returns.foldlM`; the loop of the budget goes
down in pending bytes.
-/
import TmuxAgents.Control.Turn

namespace TmuxAgents

open Checked

namespace Collector

/-! ## Invalidation -/

theorem renews_invalidated (pane : PaneId) (last : Nat) (reason : ObservationGap) (lost : Bool)
    (stream : PaneStream) : Renews last pane stream (invalidated pane (last + 1) reason lost stream) := by
  refine ⟨rfl, rfl, ?_, _, rfl⟩
  cases lost
  · exact .inr rfl
  · exact .inl rfl

theorem invalidate_none {c : Collector} {pane : PaneId} (h : c.panes.get? pane = none) (reason : ObservationGap)
    (lost : Bool) : c.invalidate pane reason lost = some c := by
  simp only [invalidate, h]

theorem invalidate_eq {c : Collector} {pane : PaneId} {stream : PaneStream}
    (hs : c.panes.get? pane = some stream) (hle : stream.scanner.pendingBytes ≤ c.candidateBytes)
    (reason : ObservationGap) (lost : Bool) :
    c.invalidate pane reason lost =
      some (c.renewed pane stream (invalidated pane (c.epoch + 1) reason lost stream)) := by
  have hle : stream.scanner.pendingBytes ≤ (c.discardQueued pane).candidateBytes := hle
  simp only [invalidate, hs, usub_of_le hle]
  rfl

theorem invalidate_some {c : Collector} (hb : Books c) {pane : PaneId} {stream : PaneStream}
    (hs : c.panes.get? pane = some stream) (reason : ObservationGap) (lost : Bool) :
    c.invalidate pane reason lost =
      some (c.renewed pane stream (invalidated pane (c.epoch + 1) reason lost stream)) :=
  invalidate_eq hs (hb.pending_le hs) reason lost

/-- Renewing a stream keeps the panes that are tracked. -/
theorem contains_renewed {c : Collector} {pane : PaneId} {stream stream' : PaneStream}
    (hs : c.panes.get? pane = some stream) (q : PaneId) :
    (c.renewed pane stream stream').panes.contains q = c.panes.contains q := by
  simp only [SortedMap.contains, renewed, SortedMap.get?_insert]
  by_cases h : q = pane
  · simp [h, hs]
  · simp [h]

/-- Bookkeeping, pane by pane. -/
structure Managed (c c' : Collector) : Prop where
  steps : Admins c c'
  turns : ∀ pane, Turn pane c c'

theorem Managed.refl (c : Collector) : Managed c c := ⟨.refl, fun pane => .refl pane c⟩

theorem Managed.trans {a b c : Collector} (h₁ : Managed a b) (h₂ : Managed b c) : Managed a c :=
  ⟨h₁.steps.trans h₂.steps, fun pane => (h₁.turns pane).trans (h₂.turns pane)⟩

theorem managed_renewed {c : Collector} {pane : PaneId} {stream stream' : PaneStream}
    (hs : c.panes.get? pane = some stream) (h : Renews c.epoch pane stream stream') :
    Managed c (c.renewed pane stream stream') :=
  ⟨.single (.renew hs h), turn_renewed h⟩

/-- Bookkeeping that tracks and forgets no pane. -/
structure Quiet (c c' : Collector) : Prop extends Managed c c' where
  tracked : ∀ q, c'.panes.contains q = c.panes.contains q

theorem Quiet.refl (c : Collector) : Quiet c c := ⟨.refl c, fun _ => rfl⟩

theorem Quiet.trans {a b c : Collector} (h₁ : Quiet a b) (h₂ : Quiet b c) : Quiet a c :=
  ⟨h₁.toManaged.trans h₂.toManaged, fun q => (h₂.tracked q).trans (h₁.tracked q)⟩

theorem invalidate_quiet {c : Collector} (hb : Books c) (pane : PaneId) (reason : ObservationGap) (lost : Bool) :
    Returns (c.invalidate pane reason lost) fun c' => Quiet c c' ∧ Ended pane c c' := by
  cases hs : c.panes.get? pane with
  | none => exact ⟨c, invalidate_none hs reason lost, .refl c, ended_of_untracked hs hs⟩
  | some stream =>
    have hr := renews_invalidated pane c.epoch reason lost stream
    exact ⟨_, invalidate_some hb hs reason lost, ⟨managed_renewed hs hr, contains_renewed hs⟩, ended_renewed hr⟩

theorem invalidateAll_quiet {c : Collector} (hb : Books c) (panes : List PaneId) (reason : ObservationGap)
    (lost : Bool) : Returns (c.invalidateAll panes reason lost) fun c' =>
      Quiet c c' ∧ ∀ pane ∈ panes, Ended pane c c' := by
  -- A pane of the list is still to come, or its epoch is over.
  have hloop := Returns.foldlM (fun rest c' => Quiet c c' ∧ ∀ pane ∈ panes, pane ∈ rest ∨ Ended pane c c')
    (f := fun c pane => c.invalidate pane reason lost) (l := panes) (b := c) (fun pane rest c₁ h₁ => ?_)
    ⟨.refl c, fun pane hp => .inl hp⟩
  · exact hloop.mono fun c' h => ⟨h.1, fun pane hp => (h.2 pane hp).resolve_left List.not_mem_nil⟩
  · obtain ⟨hquiet, hpanes⟩ := h₁
    refine (invalidate_quiet (hquiet.steps.books hb).1 pane reason lost).mono fun c₂ ⟨h₂, hended⟩ => ?_
    refine ⟨hquiet.trans h₂, fun q hq => ?_⟩
    rcases hpanes q hq with hmem | he
    · rcases List.mem_cons.mp hmem with rfl | hmem
      · exact .inr ((hquiet.turns q).trans_ended (h₂.turns q).created hended)
      · exact .inl hmem
    · exact .inr (he.trans_turn (hquiet.turns q).epoch (h₂.turns q))

/-! ## Budget -/

/-- What a pane holds is charged. -/
theorem Books.paneBytes_le {c : Collector} (hb : Books c) {pane : PaneId} {stream : PaneStream}
    (hs : c.panes.get? pane = some stream) :
    (c.renewed pane stream (invalidated pane (c.epoch + 1) .budgetExceeded false stream)).pendingBytes +
      c.paneBytes pane stream = c.pendingBytes := by
  have hqueue := eventBytes_filter_add (fun event => event.pane == pane) c.queue
  have hle := hb.pending_le hs
  have hqueued : c.queuedBytes = eventBytes c.queue := hb.queued
  change eventBytes (c.queue.filter fun event => event.pane != pane) +
      (c.candidateBytes - stream.scanner.pendingBytes) +
      (stream.scanner.pendingBytes + eventBytes (c.queue.filter fun event => event.pane == pane)) =
    c.queuedBytes + c.candidateBytes
  have hne : (c.queue.filter fun event => event.pane != pane) = c.queue.filter fun event => !(event.pane == pane) := rfl
  rw [hne]
  omega

/-- The panes that hold bytes, with how many. -/
theorem mem_charged {c : Collector} {bytes : Nat} {pane : PaneId} :
    (bytes, pane) ∈ (c.panes.entries.map fun (pane, stream) => (c.paneBytes pane stream, pane)).filter
        (fun (bytes, _) => 0 < bytes) ↔
      ∃ stream, c.panes.get? pane = some stream ∧ bytes = c.paneBytes pane stream ∧ 0 < bytes := by
  simp only [List.mem_filter, List.mem_map, Prod.exists, Prod.mk.injEq, decide_eq_true_eq]
  constructor
  · rintro ⟨⟨p, stream, hs, rfl, rfl⟩, hpos⟩
    exact ⟨stream, SortedMap.mem_entries.mp hs, rfl, hpos⟩
  · rintro ⟨stream, hs, rfl, hpos⟩
    exact ⟨⟨pane, stream, SortedMap.mem_entries.mpr hs, rfl, rfl⟩, hpos⟩

/-- While bytes are pending, some pane holds some. -/
theorem Books.exists_victim {c : Collector} (hb : Books c) (h : 0 < c.pendingBytes) :
    ∃ pane stream, c.victim = some pane ∧ c.panes.get? pane = some stream ∧ 0 < c.paneBytes pane stream := by
  have hholds : ∃ pane stream, c.panes.get? pane = some stream ∧ 0 < c.paneBytes pane stream := by
    by_cases hc : 0 < c.candidateBytes
    · rw [hb.candidates] at hc
      obtain ⟨bytes, hmem, hpos⟩ := List.exists_mem_ne_zero_of_sum_ne_zero (Nat.pos_iff_ne_zero.mp hc)
      obtain ⟨stream, hstream, rfl⟩ := List.mem_map.mp hmem
      obtain ⟨pane, hs⟩ := SortedMap.mem_values.mp hstream
      exact ⟨pane, stream, hs, Nat.add_pos_left (Nat.pos_of_ne_zero hpos) _⟩
    · have hq : 0 < eventBytes c.queue := by
        rw [← hb.queued]
        unfold pendingBytes at h
        omega
      obtain ⟨bytes, hmem, hpos⟩ := List.exists_mem_ne_zero_of_sum_ne_zero (Nat.pos_iff_ne_zero.mp hq)
      obtain ⟨event, hevent, rfl⟩ := List.mem_map.mp hmem
      obtain ⟨stream, hs, -⟩ := hb.current event hevent
      refine ⟨event.pane, stream, hs, Nat.add_pos_right _ ?_⟩
      refine Nat.pos_of_ne_zero fun hzero => hpos ?_
      exact List.sum_eq_zero_iff_forall_eq_nat.mp hzero _ (List.mem_map_of_mem (List.mem_filter.mpr ⟨hevent, by simp⟩))
  cases hmax : c.victim with
  | none =>
    rw [victim, Option.map_eq_none_iff, Choose.maxByKey_eq_none] at hmax
    obtain ⟨pane, stream, hs, hpos⟩ := hholds
    have hmem := mem_charged.mpr ⟨stream, hs, rfl, hpos⟩
    rw [hmax] at hmem
    cases hmem
  | some pane =>
    rw [victim, Option.map_eq_some_iff] at hmax
    obtain ⟨found, hmax, rfl⟩ := hmax
    obtain ⟨stream, hs, heq, hpos⟩ := mem_charged.mp (Choose.maxByKey_mem hmax)
    exact ⟨found.2, stream, rfl, hs, heq ▸ hpos⟩

/-- **The loop of the budget ends**, with no more pending than was allowed. -/
theorem evictPanes_quiet (available : Nat) : ∀ {fuel : Nat} {c : Collector}, Books c → c.pendingBytes < fuel →
    Returns (evictPanes available fuel c) fun c' => Quiet c c' ∧ c'.pendingBytes ≤ available
  | 0, c, _, hfuel => absurd hfuel (Nat.not_lt_zero _)
  | fuel + 1, c, hb, hfuel => by
    unfold evictPanes
    by_cases hover : c.pendingBytes > available
    · rw [if_pos hover]
      obtain ⟨pane, stream, hv, hs, hpos⟩ := hb.exists_victim (Nat.lt_of_le_of_lt (Nat.zero_le _) hover)
      have hless := hb.paneBytes_le hs
      have heq := invalidate_some hb hs .budgetExceeded false
      have hquiet := ((invalidate_quiet hb pane .budgetExceeded false).of_eq heq).1
      simp only [hv, heq, Option.bind_eq_bind, Option.bind_some]
      have hfuel : (c.renewed pane stream (invalidated pane (c.epoch + 1) .budgetExceeded false stream)).pendingBytes
          < fuel := by omega
      exact (evictPanes_quiet available (hquiet.steps.books hb).1 hfuel).mono fun c' h => ⟨hquiet.trans h.1, h.2⟩
    · rw [if_neg hover]
      exact ⟨c, rfl, .refl c, Nat.le_of_not_gt hover⟩

/-- The loop's result does not depend on the fuel, once it has enough. -/
theorem evictPanes_fuel (available : Nat) : ∀ {fuel : Nat} {c c' : Collector},
    evictPanes available fuel c = some c' → evictPanes available (fuel + 1) c = some c'
  | 0, _, _, h => by cases h
  | fuel + 1, c, c', h => by
    unfold evictPanes at h ⊢
    split at h
    · rename_i hover
      rw [if_pos hover]
      cases hv : c.victim with
      | none => simpa only [hv] using h
      | some pane =>
        simp only [hv, Option.bind_eq_bind, Option.bind_eq_some_iff] at h ⊢
        obtain ⟨c₁, h₁, h⟩ := h
        exact ⟨c₁, h₁, evictPanes_fuel available h⟩
    · rename_i hover
      rw [if_neg hover]
      exact h

theorem Books.setBudget {c : Collector} (hb : Books c) (available : Nat) :
    Books { c with payloadBudget := available } := (Micro.budget available).books hb

theorem setPayloadBudget_steps {c : Collector} (hb : Books c) (available : Nat) :
    Returns (c.setPayloadBudget available) fun c' =>
      Quiet { c with payloadBudget := available } c' ∧ c'.pendingBytes ≤ available :=
  evictPanes_quiet available (hb.setBudget available) (Nat.lt_succ_self _)

/-! ## Topology -/

theorem topologyFailed_steps {c : Collector} (hb : Books c) : Returns c.topologyFailed (Managed c) := by
  have hflag : Admin c { c with topologyReady := false } := .flags false c.overflows
  refine (invalidateAll_quiet (hflag.books hb).1 c.panes.keys .framingLoss true).mono fun c' ⟨hquiet, hended⟩ => ?_
  refine ⟨.head hflag hquiet.steps, fun pane => ⟨(hquiet.turns pane).epoch, (hquiet.turns pane).created, .inr ?_⟩⟩
  cases hs : c.panes.get? pane with
  | some stream =>
    obtain ⟨hstream, hcreated⟩ := hended pane (SortedMap.mem_keys.mpr ⟨stream, hs⟩)
    exact ⟨hstream, hcreated⟩
  | none =>
    refine ended_of_untracked hs (SortedMap.contains_eq_false.mp ?_)
    rw [hquiet.tracked pane]
    exact SortedMap.contains_eq_false.mpr hs

theorem clientGap_steps {c : Collector} (hb : Books c) (session : SessionId) (reason : ObservationGap) :
    Returns (c.clientGap session reason) (Managed c) :=
  (invalidateAll_quiet hb _ reason true).mono fun _ h => h.1.toManaged

/-- One pass over a topology keeps what its map of eligible panes says. -/
theorem eligible_foldl {clients : SortedMap SessionId Nat} (topology : List (SessionId × PaneId))
    {eligible : SortedMap PaneId (SortedMap SessionId Unit)}
    (h : ∀ pane sessions, eligible.get? pane = some sessions → sessions.keys ≠ [] ∧
      ∀ session, sessions.contains session = true → clients.contains session = true) :
    ∀ pane sessions, (topology.foldl (fun eligible (session, pane) =>
      if clients.contains session then
        eligible.insert pane (((eligible.get? pane).getD .empty).insert session ())
      else eligible) eligible).get? pane = some sessions → sessions.keys ≠ [] ∧
        ∀ session, sessions.contains session = true → clients.contains session = true := by
  induction topology generalizing eligible with
  | nil => exact h
  | cons found topology ih =>
    obtain ⟨session₀, pane₀⟩ := found
    rw [List.foldl_cons]
    refine ih fun pane sessions hs => ?_
    dsimp only at hs
    by_cases hc : clients.contains session₀ = true
    · rw [if_pos hc, SortedMap.get?_insert] at hs
      by_cases hp : pane = pane₀
      · rw [if_pos hp, Option.some.injEq] at hs
        subst hs
        refine ⟨fun hnil => ?_, fun session hsession => ?_⟩
        · have : session₀ ∈ (((eligible.get? pane₀).getD .empty).insert session₀ ()).keys :=
            SortedMap.mem_keys.mpr ⟨(), by simp⟩
          rw [hnil] at this
          cases this
        · by_cases he : session = session₀
          · exact he ▸ hc
          · have hold : ((eligible.get? pane₀).getD .empty).contains session = true := by
              simpa [SortedMap.contains, he] using hsession
            cases hg : eligible.get? pane₀ with
            | none => simp [hg, SortedMap.contains] at hold
            | some old => exact (h pane₀ old hg).2 session (by simpa [hg] using hold)
      · rw [if_neg hp] at hs
        exact h pane sessions hs
    · rw [if_neg hc] at hs
      exact h pane sessions hs

/-- Every eligible pane has a session, and every session of it a client. -/
theorem eligiblePanes_sessions {topology : List (SessionId × PaneId)} {clients : SortedMap SessionId Nat}
    {pane : PaneId} {sessions : SortedMap SessionId Unit}
    (h : (eligiblePanes topology clients).get? pane = some sessions) :
    sessions.keys ≠ [] ∧ ∀ session, sessions.contains session = true → clients.contains session = true :=
  eligible_foldl topology (fun pane sessions h => by simp at h) pane sessions h

/-- A pane that was just invalidated may leave. -/
theorem leaving_renewed {c : Collector} {pane : PaneId} {stream stream' : PaneStream} {gap : ObservedEvent}
    (h : Renews c.epoch pane stream stream') (hgap : stream'.pendingGap = some gap) :
    Leaving (c.renewed pane stream stream') pane stream' gap := by
  refine ⟨by simp [renewed], hgap, fun e he => by simpa using (List.mem_filter.mp he).2, ?_⟩
  rcases h.scanner with hs | hs <;> simp [hs]

theorem contains_erase {panes : SortedMap PaneId PaneStream} {pane q : PaneId} (hq : q ≠ pane) :
    (panes.erase pane).contains q = panes.contains q := by
  simp [SortedMap.contains, hq]

/-- Removing a tracked pane leaves the others tracked. -/
theorem removePane_steps {c : Collector} (hb : Books c) {pane : PaneId} (ht : c.panes.contains pane = true) :
    Returns (c.removePane pane) fun c' => Managed c c' ∧
      ∀ q, q ≠ pane → c.panes.contains q = true → c'.panes.contains q = true := by
  obtain ⟨stream, hs⟩ := SortedMap.contains_iff.mp ht
  have hr := renews_invalidated pane c.epoch .ownerChanged false stream
  have hrenew : Admin c _ := .renew hs hr
  have hb₁ := (hrenew.books hb).1
  have hl := leaving_renewed hr rfl
  have htracked : ∀ q, q ≠ pane → ((c.renewed pane stream (invalidated pane (c.epoch + 1) .ownerChanged false
      stream)).panes.erase pane).contains q = c.panes.contains q := fun q hq => by
    rw [contains_erase hq, contains_renewed hs]
  unfold removePane
  simp only [invalidate_some hb hs, Option.bind_eq_bind, Option.bind_some, hl.tracked]
  split
  · have hover := Admin.overflow hl (c.retiredRejections + (invalidated pane (c.epoch + 1) .ownerChanged false
      stream).scanner.rejected) (c.overflows + 1)
    refine (invalidateAll_quiet (hover.books hb₁).1 _ .queueOverflow false).mono fun c' ⟨hquiet, hended⟩ => ?_
    refine ⟨⟨.head hrenew (.head hover hquiet.steps), fun q => ?_⟩, fun q hq hc => ?_⟩
    · have hturn := hquiet.turns q
      refine ⟨(Nat.le_succ _).trans hturn.epoch, (List.prefix_append ..).trans hturn.created, .inr ?_⟩
      by_cases hq : q = pane
      · subst hq
        refine (ended_renewed hr).forget (SortedMap.contains_eq_false.mp ?_) hturn.created
        rw [hquiet.tracked]
        simp [SortedMap.contains]
      · cases hc : c.panes.contains q with
        | true =>
          have hmem := SortedMap.mem_keys.mpr (SortedMap.contains_iff.mp ((htracked q hq).trans hc))
          exact (hended q hmem).of_le (Nat.le_succ _) fun _ => (htracked q hq).trans hc
        | false =>
          refine ended_of_untracked (SortedMap.contains_eq_false.mp hc) (SortedMap.contains_eq_false.mp ?_)
          rw [hquiet.tracked]
          exact (htracked q hq).trans hc
    · rw [hquiet.tracked]
      exact (htracked q hq).trans hc
  · refine ⟨_, rfl, ⟨.head hrenew (.single (.depart hl _)), fun q => ⟨Nat.le_succ _, List.prefix_append .., ?_⟩⟩,
      fun q hq hc => (htracked q hq).trans hc⟩
    by_cases hq : q = pane
    · subst hq
      exact .inr ((ended_renewed hr).forget (by simp) (List.prefix_refl _))
    · exact .inl ((kept_renewed hr hq).trans ⟨by simp [hq], rfl, rfl, id⟩)

/-- A stream handed to another owner or client is renewed. -/
theorem selectPane_steps {c : Collector} (hb : Books c) {clients : SortedMap SessionId Nat}
    {found : PaneId × SortedMap SessionId Unit} (hne : found.2.keys ≠ [])
    (hclients : ∀ session, found.2.contains session = true → clients.contains session = true) :
    Returns (selectPane clients c found) (Managed c) := by
  have howner : Returns (c.selectOwner found.1 found.2) fun owner => found.2.contains owner = true := by
    unfold selectOwner
    cases hf : (c.panes.get? found.1).filter fun stream => found.2.contains stream.owner with
    | some stream => exact ⟨stream.owner, rfl, (Option.filter_eq_some_iff.mp hf).2⟩
    | none =>
      obtain ⟨owner, hh⟩ := Option.isSome_iff_exists.mp (List.isSome_head?.mpr hne)
      exact ⟨owner, hh, SortedMap.contains_iff.mpr (SortedMap.mem_keys.mp (List.mem_of_mem_head? hh))⟩
  unfold selectPane
  refine Returns.bind howner fun owner ho => ?_
  obtain ⟨client, hclient⟩ := SortedMap.contains_iff.mp (hclients owner ho)
  simp only [hclient, Option.bind_eq_bind, Option.bind_some]
  cases hs : c.panes.get? found.1 with
  | none => exact ⟨_, rfl, .single (.track owner client hs), turn_track owner client hs⟩
  | some stream =>
    dsimp only
    split
    · exact ⟨c, rfl, .refl c⟩
    · have hr := renews_invalidated found.1 c.epoch .ownerChanged true stream
      rw [invalidate_some hb hs, Option.bind_some, (leaving_renewed hr rfl).tracked, Option.bind_some]
      have hr' : Renews c.epoch found.1 stream { invalidated found.1 (c.epoch + 1) .ownerChanged true stream with
        owner, client, paused := false, quarantine := false } := ⟨rfl, rfl, hr.scanner, hr.gap⟩
      refine ⟨_, rfl, ?_⟩
      convert managed_renewed hs hr' using 1
      simp only [renewed, SortedMap.insert_insert]

theorem reconcile_steps {c : Collector} (hb : Books c) (topology : List (SessionId × PaneId))
    (clients : SortedMap SessionId Nat) : Returns (c.reconcile topology clients) (Managed c) := by
  unfold reconcile
  -- Each pane to remove is still tracked when its turn comes: a removal forgets one pane.
  have hremoved : Returns ((c.panes.keys.filter fun pane => !(eligiblePanes topology clients).contains pane).foldlM
      removePane c) (Managed c) := by
    refine (Returns.foldlM (fun rest c' => Managed c c' ∧ rest.Nodup ∧ ∀ q ∈ rest, c'.panes.contains q = true)
      (fun pane rest c₁ h => ?_) ⟨.refl c, c.panes.keys_nodup.filter _, fun q hq => ?_⟩).mono fun _ h => h.1
    · obtain ⟨hmanaged, hnodup, htracked⟩ := h
      obtain ⟨hnot, hnodup⟩ := List.nodup_cons.mp hnodup
      refine (removePane_steps (hmanaged.steps.books hb).1 (htracked pane List.mem_cons_self)).mono fun c₂ h₂ => ?_
      refine ⟨hmanaged.trans h₂.1, hnodup, fun q hq => h₂.2 q ?_ (htracked q (List.mem_cons_of_mem _ hq))⟩
      exact fun heq => hnot (heq ▸ hq)
    · exact SortedMap.contains_iff.mpr (SortedMap.mem_keys.mp (List.mem_filter.mp hq).1)
  refine Returns.bind hremoved fun c₁ h₁ => ?_
  have hselected : Returns ((eligiblePanes topology clients).entries.foldlM (selectPane clients) c₁) (Managed c) := by
    refine (Returns.foldlM (fun rest c' => Managed c c' ∧ ∀ found ∈ rest,
        found ∈ (eligiblePanes topology clients).entries) (fun found rest c₂ h => ?_)
      ⟨h₁, fun _ h => h⟩).mono fun _ h => h.1
    obtain ⟨hmanaged, hmem⟩ := h
    obtain ⟨hne, hclients⟩ := eligiblePanes_sessions (SortedMap.mem_entries.mp (hmem found List.mem_cons_self))
    refine (selectPane_steps (hmanaged.steps.books hb).1 hne hclients).mono fun c₃ h₃ => ?_
    exact ⟨hmanaged.trans h₃, fun found' hf => hmem found' (List.mem_cons_of_mem _ hf)⟩
  refine Returns.bind hselected fun c₂ h₂ => ⟨_, rfl, h₂.trans ⟨.single (.flags true c₂.overflows), fun pane => ?_⟩⟩
  exact ⟨Nat.le_refl _, List.prefix_refl _, .inl ⟨rfl, rfl, rfl, fun _ => rfl⟩⟩

/-! ## Boundaries and decoded items -/

/-- What a boundary leaves of a tracked pane, and what it answers. -/
theorem boundary_some {c : Collector} (hb : Books c) {pane : PaneId} {stream : PaneStream}
    (hs : c.panes.get? pane = some stream) (inPayload : Bool) :
    c.boundary pane inPayload = some
      (some { connection := c.epoch + 1, sequenceFloor := stream.sequence + 1 },
        c.renewed pane stream { invalidated pane (c.epoch + 1) .ownerChanged false stream with
          quarantine := inPayload }) := by
  have hl := leaving_renewed (renews_invalidated pane c.epoch .ownerChanged false stream) rfl
  simp only [boundary, invalidate_some hb hs, Option.bind_eq_bind, Option.bind_some, hl.tracked]
  simp only [renewed, SortedMap.insert_insert]
  rfl

theorem boundary_none {c : Collector} {pane : PaneId} (hs : c.panes.get? pane = none) (inPayload : Bool) :
    c.boundary pane inPayload = some (none, c) := by
  simp [boundary, invalidate_none hs, hs]

theorem boundary_steps {c : Collector} (hb : Books c) (pane : PaneId) (inPayload : Bool) :
    Returns (c.boundary pane inPayload) fun result => Managed c result.2 := by
  cases hs : c.panes.get? pane with
  | none => exact ⟨_, boundary_none hs inPayload, .refl c⟩
  | some stream =>
    have hr := renews_invalidated pane c.epoch .ownerChanged false stream
    exact ⟨_, boundary_some hb hs inPayload, managed_renewed hs ⟨hr.epoch, hr.sequence, hr.scanner, hr.gap⟩⟩

/-- The collector once a byte has moved a pane's scanner. -/
def fedTo (c : Collector) (pane : PaneId) (stream : PaneStream) (scanner : Scanner) : Collector :=
  c.rescanned pane stream { stream with scanner }

/-- There is room for what a pane's scanner holds, and for the event it completed. -/
structure Room (c : Collector) (event : Option ProgramEvent) : Prop where
  pending : c.pendingBytes ≤ c.payloadBudget
  event : ∀ e, event = some e → c.pendingBytes + payloadBytes e ≤ c.payloadBudget ∧
    c.queue.length < maxProgramEvents ∧ c.queuedBytes + payloadBytes e ≤ maxProgramPayloadBytes

theorem fedTo_get? (c : Collector) (pane : PaneId) (stream : PaneStream) (scanner : Scanner) :
    (c.fedTo pane stream scanner).panes.get? pane = some { stream with scanner } := by
  simp [fedTo, rescanned]

theorem fedTo_micro {c : Collector} {pane : PaneId} {stream : PaneStream} (hs : c.panes.get? pane = some stream)
    (scanner : Scanner) : Micro c (c.fedTo pane stream scanner) := .rescan hs rfl

theorem chargeScanner_eq {c : Collector} (hb : Books c) {pane : PaneId} {stream : PaneStream}
    (hs : c.panes.get? pane = some stream) (scanner : Scanner) :
    c.chargeScanner pane stream scanner = some (c.fedTo pane stream scanner) := by
  simp only [chargeScanner, usub_of_le (hb.pending_le hs), Option.bind_eq_bind, Option.bind_some]
  rfl

/-- An event is pushed when there is room for it, and ends the epoch when there is none. -/
theorem enqueue_room {c : Collector} (hb : Books c) {pane : PaneId} {stream : PaneStream}
    (hs : c.panes.get? pane = some stream) (event : ProgramEvent) (hpending : c.pendingBytes ≤ c.payloadBudget) :
    (Room c (some event) → c.enqueue pane event = some (c.pushed pane stream event)) ∧
    (¬Room c (some event) → ∃ overflows reason, c.enqueue pane event = some ({ c with overflows }.renewed pane stream
      (invalidated pane (c.epoch + 1) reason false stream))) := by
  simp only [enqueue, usub_of_le hpending, Option.bind_eq_bind, Option.bind_some]
  have hroom : Room c (some event) ↔ ¬payloadBytes event > c.payloadBudget - c.pendingBytes ∧
      ¬(c.queue.length ≥ maxProgramEvents ∨ c.queuedBytes + payloadBytes event > maxProgramPayloadBytes) := by
    refine ⟨fun h => ?_, fun h => ⟨hpending, ?_⟩⟩
    · obtain ⟨h₁, h₂, h₃⟩ := h.event event rfl
      omega
    · rintro _ ⟨⟩
      omega
  rw [hroom]
  by_cases hbytes : payloadBytes event > c.payloadBudget - c.pendingBytes
  · rw [if_pos hbytes]
    exact ⟨fun h => absurd hbytes h.1, fun _ => ⟨c.overflows, .budgetExceeded, invalidate_some hb hs ..⟩⟩
  rw [if_neg hbytes]
  by_cases hcap : c.queue.length ≥ maxProgramEvents ∨ c.queuedBytes + payloadBytes event > maxProgramPayloadBytes
  · rw [if_pos hcap]
    refine ⟨fun h => absurd hcap h.2, fun _ => ⟨c.overflows + 1, .queueOverflow, ?_⟩⟩
    have hflag : Admin c { c with overflows := c.overflows + 1 } := .flags c.topologyReady _
    exact invalidate_some (hflag.books hb).1 hs ..
  · rw [if_neg hcap, hs]
    exact ⟨fun _ => rfl, fun h => absurd ⟨hbytes, hcap⟩ h⟩

theorem accepts_eq_some {c : Collector} {session : SessionId} {client : Nat} {pane : PaneId} {stream : PaneStream} :
    c.accepts session client pane = some stream ↔ c.topologyReady = true ∧ c.panes.get? pane = some stream ∧
      stream.owner = session ∧ stream.client = client := by
  unfold accepts
  split <;> simp [Option.filter_eq_some_iff, *]

/-- An invalidation with the pause set by the way. -/
theorem setPaused_steps {c : Collector} (hb : Books c) {pane : PaneId} {stream : PaneStream}
    (hs : c.panes.get? pane = some stream) (paused : Bool) (reason : ObservationGap) (lost : Bool) :
    Returns ({ c with panes := c.panes.insert pane { stream with paused } }.invalidate pane reason lost)
      (Managed c) := by
  have hinsert : ({ c with panes := c.panes.insert pane { stream with paused } } : Collector).panes.get? pane =
    some { stream with paused } := by simp
  rw [invalidate_eq hinsert (hb.pending_le hs :)]
  have hr := renews_invalidated pane c.epoch reason lost { stream with paused }
  refine ⟨_, rfl, ?_⟩
  convert managed_renewed hs (⟨hr.epoch, hr.sequence, hr.scanner, hr.gap⟩ : Renews c.epoch pane stream _) using 1
  simp only [renewed, SortedMap.insert_insert]
  rfl

theorem pendingBytes_fedTo {c : Collector} (hb : Books c) {pane : PaneId} {stream : PaneStream}
    (hs : c.panes.get? pane = some stream) (scanner : Scanner) :
    (c.fedTo pane stream scanner).pendingBytes + stream.scanner.pendingBytes =
      c.pendingBytes + scanner.pendingBytes := by
  have hle := hb.pending_le hs
  change c.queuedBytes + (c.candidateBytes - stream.scanner.pendingBytes + scanner.pendingBytes) + _ =
    c.queuedBytes + c.candidateBytes + _
  omega

/-- What a renewal leaves pending. -/
theorem pendingBytes_renewed {c : Collector} (hb : Books c) {pane : PaneId} {stream : PaneStream}
    (hs : c.panes.get? pane = some stream) (stream' : PaneStream) :
    (c.renewed pane stream stream').pendingBytes + stream.scanner.pendingBytes ≤ c.pendingBytes := by
  have hle := hb.pending_le hs
  have hqueue := eventBytes_filter_le (fun event => event.pane != pane) c.queue
  have hqueued := hb.queued
  change eventBytes (c.queue.filter fun event => event.pane != pane) +
    (c.candidateBytes - stream.scanner.pendingBytes) + _ ≤ c.queuedBytes + c.candidateBytes
  omega

/-! ## Every method -/

/-- Agreeing accounts, within the allowance. -/
structure Sound (c : Collector) : Prop where
  books : Books c
  allowance : c.pendingBytes ≤ c.payloadBudget

theorem Sound.admins {c c' : Collector} (h : Sound c) (hsteps : Admins c c') : Sound c' := by
  obtain ⟨hb, hle, hbudget⟩ := hsteps.books h.books
  exact ⟨hb, hbudget ▸ hle.trans h.allowance⟩

variable [Base64]

/-- What a byte of an accepted stream does: it completes nothing, completes an event, or
exceeds a budget or a cap and ends the epoch. -/
inductive Fed (c : Collector) (pane : PaneId) (stream : PaneStream) (byte : UInt8) : Collector → Prop
  | quarantined (hq : stream.quarantine = true) :
    Fed c pane stream byte (c.fedTo pane stream (stream.scanner.feedQuarantined byte))
  | silent (hq : stream.quarantine = false) (h : (stream.scanner.feed byte).1 = none)
    (hroom : Room (c.fedTo pane stream (stream.scanner.feed byte).2) none) :
    Fed c pane stream byte (c.fedTo pane stream (stream.scanner.feed byte).2)
  | emitted {event : ProgramEvent} (hq : stream.quarantine = false)
    (h : (stream.scanner.feed byte).1 = some event)
    (hroom : Room (c.fedTo pane stream (stream.scanner.feed byte).2) (some event)) :
    Fed c pane stream byte ((c.fedTo pane stream (stream.scanner.feed byte).2).pushed pane
      { stream with scanner := (stream.scanner.feed byte).2 } event)
  | lost (hq : stream.quarantine = false) (overflows : Nat) (reason : ObservationGap)
    (hroom : ¬Room (c.fedTo pane stream (stream.scanner.feed byte).2) (stream.scanner.feed byte).1) :
    Fed c pane stream byte ({ c.fedTo pane stream (stream.scanner.feed byte).2 with overflows }.renewed pane
      { stream with scanner := (stream.scanner.feed byte).2 }
      (invalidated pane (c.epoch + 1) reason false { stream with scanner := (stream.scanner.feed byte).2 }))

/-- **A byte of an accepted stream**, on accounts that agree. -/
theorem decodedByte_fed {c : Collector} (hb : Books c) {pane : PaneId} {stream : PaneStream}
    (hs : c.panes.get? pane = some stream) (byte : UInt8) :
    Returns (c.decodedByte pane stream byte) (Fed c pane stream byte) := by
  unfold decodedByte
  by_cases hq : stream.quarantine = true
  · rw [if_pos hq, chargeScanner_eq hb hs]
    exact ⟨_, rfl, .quarantined hq⟩
  rw [if_neg hq]
  have hq : stream.quarantine = false := by simpa using hq
  have hb₁ := (fedTo_micro hs (stream.scanner.feed byte).2).books hb
  have hs₁ := fedTo_get? c pane stream (stream.scanner.feed byte).2
  simp only [chargeScanner_eq hb hs, Option.bind_eq_bind, Option.bind_some]
  by_cases hover : (c.fedTo pane stream (stream.scanner.feed byte).2).pendingBytes >
      (c.fedTo pane stream (stream.scanner.feed byte).2).payloadBudget
  · rw [if_pos hover, invalidate_some hb₁ hs₁]
    exact ⟨_, rfl, .lost hq c.overflows .budgetExceeded fun h => absurd h.pending (Nat.not_le_of_gt hover)⟩
  rw [if_neg hover]
  have hpending := Nat.le_of_not_gt hover
  cases hevent : (stream.scanner.feed byte).1 with
  | none => exact ⟨_, rfl, .silent hq hevent ⟨hpending, fun e he => (by cases he)⟩⟩
  | some event =>
    obtain ⟨hpush, hlost⟩ := enqueue_room hb₁ hs₁ event hpending
    by_cases hroom : Room (c.fedTo pane stream (stream.scanner.feed byte).2) (some event)
    · exact ⟨_, hpush hroom, .emitted hq hevent hroom⟩
    · obtain ⟨overflows, reason, heq⟩ := hlost hroom
      exact ⟨_, heq, .lost hq overflows reason (hevent ▸ hroom)⟩

/-- What an item does: nothing, bookkeeping, a byte, or the end of a quarantine. -/
inductive Heard (c : Collector) (session : SessionId) (client : Nat) : Decoded → Collector → Prop
  | nothing (item : Decoded) (h : ∀ pane byte stream, item = .byte pane byte →
      c.accepts session client pane = some stream → stream.paused = true) : Heard c session client item c
  | managed {item : Decoded} {c' : Collector} (h : Managed c c') (hitem : ∀ pane byte, item ≠ .byte pane byte) :
    Heard c session client item c'
  | byte {pane : PaneId} {byte : UInt8} {stream : PaneStream} {c' : Collector}
    (ha : c.accepts session client pane = some stream) (hp : stream.paused = false)
    (h : Fed c pane stream byte c') : Heard c session client (.byte pane byte) c'
  | ended {pane : PaneId} {stream : PaneStream} (ha : c.accepts session client pane = some stream)
    (hq : stream.quarantine = true) : Heard c session client (.end_ pane)
      (c.rescanned pane stream { stream with scanner := stream.scanner.boundary, quarantine := false })

/-- **An item of the control stream**, on accounts that agree. -/
theorem decoded_heard {c : Collector} (hb : Books c) (session : SessionId) (client : Nat) (item : Decoded) :
    Returns (c.decoded session client item) (Heard c session client item) := by
  cases item with
  | gap pane reason =>
    cases pane with
    | none => exact (clientGap_steps hb session reason).mono fun c' h => .managed h fun _ _ h => by cases h
    | some pane =>
      simp only [decoded, Decoded.pane?]
      split
      · exact ⟨c, rfl, .nothing _ fun _ _ _ h => by cases h⟩
      · exact (invalidate_quiet hb pane reason true).mono fun c' h => .managed h.1.toManaged fun _ _ h => by cases h
  | pause pane =>
    simp only [decoded, Decoded.pane?]
    split
    · exact ⟨c, rfl, .nothing _ fun _ _ _ h => by cases h⟩
    · rename_i stream ha
      exact (setPaused_steps hb (accepts_eq_some.mp ha).2.1 true .paused true).mono fun c' h =>
        .managed h fun _ _ h => by cases h
  | continue_ pane =>
    simp only [decoded, Decoded.pane?]
    split
    · exact ⟨c, rfl, .nothing _ fun _ _ _ h => by cases h⟩
    · rename_i stream ha
      exact (setPaused_steps hb (accepts_eq_some.mp ha).2.1 false .paused true).mono fun c' h =>
        .managed h fun _ _ h => by cases h
  | byte pane byte =>
    simp only [decoded, Decoded.pane?]
    split
    · rename_i ha
      exact ⟨c, rfl, .nothing _ fun _ _ _ h hs => by cases h; rw [ha] at hs; cases hs⟩
    · rename_i stream ha
      by_cases hp : stream.paused = true
      · rw [if_pos hp]
        exact ⟨c, rfl, .nothing _ fun _ _ _ h hs => by cases h; rw [ha] at hs; cases hs; exact hp⟩
      · rw [if_neg hp]
        exact (decodedByte_fed hb (accepts_eq_some.mp ha).2.1 byte).mono fun c' h =>
          .byte ha (Bool.eq_false_iff.mpr hp) h
  | end_ pane =>
    simp only [decoded, Decoded.pane?]
    split
    · exact ⟨c, rfl, .nothing _ fun _ _ _ h => by cases h⟩
    · rename_i stream ha
      by_cases hq : stream.quarantine = true
      · rw [if_pos hq]
        refine ⟨_, ?_, .ended ha hq⟩
        have hle := hb.pending_le (accepts_eq_some.mp ha).2.1
        have hzero : stream.scanner.boundary.pendingBytes = 0 := Scanner.pendingBytes_of_candidate (by simp)
        simp only [decodedEnd, usub_of_le hle, Option.bind_eq_bind, Option.bind_some, rescanned, hzero, Nat.add_zero]
        rfl
      · rw [if_neg hq]
        exact ⟨c, rfl, .nothing _ fun _ _ _ h => by cases h⟩
  | start pane =>
    simp only [decoded, Decoded.pane?]
    split <;> exact ⟨c, rfl, .nothing _ fun _ _ _ h => by cases h⟩
  | fatal => exact ⟨c, rfl, .nothing _ fun _ _ _ h => by cases h⟩
  | note note => exact ⟨c, rfl, .nothing _ fun _ _ _ h => by cases h⟩

/-- A byte that exceeds a budget or a cap gives up its pane's candidate. -/
theorem Sound.fed {c c' : Collector} (h : Sound c) {pane : PaneId} {stream : PaneStream}
    (hs : c.panes.get? pane = some stream) {byte : UInt8} (hfed : Fed c pane stream byte c') :
    Micros c c' ∧ Sound c' := by
  have hmicro := fedTo_micro hs
  have hbooks := fun scanner => (hmicro scanner).books h.books
  have hbytes := pendingBytes_fedTo h.books hs
  have hallowance := h.allowance
  cases hfed with
  | quarantined hq =>
    have hzero : (stream.scanner.feedQuarantined byte).pendingBytes = 0 := rfl
    have := hbytes (stream.scanner.feedQuarantined byte)
    refine ⟨.single (hmicro _), hbooks _, ?_⟩
    change _ ≤ c.payloadBudget
    omega
  | silent hq hnone hroom => exact ⟨.single (hmicro _), hbooks _, hroom.pending⟩
  | @emitted event hq hsome hroom =>
    obtain ⟨hpending, hevents, hpayload⟩ := hroom.event event rfl
    have hpush := Micro.push (fedTo_get? c pane stream (stream.scanner.feed byte).2) hevents hpayload
    refine ⟨.head (hmicro _) (.single hpush), hpush.books (hbooks _), ?_⟩
    change _ + payloadBytes event + _ ≤ _
    rw [Nat.add_right_comm]
    exact hpending
  | lost hq overflows reason hroom =>
    have hflag : Admin _ { c.fedTo pane stream (stream.scanner.feed byte).2 with overflows } := .flags _ overflows
    have hb := (hflag.books (hbooks _)).1
    have hs' := fedTo_get? c pane stream (stream.scanner.feed byte).2
    have hrenew : Admin { c.fedTo pane stream (stream.scanner.feed byte).2 with overflows } _ :=
      .renew hs' (renews_invalidated pane c.epoch reason false _)
    refine ⟨.head (hmicro _) (.head (.admin hflag) (.single (.admin hrenew))), (hrenew.books hb).1, ?_⟩
    have hgives := pendingBytes_renewed hb hs' (invalidated pane (c.epoch + 1) reason false
      { stream with scanner := (stream.scanner.feed byte).2 })
    have hfed := hbytes (stream.scanner.feed byte).2
    change _ + (stream.scanner.feed byte).2.pendingBytes ≤
      (c.fedTo pane stream (stream.scanner.feed byte).2).pendingBytes at hgives
    change _ ≤ c.payloadBudget
    omega

end Collector

end TmuxAgents
