/-
What a run's history shows: the budget, and that no episode ends unreleased.

An event of a history was written by one move (`Moves.point`); what a runtime
was when a call ended or a callback began is in the history, so two of these
and the events between them are two fleets and the moves between them.
-/
import TmuxAgents.Runtime.Runs

namespace TmuxAgents

open Checked Collector ProgramRuntime

/-! ## Points of a history -/

/-- The move that wrote an event, and what it wrote around it. -/
theorem Moves.point {f f' : Fleet} (h : Moves f f') {x y : List RuntimeEvent} {e : RuntimeEvent}
    (hx : f'.history = x ++ e :: y) (hlen : f.history.length ≤ x.length) :
    ∃ g g' a b, Moves f g ∧ Move g g' ∧ Moves g' f' ∧ x = g.history ++ a ∧ g'.history = g.history ++ (a ++ e :: b) := by
  induction h generalizing y with
  | refl =>
    rw [hx, List.length_append, List.length_cons] at hlen
    omega
  | @tail f₁ f₂ hmoves hmove ih =>
    have hprefix : x ++ [e] <+: f₂.history := ⟨y, by rw [hx, List.append_assoc, List.singleton_append]⟩
    by_cases hlt : x.length < f₁.history.length
    · obtain ⟨rest, hrest⟩ : x ++ [e] <+: f₁.history := by
        refine List.prefix_of_prefix_length_le hprefix hmove.history ?_
        rw [List.length_append, List.length_singleton]
        exact hlt
      obtain ⟨g, g', a, b, h₁, h₂, h₃, ha, hb⟩ := ih (y := rest) (by rw [← hrest, List.append_assoc]; rfl)
      exact ⟨g, g', a, b, h₁, h₂, h₃.tail hmove, ha, hb⟩
    · obtain ⟨a, rfl⟩ : f₁.history <+: x :=
        List.prefix_of_prefix_length_le hmove.history ((List.prefix_append x [e]).trans hprefix) (by omega)
      exact ⟨f₁, f₂, a, y, hmoves, hmove, .refl, rfl, by rw [hx, List.append_assoc]⟩

/-- What may only be noted. -/
def RuntimeEvent.isNote : RuntimeEvent → Bool
  | .drained _ | .applied _ | .released _ => false
  | _ => true

/-- A noted event was noted of a fleet. -/
theorem Moves.noted {f f' : Fleet} (h : Moves f f') {x y : List RuntimeEvent} {e : RuntimeEvent}
    (hx : f'.history = x ++ e :: y) (hlen : f.history.length ≤ x.length) (he : e.isNote = true) :
    ∃ g, Moves f g ∧ Moves g f' ∧ g.history = x ∧ g.Notes e := by
  obtain ⟨g, g', a, b, hbefore, hmove, hafter, ha, hb⟩ := h.point hx hlen
  have hmem : ∀ new, g'.history = g.history ++ new → e ∈ new := fun new hnew => by
    rw [List.append_cancel_left (hnew.symm.trans hb)]
    exact List.mem_append_right _ List.mem_cons_self
  cases hmove with
  | runtime applied hstep happlied batch =>
    rcases List.mem_append.mp (hmem _ (List.append_assoc ..)) with hin | hin
    · obtain ⟨release, -, rfl⟩ := List.mem_map.mp hin
      cases he
    · obtain ⟨observation, -, rfl⟩ := List.mem_map.mp hin
      cases he
  | collector hmicros hs batch => cases hmem [] (List.append_nil _).symm
  | drain batch =>
    rw [List.mem_singleton.mp (hmem _ rfl)] at he
    cases he
  | @note event hnote batch =>
    have hone : [event] = a ++ e :: b := List.append_cancel_left hb
    cases a with
    | nil =>
      rw [List.nil_append, List.cons.injEq] at hone
      exact ⟨g, hbefore, .head (.note hnote batch) hafter, by rw [ha, List.append_nil], hone.1 ▸ hnote⟩
    | cons first rest => simp at hone

/-- The runtime at a point of the history: where a callback begins or a call ends. -/
def RuntimeEvent.runtime? : RuntimeEvent → Option ProgramRuntime
  | .stepped runtime _ | .answered runtime => some runtime
  | _ => none

theorem Moves.runtime_noted {f f' : Fleet} (h : Moves f f') {x y : List RuntimeEvent} {e : RuntimeEvent}
    (hx : f'.history = x ++ e :: y) (hlen : f.history.length ≤ x.length) {r : ProgramRuntime}
    (he : e.runtime? = some r) : ∃ g, Moves f g ∧ Moves g f' ∧ g.history = x ∧ g.runtime = r := by
  have hnote : e.isNote = true := by
    cases e with
    | stepped | answered => rfl
    | _ => cases he
  obtain ⟨g, hbefore, hafter, hhistory, hnotes⟩ := h.noted hx hlen hnote
  refine ⟨g, hbefore, hafter, hhistory, ?_⟩
  cases hnotes with
  | stepped h => exact Option.some.inj he
  | answered => exact Option.some.inj he
  | _ => cases he

/-! ## The budget -/

/-- **The fleet's payload budget.** Every run returns, so nothing underflows; the count is the
sum of the stores' bytes, between calls and at every callback; what is retained and what is
pending fit at every prepared collection; and the estimate before a command is enough. -/
theorem budget_kept [Base64] (epoch : Nat) (ops : List FleetOp) :
    ∃ f, (Fleet.withEpoch epoch).run ops = some f ∧ f.runtime.retainedBytes = f.runtime.storedBytes ∧
      (∀ retained pending, .prepared retained pending ∈ f.history → retained + pending ≤ maxProgramBytes) ∧
      (∀ e ∈ f.history, ∀ r, e.runtime? = some r → r.retainedBytes = r.storedBytes) ∧
      ∀ (store : RecordStore) (command : ProgramCommand) (at_ : Nat) (live : Option LiveEpisode),
        ∃ bytes, replacementBytes store command = some bytes ∧ (store.apply command at_ live).retainedBytes ≤ bytes := by
  have hready := ready_withEpoch epoch
  obtain ⟨f, hrun, hmoves⟩ := Fleet.run_moves hready ops
  refine ⟨f, hrun, (Moves.ready hmoves hready).accounts, fun retained pending hmem => ?_, fun e hmem r he => ?_,
    fun store command at_ live => RecordStore.replacementBytes_suffices store command at_ live⟩
  · obtain ⟨x, y, hx⟩ := List.append_of_mem hmem
    obtain ⟨g, -, -, -, hnotes⟩ := hmoves.noted hx (Nat.zero_le _) rfl
    cases hnotes with
    | prepared h => exact h
  · obtain ⟨x, y, hx⟩ := List.append_of_mem hmem
    obtain ⟨g, hbefore, -, -, rfl⟩ := hmoves.runtime_noted hx (Nat.zero_le _) he
    exact (Moves.ready hbefore hready).accounts

/-! ## Owners -/

/-- The same binding, further on. -/
def Binding.Continues (prior binding : Binding) : Prop := ∃ sequence, binding = { prior with sequence }

theorem Binding.Continues.refl (binding : Binding) : binding.Continues binding := ⟨binding.sequence, rfl⟩

theorem Binding.Continues.trans {a b c : Binding} (h₁ : a.Continues b) (h₂ : b.Continues c) : a.Continues c := by
  obtain ⟨_, rfl⟩ := h₁
  obtain ⟨sequence, rfl⟩ := h₂
  exact ⟨sequence, rfl⟩

namespace ProgramRuntime

/-- Owners are issued once, in rising order, and every bound pane has one issued to it. -/
structure Owned (r : ProgramRuntime) : Prop where
  rising : (r.owners.map Prod.snd).Pairwise (· < ·)
  issued : ∀ e ∈ r.owners, e.2 ≤ r.nextOwner
  bound : ∀ pane binding, r.binding pane = some binding → (pane, binding.owner) ∈ r.owners

theorem owned_new : Owned {} := by
  refine ⟨.nil, fun e he => (by cases he), fun pane binding h => ?_⟩
  cases h

/-- An owner is one pane's. -/
theorem Owned.unique {r : ProgramRuntime} (h : Owned r) {p q : PaneId} {owner : EpisodeId} (hp : (p, owner) ∈ r.owners)
    (hq : (q, owner) ∈ r.owners) : p = q := by
  have hnodup : (r.owners.map Prod.snd).Nodup := h.rising.imp Nat.ne_of_lt
  exact congrArg Prod.fst (List.inj_on_of_nodup_map hnodup hp hq rfl)

theorem Owned.le {r : ProgramRuntime} (h : Owned r) {pane : PaneId} {binding : Binding}
    (hb : r.binding pane = some binding) : binding.owner ≤ r.nextOwner := h.issued _ (h.bound pane binding hb)

/-- Where the binding after a step comes from. -/
theorem RuntimeStep.binding_cases {accepted : List ObservedEvent} {r r' : ProgramRuntime}
    {releases : List ProgramRelease} (h : RuntimeStep accepted r r' releases) {pane : PaneId} {binding : Binding}
    (hb : r'.binding pane = some binding) : (∃ prior, r.binding pane = some prior ∧ prior.Continues binding ∧
      ∀ release ∈ releases, release.pane = pane → ∀ owner, release.owner = some owner → release.reason = .bindingBoundary) ∨
      r.nextOwner < binding.owner ∧ (pane, binding.owner) ∈ r'.owners := by
  cases h.binding pane with
  | kept sequence hbinding hsequence hreleases =>
    rw [hb] at hbinding
    obtain ⟨prior, hprior, rfl⟩ := Option.map_eq_some_iff.mp hbinding.symm
    exact .inl ⟨prior, hprior, ⟨sequence, rfl⟩, hreleases⟩
  | turned hreleased hstarts => exact .inr ⟨(hstarts binding hb).owner, (hstarts binding hb).issued⟩

theorem RuntimeStep.owned {accepted : List ObservedEvent} {r r' : ProgramRuntime} {releases : List ProgramRelease}
    (h : RuntimeStep accepted r r' releases) (hr : Owned r) : Owned r' := by
  have hmono : r.owners ⊆ r'.owners := by
    rcases h.owners with ⟨ho, -⟩ | ⟨pane, ho, -⟩
    · exact ho ▸ List.Subset.refl _
    · exact ho ▸ List.subset_append_left ..
  refine ⟨?_, ?_, fun pane binding hb => ?_⟩
  · rcases h.owners with ⟨ho, -⟩ | ⟨pane, ho, -⟩
    · exact ho ▸ hr.rising
    · rw [ho, List.map_append, List.pairwise_append]
      refine ⟨hr.rising, List.pairwise_singleton .., fun a ha b hb => ?_⟩
      obtain ⟨e, he, rfl⟩ := List.mem_map.mp ha
      rw [List.map_singleton, List.mem_singleton] at hb
      rw [hb]
      exact Nat.lt_succ_of_le (hr.issued e he)
  · rcases h.owners with ⟨ho, hn⟩ | ⟨pane, ho, hn⟩
    · rw [ho, hn]
      exact hr.issued
    · intro e he
      rw [ho, List.mem_append, List.mem_singleton] at he
      rcases he with he | rfl
      · exact hn ▸ (hr.issued e he).trans (Nat.le_succ _)
      · exact hn.ge
  · rcases h.binding_cases hb with ⟨prior, hprior, ⟨_, rfl⟩, -⟩ | ⟨-, hissued⟩
    · exact hmono (hr.bound pane prior hprior)
    · exact hissued

theorem RuntimeStep.nextOwner_le {accepted : List ObservedEvent} {r r' : ProgramRuntime}
    {releases : List ProgramRelease} (h : RuntimeStep accepted r r' releases) : r.nextOwner ≤ r'.nextOwner := by
  rcases h.owners with ⟨-, hn⟩ | ⟨pane, -, hn⟩
  · exact hn.ge
  · exact hn ▸ Nat.le_succ _

/-- An owner that was issued and is bound nowhere. -/
def Spent (r : ProgramRuntime) (owner : EpisodeId) : Prop :=
  owner ≤ r.nextOwner ∧ ∀ pane binding, r.binding pane = some binding → binding.owner ≠ owner

theorem RuntimeStep.spent {accepted : List ObservedEvent} {r r' : ProgramRuntime} {releases : List ProgramRelease}
    (h : RuntimeStep accepted r r' releases) {owner : EpisodeId} (hspent : Spent r owner) : Spent r' owner := by
  refine ⟨hspent.1.trans h.nextOwner_le, fun pane binding hb heq => ?_⟩
  rcases h.binding_cases hb with ⟨prior, hprior, ⟨_, rfl⟩, -⟩ | ⟨hnew, -⟩
  · exact hspent.2 pane prior hprior heq
  · exact absurd (heq ▸ hnew) (Nat.not_lt_of_le hspent.1)

/-- A released owner is spent, unless only its selection was lost. -/
theorem RuntimeStep.released {accepted : List ObservedEvent} {r r' : ProgramRuntime} {releases : List ProgramRelease}
    (h : RuntimeStep accepted r r' releases) (hr : Owned r) {release : ProgramRelease} (hmem : release ∈ releases)
    {owner : EpisodeId} (howner : release.owner = some owner) (hreason : release.reason ≠ .bindingBoundary) :
    Spent r' owner := by
  obtain ⟨ended, hended, rfl⟩ := h.named release hmem owner howner
  refine ⟨(hr.le hended).trans h.nextOwner_le, fun pane binding hb heq => ?_⟩
  rcases h.binding_cases hb with ⟨prior, hprior, ⟨_, rfl⟩, hreleases⟩ | ⟨hnew, -⟩
  · -- Only the released pane has the owner, and a kept binding is released for its boundary only.
    have hsame : (pane, ended.owner) ∈ r.owners := heq ▸ hr.bound pane prior hprior
    exact hreason (hreleases release hmem (hr.unique (hr.bound _ _ hended) hsame) ended.owner howner)
  · exact absurd (heq ▸ hnew) (Nat.not_lt_of_le (hr.le hended))

end ProgramRuntime

/-- What moves make of a binding: it goes on, or a release names it. -/
structure Kept (f f' : Fleet) : Prop where
  owned : Owned f.runtime → Owned f'.runtime
  nextOwner : f.runtime.nextOwner ≤ f'.runtime.nextOwner
  origin : ∀ pane binding, f'.runtime.binding pane = some binding →
    (∃ prior, f.runtime.binding pane = some prior ∧ prior.Continues binding) ∨ f.runtime.nextOwner < binding.owner
  released : ∃ new, f'.history = f.history ++ new ∧ ∀ pane binding, f.runtime.binding pane = some binding →
    (∃ next, f'.runtime.binding pane = some next ∧ binding.Continues next) ∨
      ∃ release, .released release ∈ new ∧ release.pane = pane ∧ release.owner = some binding.owner
  spent : ∀ owner, Spent f.runtime owner → Spent f'.runtime owner

theorem Kept.refl (f : Fleet) : Kept f f :=
  ⟨id, Nat.le_refl _, fun _ binding hb => .inl ⟨binding, hb, .refl binding⟩,
    ⟨[], (List.append_nil _).symm, fun _ binding hb => .inl ⟨binding, hb, .refl binding⟩⟩, fun _ => id⟩

theorem Kept.trans {a b c : Fleet} (h₁ : Kept a b) (h₂ : Kept b c) : Kept a c := by
  refine ⟨fun h => h₂.owned (h₁.owned h), h₁.nextOwner.trans h₂.nextOwner, fun pane binding hb => ?_, ?_,
    fun owner h => h₂.spent owner (h₁.spent owner h)⟩
  · rcases h₂.origin pane binding hb with ⟨prior, hprior, hnext⟩ | hnew
    · rcases h₁.origin pane prior hprior with ⟨first, hfirst, hprior⟩ | hnew
      · exact .inl ⟨first, hfirst, hprior.trans hnext⟩
      · obtain ⟨_, rfl⟩ := hnext
        exact .inr hnew
    · exact .inr (h₁.nextOwner.trans_lt hnew)
  · obtain ⟨new₁, hnew₁, hkept₁⟩ := h₁.released
    obtain ⟨new₂, hnew₂, hkept₂⟩ := h₂.released
    refine ⟨new₁ ++ new₂, by rw [hnew₂, hnew₁, List.append_assoc], fun pane binding hb => ?_⟩
    rcases hkept₁ pane binding hb with ⟨next, hnext, hcontinues⟩ | ⟨release, hmem, hrelease⟩
    · rcases hkept₂ pane next hnext with ⟨last, hlast, hcontinues'⟩ | ⟨release, hmem, hpane, howner⟩
      · exact .inl ⟨last, hlast, hcontinues.trans hcontinues'⟩
      · obtain ⟨_, rfl⟩ := hcontinues
        exact .inr ⟨release, List.mem_append_right _ hmem, hpane, howner⟩
    · exact .inr ⟨release, List.mem_append_left _ hmem, hrelease⟩

/-- A move that leaves the runtime alone. -/
theorem kept_of_runtime {f f' : Fleet} (hruntime : f'.runtime = f.runtime) (hhistory : f.history <+: f'.history) :
    Kept f f' := by
  obtain ⟨new, hnew⟩ := hhistory
  refine ⟨fun h => ?_, ?_, fun pane binding hb => ?_, ⟨new, hnew.symm, fun pane binding hb => ?_⟩, fun owner h => ?_⟩
  · rw [hruntime]
    exact h
  · rw [hruntime]
  · rw [hruntime] at hb
    exact .inl ⟨binding, hb, .refl binding⟩
  · rw [hruntime]
    exact .inl ⟨binding, hb, .refl binding⟩
  · rw [hruntime]
    exact h

theorem Move.kept {f f' : Fleet} (h : Move f f') : Kept f f' := by
  cases h with
  | @runtime r' releases applied hstep happlied batch =>
    refine ⟨hstep.owned, hstep.nextOwner_le, fun pane binding hb => ?_, ?_, fun owner => hstep.spent⟩
    · rcases hstep.binding_cases hb with ⟨prior, hprior, hnext, -⟩ | ⟨hnew, -⟩
      · exact .inl ⟨prior, hprior, hnext⟩
      · exact .inr hnew
    · refine ⟨_, List.append_assoc .., fun pane binding hb => ?_⟩
      cases hstep.binding pane with
      | kept sequence hbinding hsequence hreleases =>
        rw [hb, Option.map_some] at hbinding
        exact .inl ⟨_, hbinding, sequence, rfl⟩
      | turned hreleased hstarts =>
        obtain ⟨release, hmem, hrelease⟩ := hreleased binding hb
        exact .inr ⟨release, List.mem_append_left _ (List.mem_map_of_mem hmem), hrelease⟩
  | collector hmicros hs batch => exact kept_of_runtime rfl (List.prefix_refl _)
  | drain batch => exact kept_of_runtime rfl (List.prefix_append ..)
  | note hnote batch => exact kept_of_runtime rfl (List.prefix_append ..)

theorem Moves.kept {f f' : Fleet} (h : Moves f f') : Kept f f' := by
  induction h with
  | refl => exact .refl f
  | tail _ hmove ih => exact ih.trans hmove.kept

/-- A released owner is spent ever after, unless only its selection was lost. -/
theorem Moves.released_spent {f f' : Fleet} (h : Moves f f') (hf : Owned f.runtime) {x y : List RuntimeEvent}
    {release : ProgramRelease} (hx : f'.history = x ++ .released release :: y) (hlen : f.history.length ≤ x.length)
    {owner : EpisodeId} (howner : release.owner = some owner) (hreason : release.reason ≠ .bindingBoundary) :
    Spent f'.runtime owner := by
  obtain ⟨g, g', a, b, hbefore, hmove, hafter, ha, hb⟩ := h.point hx hlen
  refine (Moves.kept hafter).spent owner ?_
  have hmem : ∀ new, g'.history = g.history ++ new → .released release ∈ new := fun new hnew => by
    rw [List.append_cancel_left (hnew.symm.trans hb)]
    exact List.mem_append_right _ List.mem_cons_self
  cases hmove with
  | runtime applied hstep happlied batch =>
    rcases List.mem_append.mp (hmem _ (List.append_assoc ..)) with hin | hin
    · obtain ⟨_, hreleased, heq⟩ := List.mem_map.mp hin
      cases heq
      exact hstep.released ((Moves.kept hbefore).owned hf) hreleased howner hreason
    · obtain ⟨observation, -, heq⟩ := List.mem_map.mp hin
      cases heq
  | collector hmicros hs batch => cases hmem [] (List.append_nil _).symm
  | drain batch => cases List.mem_singleton.mp (hmem _ rfl)
  | note hnote batch =>
    rw [← List.mem_singleton.mp (hmem _ rfl)] at hnote
    cases hnote

/-- The decision an event shows. -/
def RuntimeEvent.decision? : RuntimeEvent → Option ProgramDecision
  | .decided decision => some decision
  | .stepped _ step => step.decision
  | _ => none

/-- **Releases are never lost.** Between any two points of a run, where a callback begins or a
call ends, a binding goes on or a release of its pane and owner was handed out, and its owner is
no other binding's; a batch streams each release once, in order, or leaves it unstreamed; and an
owner released for more than its selection is in no later decision. -/
theorem releases_complete [Base64] (epoch : Nat) (ops : List FleetOp) :
    ∃ f, (Fleet.withEpoch epoch).run ops = some f ∧
      (∀ x e y e' z r r', f.history = x ++ e :: (y ++ e' :: z) → e.runtime? = some r → e'.runtime? = some r' →
        ∀ pane binding, r.binding pane = some binding →
          ((∃ next, r'.binding pane = some next ∧ binding.Continues next) ∨
            ∃ release, .released release ∈ y ∧ release.pane = pane ∧ release.owner = some binding.owner) ∧
          ∀ pane' binding', r'.binding pane' = some binding' → binding'.owner = binding.owner →
            pane' = pane ∧ binding.Continues binding') ∧
      (∀ e ∈ f.history, ∀ r, e.runtime? = some r → ∀ pane binding pane' binding', r.binding pane = some binding →
        r.binding pane' = some binding' → binding.owner = binding'.owner → pane = pane') ∧
      (∀ batch, .returned batch ∈ f.history →
        batch.steps.flatMap (·.releases) ++ batch.unstreamedReleases = batch.releases) ∧
      ∀ x release y e z decision, f.history = x ++ .released release :: (y ++ e :: z) →
        release.reason ≠ .bindingBoundary → e.decision? = some decision →
        release.owner ≠ some decision.selection.authority.owner := by
  have hready := ready_withEpoch epoch
  obtain ⟨f, hrun, hmoves⟩ := Fleet.run_moves hready ops
  refine ⟨f, hrun, fun x e y e' z r r' hx he he' pane binding hb => ?_, fun e hmem r he => ?_, fun batch hmem => ?_,
    fun x release y e z decision hx hreason he howner => ?_⟩
  · -- The later point first: the earlier one is before it.
    rw [List.append_cons, ← List.append_assoc] at hx
    obtain ⟨g', hbefore, -, hhistory, rfl⟩ := hmoves.runtime_noted hx (Nat.zero_le _) he'
    rw [List.append_assoc] at hhistory
    obtain ⟨g, hbefore', hbetween, rfl, rfl⟩ := Moves.runtime_noted hbefore hhistory (Nat.zero_le _) he
    have howned := (Moves.kept hbefore').owned owned_new
    have hkept := Moves.kept hbetween
    refine ⟨?_, fun pane' binding' hb' heq => ?_⟩
    · obtain ⟨new, hnew, hreleased⟩ := hkept.released
      obtain rfl : [e] ++ y = new := List.append_cancel_left (hhistory.symm.trans hnew)
      rcases hreleased pane binding hb with hnext | ⟨release, hmem, hrelease⟩
      · exact .inl hnext
      · rcases List.mem_cons.mp hmem with rfl | hmem
        · cases he
        · exact .inr ⟨release, hmem, hrelease⟩
    · rcases hkept.origin pane' binding' hb' with ⟨prior, hprior, hcontinues⟩ | hnew
      · have hsame : prior.owner = binding.owner := by
          obtain ⟨_, rfl⟩ := hcontinues
          exact heq
        obtain rfl : pane' = pane :=
          howned.unique (howned.bound pane' prior hprior) (hsame ▸ howned.bound pane binding hb)
        obtain rfl : prior = binding := Option.some.inj (hprior.symm.trans hb)
        exact ⟨rfl, hcontinues⟩
      · exact absurd (heq ▸ hnew) (Nat.not_lt_of_le (howned.le hb))
  · intro pane binding pane' binding' hb hb' heq
    obtain ⟨x, y, hx⟩ := List.append_of_mem hmem
    obtain ⟨g, hbefore, -, -, rfl⟩ := hmoves.runtime_noted hx (Nat.zero_le _) he
    have howned := (Moves.kept hbefore).owned owned_new
    exact howned.unique (howned.bound pane binding hb) (heq ▸ howned.bound pane' binding' hb')
  · obtain ⟨x, y, hx⟩ := List.append_of_mem hmem
    obtain ⟨g, -, -, -, hnotes⟩ := hmoves.noted hx (Nat.zero_le _) rfl
    cases hnotes with
    | returned h => exact h
  · rw [List.append_cons, ← List.append_assoc] at hx
    have hnote : e.isNote = true := by
      cases e with
      | stepped | decided => rfl
      | _ => cases he
    obtain ⟨g, hbefore, -, hhistory, hnotes⟩ := hmoves.noted hx (Nat.zero_le _) hnote
    rw [List.append_assoc] at hhistory
    have hspent := Moves.released_spent hbefore owned_new hhistory (Nat.zero_le _) howner hreason
    have hcurrent : ∃ pane, g.runtime.decision pane = some decision := by
      cases hnotes with
      | stepped h => exact h decision he
      | @decided pane _ h =>
        cases he
        exact ⟨pane, h⟩
      | _ => cases he
    obtain ⟨pane, hdecision⟩ := hcurrent
    obtain ⟨-, binding, hb, heq⟩ := decision_some hdecision
    exact hspent.2 pane binding hb heq.symm

end TmuxAgents
