/-
Pause bookkeeping: the flag of a tracked pane against the last pause or continue
that its owner's client has sent since it became the owner (`LastWord`).

A word that arrives while the topology is not ready is not recorded (`Lost`), so
after the next successful read the pane may stay paused though its client has
continued it. Without such a word the flag is the last word in every state.
-/
import TmuxAgents.Control.Steps

namespace TmuxAgents

open Checked

/-- The item that sets a pane's flag. -/
def word (pane : PaneId) (paused : Bool) : Decoded := if paused then .pause pane else .continue_ pane

namespace Collector

/-- A tracked pane's owner, its client, and the flag. -/
def pausing (c : Collector) (pane : PaneId) : Option (SessionId × Nat × Bool) :=
  (c.panes.get? pane).map fun stream => (stream.owner, stream.client, stream.paused)

theorem owner_eq (c : Collector) (pane : PaneId) : c.owner pane = (c.pausing pane).map fun held => (held.1, held.2.1) := by
  rw [owner, pausing, Option.map_map]
  rfl

/-! ## What an operation does to the flags -/

section Flags

variable {c c' : Collector}

theorem pausing_insert (panes : SortedMap PaneId PaneStream) (pane : PaneId) (stream : PaneStream) (q : PaneId) :
    ((panes.insert pane stream).get? q).map (fun s => (s.owner, s.client, s.paused)) =
      if q = pane then some (stream.owner, stream.client, stream.paused)
      else (panes.get? q).map fun s => (s.owner, s.client, s.paused) := by
  rw [SortedMap.get?_insert]
  split <;> rfl

/-- Putting a stream back with its owner, client and flag. -/
theorem pausing_put {pane : PaneId} {stream stream' : PaneStream} (hs : c.panes.get? pane = some stream)
    (hpanes : c'.panes = c.panes.insert pane stream')
    (hsame : stream'.owner = stream.owner ∧ stream'.client = stream.client ∧ stream'.paused = stream.paused) :
    c'.pausing = c.pausing := by
  funext q
  rw [pausing, hpanes, pausing_insert]
  split
  next hq =>
    rw [pausing, hq, hs, hsame.1, hsame.2.1, hsame.2.2]
    rfl
  next => rfl

theorem invalidate_pausing {pane : PaneId} {reason : ObservationGap} {lost : Bool}
    (h : c.invalidate pane reason lost = some c') : c'.pausing = c.pausing := by
  unfold invalidate at h
  split at h
  · cases h
    rfl
  next stream hs =>
    obtain ⟨candidateBytes, -, h⟩ := Option.bind_eq_some_iff.mp h
    cases h
    exact pausing_put hs rfl ⟨rfl, rfl, rfl⟩

theorem invalidateAll_pausing {panes : List PaneId} {reason : ObservationGap} {lost : Bool}
    (h : c.invalidateAll panes reason lost = some c') : c'.pausing = c.pausing :=
  foldlM_some (fun c' => c'.pausing = c.pausing) (fun _ _ _ hb h => (invalidate_pausing h).trans hb) rfl h

theorem evictPanes_pausing {available fuel : Nat} (h : evictPanes available fuel c = some c') :
    c'.pausing = c.pausing := by
  induction fuel generalizing c with
  | zero => cases h
  | succ fuel ih =>
    rw [evictPanes] at h
    split at h
    · split at h
      · cases h
        rfl
      · obtain ⟨c₁, hinv, h⟩ := Option.bind_eq_some_iff.mp h
        exact (ih h).trans (invalidate_pausing hinv)
    · cases h
      rfl

theorem boundary_pausing {pane : PaneId} {inPayload : Bool} {result : Option ObservationBoundary × Collector}
    (h : c.boundary pane inPayload = some result) : result.2.pausing = c.pausing := by
  obtain ⟨c₁, hinv, h⟩ := Option.bind_eq_some_iff.mp h
  rw [← invalidate_pausing hinv]
  split at h
  · cases h
    rfl
  next stream hs =>
    cases h
    exact pausing_put hs rfl ⟨rfl, rfl, rfl⟩

theorem enqueue_pausing {pane : PaneId} {event : ProgramEvent} (h : c.enqueue pane event = some c') :
    c'.pausing = c.pausing := by
  obtain ⟨available, -, h⟩ := Option.bind_eq_some_iff.mp h
  split at h
  · exact invalidate_pausing h
  · split at h
    · dsimp only at h
      exact (invalidate_pausing h).trans rfl
    · obtain ⟨stream, hs, h⟩ := Option.bind_eq_some_iff.mp h
      cases h
      exact pausing_put hs rfl ⟨rfl, rfl, rfl⟩

theorem chargeScanner_pausing {pane : PaneId} {stream : PaneStream} {scanner : Scanner}
    (hs : c.panes.get? pane = some stream) (h : c.chargeScanner pane stream scanner = some c') :
    c'.pausing = c.pausing := by
  obtain ⟨rest, -, h⟩ := Option.bind_eq_some_iff.mp h
  cases h
  exact pausing_put hs rfl ⟨rfl, rfl, rfl⟩

theorem decodedByte_pausing [Base64] {pane : PaneId} {stream : PaneStream} {byte : UInt8}
    (hs : c.panes.get? pane = some stream) (h : c.decodedByte pane stream byte = some c') : c'.pausing = c.pausing := by
  unfold decodedByte at h
  split at h
  · exact chargeScanner_pausing hs h
  · obtain ⟨c₁, hcharge, h⟩ := Option.bind_eq_some_iff.mp h
    rw [← chargeScanner_pausing hs hcharge]
    split at h
    · exact invalidate_pausing h
    · split at h
      · exact enqueue_pausing h
      · cases h
        rfl

theorem decodedEnd_pausing {pane : PaneId} {stream : PaneStream} (hs : c.panes.get? pane = some stream)
    (h : c.decodedEnd pane stream = some c') : c'.pausing = c.pausing := by
  obtain ⟨rest, -, h⟩ := Option.bind_eq_some_iff.mp h
  cases h
  exact pausing_put hs rfl ⟨rfl, rfl, rfl⟩

theorem drain_pausing (c : Collector) : c.drain.2.pausing = c.pausing := by
  funext q
  simp only [pausing, drain, SortedMap.get?_mapValues, Option.map_map]
  rfl

theorem word_cases {item : Decoded} {pane : PaneId} {paused : Bool} (h : item = word pane paused) :
    item = .pause pane ∨ item = .continue_ pane := by
  cases paused
  · exact .inr h
  · exact .inl h

/-- A word that is accepted sets its pane's flag, and no other item sets one. -/
theorem decoded_pausing [Base64] {session : SessionId} {client : Nat} {item : Decoded}
    (h : c.decoded session client item = some c') :
    (∃ pane paused, item = word pane paused ∧ (c.accepts session client pane).isSome = true ∧
        c'.pausing = Function.update c.pausing pane (some (session, client, paused))) ∨
      (∀ pane paused, item = word pane paused → c.accepts session client pane = none) ∧ c'.pausing = c.pausing := by
  have hset {pane : PaneId} {stream : PaneStream} (paused : Bool) (hs : c.accepts session client pane = some stream)
      (hinv : ({ c with panes := c.panes.insert pane { stream with paused } } : Collector).invalidate pane .paused true =
        some c') : c'.pausing = Function.update c.pausing pane (some (session, client, paused)) := by
    obtain ⟨-, -, howner, hclient⟩ := accepts_eq_some.mp hs
    rw [invalidate_pausing hinv]
    funext q
    rw [pausing, pausing_insert, Function.update_apply, howner, hclient]
    rfl
  have hother (hitem : ∀ pane, item ≠ .pause pane ∧ item ≠ .continue_ pane) (hsame : c'.pausing = c.pausing) :
      (∀ pane paused, item = word pane paused → c.accepts session client pane = none) ∧ c'.pausing = c.pausing :=
    ⟨fun pane paused hword => absurd (word_cases hword) (not_or.mpr (hitem pane)), hsame⟩
  cases item with
  | gap pane reason =>
    refine .inr (hother (fun _ => ⟨Decoded.noConfusion, Decoded.noConfusion⟩) ?_)
    cases pane with
    | none => exact invalidateAll_pausing h
    | some pane =>
      simp only [decoded, Decoded.pane?] at h
      split at h
      · cases h
        rfl
      · exact invalidate_pausing h
  | pause pane =>
    simp only [decoded, Decoded.pane?] at h
    split at h
    next ha =>
      cases h
      refine .inr ⟨fun pane' paused hword => ?_, rfl⟩
      rcases word_cases hword with hword | hword <;> cases hword
      exact ha
    next stream ha => exact .inl ⟨pane, true, rfl, by rw [ha]; rfl, hset true ha h⟩
  | continue_ pane =>
    simp only [decoded, Decoded.pane?] at h
    split at h
    next ha =>
      cases h
      refine .inr ⟨fun pane' paused hword => ?_, rfl⟩
      rcases word_cases hword with hword | hword <;> cases hword
      exact ha
    next stream ha => exact .inl ⟨pane, false, rfl, by rw [ha]; rfl, hset false ha h⟩
  | byte pane byte =>
    refine .inr (hother (fun _ => ⟨Decoded.noConfusion, Decoded.noConfusion⟩) ?_)
    simp only [decoded, Decoded.pane?] at h
    split at h
    · cases h
      rfl
    next stream ha =>
      split at h
      · cases h
        rfl
      · exact decodedByte_pausing (accepts_eq_some.mp ha).2.1 h
  | end_ pane =>
    refine .inr (hother (fun _ => ⟨Decoded.noConfusion, Decoded.noConfusion⟩) ?_)
    simp only [decoded, Decoded.pane?] at h
    split at h
    · cases h
      rfl
    next stream ha =>
      split at h
      · exact decodedEnd_pausing (accepts_eq_some.mp ha).2.1 h
      · cases h
        rfl
  | start pane =>
    refine .inr (hother (fun _ => ⟨Decoded.noConfusion, Decoded.noConfusion⟩) ?_)
    simp only [decoded, Decoded.pane?] at h
    split at h <;> cases h <;> rfl
  | fatal | note =>
    refine .inr (hother (fun _ => ⟨Decoded.noConfusion, Decoded.noConfusion⟩) ?_)
    cases h
    rfl

/-! ## Topology -/

/-- A pane that leaves is not tracked, and the others keep their flags. -/
theorem removePane_pausing {pane : PaneId} (h : c.removePane pane = some c') :
    c'.pausing = Function.update c.pausing pane none := by
  obtain ⟨c₁, hinv, h⟩ := Option.bind_eq_some_iff.mp h
  obtain ⟨stream, hs, h⟩ := Option.bind_eq_some_iff.mp h
  have herase {c₂ : Collector} (hpanes : c₂.panes = c₁.panes.erase pane) :
      c₂.pausing = Function.update c.pausing pane none := by
    funext q
    rw [← invalidate_pausing hinv, pausing, hpanes, SortedMap.get?_erase, Function.update_apply]
    split
    · rfl
    · rfl
  dsimp only at h
  split at h
  · exact (invalidateAll_pausing h).trans (herase rfl)
  · split at h <;> cases h <;> exact herase rfl

/-- A pane's new owner, client and flag: kept, or another owner's client, not paused. -/
def Reassigned (before after : Option (SessionId × Nat × Bool)) : Prop :=
  after = before ∨ ∃ owner client, after = some (owner, client, false) ∧ ∀ paused, before ≠ some (owner, client, paused)

theorem selectPane_pausing {clients : SortedMap SessionId Nat} {found : PaneId × SortedMap SessionId Unit}
    (h : selectPane clients c found = some c') :
    Reassigned (c.pausing found.1) (c'.pausing found.1) ∧ ∀ q, q ≠ found.1 → c'.pausing q = c.pausing q := by
  obtain ⟨owner, -, h⟩ := Option.bind_eq_some_iff.mp h
  obtain ⟨client, -, h⟩ := Option.bind_eq_some_iff.mp h
  split at h
  next stream hs =>
    split at h
    · cases h
      exact ⟨.inl rfl, fun _ _ => rfl⟩
    next hdiffer =>
      obtain ⟨c₁, hinv, h⟩ := Option.bind_eq_some_iff.mp h
      obtain ⟨stream₁, -, h⟩ := Option.bind_eq_some_iff.mp h
      cases h
      refine ⟨.inr ⟨owner, client, ?_, fun paused hbefore => hdiffer ?_⟩, fun q hq => ?_⟩
      · rw [pausing, pausing_insert, if_pos rfl]
      · rw [pausing, hs] at hbefore
        cases hbefore
        exact ⟨rfl, rfl⟩
      · rw [pausing, pausing_insert, if_neg hq, ← invalidate_pausing hinv]
        rfl
  next hs =>
    cases h
    refine ⟨.inr ⟨owner, client, ?_, fun paused hbefore => ?_⟩, fun q hq => ?_⟩
    · rw [pausing, pausing_insert, if_pos rfl]
    · rw [pausing, hs] at hbefore
      cases hbefore
    · rw [pausing, pausing_insert, if_neg hq]
      rfl

theorem removeAll_pausing {panes : List PaneId} (h : panes.foldlM removePane c = some c') (q : PaneId) :
    c'.pausing q = if q ∈ panes then none else c.pausing q := by
  induction panes generalizing c with
  | nil =>
    cases h
    rfl
  | cons pane panes ih =>
    obtain ⟨c₁, hremove, h⟩ := Option.bind_eq_some_iff.mp h
    rw [ih h, removePane_pausing hremove, Function.update_apply]
    by_cases hq : q = pane <;> simp [hq]

theorem selectAll_pausing {clients : SortedMap SessionId Nat} {found : List (PaneId × SortedMap SessionId Unit)}
    (hdistinct : (found.map Prod.fst).Nodup) (h : found.foldlM (selectPane clients) c = some c') (q : PaneId) :
    Reassigned (c.pausing q) (c'.pausing q) ∧ (q ∉ found.map Prod.fst → c'.pausing q = c.pausing q) := by
  induction found generalizing c with
  | nil =>
    cases h
    exact ⟨.inl rfl, fun _ => rfl⟩
  | cons first found ih =>
    obtain ⟨c₁, hselect, h⟩ := Option.bind_eq_some_iff.mp h
    obtain ⟨hnew, hdistinct⟩ := List.nodup_cons.mp hdistinct
    obtain ⟨hrest, hkeep⟩ := ih hdistinct h
    obtain ⟨hfirst, hothers⟩ := selectPane_pausing hselect
    by_cases hq : q = first.1
    · subst hq
      rw [hkeep hnew]
      exact ⟨hfirst, fun hout => absurd List.mem_cons_self hout⟩
    · rw [← hothers q hq]
      exact ⟨hrest, fun hout => hkeep fun hin => hout (List.mem_cons_of_mem _ hin)⟩

theorem reconcile_pausing {topology : List (SessionId × PaneId)} {clients : SortedMap SessionId Nat}
    (h : c.reconcile topology clients = some c') (q : PaneId) :
    c'.pausing q = none ∨ Reassigned (c.pausing q) (c'.pausing q) := by
  obtain ⟨c₁, hremoved, h⟩ := Option.bind_eq_some_iff.mp h
  obtain ⟨c₂, hselected, h⟩ := Option.bind_eq_some_iff.mp h
  cases h
  have hgone := removeAll_pausing hremoved q
  obtain ⟨hassigned, hkept⟩ := selectAll_pausing (eligiblePanes topology clients).keys_nodup hselected q
  change c₂.pausing q = none ∨ Reassigned (c.pausing q) (c₂.pausing q)
  by_cases hq : q ∈ c.panes.keys.filter fun pane => !(eligiblePanes topology clients).contains pane
  · rw [if_pos hq] at hgone
    have hout : q ∉ (eligiblePanes topology clients).keys := by
      intro hin
      have hcontains := SortedMap.contains_iff.mpr (SortedMap.mem_keys.mp hin)
      have hnot := (List.mem_filter.mp hq).2
      rw [hcontains] at hnot
      cases hnot
    exact .inl ((hkept hout).trans hgone)
  · rw [if_neg hq] at hgone
    rw [← hgone]
    exact .inr hassigned

end Flags

/-! ## The last word -/

/-- The last pause or continue of a pane's owner client since it became the owner said this. -/
def LastWord [Base64] (start : Collector) (ops : List CollectorOp) (pane : PaneId) (paused : Bool) : Prop :=
  ∃ session client before after, ops = before ++ .decoded session client (word pane paused) :: after ∧
    (∀ since rest, .decoded session client (word pane paused) :: after = since ++ rest →
      ∃ drains now, start.exec (before ++ since) = some (drains, now) ∧ now.owner pane = some (session, client)) ∧
    ∀ paused', CollectorOp.decoded session client (word pane paused') ∉ after

/-- A word of a pane's owner client that arrives while the topology is not ready, against the
flag. -/
def Lost (c : Collector) (op : CollectorOp) : Prop :=
  ∃ session client pane paused, op = .decoded session client (word pane paused) ∧ c.topologyReady = false ∧
    c.pausing pane = some (session, client, !paused)

section Words

variable [Base64] {start c c' : Collector} {ops : List CollectorOp} {op : CollectorOp} {drains drains' : List ProgramDrain}
  {pane : PaneId} {session : SessionId} {client : Nat}

/-- A word of the owner's client is the last one. -/
theorem lastWord_self {paused : Bool} (he : start.exec ops = some (drains, c))
    (he' : start.exec (ops ++ [.decoded session client (word pane paused)]) = some (drains', c'))
    (howner : c.owner pane = some (session, client)) (howner' : c'.owner pane = some (session, client)) :
    LastWord start (ops ++ [.decoded session client (word pane paused)]) pane paused := by
  refine ⟨session, client, ops, [], rfl, fun since rest hsplit => ?_, fun _ h => by cases h⟩
  rcases since with _ | ⟨first, since⟩
  · exact ⟨drains, c, by rw [List.append_nil]; exact he, howner⟩
  · obtain ⟨rfl, hnil⟩ := List.cons.inj hsplit
    obtain ⟨rfl, rfl⟩ := List.append_eq_nil_iff.mp hnil.symm
    exact ⟨drains', c', he', howner'⟩

/-- The last word stays the last while the owner stays and its client says nothing. -/
theorem lastWord_keep {paused : Bool} (h : LastWord start ops pane paused) (he : start.exec ops = some (drains, c))
    (he' : start.exec (ops ++ [op]) = some (drains', c')) (howner : c.owner pane = some (session, client))
    (howner' : c'.owner pane = some (session, client)) (hsilent : ∀ b, op ≠ .decoded session client (word pane b)) :
    LastWord start (ops ++ [op]) pane paused := by
  obtain ⟨session', client', before, after, rfl, hheld, hlast⟩ := h
  obtain ⟨_, now, hnow, hend⟩ := hheld _ [] (List.append_nil _).symm
  obtain ⟨-, rfl⟩ := Prod.mk.inj (Option.some.inj (hnow.symm.trans he))
  obtain ⟨rfl, rfl⟩ := Prod.mk.inj (Option.some.inj (hend.symm.trans howner))
  refine ⟨session', client', before, after ++ [op], by simp, fun since rest hsplit => ?_, fun b hmem => ?_⟩
  · rw [← List.cons_append] at hsplit
    rcases List.eq_nil_or_concat rest with rfl | ⟨rest, last, rfl⟩
    · rw [List.append_nil] at hsplit
      exact ⟨drains', c', by rw [← hsplit, ← List.append_assoc]; exact he', howner'⟩
    · rw [List.concat_eq_append, ← List.append_assoc] at hsplit
      exact hheld since rest (List.append_inj' hsplit rfl).1
  · rcases List.mem_append.mp hmem with hmem | hmem
    · exact hlast b hmem
    · exact hsilent b (List.mem_singleton.mp hmem).symm

/-- The last word after an operation is that operation, or was the last before it. -/
theorem lastWord_concat {paused : Bool} (h : LastWord start (ops ++ [op]) pane paused)
    (he : start.exec ops = some (drains, c)) (he' : start.exec (ops ++ [op]) = some (drains', c')) :
    ∃ session client, c.owner pane = some (session, client) ∧ c'.owner pane = some (session, client) ∧
      (op = .decoded session client (word pane paused) ∨
        LastWord start ops pane paused ∧ ∀ b, op ≠ .decoded session client (word pane b)) := by
  obtain ⟨session, client, before, after, hops, hheld, hlast⟩ := h
  have hfinal : c'.owner pane = some (session, client) := by
    obtain ⟨_, now, hnow, hend⟩ := hheld _ [] (List.append_nil _).symm
    rw [← hops] at hnow
    obtain ⟨-, rfl⟩ := Prod.mk.inj (Option.some.inj (hnow.symm.trans he'))
    exact hend
  rcases List.eq_nil_or_concat after with rfl | ⟨after, last, rfl⟩
  · obtain ⟨rfl, hop⟩ := List.append_inj' hops rfl
    obtain ⟨_, now, hnow, hend⟩ := hheld [] _ rfl
    rw [List.append_nil] at hnow
    obtain ⟨-, rfl⟩ := Prod.mk.inj (Option.some.inj (hnow.symm.trans he))
    exact ⟨session, client, hend, hfinal, .inl (List.singleton_inj.mp hop)⟩
  · rw [List.concat_eq_append, ← List.cons_append, ← List.append_assoc] at hops
    obtain ⟨rfl, hop⟩ := List.append_inj' hops rfl
    obtain rfl := List.singleton_inj.mp hop
    simp only [List.concat_eq_append] at hheld hlast
    obtain ⟨_, now, hnow, hend⟩ := hheld (.decoded session client (word pane paused) :: after) [op] rfl
    obtain ⟨-, rfl⟩ := Prod.mk.inj (Option.some.inj (hnow.symm.trans he))
    refine ⟨session, client, hend, hfinal, .inr ⟨⟨session, client, before, after, rfl, fun since rest hsplit => ?_,
      fun b hmem => hlast b (List.mem_append_left _ hmem)⟩, fun b hb => hlast b (by simp [hb])⟩⟩
    refine hheld since (rest ++ [op]) ?_
    rw [← List.append_assoc, ← hsplit, List.cons_append]

/-- **What an operation does to the flags**: an accepted word sets its pane's, and otherwise a pane
keeps its own, leaves, or starts under a new client unpaused. -/
theorem step_pausing {out : List ProgramDrain} (h : step c op = some (out, c')) :
    (∃ session client pane paused, op = .decoded session client (word pane paused) ∧
        (c.accepts session client pane).isSome = true ∧
        c'.pausing = Function.update c.pausing pane (some (session, client, paused))) ∨
      (∀ session client pane paused, op = .decoded session client (word pane paused) →
        c.accepts session client pane = none) ∧
        ∀ q, c'.pausing q = none ∨ Reassigned (c.pausing q) (c'.pausing q) := by
  have hsame (hop : ∀ session client item, op ≠ .decoded session client item) (hpausing : c'.pausing = c.pausing) :
      (∀ session client pane paused, op = .decoded session client (word pane paused) →
        c.accepts session client pane = none) ∧
        ∀ q, c'.pausing q = none ∨ Reassigned (c.pausing q) (c'.pausing q) :=
    ⟨fun _ _ _ _ heq => absurd heq (hop _ _ _), fun q => .inr (.inl (congrFun hpausing q))⟩
  cases op with
  | reconcile topology clients =>
    obtain ⟨c₁, hr, h⟩ := Option.map_eq_some_iff.mp h
    cases h
    exact .inr ⟨fun _ _ _ _ heq => (by cases heq), reconcile_pausing hr⟩
  | topologyFailed =>
    obtain ⟨c₁, hr, h⟩ := Option.map_eq_some_iff.mp h
    cases h
    exact .inr (hsame (fun _ _ _ => CollectorOp.noConfusion) ((invalidateAll_pausing hr).trans rfl))
  | clientGap session reason =>
    obtain ⟨c₁, hr, h⟩ := Option.map_eq_some_iff.mp h
    cases h
    exact .inr (hsame (fun _ _ _ => CollectorOp.noConfusion) (invalidateAll_pausing hr))
  | invalidate pane reason lost =>
    obtain ⟨c₁, hr, h⟩ := Option.map_eq_some_iff.mp h
    cases h
    exact .inr (hsame (fun _ _ _ => CollectorOp.noConfusion) (invalidate_pausing hr))
  | boundary pane inPayload =>
    obtain ⟨result, hr, h⟩ := Option.map_eq_some_iff.mp h
    cases h
    exact .inr (hsame (fun _ _ _ => CollectorOp.noConfusion) (boundary_pausing hr))
  | decoded session client item =>
    obtain ⟨c₁, hr, h⟩ := Option.map_eq_some_iff.mp h
    cases h
    rcases decoded_pausing hr with ⟨pane, paused, rfl, hset⟩ | ⟨hignored, hpausing⟩
    · exact .inl ⟨session, client, pane, paused, rfl, hset⟩
    · refine .inr ⟨fun session' client' pane paused heq => ?_, fun q => .inr (.inl (congrFun hpausing q))⟩
      cases heq
      exact hignored pane paused rfl
  | setPayloadBudget available =>
    obtain ⟨c₁, hr, h⟩ := Option.map_eq_some_iff.mp h
    cases h
    exact .inr (hsame (fun _ _ _ => CollectorOp.noConfusion) ((evictPanes_pausing hr).trans rfl))
  | drain =>
    cases h
    exact .inr (hsame (fun _ _ _ => CollectorOp.noConfusion) (drain_pausing c))

omit [Base64] in
theorem owner_of_pausing {paused : Bool} (h : c.pausing pane = some (session, client, paused)) :
    c.owner pane = some (session, client) := by
  rw [owner_eq, h]
  rfl

omit [Base64] in
theorem word_injective {pane pane' : PaneId} {paused paused' : Bool} (h : word pane paused = word pane' paused') :
    pane = pane' ∧ paused = paused' := by
  cases paused <;> cases paused' <;> cases h <;> exact ⟨rfl, rfl⟩

/-- What the owner's client says is the last word. -/
theorem lastWord_said {paused : Bool} (he : start.exec ops = some (drains, c))
    (he' : start.exec (ops ++ [.decoded session client (word pane paused)]) = some (drains', c'))
    (howner : c.owner pane = some (session, client)) (howner' : c'.owner pane = some (session, client)) :
    LastWord start (ops ++ [.decoded session client (word pane paused)]) pane true ↔ paused = true := by
  constructor
  · intro h
    obtain ⟨session', client', hc, -, hop | ⟨-, hsilent⟩⟩ := lastWord_concat h he he'
    · injection hop with _ _ hword
      exact (word_injective hword).2
    · obtain ⟨rfl, rfl⟩ := Prod.mk.inj (Option.some.inj (hc.symm.trans howner))
      exact absurd rfl (hsilent paused)
  · rintro rfl
    exact lastWord_self he he' howner howner'

/-- Where the owner stays and its client says nothing, the last word is what it was. -/
theorem lastWord_silent {paused : Bool} (he : start.exec ops = some (drains, c))
    (he' : start.exec (ops ++ [op]) = some (drains', c')) (howner : c.owner pane = some (session, client))
    (howner' : c'.owner pane = some (session, client)) (hsilent : ∀ b, op ≠ .decoded session client (word pane b)) :
    LastWord start (ops ++ [op]) pane paused ↔ LastWord start ops pane paused := by
  constructor
  · intro h
    obtain ⟨session', client', hc, -, hop | ⟨h, -⟩⟩ := lastWord_concat h he he'
    · obtain ⟨rfl, rfl⟩ := Prod.mk.inj (Option.some.inj (hc.symm.trans howner))
      exact absurd hop (hsilent paused)
    · exact h
  · intro h
    exact lastWord_keep h he he' howner howner' hsilent

/-- The flag is the last word. -/
def FlagTold (start : Collector) (ops : List CollectorOp) (c : Collector) : Prop :=
  ∀ pane session client paused, c.pausing pane = some (session, client, paused) →
    (paused = true ↔ LastWord start ops pane true)

/-- Every operation keeps the flags at the last word, unless it loses one. -/
theorem FlagTold.step {out : List ProgramDrain} (h : FlagTold start ops c) (he : start.exec ops = some (drains, c))
    (hs : Collector.step c op = some (out, c')) (hlost : ¬ Lost c op) : FlagTold start (ops ++ [op]) c' := by
  have he' : start.exec (ops ++ [op]) = some (drains ++ out, c') := Run.exec_concat.mpr ⟨drains, c, out, he, hs, rfl⟩
  intro pane session client paused hnow
  have howner' := owner_of_pausing hnow
  have hquiet (hbefore : c.pausing pane = some (session, client, paused))
      (hsilent : ∀ b, op ≠ .decoded session client (word pane b)) :
      paused = true ↔ LastWord start (ops ++ [op]) pane true := by
    rw [lastWord_silent he he' (owner_of_pausing hbefore) howner' hsilent]
    exact h pane session client paused hbefore
  rcases step_pausing hs with ⟨session₀, client₀, pane₀, paused₀, rfl, haccepts, hset⟩ | ⟨hignored, hmove⟩
  · rw [hset, Function.update_apply] at hnow
    by_cases hpane : pane = pane₀
    · -- the pane's own word
      subst hpane
      rw [if_pos rfl] at hnow
      cases hnow
      obtain ⟨stream, ha⟩ := Option.isSome_iff_exists.mp haccepts
      obtain ⟨-, hstream, hsession, hclient⟩ := accepts_eq_some.mp ha
      have howner : c.owner pane = some (session, client) := by
        rw [owner, hstream, ← hsession, ← hclient]
        rfl
      exact (lastWord_said he he' howner howner').symm
    · rw [if_neg hpane] at hnow
      refine hquiet hnow fun b hop => hpane ?_
      injection hop with _ _ hword
      exact (word_injective hword).1.symm
  · rcases hmove pane with hgone | hsame | ⟨owner, client', hnew, hother⟩
    · rw [hgone] at hnow
      cases hnow
    · rw [hsame] at hnow
      by_cases hsaid : ∃ b, op = .decoded session client (word pane b)
      · -- a word that was not accepted said what the flag says
        obtain ⟨b, rfl⟩ := hsaid
        have hready : c.topologyReady = false := by
          cases hready : c.topologyReady with
          | false => rfl
          | true =>
            have hnone := hignored session client pane b rfl
            obtain ⟨stream, hstream, hheld⟩ := Option.map_eq_some_iff.mp hnow
            cases hheld
            rw [accepts_eq_some.mpr ⟨hready, hstream, rfl, rfl⟩] at hnone
            cases hnone
        have hagree : paused = b := by
          by_contra hne
          have hflag : paused = !b := by cases paused <;> cases b <;> first | rfl | exact absurd rfl hne
          exact hlost ⟨session, client, pane, b, rfl, hready, hflag ▸ hnow⟩
        rw [hagree]
        exact (lastWord_said he he' (owner_of_pausing hnow) howner').symm
      · exact hquiet hnow fun b hop => hsaid ⟨b, hop⟩
    · -- a new client has said nothing
      rw [hnew] at hnow
      cases hnow
      refine ⟨fun hfalse => (by cases hfalse), fun hword => ?_⟩
      obtain ⟨session', client'', hc, hc', -⟩ := lastWord_concat hword he he'
      obtain ⟨rfl, rfl⟩ := Prod.mk.inj (Option.some.inj (hc'.symm.trans howner'))
      rw [owner_eq] at hc
      obtain ⟨held, hheld, hpair⟩ := Option.map_eq_some_iff.mp hc
      obtain ⟨rfl, rfl⟩ := Prod.mk.inj hpair
      exact absurd hheld (hother held.2.2)

/-- **Pause bookkeeping**: while no word is lost, the flag of a tracked pane is the last word of its
owner's client since it became the owner. -/
theorem pause_bookkeeping (epoch : Nat) (he : (withEpoch epoch).exec ops = some (drains, c))
    (hkept : ∀ before op after, ops = before ++ op :: after → ∀ drains now,
      (withEpoch epoch).exec before = some (drains, now) → ¬ Lost now op) :
    ∀ pane stream, c.panes.get? pane = some stream →
      (stream.paused = true ↔ LastWord (withEpoch epoch) ops pane true) := by
  have htold : FlagTold (withEpoch epoch) ops c := by
    refine Run.exec_history (fun done _ now => (∃ rest, ops = done ++ rest) → FlagTold (withEpoch epoch) done now)
      (fun _ pane session client paused h => by cases h) ?_ he ⟨[], (List.append_nil _).symm⟩
    intro done drains now op out now' hdone ih hstep hrest
    obtain ⟨rest, rfl⟩ := hrest
    refine FlagTold.step (ih ⟨op :: rest, by simp⟩) hdone hstep (hkept done op rest (by simp) drains now hdone)
  intro pane stream hs
  exact htold pane stream.owner stream.client stream.paused (by rw [pausing, hs]; rfl)

/-- Pane 1 is reconciled under session 1's client 7, which pauses it. -/
def samplePause : List CollectorOp :=
  [.reconcile [(1, 1)] (SortedMap.empty.insert 1 7), .decoded 1 7 (.pause 1)]

omit [Base64] in
/-- A pause that is heard is the last word. -/
theorem pause_bookkeeping_sample :
    ∃ drains c stream, @exec noBase64 (withEpoch 0) samplePause = some (drains, c) ∧ c.panes.get? 1 = some stream ∧
      stream.paused = true ∧ @LastWord noBase64 (withEpoch 0) samplePause 1 true := by
  have hrun : (@exec noBase64 (withEpoch 0) samplePause).map (fun reached =>
      (reached.2.panes.get? 1).map PaneStream.paused) = some (some true) := by decide +kernel
  obtain ⟨⟨drains, c⟩, he, hpaused⟩ := Option.map_eq_some_iff.mp hrun
  obtain ⟨stream, hs, hpaused⟩ := Option.map_eq_some_iff.mp hpaused
  refine ⟨drains, c, stream, he, hs, hpaused,
    (@pause_bookkeeping noBase64 _ _ _ 0 he ?_ 1 stream hs).mp hpaused⟩
  rintro before op after hops drains now hnow ⟨session, client, pane, paused, rfl, hready, -⟩
  have hready' : (@exec noBase64 (withEpoch 0) (samplePause.take 1)).map (fun reached => reached.2.topologyReady) =
      some true := by decide +kernel
  rcases before with _ | ⟨first, before⟩
  · cases hops
  · injection hops with hfirst hrest
    rcases before with _ | ⟨second, before⟩
    · subst hfirst
      rw [show samplePause.take 1 = [.reconcile [(1, 1)] (SortedMap.empty.insert 1 7)] from rfl, hnow] at hready'
      rw [Option.map_some, Option.some.injEq, hready] at hready'
      cases hready'
    · injection hrest with _ hnil
      simp at hnil

/-- A lost word leaves its pane's flag wrong. -/
theorem Lost.breaks {out : List ProgramDrain} (hlost : Lost c op) (he : start.exec ops = some (drains, c))
    (hs : Collector.step c op = some (out, c')) : ¬ FlagTold start (ops ++ [op]) c' := by
  obtain ⟨session, client, pane, paused, rfl, hready, hheld⟩ := hlost
  have he' := Run.exec_concat.mpr ⟨drains, c, out, he, hs, rfl⟩
  obtain ⟨c₁, hdecoded, h⟩ := Option.map_eq_some_iff.mp hs
  cases h
  have hsame : c'.pausing = c.pausing := by
    rcases decoded_pausing hdecoded with ⟨pane', paused', hword, haccepts, -⟩ | ⟨-, hsame⟩
    · obtain ⟨stream, ha⟩ := Option.isSome_iff_exists.mp haccepts
      rw [(accepts_eq_some.mp ha).1] at hready
      cases hready
    · exact hsame
  intro htold
  have hflag := htold pane session client (!paused) (by rw [hsame]; exact hheld)
  have howner' : c'.owner pane = some (session, client) := by
    rw [owner_eq, hsame, hheld]
    rfl
  rw [lastWord_said he he' (owner_of_pausing hheld) howner'] at hflag
  cases paused <;> simp at hflag

/-- Client 7 continues the pane while the topology cannot be read. -/
def sampleOutage : List CollectorOp := samplePause ++ [.topologyFailed, .decoded 1 7 (.continue_ 1)]

/-- The next read finds what the first did. -/
def sampleRecovery : List CollectorOp := sampleOutage ++ [.reconcile [(1, 1)] (SortedMap.empty.insert 1 7)]

omit [Base64] in
/-- The continue is lost: after the recovery the pane is paused, though its client's last word was
to continue it, and its stream is reported. -/
theorem lost_continue :
    ∃ drains c stream, @exec noBase64 (withEpoch 0) sampleRecovery = some (drains, c) ∧ c.topologyReady = true ∧
      c.panes.get? 1 = some stream ∧ (c.stream 1).isSome = true ∧ stream.paused = true ∧
      @LastWord noBase64 (withEpoch 0) sampleRecovery 1 false ∧
      ¬ @LastWord noBase64 (withEpoch 0) sampleRecovery 1 true := by
  have hfailed : (@exec noBase64 (withEpoch 0) (samplePause ++ [.topologyFailed])).map
      (fun reached => reached.2.owner 1) = some (some (1, 7)) := by decide +kernel
  have houtage : (@exec noBase64 (withEpoch 0) sampleOutage).map (fun reached => reached.2.owner 1) =
      some (some (1, 7)) := by decide +kernel
  have hrecovery : (@exec noBase64 (withEpoch 0) sampleRecovery).map (fun reached =>
      (reached.2.topologyReady, (reached.2.panes.get? 1).map PaneStream.paused, (reached.2.stream 1).isSome,
        reached.2.owner 1)) = some (true, some true, true, some (1, 7)) := by decide +kernel
  obtain ⟨⟨drains₁, c₁⟩, he₁, howner₁⟩ := Option.map_eq_some_iff.mp hfailed
  obtain ⟨⟨drains₂, c₂⟩, he₂, howner₂⟩ := Option.map_eq_some_iff.mp houtage
  obtain ⟨⟨drains₃, c₃⟩, he₃, hall⟩ := Option.map_eq_some_iff.mp hrecovery
  obtain ⟨hready, hall⟩ := Prod.mk.inj hall
  obtain ⟨hpaused, hall⟩ := Prod.mk.inj hall
  obtain ⟨hstream, howner₃⟩ := Prod.mk.inj hall
  obtain ⟨stream, hs, hpaused⟩ := Option.map_eq_some_iff.mp hpaused
  have hops : sampleOutage = (samplePause ++ [.topologyFailed]) ++ [.decoded 1 7 (word 1 false)] := rfl
  have hsilent : ∀ b, CollectorOp.reconcile [(1, 1)] (SortedMap.empty.insert 1 7) ≠ .decoded 1 7 (word 1 b) :=
    fun _ => CollectorOp.noConfusion
  have hcontinued : @LastWord noBase64 (withEpoch 0) sampleOutage 1 false := by
    rw [hops] at he₂ ⊢
    exact @lastWord_self noBase64 _ _ _ _ _ _ _ _ _ _ he₁ he₂ howner₁ howner₂
  have hnot : ¬ @LastWord noBase64 (withEpoch 0) sampleOutage 1 true := by
    rw [hops] at he₂ ⊢
    rw [@lastWord_said noBase64 _ _ _ _ _ _ _ _ _ _ he₁ he₂ howner₁ howner₂]
    decide
  refine ⟨drains₃, c₃, stream, he₃, hready, hs, hstream, hpaused, ?_, ?_⟩
  · exact @lastWord_keep noBase64 _ _ _ _ _ _ _ _ _ _ _ hcontinued he₂ he₃ howner₂ howner₃ hsilent
  · rw [sampleRecovery, @lastWord_silent noBase64 _ _ _ _ _ _ _ _ _ _ _ he₂ he₃ howner₂ howner₃ hsilent]
    exact hnot

end Words

end Collector

end TmuxAgents
