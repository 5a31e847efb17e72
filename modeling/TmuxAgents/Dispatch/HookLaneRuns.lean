/-
The hook reply lane over whole runs.

The verdict of a request is its dispatch's and answers one hold at most (`Spends`). Where no
hold ends under a dispatch that has found its request, the request on disk is that of the
hold that waits on it, and every verdict answers the prompt it was written for
(`undisturbed_answers_its_prompt`).
-/
import TmuxAgents.Dispatch.HookLane

namespace TmuxAgents.HookLane

open Act

/-! ## What a step can do -/

namespace Lane

/-- The ways a lane changes in one step, with what the step has met. -/
inductive Effect (lane : Lane) : Step → Lane → Prop
  | idle (step : Step) : Effect lane step lane
  | refused {hold : HoldId} {id : Text} (state : lane.holds hold = .fresh) :
    Effect lane (.park hold id) (lane.setHold hold .ended)
  | parked {hold : HoldId} {id : Text} (state : lane.holds hold = .fresh) (valid : validRequestId id = true) :
    Effect lane (.park hold id) { lane.setHold hold (.parked id) with files := lane.files.writeRequest id hold }
  | published {hold : HoldId} {id : Text} (state : lane.holds hold = .parked id) :
    Effect lane (.publish hold true) (lane.setHold hold (.polling id))
  | lost {hold : HoldId} {id : Text} (state : lane.holds hold = .parked id) :
    Effect lane (.publish hold false) (lane.setHold hold .ended)
  | answered {hold : HoldId} {id : Text} {verdict : Verdict} (state : lane.holds hold = .polling id)
    (found : lane.files.verdicts id = some verdict) :
    Effect lane (.poll hold) { lane.setHold hold (.answered id verdict) with
      files := (lane.files.removeVerdict id).removeRequest id
      printed := lane.printed ++ [(hold, verdict.decision)] }
  | missed {hold : HoldId} {id : Text} (state : lane.holds hold = .polling id) :
    Effect lane (.poll hold) (lane.setHold hold (.missed id))
  | expired {hold : HoldId} {id : Text} (state : lane.holds hold = .missed id) :
    Effect lane (.deadline hold true) { lane.setHold hold .ended with files := lane.files.removeRequest id }
  | slept {hold : HoldId} {id : Text} (state : lane.holds hold = .missed id) :
    Effect lane (.deadline hold false) (lane.setHold hold (.polling id))
  | checked {dispatch : DispatchId} {id : Text} {decision : HookVerdict} {hold : HoldId}
    (state : lane.dispatches dispatch = .fresh) (pending : lane.files.requests id = some hold)
    (valid : validRequestId id = true) :
    Effect lane (.check dispatch id decision) (lane.setDispatch dispatch (.checked id decision hold))
  | keys {dispatch : DispatchId} {id : Text} {decision : HookVerdict} (state : lane.dispatches dispatch = .fresh) :
    Effect lane (.check dispatch id decision) (lane.setDispatch dispatch .keys)
  | written {dispatch : DispatchId} {id : Text} {decision : HookVerdict} {hold : HoldId}
    (state : lane.dispatches dispatch = .checked id decision hold) (absent : lane.files.verdicts id = none) :
    Effect lane (.link dispatch) { lane.setDispatch dispatch (.wrote id hold .written) with
      files.verdicts := Function.update lane.files.verdicts id (some ⟨decision, dispatch⟩) }
  | failed {dispatch : DispatchId} {id : Text} {decision : HookVerdict} {hold : HoldId} {result : VerdictWrite}
    (state : lane.dispatches dispatch = .checked id decision hold) (result_ne : result ≠ .written) :
    Effect lane (.link dispatch) (lane.setDispatch dispatch (.wrote id hold result))

theorem step_effect (lane : Lane) (next : Step) : Effect lane next (lane.step next) := by
  unfold step
  cases next with
  | park hold id =>
    simp only
    split
    · rename_i state
      split
      · rename_i valid
        exact .parked state valid
      · exact .refused state
    · exact .idle _
  | publish hold bound =>
    simp only
    split
    · rename_i state
      cases bound with
      | false => exact .lost state
      | true => exact .published state
    · exact .idle _
  | poll hold =>
    simp only
    split
    · rename_i state
      split
      · rename_i found
        exact .answered state found
      · exact .missed state
    · exact .idle _
  | deadline hold late =>
    simp only
    split
    · rename_i state
      cases late with
      | false => exact .slept state
      | true => exact .expired state
    · exact .idle _
  | check dispatch id decision =>
    simp only
    split
    · rename_i state
      split
      · rename_i hpending
        rw [Files.requestPending, Bool.and_eq_true] at hpending
        split
        · rename_i pending
          exact .checked state pending hpending.1
        · exact .idle _
      · exact .keys state
    · exact .idle _
  | link dispatch =>
    simp only
    split
    · rename_i id decision hold state
      unfold Files.writeVerdict
      split
      · exact .failed state nofun
      split
      · exact .failed state nofun
      · rename_i absent
        exact .written state absent
    · exact .idle _

/-! ## A verdict is spent once -/

/-- Every verdict on disk was linked by its dispatch; one that has answered is off the disk, has
answered one hold, and is what the hold has printed. -/
structure Spends (lane : Lane) : Prop where
  linked : ∀ id verdict, lane.files.verdicts id = some verdict →
    ∃ hold, lane.dispatches verdict.dispatch = .wrote id hold .written
  spent : ∀ hold id verdict, (lane.holds hold).answer = some (id, verdict) →
    (∃ other, lane.dispatches verdict.dispatch = .wrote id other .written) ∧
      ∀ left, lane.files.verdicts id = some left → left.dispatch ≠ verdict.dispatch
  once : ∀ hold hold' id id' verdict verdict', (lane.holds hold).answer = some (id, verdict) →
    (lane.holds hold').answer = some (id', verdict') → verdict.dispatch = verdict'.dispatch → hold = hold'
  said : ∀ hold, lane.prints hold = ((lane.holds hold).answer.map fun answer => answer.2.decision).toList

/-- A step that links and answers nothing. -/
theorem Spends.quiet {lane lane' : Lane} (h : lane.Spends)
    (holds : ∀ hold, (lane'.holds hold).answer = (lane.holds hold).answer)
    (verdicts : lane'.files.verdicts = lane.files.verdicts)
    (dispatches : ∀ dispatch id hold, lane.dispatches dispatch = .wrote id hold .written →
      lane'.dispatches dispatch = .wrote id hold .written)
    (printed : lane'.printed = lane.printed) : lane'.Spends where
  linked id verdict hverdict := by
    rw [verdicts] at hverdict
    obtain ⟨hold, hwrote⟩ := h.linked id verdict hverdict
    exact ⟨hold, dispatches _ _ _ hwrote⟩
  spent hold id verdict hanswer := by
    rw [holds] at hanswer
    obtain ⟨⟨other, hwrote⟩, hleft⟩ := h.spent hold id verdict hanswer
    rw [verdicts]
    exact ⟨⟨other, dispatches _ _ _ hwrote⟩, hleft⟩
  once hold hold' id id' verdict verdict' hanswer hanswer' := by
    rw [holds] at hanswer hanswer'
    exact h.once hold hold' id id' verdict verdict' hanswer hanswer'
  said hold := by
    rw [prints, printed, holds]
    exact h.said hold

theorem answer_setHold {lane : Lane} {hold : HoldId} {state : Hold} (h : (lane.holds hold).answer = state.answer)
    (other : HoldId) : ((lane.setHold hold state).holds other).answer = (lane.holds other).answer := by
  rw [setHold_holds]
  split
  · rename_i heq
    rw [heq, h]
  · rfl

theorem wrote_setDispatch {lane : Lane} {dispatch : DispatchId} {state : Dispatch}
    (h : ∀ id hold, lane.dispatches dispatch ≠ .wrote id hold .written) (other : DispatchId) (id : Text)
    (hold : HoldId) (hwrote : lane.dispatches other = .wrote id hold .written) :
    (lane.setDispatch dispatch state).dispatches other = .wrote id hold .written := by
  rw [setDispatch_dispatches, if_neg, hwrote]
  rintro rfl
  exact h id hold hwrote

theorem Spends.answered {lane : Lane} (h : lane.Spends) {hold : HoldId} {id : Text} {verdict : Verdict}
    (state : lane.holds hold = .polling id) (found : lane.files.verdicts id = some verdict) :
    Spends { lane.setHold hold (.answered id verdict) with
      files := (lane.files.removeVerdict id).removeRequest id
      printed := lane.printed ++ [(hold, verdict.decision)] } := by
  have hleft {other : Text} {left : Verdict}
      (hother : ((lane.files.removeVerdict id).removeRequest id).verdicts other = some left) :
      other ≠ id ∧ lane.files.verdicts other = some left := by
    rw [Files.removeRequest_verdicts, Files.removeVerdict_verdicts] at hother
    exact Option.ite_none_left_eq_some.mp hother
  -- The verdict was on disk until now, so it has answered nobody.
  have hunspent {other : HoldId} {id' : Text} {verdict' : Verdict}
      (hanswer : (lane.holds other).answer = some (id', verdict')) : verdict.dispatch ≠ verdict'.dispatch := by
    obtain ⟨⟨_, hwrote⟩, hspent⟩ := h.spent other id' verdict' hanswer
    obtain ⟨_, hlinked⟩ := h.linked id verdict found
    intro heq
    rw [heq, hwrote] at hlinked
    obtain rfl : id' = id := by injection hlinked
    exact hspent verdict found heq
  refine ⟨fun other left hother => h.linked other left (hleft hother).2, fun other id' verdict' hanswer => ?_,
    fun other other' id' id'' verdict' verdict'' hanswer hanswer' heq => ?_, fun other => ?_⟩
  · by_cases hhold : other = hold
    · subst hhold
      simp only [setHold_holds, if_true] at hanswer
      cases hanswer
      exact ⟨h.linked id verdict found, fun left hl => absurd rfl (hleft hl).1⟩
    · simp only [setHold_holds, if_neg hhold] at hanswer
      obtain ⟨hwrote, hspent⟩ := h.spent other id' verdict' hanswer
      exact ⟨hwrote, fun left hl => hspent left (hleft hl).2⟩
  · simp only [setHold_holds] at hanswer hanswer'
    by_cases hhold : other = hold
    · rw [if_pos hhold] at hanswer
      cases hanswer
      by_cases hhold' : other' = hold
      · rw [hhold, hhold']
      · rw [if_neg hhold'] at hanswer'
        exact absurd heq (hunspent hanswer')
    · rw [if_neg hhold] at hanswer
      by_cases hhold' : other' = hold
      · rw [if_pos hhold'] at hanswer'
        cases hanswer'
        exact absurd heq.symm (hunspent hanswer)
      · rw [if_neg hhold'] at hanswer'
        exact h.once _ _ _ _ _ _ hanswer hanswer' heq
  · have hsaid := h.said other
    unfold prints at hsaid ⊢
    simp only [setHold_holds, List.filter_append, List.map_append, hsaid]
    by_cases hhold : other = hold
    · subst hhold
      simp [state, Hold.answer]
    · simp [hhold, Ne.symm hhold]

theorem Spends.written {lane : Lane} (h : lane.Spends) {dispatch : DispatchId} {id : Text} {decision : HookVerdict}
    {hold : HoldId} (state : lane.dispatches dispatch = .checked id decision hold) :
    Spends { lane.setDispatch dispatch (.wrote id hold .written) with
      files.verdicts := Function.update lane.files.verdicts id (some ⟨decision, dispatch⟩) } := by
  have hold_wrote (other : DispatchId) (id' : Text) (hold' : HoldId)
      (hwrote : lane.dispatches other = .wrote id' hold' .written) :
      (lane.setDispatch dispatch (.wrote id hold .written)).dispatches other = .wrote id' hold' .written :=
    wrote_setDispatch (by rw [state]; exact nofun) other id' hold' hwrote
  refine ⟨fun other left hother => ?_, fun other id' verdict hanswer => ?_, h.once, h.said⟩
  · simp only [Function.update_apply] at hother
    split at hother
    · rename_i heq
      cases hother
      exact ⟨hold, by rw [heq, setDispatch_dispatches, if_pos rfl]⟩
    · obtain ⟨hold', hwrote⟩ := h.linked other left hother
      exact ⟨hold', hold_wrote _ _ _ hwrote⟩
  · obtain ⟨⟨other', hwrote⟩, hspent⟩ := h.spent other id' verdict hanswer
    refine ⟨⟨other', hold_wrote _ _ _ hwrote⟩, fun left hleft => ?_⟩
    simp only [Function.update_apply] at hleft
    split at hleft
    · cases hleft
      intro heq
      rw [← heq, state] at hwrote
      cases hwrote
    · exact hspent left hleft

theorem Spends.effect {lane lane' : Lane} {next : Step} (h : lane.Spends) (he : Effect lane next lane') :
    lane'.Spends := by
  cases he with
  | idle => exact h
  | refused state => exact h.quiet (answer_setHold (by rw [state]; rfl)) rfl (fun _ _ _ => id) rfl
  | parked state valid => exact h.quiet (answer_setHold (by rw [state]; rfl)) rfl (fun _ _ _ => id) rfl
  | published state => exact h.quiet (answer_setHold (by rw [state]; rfl)) rfl (fun _ _ _ => id) rfl
  | lost state => exact h.quiet (answer_setHold (by rw [state]; rfl)) rfl (fun _ _ _ => id) rfl
  | answered state found => exact h.answered state found
  | missed state => exact h.quiet (answer_setHold (by rw [state]; rfl)) rfl (fun _ _ _ => id) rfl
  | expired state => exact h.quiet (answer_setHold (by rw [state]; rfl)) rfl (fun _ _ _ => id) rfl
  | slept state => exact h.quiet (answer_setHold (by rw [state]; rfl)) rfl (fun _ _ _ => id) rfl
  | checked state pending valid =>
    exact h.quiet (fun _ => rfl) rfl (wrote_setDispatch (by rw [state]; exact nofun)) rfl
  | keys state => exact h.quiet (fun _ => rfl) rfl (wrote_setDispatch (by rw [state]; exact nofun)) rfl
  | written state absent => exact h.written state
  | failed state result_ne => exact h.quiet (fun _ => rfl) rfl (wrote_setDispatch (by rw [state]; exact nofun)) rfl

/-! ## Undisturbed runs -/

/-- The request on disk is that of the hold that waits on it, and there are dispatches and verdicts
for such requests only. -/
structure Held (steps : List Step) (lane : Lane) : Prop where
  owner : ∀ id hold, lane.files.requests id = some hold ↔ lane.Holding hold id
  flight : ∀ dispatch id decision hold, lane.dispatches dispatch = .checked id decision hold → lane.Holding hold id
  pending : ∀ id verdict, lane.files.verdicts id = some verdict →
    ∃ hold, lane.Holding hold id ∧ WrittenWhileParked steps verdict.dispatch hold id
  parked : ∀ hold id verdict, (lane.holds hold).answer = some (id, verdict) →
    WrittenWhileParked steps verdict.dispatch hold id

theorem Held.unique {steps : List Step} {lane : Lane} (h : Held steps lane) {hold hold' : HoldId} {id : Text}
    (hhold : lane.Holding hold id) (hhold' : lane.Holding hold' id) : hold = hold' :=
  Option.some.inj (((h.owner id hold).mpr hhold).symm.trans ((h.owner id hold').mpr hhold'))

/-- A step that parks, ends, links and finds nothing. -/
theorem Held.quiet {steps : List Step} {next : Step} {lane lane' : Lane} (h : Held steps lane)
    (requests : ∀ hold, (lane'.holds hold).request = (lane.holds hold).request)
    (answers : ∀ hold, (lane'.holds hold).answer = (lane.holds hold).answer) (files : lane'.files = lane.files)
    (dispatches : ∀ dispatch id decision hold, lane'.dispatches dispatch = .checked id decision hold →
      lane.dispatches dispatch = .checked id decision hold) : Held (steps ++ [next]) lane' where
  owner id hold := by
    rw [files, Holding, requests]
    exact h.owner id hold
  flight dispatch id decision hold hchecked := by
    rw [Holding, requests]
    exact h.flight dispatch id decision hold (dispatches _ _ _ _ hchecked)
  pending id verdict hverdict := by
    rw [files] at hverdict
    obtain ⟨hold, hholding, hwhile⟩ := h.pending id verdict hverdict
    exact ⟨hold, (requests hold).trans hholding, hwhile.concat next⟩
  parked hold id verdict hanswer := by
    rw [answers] at hanswer
    exact (h.parked hold id verdict hanswer).concat next

theorem request_setHold {lane : Lane} {hold : HoldId} {state : Hold} (h : (lane.holds hold).request = state.request)
    (other : HoldId) : ((lane.setHold hold state).holds other).request = (lane.holds other).request := by
  rw [setHold_holds]
  split
  · rename_i heq
    rw [heq, h]
  · rfl

theorem Held.setHold {steps : List Step} {next : Step} {lane : Lane} (h : Held steps lane) {hold : HoldId}
    {state state' : Hold} (hstate : lane.holds hold = state) (requests : state.request = state'.request)
    (answers : state.answer = state'.answer) : Held (steps ++ [next]) (lane.setHold hold state') :=
  h.quiet (request_setHold (hstate ▸ requests)) (answer_setHold (hstate ▸ answers)) rfl fun _ _ _ _ => id

theorem Held.setDispatch {steps : List Step} {next : Step} {lane : Lane} (h : Held steps lane) {dispatch : DispatchId}
    {state : Dispatch} (holding : ∀ id decision hold, state = .checked id decision hold → lane.Holding hold id) :
    Held (steps ++ [next]) (lane.setDispatch dispatch state) where
  owner := h.owner
  flight other id decision hold hchecked := by
    rw [setDispatch_dispatches] at hchecked
    split at hchecked
    · exact holding id decision hold hchecked
    · exact h.flight other id decision hold hchecked
  pending id verdict hverdict := by
    obtain ⟨hold, hholding, hwhile⟩ := h.pending id verdict hverdict
    exact ⟨hold, hholding, hwhile.concat next⟩
  parked hold id verdict hanswer := (h.parked hold id verdict hanswer).concat next

theorem Held.park {steps : List Step} {next : Step} {lane : Lane} (h : Held steps lane) {hold : HoldId} {id : Text}
    (state : lane.holds hold = .fresh) (alone : ∀ other, ¬ lane.Holding other id) :
    Held (steps ++ [next]) { lane.setHold hold (.parked id) with files := lane.files.writeRequest id hold } := by
  have hfresh (id' : Text) : ¬ lane.Holding hold id' := by
    rw [Holding, state]
    exact nofun
  have hkept {other : HoldId} {id' : Text} (hother : lane.Holding other id') :
      Holding { lane.setHold hold (.parked id) with files := lane.files.writeRequest id hold } other id' := by
    have hne : other ≠ hold := by
      rintro rfl
      exact hfresh id' hother
    rw [Holding, setHold_holds, if_neg hne]
    exact hother
  refine ⟨fun id' other => ?_, fun dispatch id' decision other hchecked => hkept (h.flight _ _ _ _ hchecked),
    fun id' verdict hverdict => ?_, fun other id' verdict hanswer => ?_⟩
  · rw [Files.writeRequest_requests, Holding, setHold_holds]
    by_cases hother : other = hold
    · rw [if_pos hother, hother, Hold.request]
      by_cases hid : id' = id
      · simp [hid]
      · rw [if_neg hid, h.owner]
        exact ⟨fun hholding => absurd hholding (hfresh id'), fun heq => absurd (Option.some.inj heq).symm hid⟩
    · rw [if_neg hother]
      by_cases hid : id' = id
      · rw [if_pos hid, hid]
        exact ⟨fun heq => absurd (Option.some.inj heq).symm hother, fun hholding => absurd hholding (alone other)⟩
      · rw [if_neg hid]
        exact h.owner id' other
  · obtain ⟨other, hother, hwhile⟩ := h.pending id' verdict hverdict
    exact ⟨other, hkept hother, hwhile.concat next⟩
  · rw [answer_setHold (by rw [state]; rfl)] at hanswer
    exact (h.parked other id' verdict hanswer).concat next

/-- A hold ends and takes its request with it, and leaves no verdict and no dispatch behind. -/
theorem Held.leave {steps : List Step} {next : Step} {lane lane' : Lane} (h : Held steps lane) {hold : HoldId}
    {id : Text} {state : Hold} (held : lane.Holding hold id) (unseen : ¬ lane.InFlight id)
    (ended : state.request = none)
    (answer : ∀ id' verdict, state.answer = some (id', verdict) → WrittenWhileParked steps verdict.dispatch hold id')
    (holds : lane'.holds = (lane.setHold hold state).holds) (dispatches : lane'.dispatches = lane.dispatches)
    (requests : lane'.files.requests = (lane.files.removeRequest id).requests)
    (verdicts : ∀ id' verdict, lane'.files.verdicts id' = some verdict →
      id' ≠ id ∧ lane.files.verdicts id' = some verdict) :
    Held (steps ++ [next]) lane' := by
  have hkept {other : HoldId} {id' : Text} : lane'.Holding other id' ↔ id' ≠ id ∧ lane.Holding other id' := by
    rw [Holding, holds, setHold_holds]
    by_cases hother : other = hold
    · rw [if_pos hother, ended]
      refine ⟨nofun, ?_⟩
      rintro ⟨hne, hholding⟩
      rw [hother, Holding, held] at hholding
      exact absurd (Option.some.inj hholding).symm hne
    · rw [if_neg hother]
      refine ⟨fun hholding => ⟨?_, hholding⟩, And.right⟩
      rintro rfl
      exact hother (h.unique hholding held)
  refine ⟨fun id' other => ?_, fun dispatch id' decision other hchecked => ?_,
    fun id' verdict hverdict => ?_, fun other id' verdict hanswer => ?_⟩
  · rw [hkept, requests, Files.removeRequest_requests, Option.ite_none_left_eq_some, h.owner]
  · rw [dispatches] at hchecked
    refine hkept.mpr ⟨?_, h.flight _ _ _ _ hchecked⟩
    rintro rfl
    exact unseen ⟨dispatch, decision, other, hchecked⟩
  · obtain ⟨hne, hverdict⟩ := verdicts id' verdict hverdict
    obtain ⟨other, hother, hwhile⟩ := h.pending id' verdict hverdict
    exact ⟨other, hkept.mpr ⟨hne, hother⟩, hwhile.concat next⟩
  · rw [holds, setHold_holds] at hanswer
    by_cases hother : other = hold
    · rw [if_pos hother] at hanswer
      rw [hother]
      exact (answer id' verdict hanswer).concat next
    · rw [if_neg hother] at hanswer
      exact (h.parked other id' verdict hanswer).concat next

theorem Held.written {steps : List Step} (h : Held steps (run steps)) {dispatch : DispatchId} {id : Text}
    {decision : HookVerdict} {hold : HoldId} (state : (run steps).dispatches dispatch = .checked id decision hold) :
    Held (steps ++ [.link dispatch]) { (run steps).setDispatch dispatch (.wrote id hold .written) with
      files.verdicts := Function.update (run steps).files.verdicts id (some ⟨decision, dispatch⟩) } := by
  have hholding := h.flight dispatch id decision hold state
  refine ⟨h.owner, fun other id' decision' hold' hchecked => ?_, fun id' verdict hverdict => ?_,
    fun other id' verdict hanswer => (h.parked other id' verdict hanswer).concat _⟩
  · rw [setDispatch_dispatches] at hchecked
    split at hchecked
    · cases hchecked
    · exact h.flight _ _ _ _ hchecked
  · simp only [Function.update_apply] at hverdict
    split at hverdict
    · rename_i hid
      cases hverdict
      rw [hid]
      exact ⟨hold, hholding, steps, [], rfl, hholding, (h.owner id hold).mpr hholding⟩
    · obtain ⟨other, hother, hwhile⟩ := h.pending id' verdict hverdict
      exact ⟨other, hother, hwhile.concat _⟩

theorem Held.effect {steps : List Step} {next : Step} {lane' : Lane} (h : Held steps (run steps))
    (calm : (run steps).Undisturbed next) (he : Effect (run steps) next lane') : Held (steps ++ [next]) lane' := by
  cases he with
  | idle => exact h.quiet (fun _ => rfl) (fun _ => rfl) rfl fun _ _ _ _ => id
  | refused state => exact h.setHold state rfl rfl
  | parked state valid => exact h.park state calm
  | published state => exact h.setHold state rfl rfl
  | lost state => exact absurd calm nofun
  | answered state found =>
    rename_i hold id verdict
    have hholding : (run steps).Holding hold id := by
      rw [Holding, state]
      rfl
    refine h.leave hholding (calm id state (by rw [found]; exact nofun)) rfl (fun id' verdict' hanswer => ?_) rfl rfl rfl
      fun id' left hleft => ?_
    · cases hanswer
      obtain ⟨other, hother, hwhile⟩ := h.pending id verdict found
      rwa [← h.unique hother hholding]
    · simp only [Files.removeRequest_verdicts, Files.removeVerdict_verdicts, Option.ite_none_left_eq_some] at hleft
      exact hleft
  | missed state => exact h.setHold state rfl rfl
  | expired state =>
    rename_i hold id
    have hholding : (run steps).Holding hold id := by
      rw [Holding, state]
      rfl
    obtain ⟨hnone, hunseen⟩ := calm id state rfl
    refine h.leave hholding hunseen rfl (fun id' verdict hanswer => by cases hanswer) rfl rfl rfl fun id' left hleft => ?_
    refine ⟨?_, hleft⟩
    rintro rfl
    rw [Files.removeRequest_verdicts, hnone] at hleft
    cases hleft
  | slept state => exact h.setHold state rfl rfl
  | checked state pending valid =>
    refine h.setDispatch fun id' decision' hold' hchecked => ?_
    cases hchecked
    exact (h.owner _ _).mp pending
  | keys state => exact h.setDispatch fun _ _ _ hchecked => by cases hchecked
  | written state absent => exact h.written state
  | failed state result_ne => exact h.setDispatch fun _ _ _ hchecked => by cases hchecked

/-- Every step of the run is of the kind that goes right. -/
def UndisturbedRun (steps : List Step) : Prop := Run.Along step Undisturbed {} steps

theorem spends_run (steps : List Step) : (run steps).Spends := by
  refine Run.invariant step Spends (fun lane next h => h.effect (step_effect lane next)) ?_ steps
  exact ⟨nofun, nofun, nofun, fun _ => rfl⟩

theorem held_run {steps : List Step} (h : UndisturbedRun steps) : Held steps (run steps) := by
  have hstart : Held [] {} := ⟨fun _ _ => ⟨nofun, nofun⟩, nofun, nofun, nofun⟩
  exact Run.Along.invariant Held hstart (fun steps next hheld calm => Held.effect hheld calm (step_effect _ _)) h

end Lane

/-! ## The lane -/

/-- **In an undisturbed run every verdict answers the prompt it was written for.** -/
theorem undisturbed_answers_its_prompt {steps : List Step} (h : Lane.UndisturbedRun steps) :
    AnswersItsPrompt steps := by
  have hspends := Lane.spends_run steps
  have hheld := Lane.held_run h
  refine ⟨fun hold id verdict hanswered => ?_, fun hold hold' id id' verdict verdict' hanswered hanswered' hsame => ?_,
    fun hold => ?_, fun before after dispatch id decision hold heq hchecked _ => ?_⟩
  · exact hheld.parked hold id verdict (Hold.answer_eq_some.mpr hanswered)
  · exact hspends.once hold hold' id id' verdict verdict' (Hold.answer_eq_some.mpr hanswered)
      (Hold.answer_eq_some.mpr hanswered') hsame
  · rw [hspends.said hold, Option.length_toList]
    split <;> simp
  · subst heq
    exact (Lane.held_run (Run.Along.of_append h)).flight dispatch id decision hold hchecked

/-- One prompt, denied. -/
theorem undisturbed_denial : AnswersItsPrompt
    [.park 0 ['a'], .publish 0 true, .check 0 ['a'] .deny, .link 0, .poll 0] := by
  refine undisturbed_answers_its_prompt ?_
  have hpark : Lane.UndisturbedRun [.park 0 ['a']] := (Run.Along.nil _).concat fun _ hother => by cases hother
  have hpublish : Lane.UndisturbedRun [.park 0 ['a'], .publish 0 true] := Run.Along.concat hpark rfl
  have hcheck : Lane.UndisturbedRun [.park 0 ['a'], .publish 0 true, .check 0 ['a'] .deny] :=
    Run.Along.concat hpublish trivial
  have hlink : Lane.UndisturbedRun [.park 0 ['a'], .publish 0 true, .check 0 ['a'] .deny, .link 0] :=
    Run.Along.concat hcheck trivial
  have hdispatches (dispatch : DispatchId) :
      (Lane.run [.park 0 ['a'], .publish 0 true, .check 0 ['a'] .deny, .link 0]).dispatches dispatch =
        Function.update (Function.update (fun _ => Dispatch.fresh) 0 (Dispatch.checked ['a'] .deny 0)) 0
          (Dispatch.wrote ['a'] 0 .written) dispatch := rfl
  refine Run.Along.concat hlink fun id _ _ => ?_
  rintro ⟨dispatch, decision, hold, hchecked⟩
  have hstate := (hdispatches dispatch).symm.trans hchecked
  rw [Function.update_idem, Function.update_apply] at hstate
  split at hstate
  · cases hstate
  · cases hstate

end TmuxAgents.HookLane
