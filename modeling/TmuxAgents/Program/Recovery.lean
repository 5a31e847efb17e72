/-
Recovery tombstones (`recovery_reset_for`): which records were reset since the
last boundary.

The store keeps as little as it can. A reset that an older tombstone implies is
not noted, a subtree's tombstone replaces those under it, and the root's, or one
for which there is no room, becomes the flag for everything. Read through
`covers`, noting a reset adds exactly what the reset covers
(`recoveryResetFor_noteRecoveryReset`), unless it overflows.
-/
import Mathlib.Algebra.Order.BigOperators.Group.List
import Mathlib.Algebra.Order.Group.Nat
import TmuxAgents.Program.StoreFacts

namespace TmuxAgents

/-- The records a tombstone speaks of. -/
def RecordId.covers (reset : RecordId) (wide : Bool) (id : RecordId) : Bool :=
  if wide then reset.contains id else reset == id

/-- The calls that forget the tombstones. A full reset does not: it resets everything. -/
def StoreOp.endsRecovery : StoreOp → Bool
  | .lifecycle .shellPrompt | .lifecycle .attachedProcessExit | .invalidateEpisode => true
  | _ => false

namespace RecordStore

/-! ## Noting a reset -/

/-- The tombstones already imply the reset. -/
def impliesReset (s : RecordStore) (id : RecordId) (subtree : Bool) : Bool :=
  s.recoveryResetAll || s.recoveryResets.any fun (reset, wide) =>
    if wide then reset.contains id else !subtree && reset == id

/-- The tombstones a noted reset leaves standing. -/
def standingResets (s : RecordStore) (id : RecordId) (subtree : Bool) : List (RecordId × Bool) :=
  if subtree then s.recoveryResets.filter fun (reset, _) => !id.contains reset else s.recoveryResets

/-- A tombstone overflow: the reset is a new one, and `MAX_RECORDS` tombstones stand beside it. -/
def overflowsReset (s : RecordStore) (id : RecordId) (subtree : Bool) : Bool :=
  !s.impliesReset id subtree && (s.standingResets id subtree).length == maxRecords

theorem recoveryResetFor_iff {s : RecordStore} {id : RecordId} : s.recoveryResetFor id = true ↔
    s.recoveryResetAll = true ∨ ∃ reset wide, (reset, wide) ∈ s.recoveryResets ∧ reset.covers wide id = true := by
  simp only [recoveryResetFor, RecordId.covers, Bool.or_eq_true, List.any_eq_true, Prod.exists]

theorem impliesReset_iff {s : RecordStore} {id : RecordId} {subtree : Bool} : s.impliesReset id subtree = true ↔
    s.recoveryResetAll = true ∨ ∃ reset wide, (reset, wide) ∈ s.recoveryResets ∧
      reset.covers wide id = true ∧ (subtree = true → wide = true) := by
  simp only [impliesReset, Bool.or_eq_true, List.any_eq_true, Prod.exists]
  refine or_congr_right (exists_congr fun reset => exists_congr fun wide => and_congr_right fun _ => ?_)
  cases wide <;> cases subtree <;> simp [RecordId.covers]

/-- The four ways of `note_recovery_reset`. -/
theorem noteRecoveryReset_cases (s : RecordStore) (id : RecordId) (subtree : Bool) :
    (s.impliesReset id subtree = true ∧ s.noteRecoveryReset id subtree = s) ∨
    (s.overflowsReset id subtree = true ∧
      s.noteRecoveryReset id subtree = { s with recoveryResets := [], recoveryResetAll := true }) ∨
    (subtree = true ∧ id.isRoot = true ∧
      s.noteRecoveryReset id subtree = { s with recoveryResets := [], recoveryResetAll := true }) ∨
    (s.recoveryResetAll = false ∧ s.overflowsReset id subtree = false ∧ s.noteRecoveryReset id subtree =
      { s with recoveryResets := s.standingResets id subtree ++ [(id, subtree)] }) := by
  have hnote : s.noteRecoveryReset id subtree = if s.impliesReset id subtree then s else
      if (s.standingResets id subtree).length = maxRecords ∨ subtree = true ∧ id.isRoot = true then
        { s with recoveryResets := [], recoveryResetAll := true }
      else { s with recoveryResets := s.standingResets id subtree ++ [(id, subtree)] } := rfl
  cases himplied : s.impliesReset id subtree with
  | true =>
    rw [hnote, if_pos himplied]
    exact .inl ⟨rfl, rfl⟩
  | false =>
    rw [hnote, if_neg (by simp [himplied])]
    right
    have hoverflow : s.overflowsReset id subtree = ((s.standingResets id subtree).length == maxRecords) := by
      rw [overflowsReset, himplied, Bool.not_false, Bool.true_and]
    by_cases hfull : (s.standingResets id subtree).length = maxRecords
    · rw [if_pos (.inl hfull)]
      exact .inl ⟨by rw [hoverflow, beq_iff_eq]; exact hfull, rfl⟩
    right
    by_cases hroot : subtree = true ∧ id.isRoot = true
    · rw [if_pos (.inr hroot)]
      exact .inl ⟨hroot.1, hroot.2, rfl⟩
    · rw [if_neg (not_or.mpr ⟨hfull, hroot⟩)]
      refine .inr ⟨?_, by rw [hoverflow, beq_eq_false_iff_ne]; exact hfull, rfl⟩
      cases hall : s.recoveryResetAll with
      | false => rfl
      | true => simp [impliesReset, hall] at himplied

/-- What a wide tombstone replaces, it covers. -/
theorem covers_of_replaced {id reset : RecordId} {wide : Bool} (h : id.contains reset = true) {x : RecordId}
    (hx : reset.covers wide x = true) : id.contains x = true := by
  cases wide with
  | true => exact RecordId.contains_trans h hx
  | false =>
    rw [RecordId.covers, if_neg Bool.false_ne_true, beq_iff_eq] at hx
    exact hx ▸ h

/-- What an implied reset covers, the tombstone that implies it covers. -/
theorem covers_of_implied {id reset : RecordId} {wide subtree : Bool} (h : reset.covers wide id = true)
    (hwide : subtree = true → wide = true) {x : RecordId} (hx : id.covers subtree x = true) :
    reset.covers wide x = true := by
  cases subtree with
  | true =>
    obtain rfl : wide = true := hwide rfl
    exact RecordId.contains_trans h hx
  | false =>
    rw [RecordId.covers, if_neg Bool.false_ne_true, beq_iff_eq] at hx
    exact hx ▸ h

theorem standing_or_covered {s : RecordStore} (id : RecordId) (subtree : Bool) {reset : RecordId} {wide : Bool}
    (h : (reset, wide) ∈ s.recoveryResets) : (reset, wide) ∈ s.standingResets id subtree ∨
      subtree = true ∧ id.contains reset = true := by
  cases subtree with
  | false => exact .inl h
  | true =>
    cases hc : id.contains reset with
    | true => exact .inr ⟨rfl, rfl⟩
    | false => exact .inl (List.mem_filter.mpr ⟨h, by simp [hc]⟩)

theorem standingResets_sublist (s : RecordStore) (id : RecordId) (subtree : Bool) :
    (s.standingResets id subtree).Sublist s.recoveryResets := by
  unfold standingResets
  split
  · exact List.filter_sublist
  · exact .refl _

/-- **Noting a reset adds what it covers**, or everything where it overflows. -/
theorem recoveryResetFor_noteRecoveryReset (s : RecordStore) (id : RecordId) (subtree : Bool) (x : RecordId) :
    (s.noteRecoveryReset id subtree).recoveryResetFor x = true ↔
      s.recoveryResetFor x = true ∨ id.covers subtree x = true ∨ s.overflowsReset id subtree = true := by
  rcases noteRecoveryReset_cases s id subtree with
    ⟨himplied, h⟩ | ⟨hoverflow, h⟩ | ⟨hsub, hroot, h⟩ | ⟨hall, hroom, h⟩
  · rw [h]
    refine ⟨.inl, ?_⟩
    rintro (hx | hx | hx)
    · exact hx
    · rw [recoveryResetFor_iff]
      rcases impliesReset_iff.mp himplied with hall | ⟨reset, wide, hmem, hcovers, hwide⟩
      · exact .inl hall
      · exact .inr ⟨reset, wide, hmem, covers_of_implied hcovers hwide hx⟩
    · rw [overflowsReset, himplied] at hx
      exact absurd hx Bool.false_ne_true
  · rw [h]
    exact iff_of_true (recoveryResetFor_iff.mpr (.inl rfl)) (.inr (.inr hoverflow))
  · rw [h]
    subst hsub
    have hcovers : id.covers true x = true := RecordId.contains_iff.mpr (.inl (List.isEmpty_iff.mp hroot))
    exact iff_of_true (recoveryResetFor_iff.mpr (.inl rfl)) (.inr (.inl hcovers))
  · rw [h, hroom, recoveryResetFor_iff, recoveryResetFor_iff, hall]
    simp only [Bool.false_eq_true, false_or, or_false, List.mem_append, List.mem_singleton, Prod.mk.injEq]
    constructor
    · rintro ⟨reset, wide, hmem | ⟨rfl, rfl⟩, hcovers⟩
      · exact .inl ⟨reset, wide, (standingResets_sublist s id subtree).subset hmem, hcovers⟩
      · exact .inr hcovers
    · rintro (⟨reset, wide, hmem, hcovers⟩ | hcovers)
      · rcases standing_or_covered id subtree hmem with hstands | ⟨rfl, hc⟩
        · exact ⟨reset, wide, .inl hstands, hcovers⟩
        · exact ⟨id, true, .inr ⟨rfl, rfl⟩, covers_of_replaced hc hcovers⟩
      · exact ⟨id, subtree, .inr ⟨rfl, rfl⟩, hcovers⟩

/-- A tombstone costs at most its id. -/
theorem recoveryRetainedBytes_noteRecoveryReset (s : RecordStore) (id : RecordId) (subtree : Bool) :
    (s.noteRecoveryReset id subtree).recoveryRetainedBytes ≤ s.recoveryRetainedBytes + id.str.length := by
  rcases noteRecoveryReset_cases s id subtree with ⟨-, h⟩ | ⟨-, h⟩ | ⟨-, -, h⟩ | ⟨-, -, h⟩
  · rw [h]
    exact Nat.le_add_right _ _
  · rw [h]
    exact Nat.zero_le _
  · rw [h]
    exact Nat.zero_le _
  · have hstanding : ((s.standingResets id subtree).map fun found => found.1.str.length).sum ≤
        s.recoveryRetainedBytes :=
      ((standingResets_sublist s id subtree).map _).sum_le_sum fun _ _ => Nat.zero_le _
    rw [h]
    simp only [recoveryRetainedBytes, List.map_append, List.sum_append]
    exact Nat.add_le_add hstanding (by simp)

/-! ## What a call does to the tombstones -/

/-- Two stores with the same tombstones. -/
structure SameResets (s t : RecordStore) : Prop where
  resets : s.recoveryResets = t.recoveryResets
  all : s.recoveryResetAll = t.recoveryResetAll

theorem SameResets.trans {a b c : RecordStore} (h₁ : SameResets a b) (h₂ : SameResets b c) : SameResets a c :=
  ⟨h₁.resets.trans h₂.resets, h₁.all.trans h₂.all⟩

section Same

variable {s t : RecordStore} (h : SameResets s t)

include h

theorem SameResets.resetFor (id : RecordId) : s.recoveryResetFor id = t.recoveryResetFor id := by
  unfold recoveryResetFor
  rw [h.resets, h.all]

theorem SameResets.overflows (id : RecordId) (subtree : Bool) :
    s.overflowsReset id subtree = t.overflowsReset id subtree := by
  unfold overflowsReset impliesReset standingResets
  rw [h.resets, h.all]

theorem SameResets.retainedBytes : s.recoveryRetainedBytes = t.recoveryRetainedBytes := by
  unfold recoveryRetainedBytes
  rw [h.resets]

end Same

/-- The reset a call notes: the subtree of a `Clear`, the record of an eligible idle report. -/
def noted (s : RecordStore) : StoreOp → Option (RecordId × Bool)
  | .apply (.clear id) _ _ => some (id, true)
  | .apply (.replace record) _ episode =>
    if s.reports record episode && record.status.isIdle then some (record.id, false) else none
  | _ => none

theorem displace_sameResets (s : RecordStore) (id : RecordId) : SameResets (s.displace id) s := by
  obtain ⟨l, -, h⟩ := displace_eq s id
  rw [h]
  exact ⟨rfl, rfl⟩

theorem apply_sameResets (s : RecordStore) (command : ProgramCommand) (at_ : Nat) (episode : Option LiveEpisode) :
    ∃ t, SameResets t s ∧ SameResets (s.apply command at_ episode)
      ((s.noted (.apply command at_ episode)).elim t fun reset => t.noteRecoveryReset reset.1 reset.2) := by
  have hsettle : ∀ (t : RecordStore) wasActive reported,
      SameResets (episode.elim t fun live => t.settle live wasActive reported) t := fun t wasActive reported => by
    cases episode with
    | none => exact ⟨rfl, rfl⟩
    | some live => exact ⟨rfl, rfl⟩
  cases command with
  | query => exact ⟨s, ⟨rfl, rfl⟩, ⟨rfl, rfl⟩⟩
  | clear id =>
    refine ⟨s, ⟨rfl, rfl⟩, (hsettle (s.applyClear id) _ _).trans ⟨rfl, rfl⟩⟩
  | replace record =>
    refine ⟨s.displace record.id, displace_sameResets s record.id,
      (hsettle (s.applyReplace record at_ episode).1 _ _).trans ?_⟩
    rw [applyReplace_eq]
    cases hnoted : s.reports record episode && record.status.isIdle with
    | true => exact ⟨by simp [noted, hnoted], by simp [noted, hnoted]⟩
    | false => exact ⟨by simp [noted, hnoted], by simp [noted, hnoted]⟩

/-- The presentation half of the interface leaves the tombstones alone. -/
theorem presentation_sameResets (s : RecordStore) {op : StoreOp} (h : op.isPresentation = true) :
    SameResets (s.step op) s := by
  obtain ⟨l, hstep, -⟩ := step_presentation s h
  rw [hstep]
  exact ⟨rfl, rfl⟩

/-- The records a call resets. -/
def resetsRecord (s : RecordStore) (id : RecordId) : StoreOp → Bool
  | .lifecycle .fullReset => true
  | .apply (.clear ancestor) _ _ => ancestor.contains id
  | .apply (.replace record) _ episode => record.id == id && record.status.isIdle && s.reports record episode
  | _ => false

/-- The call overflows the tombstones. -/
def overflows (s : RecordStore) (op : StoreOp) : Bool :=
  (s.noted op).any fun (id, subtree) => s.overflowsReset id subtree

theorem resetsRecord_apply (s : RecordStore) (id : RecordId) (command : ProgramCommand) (at_ : Nat)
    (episode : Option LiveEpisode) : s.resetsRecord id (.apply command at_ episode) =
      (s.noted (.apply command at_ episode)).any fun reset => reset.1.covers reset.2 id := by
  cases command with
  | query => rfl
  | clear ancestor => rfl
  | replace record =>
    simp only [resetsRecord, noted]
    cases s.reports record episode <;> cases record.status.isIdle <;> simp [RecordId.covers]

/-- **One call.** A record is marked reset by a call that resets it or that overflows, and stays
marked through every call but a boundary. -/
theorem recoveryResetFor_step (s : RecordStore) (op : StoreOp) (id : RecordId) :
    (s.step op).recoveryResetFor id = true ↔
      (s.resetsRecord id op = true ∨ s.overflows op = true) ∨
        op.endsRecovery = false ∧ s.recoveryResetFor id = true := by
  have hpresent : op.isPresentation = true → s.resetsRecord id op = false ∧ s.overflows op = false ∧
      op.endsRecovery = false := fun h => by
    cases op <;> first | exact ⟨rfl, rfl, rfl⟩ | exact absurd h Bool.false_ne_true
  by_cases hp : op.isPresentation = true
  · obtain ⟨hr, ho, he⟩ := hpresent hp
    rw [(presentation_sameResets s hp).resetFor, hr, ho, he]
    simp
  cases op with
  | apply command at_ episode =>
    obtain ⟨t, ht, h⟩ := apply_sameResets s command at_ episode
    change (s.apply command at_ episode).recoveryResetFor id = true ↔ _
    rw [h.resetFor, resetsRecord_apply, overflows]
    cases s.noted (.apply command at_ episode) with
    | none =>
      rw [Option.elim_none, ht.resetFor]
      simp [StoreOp.endsRecovery]
    | some reset =>
      rw [Option.elim_some, recoveryResetFor_noteRecoveryReset, ht.resetFor, ht.overflows]
      simp only [Option.any_some, StoreOp.endsRecovery, true_and]
      exact or_comm
  | lifecycle event =>
    cases event with
    | fullReset => exact iff_of_true (recoveryResetFor_iff.mpr (.inl rfl)) (.inl (.inl rfl))
    | shellPrompt | attachedProcessExit =>
      simp [step, lifecycle, recoveryResetFor, resetsRecord, overflows, noted, StoreOp.endsRecovery]
  | invalidateEpisode =>
    simp [step, invalidateEpisode, recoveryResetFor, resetsRecord, overflows, noted, StoreOp.endsRecovery]
  | markPresented | acknowledge | reconcileResult => exact absurd rfl hp

/-- The reservation bounds what a command retains. -/
theorem recoveryRetainedBytes_apply (s : RecordStore) (command : ProgramCommand) (at_ : Nat)
    (episode : Option LiveEpisode) :
    (s.apply command at_ episode).recoveryRetainedBytes ≤ s.recoveryReservation command := by
  obtain ⟨t, ht, h⟩ := apply_sameResets s command at_ episode
  rw [h.retainedBytes]
  cases hnoted : s.noted (.apply command at_ episode) with
  | none =>
    rw [Option.elim_none, ht.retainedBytes]
    exact Nat.le_add_right _ _
  | some reset =>
    have hnote := recoveryRetainedBytes_noteRecoveryReset t reset.1 reset.2
    rw [ht.retainedBytes] at hnote
    refine hnote.trans (Nat.add_le_add_left ?_ _)
    cases command with
    | query => simp [noted] at hnoted
    | clear id =>
      obtain rfl := Option.some.inj hnoted
      exact Nat.le_refl _
    | replace record =>
      simp only [noted] at hnoted
      split at hnoted
      · rename_i hidle
        obtain rfl := Option.some.inj hnoted
        rw [Bool.and_eq_true] at hidle
        simp [hidle.2]
      · cases hnoted

/-! ## Whole runs -/

/-- Since the last boundary of the run, a call reset the record. -/
def ResetSince (id : RecordId) (ops : List StoreOp) : Prop :=
  Run.Since step StoreOp.endsRecovery (fun s op => s.resetsRecord id op = true) new ops

/-- Since the last boundary of the run, the tombstones overflowed. -/
def OverflowedSince (ops : List StoreOp) : Prop :=
  Run.Since step StoreOp.endsRecovery (fun s op => s.overflows op = true) new ops

/-- **Tombstones are exact.** After every run, a record is marked reset exactly when a call
reset it since the last boundary or the tombstones have overflowed since, so a record that
was reset is never denied; and no command retains more tombstone bytes than were reserved. -/
theorem recovery_exact (ops : List StoreOp) :
    (∀ id, (new.run ops).recoveryResetFor id = true ↔ ResetSince id ops ∨ OverflowedSince ops) ∧
    ∀ command at_ episode, ((new.run ops).apply command at_ episode).recoveryRetainedBytes ≤
      (new.run ops).recoveryReservation command := by
  refine ⟨fun id => ?_, fun command at_ episode => recoveryRetainedBytes_apply _ command at_ episode⟩
  have hnew : ¬new.recoveryResetFor id = true := Bool.false_ne_true
  have hflag := Run.flag_iff_since (Q := fun s => s.recoveryResetFor id = true)
    (fun s op => recoveryResetFor_step s op id) hnew ops
  exact hflag.trans Run.since_or

end RecordStore

end TmuxAgents
