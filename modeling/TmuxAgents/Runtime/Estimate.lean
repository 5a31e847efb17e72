/-
The estimate of a command's bytes is never too small (`replacement_bytes`), and
no other call makes a store hold more than it did.

A `Replace` gives up the record the estimate subtracts, whether it is the id's
old one or the least recently replaced; a tombstone costs at most its id, which
the estimate reserves.
-/
import Mathlib.Algebra.Order.BigOperators.Group.List
import Mathlib.Algebra.Order.Group.Nat
import Mathlib.Data.List.Perm.Basic
import TmuxAgents.Program.Recovery
import TmuxAgents.Runtime.Program

namespace TmuxAgents

open Checked

/-- The payload of a list of stored records. -/
def recordsBytes (records : List StoredRecord) : Nat := (records.map fun entry => recordBytes entry.record).sum

theorem recordsBytes_le_of_sublist {l l' : List StoredRecord} (h : l.Sublist l') : recordsBytes l ≤ recordsBytes l' :=
  (h.map _).sum_le_sum fun _ _ => Nat.zero_le _

@[simp] theorem recordsBytes_append (l l' : List StoredRecord) :
    recordsBytes (l ++ l') = recordsBytes l + recordsBytes l' := by
  simp [recordsBytes]

@[simp] theorem recordsBytes_cons (e : StoredRecord) (l : List StoredRecord) :
    recordsBytes (e :: l) = recordBytes e.record + recordsBytes l := rfl

/-- Only the reported records count. -/
theorem recordsBytes_congr {l l' : List StoredRecord} (h : l'.map (·.record) = l.map (·.record)) :
    recordsBytes l' = recordsBytes l := by
  have hsum := congrArg (fun records => (records.map recordBytes).sum) h
  simpa [recordsBytes, Function.comp_def] using hsum

theorem recordsBytes_map (g : StoredRecord → StoredRecord) {l : List StoredRecord}
    (hg : (l.map g).map (·.record) = l.map (·.record)) : recordsBytes (l.map g) = recordsBytes l :=
  recordsBytes_congr hg

namespace RecordStore

theorem retainedBytes_eq (s : RecordStore) : s.retainedBytes = recordsBytes s.records + s.recoveryRetainedBytes := rfl

@[simp] theorem retainedBytes_new : new.retainedBytes = 0 := rfl

/-! ## Calls that keep or lower the bytes -/

theorem retainedBytes_settle (s : RecordStore) (live : LiveEpisode) (wasActive : Bool) (reported : Reported) :
    (s.settle live wasActive reported).retainedBytes = s.retainedBytes := by
  have hrecords : recordsBytes (s.settle live wasActive reported).records = recordsBytes s.records :=
    recordsBytes_congr (by simp [settle, reconcileOwnership, StoredRecord.joinResult])
  rw [retainedBytes_eq, retainedBytes_eq, hrecords]
  rfl

theorem retainedBytes_lifecycle (s : RecordStore) (event : TerminalLifecycle) :
    (s.lifecycle event).retainedBytes ≤ s.retainedBytes := by
  have hclosed : recordsBytes ((s.records.filter fun entry => entry.record.status.isTerminal).map StoredRecord.disown) +
      0 ≤ s.retainedBytes := by
    rw [recordsBytes_map StoredRecord.disown (List.map_map ..), retainedBytes_eq]
    have := recordsBytes_le_of_sublist (List.filter_sublist (l := s.records)
      (p := fun entry => entry.record.status.isTerminal))
    omega
  cases event with
  | fullReset => exact Nat.zero_le _
  | shellPrompt => exact hclosed
  | attachedProcessExit => exact hclosed

theorem retainedBytes_invalidateEpisode (s : RecordStore) : s.invalidateEpisode.retainedBytes ≤ s.retainedBytes := by
  have hrecords : recordsBytes s.invalidateEpisode.records = recordsBytes s.records :=
    recordsBytes_congr (List.map_map ..)
  rw [retainedBytes_eq, retainedBytes_eq, hrecords]
  exact Nat.add_le_add_left (Nat.zero_le _) _

theorem retainedBytes_markPresented (s : RecordStore) (selection : ProgramSelection) (live : LiveEpisode) :
    (s.markPresented selection live).2.retainedBytes = s.retainedBytes := by
  rcases markPresented_cases s selection live with h | ⟨effect, -, -, h⟩
  · rw [h]
  · rw [h, retainedBytes_eq, retainedBytes_eq]
    dsimp only
    rw [recordsBytes_map (StoredRecord.present effect) (List.map_map ..)]
    rfl

theorem retainedBytes_acknowledge (s : RecordStore) (identity : ResultIdentity) :
    (s.acknowledge identity).2.retainedBytes = s.retainedBytes := by
  rcases acknowledge_cases s identity with h | ⟨l₁, entry, l₂, hl, -, -, h⟩
  · rw [h]
  · rw [h, retainedBytes_eq, retainedBytes_eq, hl, recordsBytes_append, recordsBytes_append]
    rfl

theorem retainedBytes_reconcileResult (s : RecordStore) (selection : ProgramSelection) (live : LiveEpisode)
    (disposition : ResultDisposition) :
    (s.reconcileResult selection live disposition).2.retainedBytes = s.retainedBytes := by
  have h := reconcileResult_of (I := fun t => t.retainedBytes = s.retainedBytes)
    (fun t selection live ht => (retainedBytes_markPresented t selection live).trans ht)
    (fun t identity ht => (retainedBytes_acknowledge t identity).trans ht) rfl selection live disposition
  exact h

/-! ## The estimate -/

/-- The record the estimate takes a `Replace` to give up. -/
def givenUp (s : RecordStore) (id : RecordId) : Option StoredRecord :=
  (s.records.find? fun entry => entry.id == id) <|>
    if s.records.length = maxRecords then Choose.minByKey (fun entry : StoredRecord => entry.updated) s.records
    else none

theorem recordsBytes_evictOldest (s : RecordStore) : recordsBytes s.evictOldest.records ≤ recordsBytes s.records := by
  obtain ⟨l, hl, h⟩ := evictOldest_eq s
  rw [h]
  exact recordsBytes_le_of_sublist hl

/-- **What is given up leaves room**: the pushed-to store and the record given up are at most
the store. -/
theorem recordsBytes_displace (s : RecordStore) (id : RecordId) :
    recordsBytes (s.displace id).records + ((s.givenUp id).elim 0 fun entry => recordBytes entry.record) ≤
      recordsBytes s.records := by
  have hevict := recordsBytes_evictOldest { s with
    ordinal := s.ordinal + 1, records := s.records.eraseP fun entry => entry.id == id }
  cases hf : s.records.find? fun entry => entry.id == id with
  | some old =>
    have hnamed : (old.id == id) = true := List.find?_some (p := fun entry : StoredRecord => entry.id == id) hf
    obtain ⟨a, l₁, l₂, hl₁, ha, hl, herase⟩ := List.exists_of_eraseP
      (p := fun entry : StoredRecord => entry.id == id)
      (List.mem_of_find?_eq_some hf) hnamed
    -- Both take the first record of the id.
    obtain rfl : a = old := by
      have hfind : s.records.find? (fun entry => entry.id == id) = some a := by
        rw [hl, List.find?_append, List.find?_eq_none.mpr hl₁, Option.none_or, List.find?_cons_of_pos (p := fun entry : StoredRecord => entry.id == id) ha]
      exact Option.some.inj (hfind.symm.trans hf)
    have hgiven : s.givenUp id = some a := by
      unfold givenUp
      rw [hf]
      rfl
    change recordsBytes (s.displace id).records ≤ recordsBytes (s.records.eraseP fun entry => entry.id == id) at hevict
    rw [hgiven, Option.elim_some, hl, recordsBytes_append, recordsBytes_cons]
    rw [herase, recordsBytes_append] at hevict
    omega
  | none =>
    have herase : (s.records.eraseP fun entry => entry.id == id) = s.records :=
      List.eraseP_of_forall_not (List.find?_eq_none.mp hf)
    have hgiven : s.givenUp id =
        if s.records.length = maxRecords then Choose.minByKey (fun entry : StoredRecord => entry.updated) s.records
        else none := by
      unfold givenUp
      rw [hf]
      rfl
    rw [hgiven]
    by_cases hfull : s.records.length = maxRecords
    · rw [if_pos hfull]
      have hchosen := Choose.minByKey_map (fun entry : StoredRecord => entry.updated) Prod.fst s.records.zipIdx
      rw [List.zipIdx_map_fst] at hchosen
      rw [hchosen]
      unfold displace evictOldest
      simp only [herase, if_pos hfull]
      split
      · rename_i oldest index hmin
        rw [hmin, Option.map_some, Option.elim_some]
        dsimp only
        obtain ⟨hlt, holdest⟩ := List.mem_zipIdx' (Choose.minByKey_mem hmin)
        have hperm := List.getElem_cons_eraseIdx_perm hlt
        have hsum : recordsBytes (s.records[index] :: s.records.eraseIdx index) = recordsBytes s.records :=
          (hperm.map _).sum_eq
        rw [recordsBytes_cons, ← holdest] at hsum
        change recordsBytes (s.records.eraseIdx index) + _ ≤ _
        omega
      · rename_i hnone
        rw [hnone]
        exact Nat.le_refl _
    · rw [if_neg hfull]
      change recordsBytes (s.displace id).records ≤ recordsBytes (s.records.eraseP fun entry => entry.id == id) at hevict
      rw [herase] at hevict
      exact hevict

theorem retainedBytes_applyReplace (s : RecordStore) (record : Record) (at_ : Nat) (episode : Option LiveEpisode) :
    (s.applyReplace record at_ episode).1.retainedBytes + ((s.givenUp record.id).elim 0 fun entry =>
      recordBytes entry.record) ≤
      recordsBytes s.records + recordBytes record + s.recoveryReservation (.replace record) := by
  have hdisplace := recordsBytes_displace s record.id
  have hretained : (s.displace record.id).recoveryRetainedBytes = s.recoveryRetainedBytes := by
    obtain ⟨l, -, h⟩ := displace_eq s record.id
    rw [h]
    rfl
  have hnote := recoveryRetainedBytes_noteRecoveryReset (s.displace record.id) record.id false
  rw [applyReplace_eq, retainedBytes_eq, recordsBytes_append]
  change _ + recordsBytes [s.pushed record at_ episode] + _ + _ ≤ _
  have hpushed : recordsBytes [s.pushed record at_ episode] = recordBytes record := rfl
  rw [hpushed]
  -- Only an idle report leaves a tombstone, and the reservation counts it.
  have htombstone : (if s.reports record episode && record.status.isIdle then
      (s.displace record.id).noteRecoveryReset record.id false else s.displace record.id).recoveryRetainedBytes ≤
      s.recoveryReservation (.replace record) := by
    unfold recoveryReservation
    dsimp only
    split
    · rename_i hidle
      have hidle : record.status.isIdle = true := by
        rw [Bool.and_eq_true] at hidle
        exact hidle.2
      rw [if_pos hidle]
      omega
    · omega
  change recordsBytes (s.displace record.id).records + recordBytes record + RecordStore.recoveryRetainedBytes _ + _ ≤ _
  change RecordStore.recoveryRetainedBytes _ ≤ _ at htombstone
  simp only [recoveryRetainedBytes] at htombstone ⊢
  omega

theorem retainedBytes_applyClear (s : RecordStore) (id : RecordId) :
    (s.applyClear id).retainedBytes ≤
      recordsBytes (s.records.filter fun entry => !id.contains entry.id) + s.recoveryReservation (.clear id) := by
  have hnote := recoveryRetainedBytes_noteRecoveryReset s id true
  rw [retainedBytes_eq, applyClear_records]
  exact Nat.add_le_add_left hnote _

/-- **The estimate suffices**: for every store and command it is computed, and the store holds
no more after the command. -/
theorem replacementBytes_suffices (s : RecordStore) (command : ProgramCommand) (at_ : Nat)
    (episode : Option LiveEpisode) : Returns (replacementBytes s command) fun estimate =>
      (s.apply command at_ episode).retainedBytes ≤ estimate := by
  have hsettle : ∀ (t : RecordStore) wasActive reported,
      (episode.elim t fun live => t.settle live wasActive reported).retainedBytes = t.retainedBytes := by
    intro t wasActive reported
    cases episode with
    | none => rfl
    | some live => exact retainedBytes_settle t live wasActive reported
  cases command with
  | query => exact ⟨_, rfl, Nat.le_refl _⟩
  | clear id =>
    refine ⟨_, rfl, ?_⟩
    change (episode.elim (s.applyClear id) fun live => _).retainedBytes ≤ _
    rw [hsettle]
    exact retainedBytes_applyClear s id
  | replace record =>
    have hdisplace := recordsBytes_displace s record.id
    have happly := retainedBytes_applyReplace s record at_ episode
    have hreserve : s.recoveryRetainedBytes ≤ s.recoveryReservation (.replace record) := Nat.le_add_right ..
    have hretained := retainedBytes_eq s
    change Returns (do
      let rest ← usub s.retainedBytes ((s.givenUp record.id).elim 0 fun entry => recordBytes entry.record)
      usub (rest + recordBytes record + s.recoveryReservation (.replace record)) s.recoveryRetainedBytes) _
    refine Returns.bind (P := fun rest => rest = s.retainedBytes - ((s.givenUp record.id).elim 0 fun entry =>
      recordBytes entry.record)) (.usub (by omega) rfl) fun rest hrest => ?_
    refine .usub (by omega) ?_
    have hsettled := hsettle (s.applyReplace record at_ episode).1 (episode.any s.hasActivity)
      (s.applyReplace record at_ episode).2
    change (episode.elim (s.applyReplace record at_ episode).1 fun live => (s.applyReplace record at_ episode).1.settle
      live (episode.any s.hasActivity) (s.applyReplace record at_ episode).2).retainedBytes ≤ _
    rw [hsettled]
    omega

end RecordStore

end TmuxAgents
