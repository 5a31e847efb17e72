/-
The connection registry over whole runs.

`Full` is returned only where every slot was occupied during the call, whatever the others
do. Where no marker is read before it says whose it is, and a sweep removes the marker it
has read, every holder has its marker and the cap holds (`cap_holds`).
-/
import Mathlib.Data.List.Perm.Subperm
import TmuxAgents.Serve.Connection

namespace TmuxAgents.Serve.Conn

namespace Registry

variable {max : Nat}

@[simp] theorem setStage_processes (registry : Registry) (pid other : Pid) (stage : Stage) :
    ((registry.setStage pid stage).processes other) =
      if other = pid then { registry.processes pid with stage } else registry.processes other :=
  Function.update_apply ..

@[simp] theorem setProcess_processes (registry : Registry) (pid other : Pid) (process : Process) :
    (registry.setProcess pid process).processes other = if other = pid then process else registry.processes other :=
  Function.update_apply ..

@[simp] theorem setStage_markers (registry : Registry) (pid : Pid) (stage : Stage) :
    (registry.setStage pid stage).markers = registry.markers :=
  rfl

@[simp] theorem setStage_fresh (registry : Registry) (pid : Pid) (stage : Stage) :
    (registry.setStage pid stage).fresh = registry.fresh :=
  rfl

@[simp] theorem setMarker_processes (registry : Registry) (slot : Nat) (marker : Option Marker) :
    (registry.setMarker slot marker).processes = registry.processes :=
  rfl

@[simp] theorem setMarker_markers (registry : Registry) (slot other : Nat) (marker : Option Marker) :
    (registry.setMarker slot marker).markers other = if other = slot then marker else registry.markers other :=
  Function.update_apply ..

@[simp] theorem setMarker_fresh (registry : Registry) (slot : Nat) (marker : Option Marker) :
    (registry.setMarker slot marker).fresh = registry.fresh :=
  rfl

/-! ## What a step can do -/

/-- The ways a registry changes in one step, with what the step has met. -/
inductive Effect (max : Nat) (registry : Registry) : Step → Registry → Prop
  | idle (step : Step) : Effect max registry step registry
  | opened {pid : Pid} (stage : (registry.processes pid).stage = .idle ∨ (registry.processes pid).stage = .full) :
    Effect max registry (.openCall pid)
      (registry.setProcess pid { calls := (registry.processes pid).calls + 1, stage := .trying 0 0 })
  | created {pid : Pid} {pass slot : Nat} (stage : (registry.processes pid).stage = .trying pass slot)
    (absent : registry.markers slot = none) :
    Effect max registry (.create pid) { (registry.setStage pid (.writing slot registry.fresh)).setMarker slot
      (some ⟨registry.fresh, pid, none⟩) with fresh := registry.fresh + 1 }
  | met {pid : Pid} {slot : Nat} (stage : (registry.processes pid).stage = .trying 0 slot) :
    Effect max registry (.create pid) (registry.setStage pid (.reading slot))
  | passed {pid : Pid} {pass slot : Nat} {marker : Marker} (stage : (registry.processes pid).stage = .trying pass slot)
    (second : pass ≠ 0) (present : registry.markers slot = some marker) :
    Effect max registry (.create pid) (registry.setStage pid (advance max pass slot))
  | named {pid : Pid} {slot : Nat} {marker : Marker} (stage : (registry.processes pid).stage = .writing slot marker.inode)
    (present : registry.markers slot = some marker) :
    Effect max registry (.writePid pid) ((registry.setStage pid (.holding slot marker.inode)).setMarker slot
      (some { marker with pid := some pid }))
  | lost {pid : Pid} {slot inode : Nat} (stage : (registry.processes pid).stage = .writing slot inode)
    (other : ∀ marker, registry.markers slot = some marker → marker.inode ≠ inode) :
    Effect max registry (.writePid pid) (registry.setStage pid (.holding slot inode))
  | spared {pid : Pid} {slot : Nat} (stage : (registry.processes pid).stage = .reading slot)
    (holder : registry.holderAlive slot = true) :
    Effect max registry (.read pid) (registry.setStage pid (advance max 0 slot))
  | condemned {pid : Pid} {slot : Nat} (stage : (registry.processes pid).stage = .reading slot)
    (holder : registry.holderAlive slot = false) :
    Effect max registry (.read pid)
      (registry.setStage pid (.removing slot ((registry.markers slot).map Marker.inode)))
  | swept {pid : Pid} {slot : Nat} {read : Option Nat} (stage : (registry.processes pid).stage = .removing slot read) :
    Effect max registry (.remove pid) ((registry.setStage pid (advance max 0 slot)).setMarker slot none)
  | dropped {pid : Pid} {slot inode : Nat} (stage : (registry.processes pid).stage = .holding slot inode) :
    Effect max registry (.drop pid) ((registry.setStage pid .idle).setMarker slot none)
  | crashed (pid : Pid) : Effect max registry (.crash pid) (registry.setStage pid .dead)

theorem step_effect (max : Nat) (registry : Registry) (next : Step) : Effect max registry next (registry.step max next) := by
  unfold step
  cases next with
  | openCall pid =>
    simp only
    split
    · rename_i stage
      exact .opened (.inl stage)
    · rename_i stage
      exact .opened (.inr stage)
    · exact .idle _
  | create pid =>
    simp only
    split
    · rename_i pass slot stage
      split
      · rename_i absent
        exact .created stage absent
      · rename_i marker present
        by_cases hpass : pass = 0
        · subst hpass
          exact .met stage
        · rw [if_neg hpass]
          exact .passed stage hpass present
    · exact .idle _
  | writePid pid =>
    simp only
    split
    · rename_i slot inode stage
      split
      · rename_i absent
        exact .lost stage fun marker present => absurd (absent.symm.trans present) nofun
      · rename_i marker present
        by_cases hinode : marker.inode = inode
        · subst hinode
          rw [if_pos rfl]
          exact .named stage present
        · rw [if_neg hinode]
          refine .lost stage fun other hother => ?_
          rw [present, Option.some.injEq] at hother
          exact hother ▸ hinode
    · exact .idle _
  | read pid =>
    simp only
    split
    · rename_i slot stage
      cases holder : registry.holderAlive slot with
      | true => exact .spared stage holder
      | false => exact .condemned stage holder
    · exact .idle _
  | remove pid =>
    simp only
    split
    · rename_i stage
      exact .swept stage
    · exact .idle _
  | drop pid =>
    simp only
    split
    · rename_i stage
      exact .dropped stage
    · exact .idle _
  | crash pid => exact .crashed pid

/-! ## Marker files -/

/-- A file is new when it is created, its creator's, and names nobody else. -/
structure Files (registry : Registry) : Prop where
  marker_lt : ∀ slot marker, registry.markers slot = some marker → marker.inode < registry.fresh
  handle_lt : ∀ pid slot inode, (registry.processes pid).stage.handle = some (slot, inode) → inode < registry.fresh
  condemned_lt : ∀ pid slot inode, (registry.processes pid).stage.condemned = some (slot, inode) →
    inode < registry.fresh
  names : ∀ slot marker, registry.markers slot = some marker → marker.pid = none ∨ marker.pid = some marker.owner
  owned : ∀ pid slot inode other marker, (registry.processes pid).stage.handle = some (slot, inode) →
    registry.markers other = some marker → marker.inode = inode → marker.owner = pid

/-- A step that creates no file and gives no process one. -/
theorem Files.quiet {registry registry' : Registry} (h : registry.Files)
    (handles : ∀ pid slot inode, (registry'.processes pid).stage.handle = some (slot, inode) →
      (registry.processes pid).stage.handle = some (slot, inode))
    (condemned : ∀ pid slot inode, (registry'.processes pid).stage.condemned = some (slot, inode) →
      inode < registry.fresh)
    (markers : ∀ slot marker, registry'.markers slot = some marker → registry.markers slot = some marker)
    (fresh : registry'.fresh = registry.fresh) : registry'.Files where
  marker_lt slot marker hmarker := fresh ▸ h.marker_lt slot marker (markers slot marker hmarker)
  handle_lt pid slot inode hhandle := fresh ▸ h.handle_lt pid slot inode (handles pid slot inode hhandle)
  condemned_lt pid slot inode hcondemned := fresh ▸ condemned pid slot inode hcondemned
  names slot marker hmarker := h.names slot marker (markers slot marker hmarker)
  owned pid slot inode other marker hhandle hmarker :=
    h.owned pid slot inode other marker (handles pid slot inode hhandle) (markers other marker hmarker)

theorem handle_advance (max pass slot : Nat) : (advance max pass slot).handle = none := by
  unfold advance
  split
  · rfl
  split
  · rfl
  · rfl

theorem condemned_advance (max pass slot : Nat) : (advance max pass slot).condemned = none := by
  unfold advance
  split
  · rfl
  split
  · rfl
  · rfl

/-- A process that comes to a stage without a file leaves the files of the others. -/
theorem Files.stage {registry registry' : Registry} (h : registry.Files) {pid : Pid} {process : Process}
    (handle : ∀ slot inode, process.stage.handle = some (slot, inode) →
      (registry.processes pid).stage.handle = some (slot, inode))
    (condemned : ∀ slot inode, process.stage.condemned = some (slot, inode) → inode < registry.fresh)
    (processes : ∀ other, registry'.processes other = if other = pid then process else registry.processes other)
    (markers : ∀ slot marker, registry'.markers slot = some marker → registry.markers slot = some marker)
    (fresh : registry'.fresh = registry.fresh) : registry'.Files := by
  refine h.quiet (fun other slot inode hhandle => ?_) (fun other slot inode hcondemned => ?_) markers fresh
  · rw [processes] at hhandle
    split at hhandle
    · rename_i heq
      rw [heq]
      exact handle slot inode hhandle
    · exact hhandle
  · rw [processes] at hcondemned
    split at hcondemned
    · exact condemned slot inode hcondemned
    · exact h.condemned_lt other slot inode hcondemned

theorem Files.created {registry : Registry} (h : registry.Files) {pid : Pid} {slot : Nat} :
    Files { (registry.setStage pid (.writing slot registry.fresh)).setMarker slot
      (some ⟨registry.fresh, pid, none⟩) with fresh := registry.fresh + 1 } := by
  have hmarker {other : Nat} {marker : Marker}
      (hm : ((registry.setStage pid (.writing slot registry.fresh)).setMarker slot
        (some ⟨registry.fresh, pid, none⟩)).markers other = some marker) :
      marker = ⟨registry.fresh, pid, none⟩ ∨ registry.markers other = some marker := by
    rw [setMarker_markers] at hm
    split at hm
    · exact .inl (Option.some.inj hm).symm
    · exact .inr hm
  have hhandle {other : Pid} {slot' inode : Nat}
      (hh : ((registry.setStage pid (.writing slot registry.fresh)).processes other).stage.handle =
        some (slot', inode)) :
      (other = pid ∧ inode = registry.fresh) ∨ (registry.processes other).stage.handle = some (slot', inode) := by
    rw [setStage_processes] at hh
    split at hh
    · rename_i heq
      cases hh
      exact .inl ⟨heq, rfl⟩
    · exact .inr hh
  refine ⟨fun other marker hm => ?_, fun other slot' inode hh => ?_, fun other slot' inode hc => ?_,
    fun other marker hm => ?_, fun other slot' inode slot'' marker hh hm hinode => ?_⟩
  · rcases hmarker hm with rfl | hm
    · exact Nat.lt_succ_self _
    · exact Nat.lt_succ_of_lt (h.marker_lt other marker hm)
  · rcases hhandle hh with ⟨-, rfl⟩ | hh
    · exact Nat.lt_succ_self _
    · exact Nat.lt_succ_of_lt (h.handle_lt other slot' inode hh)
  · rw [setMarker_processes, setStage_processes] at hc
    split at hc
    · cases hc
    · exact Nat.lt_succ_of_lt (h.condemned_lt other slot' inode hc)
  · rcases hmarker hm with rfl | hm
    · exact .inl rfl
    · exact h.names other marker hm
  · rcases hmarker hm with rfl | hm
    · rcases hhandle hh with ⟨rfl, -⟩ | hh
      · rfl
      · exact absurd hinode (Nat.ne_of_gt (h.handle_lt other slot' inode hh))
    · rcases hhandle hh with ⟨-, rfl⟩ | hh
      · exact absurd hinode (Nat.ne_of_lt (h.marker_lt slot'' marker hm))
      · exact h.owned other slot' inode slot'' marker hh hm hinode

theorem Files.named {registry : Registry} (h : registry.Files) {pid : Pid} {slot : Nat} {marker : Marker}
    (stage : (registry.processes pid).stage = .writing slot marker.inode)
    (present : registry.markers slot = some marker) :
    Files ((registry.setStage pid (.holding slot marker.inode)).setMarker slot (some { marker with pid := some pid })) := by
  have howner : marker.owner = pid := h.owned pid slot marker.inode slot marker (by rw [stage]; rfl) present rfl
  have hmarker {other : Nat} {marker' : Marker}
      (hm : ((registry.setStage pid (.holding slot marker.inode)).setMarker slot
        (some { marker with pid := some pid })).markers other = some marker') :
      ∃ old, registry.markers other = some old ∧ old.inode = marker'.inode ∧ old.owner = marker'.owner ∧
        (marker'.pid = old.pid ∨ marker'.pid = some marker'.owner) := by
    rw [setMarker_markers] at hm
    split at hm
    · rename_i heq
      cases hm
      exact ⟨marker, heq ▸ present, rfl, rfl, .inr (congrArg some howner.symm)⟩
    · exact ⟨marker', hm, rfl, rfl, .inl rfl⟩
  have hhandle {other : Pid} {slot' inode : Nat}
      (hh : ((registry.setStage pid (.holding slot marker.inode)).processes other).stage.handle =
        some (slot', inode)) : (registry.processes other).stage.handle = some (slot', inode) := by
    rw [setStage_processes] at hh
    split at hh
    · rename_i heq
      rw [heq, stage]
      exact hh
    · exact hh
  refine ⟨fun other marker' hm => ?_, fun other slot' inode hh => h.handle_lt other slot' inode (hhandle hh),
    fun other slot' inode hc => ?_, fun other marker' hm => ?_, fun other slot' inode slot'' marker' hh hm hinode => ?_⟩
  · obtain ⟨old, hold, hinode, -⟩ := hmarker hm
    exact hinode ▸ h.marker_lt other old hold
  · rw [setMarker_processes, setStage_processes] at hc
    split at hc
    · cases hc
    · exact h.condemned_lt other slot' inode hc
  · obtain ⟨old, hold, -, howner', hpid | hpid⟩ := hmarker hm
    · rw [hpid, ← howner']
      exact h.names other old hold
    · exact .inr hpid
  · obtain ⟨old, hold, hinode', howner', -⟩ := hmarker hm
    rw [← howner']
    exact h.owned other slot' inode slot'' old (hhandle hh) hold (hinode'.trans hinode)

theorem Files.effect {registry registry' : Registry} {next : Step} (h : registry.Files)
    (he : Effect max registry next registry') : registry'.Files := by
  cases he with
  | idle => exact h
  | opened stage =>
    exact h.stage (fun _ _ hh => by cases hh) (fun _ _ hc => by cases hc) (setProcess_processes registry _ · _)
      (fun _ _ => id) rfl
  | created stage absent => exact h.created
  | met stage =>
    exact h.stage (fun _ _ hh => by cases hh) (fun _ _ hc => by cases hc) (setStage_processes registry _ · _)
      (fun _ _ => id) rfl
  | passed stage second present =>
    refine h.stage (fun _ _ hh => ?_) (fun _ _ hc => ?_) (setStage_processes registry _ · _) (fun _ _ => id) rfl
    · cases (handle_advance ..).symm.trans hh
    · cases (condemned_advance ..).symm.trans hc
  | named stage present => exact h.named stage present
  | lost stage other =>
    refine h.stage (fun _ _ hh => ?_) (fun _ _ hc => by cases hc) (setStage_processes registry _ · _)
      (fun _ _ => id) rfl
    rw [stage]
    exact hh
  | spared stage holder =>
    refine h.stage (fun _ _ hh => ?_) (fun _ _ hc => ?_) (setStage_processes registry _ · _) (fun _ _ => id) rfl
    · cases (handle_advance ..).symm.trans hh
    · cases (condemned_advance ..).symm.trans hc
  | condemned stage holder =>
    refine h.stage (fun _ _ hh => by cases hh) (fun slot' inode hc => ?_) (setStage_processes registry _ · _)
      (fun _ _ => id) rfl
    simp only [Stage.condemned, Option.map_map, Option.map_eq_some_iff] at hc
    obtain ⟨marker, hmarker, heq⟩ := hc
    cases heq
    exact h.marker_lt _ marker hmarker
  | swept stage =>
    refine h.stage (fun _ _ hh => ?_) (fun _ _ hc => ?_) (setStage_processes registry _ · _)
      (fun slot' marker hm => ?_) rfl
    · cases (handle_advance ..).symm.trans hh
    · cases (condemned_advance ..).symm.trans hc
    · rw [setMarker_markers] at hm
      exact (Option.ite_none_left_eq_some.mp hm).2
  | dropped stage =>
    refine h.stage (fun _ _ hh => by cases hh) (fun _ _ hc => by cases hc) (setStage_processes registry _ · _)
      (fun slot' marker hm => ?_) rfl
    rw [setMarker_markers] at hm
    exact (Option.ite_none_left_eq_some.mp hm).2
  | crashed pid =>
    exact h.stage (fun _ _ hh => by cases hh) (fun _ _ hc => by cases hc) (setStage_processes registry _ · _)
      (fun _ _ => id) rfl

theorem files_run (max : Nat) (steps : List Step) : (run max steps).Files := by
  refine Run.invariant (step max) Files (fun registry next h => h.effect (step_effect max registry next)) ?_ steps
  exact ⟨nofun, nofun, nofun, nofun, nofun⟩

/-! ## Claims -/

/-- A step of the kind that goes right: no marker is read before it names its creator, unless that
is dead, and a sweep removes what it has read. -/
def Undisturbed (registry : Registry) : Step → Prop
  | .read pid => ∀ slot marker, (registry.processes pid).stage = .reading slot →
    registry.markers slot = some marker → marker.pid = none → registry.alive marker.owner = false
  | .remove pid => ∀ slot read marker, (registry.processes pid).stage = .removing slot read →
    registry.markers slot = some marker → read = some marker.inode
  | _ => True

/-- A process that has created a marker has it, in a slot of the cap, and a marker that is about to
be swept is that of a dead process. -/
structure Claims (max : Nat) (registry : Registry) : Prop where
  inRange : ∀ pid slot, (registry.processes pid).stage.slot = some slot → slot < slots max
  marked : ∀ pid slot inode, (registry.processes pid).stage.handle = some (slot, inode) →
    ∃ marker, registry.markers slot = some marker ∧ marker.inode = inode
  named : ∀ pid slot inode, (registry.processes pid).stage = .holding slot inode →
    ∀ marker, registry.markers slot = some marker → marker.pid = some pid
  condemned : ∀ pid slot inode marker, (registry.processes pid).stage.condemned = some (slot, inode) →
    registry.markers slot = some marker → marker.inode = inode → registry.alive marker.owner = false

theorem slot_of_handle {stage : Stage} {slot inode : Nat} (h : stage.handle = some (slot, inode)) :
    stage.slot = some slot := by
  cases stage with
  | writing | holding =>
    cases h
    rfl
  | _ => cases h

theorem alive_of_handle {registry : Registry} {pid : Pid} {slot inode : Nat}
    (h : (registry.processes pid).stage.handle = some (slot, inode)) : registry.alive pid = true := by
  unfold alive
  cases hstage : (registry.processes pid).stage with
  | dead =>
    rw [hstage] at h
    cases h
  | _ => rfl

theorem slots_pos (max : Nat) : 0 < slots max := Nat.lt_of_lt_of_le Nat.one_pos (Nat.le_max_right max 1)

theorem slot_advance {max pass slot next : Nat} (h : (advance max pass slot).slot = some next) : next < slots max := by
  unfold advance at h
  split at h
  · rename_i hlt
    cases h
    exact hlt
  split at h
  · cases h
    exact slots_pos max
  · cases h

/-- Two claims of one slot are one. -/
theorem Claims.unique {registry : Registry} (h : Claims max registry) (hf : registry.Files) {pid pid' : Pid}
    {slot inode inode' : Nat} (hh : (registry.processes pid).stage.handle = some (slot, inode))
    (hh' : (registry.processes pid').stage.handle = some (slot, inode')) : pid = pid' := by
  obtain ⟨marker, hmarker, hinode⟩ := h.marked pid slot inode hh
  obtain ⟨marker', hmarker', hinode'⟩ := h.marked pid' slot inode' hh'
  obtain rfl : marker = marker' := Option.some.inj (hmarker.symm.trans hmarker')
  exact (hf.owned pid slot inode slot marker hh hmarker hinode).symm.trans
    (hf.owned pid' slot inode' slot marker hh' hmarker hinode')

/-- A process comes to a stage without a file, and the dead stay dead. -/
theorem Claims.stage {registry : Registry} (h : Claims max registry) {pid : Pid} {process : Process}
    (range : ∀ slot, process.stage.slot = some slot → slot < slots max) (handle : process.stage.handle = none)
    (condemned : ∀ slot inode marker, process.stage.condemned = some (slot, inode) →
      registry.markers slot = some marker → marker.inode = inode → registry.alive marker.owner = false)
    (dead : registry.alive pid = false → process.stage = .dead) : Claims max (registry.setProcess pid process) := by
  have hdead {other : Pid} (hother : registry.alive other = false) :
      (registry.setProcess pid process).alive other = false := by
    unfold alive
    rw [setProcess_processes]
    split
    · rename_i heq
      rw [dead (heq ▸ hother)]
      rfl
    · exact hother
  refine ⟨fun other slot hslot => ?_, fun other slot inode hh => ?_, fun other slot inode hstage => ?_,
    fun other slot inode marker hc hmarker hinode => hdead ?_⟩
  · rw [setProcess_processes] at hslot
    split at hslot
    · exact range slot hslot
    · exact h.inRange other slot hslot
  · rw [setProcess_processes] at hh
    split at hh
    · cases handle.symm.trans hh
    · exact h.marked other slot inode hh
  · rw [setProcess_processes] at hstage
    split at hstage
    · rw [hstage] at handle
      cases handle
    · exact h.named other slot inode hstage
  · rw [setProcess_processes] at hc
    split at hc
    · exact condemned slot inode marker hc hmarker hinode
    · exact h.condemned other slot inode marker hc hmarker hinode

/-- A slot nobody has a claim to is cleared. -/
theorem Claims.clear {registry : Registry} (h : Claims max registry) {slot : Nat}
    (unclaimed : ∀ pid inode, (registry.processes pid).stage.handle ≠ some (slot, inode)) :
    Claims max (registry.setMarker slot none) := by
  have hmarkers {other : Nat} {marker : Marker} (hm : (registry.setMarker slot none).markers other = some marker) :
      registry.markers other = some marker := by
    rw [setMarker_markers] at hm
    exact (Option.ite_none_left_eq_some.mp hm).2
  refine ⟨h.inRange, fun pid other inode hh => ?_, fun pid other inode hstage marker hm => ?_,
    fun pid other inode marker hc hm hinode => ?_⟩
  · have hne : other ≠ slot := by
      rintro rfl
      exact unclaimed pid inode hh
    rw [setMarker_markers, if_neg hne]
    exact h.marked pid other inode hh
  · exact h.named pid other inode hstage marker (hmarkers hm)
  · exact h.condemned pid other inode marker hc (hmarkers hm) hinode

theorem Claims.created {registry : Registry} (h : Claims max registry) (hf : registry.Files) {pid : Pid}
    {pass slot : Nat} (stage : (registry.processes pid).stage = .trying pass slot)
    (absent : registry.markers slot = none) :
    Claims max { (registry.setStage pid (.writing slot registry.fresh)).setMarker slot
      (some ⟨registry.fresh, pid, none⟩) with fresh := registry.fresh + 1 } := by
  have halive {other : Pid} (hother : registry.alive other = false) :
      (registry.setStage pid (.writing slot registry.fresh)).alive other = false := by
    unfold alive at hother ⊢
    rw [setStage_processes]
    split
    · rename_i heq
      rw [heq, stage] at hother
      cases hother
    · exact hother
  refine ⟨fun other slot' hslot => ?_, fun other slot' inode hh => ?_, fun other slot' inode hstage marker hm => ?_,
    fun other slot' inode marker hc hm hinode => halive ?_⟩
  · rw [setMarker_processes, setStage_processes] at hslot
    split at hslot
    · cases hslot
      exact h.inRange pid slot (by rw [stage]; rfl)
    · exact h.inRange other slot' hslot
  · rw [setMarker_processes, setStage_processes] at hh
    rw [setMarker_markers]
    split at hh
    · cases hh
      exact ⟨_, if_pos rfl, rfl⟩
    · obtain ⟨marker, hmarker, hinode⟩ := h.marked other slot' inode hh
      refine ⟨marker, ?_, hinode⟩
      rw [if_neg, setStage_markers, hmarker]
      rintro rfl
      cases absent.symm.trans hmarker
  · rw [setMarker_processes, setStage_processes] at hstage
    rw [setMarker_markers] at hm
    split at hstage
    · cases hstage
    · split at hm
      · rename_i heq
        obtain ⟨old, hold, -⟩ := h.marked other slot' inode (by rw [hstage]; rfl)
        rw [heq, absent] at hold
        cases hold
      · exact h.named other slot' inode hstage marker hm
  · rw [setMarker_processes, setStage_processes] at hc
    rw [setMarker_markers] at hm
    split at hc
    · cases hc
    · split at hm
      · cases hm
        exact absurd hinode (Nat.ne_of_gt (hf.condemned_lt other slot' inode hc))
      · exact h.condemned other slot' inode marker hc hm hinode

theorem Claims.name {registry : Registry} (h : Claims max registry) (hf : registry.Files) {pid : Pid} {slot : Nat}
    {marker : Marker} (stage : (registry.processes pid).stage = .writing slot marker.inode)
    (present : registry.markers slot = some marker) :
    Claims max ((registry.setStage pid (.holding slot marker.inode)).setMarker slot
      (some { marker with pid := some pid })) := by
  have halive {other : Pid} (hother : registry.alive other = false) :
      (registry.setStage pid (.holding slot marker.inode)).alive other = false := by
    unfold alive at hother ⊢
    rw [setStage_processes]
    split
    · rename_i heq
      rw [heq, stage] at hother
      cases hother
    · exact hother
  have hhandle {other : Pid} {slot' inode : Nat}
      (hh : ((registry.setStage pid (.holding slot marker.inode)).processes other).stage.handle =
        some (slot', inode)) : (registry.processes other).stage.handle = some (slot', inode) := by
    rw [setStage_processes] at hh
    split at hh
    · rename_i heq
      rw [heq, stage]
      exact hh
    · exact hh
  have hmine : (registry.processes pid).stage.handle = some (slot, marker.inode) := by
    rw [stage]
    rfl
  refine ⟨fun other slot' hslot => ?_, fun other slot' inode hh => ?_, fun other slot' inode hstage marker' hm => ?_,
    fun other slot' inode marker' hc hm hinode => halive ?_⟩
  · rw [setMarker_processes, setStage_processes] at hslot
    split at hslot
    · cases hslot
      exact h.inRange pid slot (slot_of_handle hmine)
    · exact h.inRange other slot' hslot
  · obtain ⟨old, hold, hinode⟩ := h.marked other slot' inode (hhandle hh)
    rw [setMarker_markers]
    split
    · rename_i heq
      rw [heq, present] at hold
      cases hold
      exact ⟨_, rfl, hinode⟩
    · exact ⟨old, hold, hinode⟩
  · have hother : (registry.processes other).stage.handle = some (slot', inode) := by
      refine hhandle ?_
      rw [setMarker_processes] at hstage
      rw [hstage]
      rfl
    rw [setMarker_markers] at hm
    split at hm
    · rename_i heq
      cases hm
      rw [heq] at hother
      rw [h.unique hf hother hmine]
    · rename_i hne
      rw [setMarker_processes, setStage_processes] at hstage
      split at hstage
      · cases hstage
        exact absurd rfl hne
      · exact h.named other slot' inode hstage marker' hm
  · rw [setMarker_processes, setStage_processes] at hc
    rw [setMarker_markers] at hm
    split at hc
    · cases hc
    · split at hm
      · rename_i heq
        cases hm
        exact h.condemned other slot' inode marker hc (heq ▸ present) hinode
      · exact h.condemned other slot' inode marker' hc hm hinode

theorem stage_of_dead {registry : Registry} {pid : Pid} (h : registry.alive pid = false) :
    (registry.processes pid).stage = .dead := by
  unfold alive at h
  cases hstage : (registry.processes pid).stage with
  | dead => rfl
  | _ =>
    rw [hstage] at h
    cases h

theorem Claims.effect {registry registry' : Registry} {next : Step} (h : Claims max registry) (hf : registry.Files)
    (hu : Undisturbed registry next) (he : Effect max registry next registry') : Claims max registry' := by
  cases he with
  | idle => exact h
  | opened stage =>
    refine h.stage (fun slot hslot => ?_) rfl (fun _ _ _ hc => by cases hc) (fun hdead => ?_)
    · cases hslot
      exact slots_pos max
    · rw [stage_of_dead hdead] at stage
      rcases stage with stage | stage <;> cases stage
  | created stage absent => exact h.created hf stage absent
  | @met pid slot stage =>
    refine h.stage (fun other hslot => ?_) rfl (fun _ _ _ hc => by cases hc) (fun hdead => ?_)
    · cases hslot
      exact h.inRange pid slot (by rw [stage]; rfl)
    · cases stage.symm.trans (stage_of_dead hdead)
  | passed stage second present =>
    refine h.stage (fun other hslot => slot_advance hslot) (handle_advance ..) (fun slot inode marker hc => ?_)
      (fun hdead => ?_)
    · cases (condemned_advance ..).symm.trans hc
    · cases stage.symm.trans (stage_of_dead hdead)
  | named stage present => exact h.name hf stage present
  | @lost pid slot inode stage other =>
    obtain ⟨marker, hmarker, hinode⟩ := h.marked pid slot inode (by rw [stage]; rfl)
    exact absurd hinode (other marker hmarker)
  | spared stage holder =>
    refine h.stage (fun other hslot => slot_advance hslot) (handle_advance ..) (fun slot inode marker hc => ?_)
      (fun hdead => ?_)
    · cases (condemned_advance ..).symm.trans hc
    · cases stage.symm.trans (stage_of_dead hdead)
  | @condemned pid slot stage holder =>
    refine h.stage (fun other hslot => ?_) rfl (fun slot' inode marker hc hmarker hinode => ?_) (fun hdead => ?_)
    · cases hslot
      exact h.inRange pid slot (by rw [stage]; rfl)
    · simp only [Stage.condemned, Option.map_map, Option.map_eq_some_iff] at hc
      obtain ⟨read, hread, heq⟩ := hc
      cases heq
      obtain rfl : read = marker := Option.some.inj (hread.symm.trans hmarker)
      -- The marker names nobody, and then its creator is dead, or it names its creator.
      rcases hf.names slot read hmarker with hpid | hpid
      · exact hu slot read stage hmarker hpid
      · unfold holderAlive at holder
        simp only [hmarker, hpid, Option.any_some] at holder
        exact holder
    · cases stage.symm.trans (stage_of_dead hdead)
  | @swept pid slot read stage =>
    have hstage : Claims max (registry.setStage pid (advance max 0 slot)) := by
      refine h.stage (fun other hslot => slot_advance hslot) (handle_advance ..) (fun slot inode marker hc => ?_)
        (fun hdead => ?_)
      · cases (condemned_advance ..).symm.trans hc
      · cases stage.symm.trans (stage_of_dead hdead)
    refine hstage.clear fun other inode hh => ?_
    rw [setStage_processes] at hh
    split at hh
    · cases (handle_advance ..).symm.trans hh
    · obtain ⟨marker, hmarker, hinode⟩ := h.marked other slot inode hh
      have hread : read = some marker.inode := hu slot read marker stage hmarker
      have hdead : registry.alive marker.owner = false :=
        h.condemned pid slot marker.inode marker (by rw [stage, hread]; rfl) hmarker rfl
      rw [hf.owned other slot inode slot marker hh hmarker hinode, alive_of_handle hh] at hdead
      cases hdead
  | @dropped pid slot inode stage =>
    have hstage : Claims max (registry.setStage pid .idle) := by
      refine h.stage (fun other hslot => by cases hslot) rfl (fun _ _ _ hc => by cases hc) (fun hdead => ?_)
      cases stage.symm.trans (stage_of_dead hdead)
    refine hstage.clear fun other inode' hh => ?_
    rw [setStage_processes] at hh
    split at hh
    · cases hh
    · rename_i hne
      exact hne (h.unique hf hh (by rw [stage]; rfl))
  | crashed pid => exact h.stage (fun _ hslot => by cases hslot) rfl (fun _ _ _ hc => by cases hc) fun _ => rfl

/-- Every step of the run goes right. -/
def UndisturbedRun (max : Nat) (steps : List Step) : Prop := Run.Along (step max) Undisturbed {} steps

theorem claims_run {steps : List Step} (h : UndisturbedRun max steps) : Claims max (run max steps) := by
  refine Run.Along.invariant (fun _ registry => Claims max registry) ?_ (fun before next hclaims hgood => ?_) h
  · exact ⟨nofun, nofun, nofun, nofun⟩
  · exact hclaims.effect (files_run max before) hgood (step_effect ..)

/-! ## The two passes -/

/-- The slots before this one were seen taken or free. -/
def seenUpTo (max : Nat) : Stage → Nat
  | .trying 0 slot | .reading slot | .removing slot _ => slot
  | .trying _ _ => slots max
  | _ => 0

/-- The slots before this one were taken at some moment of the call. -/
def coveredUpTo (max : Nat) : Stage → Nat
  | .trying 0 _ => 0
  | .trying _ slot => slot
  | .full => slots max
  | _ => 0

def actor : Step → Pid
  | .openCall pid | .create pid | .writePid pid | .read pid | .remove pid | .drop pid | .crash pid => pid

theorem Effect.others {registry registry' : Registry} {next : Step} (he : Effect max registry next registry')
    {pid : Pid} (hne : pid ≠ actor next) : registry'.processes pid = registry.processes pid := by
  cases he with
  | idle => rfl
  | opened => exact (setProcess_processes ..).trans (if_neg hne)
  | _ => exact (setStage_processes ..).trans (if_neg hne)

/-- A marker that appears is that of a process that is claiming the slot. -/
theorem Effect.appears {registry registry' : Registry} {next : Step} (he : Effect max registry next registry')
    {slot : Nat} (absent : registry.markers slot = none) :
    registry'.markers slot = none ∨ registry'.Occupied slot := by
  cases he with
  | @created pid pass other stage free =>
    by_cases hslot : slot = other
    · subst hslot
      refine .inr ⟨⟨registry.fresh, pid, none⟩, ?_, ?_⟩
      · exact (setMarker_markers ..).trans (if_pos rfl)
      · have hhandle : (((registry.setStage pid (.writing slot registry.fresh)).processes pid).stage).handle =
            some (slot, registry.fresh) := by
          rw [setStage_processes, if_pos rfl]
          rfl
        exact alive_of_handle hhandle
    · exact .inl ((setMarker_markers ..).trans ((if_neg hslot).trans absent))
  | @named pid other marker stage present =>
    refine .inl ((setMarker_markers ..).trans ((if_neg ?_).trans absent))
    rintro rfl
    cases absent.symm.trans present
  | swept | dropped =>
    left
    rw [setMarker_markers]
    split
    · rfl
    · exact absent
  | _ => exact .inl absent

theorem occupied_of_holderAlive {registry : Registry} (hf : registry.Files) {slot : Nat}
    (h : registry.holderAlive slot = true) : registry.Occupied slot := by
  unfold holderAlive at h
  split at h
  · cases h
  · rename_i marker hmarker
    refine ⟨marker, hmarker, ?_⟩
    rcases hf.names slot marker hmarker with hpid | hpid
    · rw [hpid] at h
      cases h
    · rw [hpid] at h
      exact h

theorem lt_seenUpTo_advance {pass slot other : Nat} (h : other < seenUpTo max (advance max pass slot)) :
    (pass = 0 ∧ (other < slot ∨ other = slot)) ∨ (pass ≠ 0 ∧ other < slots max) := by
  unfold advance at h
  split at h
  · cases pass with
    | zero => exact .inl ⟨rfl, Nat.lt_succ_iff_lt_or_eq.mp h⟩
    | succ pass => exact .inr ⟨Nat.succ_ne_zero pass, h⟩
  · rename_i hlast
    split at h
    · rename_i hpass
      obtain rfl : pass = 0 := by simp only [passes] at hpass; omega
      exact .inl ⟨rfl, Nat.lt_succ_iff_lt_or_eq.mp (Nat.lt_of_lt_of_le h (Nat.le_of_not_lt hlast))⟩
    · cases h

theorem lt_coveredUpTo_advance {pass slot other : Nat} (h : other < coveredUpTo max (advance max pass slot)) :
    pass ≠ 0 ∧ (other < slot ∨ other = slot ∧ slot < slots max) := by
  unfold advance at h
  split at h
  · rename_i hlt
    cases pass with
    | zero => cases h
    | succ pass =>
      refine ⟨Nat.succ_ne_zero pass, (Nat.lt_succ_iff_lt_or_eq.mp h).imp_right fun heq => ⟨heq, ?_⟩⟩
      exact Nat.lt_of_succ_lt hlt
  · rename_i hlast
    split at h
    · cases h
    · rename_i hpass
      refine ⟨fun hzero => hpass (by subst hzero; decide), ?_⟩
      have hle : other < slot + 1 := Nat.lt_of_lt_of_le h (Nat.le_of_not_lt hlast)
      exact (Nat.lt_succ_iff_lt_or_eq.mp hle).imp_right fun heq => ⟨heq, heq ▸ h⟩

theorem opening_of_seenUpTo {stage : Stage} {slot : Nat} (h : slot < seenUpTo max stage) : stage.opening = true := by
  cases stage with
  | trying | reading | removing => rfl
  | _ => cases h

/-- How a step adds a slot to those a process has seen. -/
theorem Effect.seen {registry registry' : Registry} {next : Step} (he : Effect max registry next registry')
    (hf : registry.Files) {pid : Pid} {slot : Nat} (h : slot < seenUpTo max (registry'.processes pid).stage) :
    (registry'.processes pid).calls = (registry.processes pid).calls ∧
      (slot < seenUpTo max (registry.processes pid).stage ∨ registry'.markers slot = none ∨
        (registry.processes pid).stage.opening = true ∧ registry.Occupied slot) := by
  rcases eq_or_ne pid (actor next) with rfl | hne
  · cases he with
    | idle => exact ⟨rfl, .inl h⟩
    | opened stage =>
      simp only [actor, setProcess_processes, if_true] at h
      cases h
    | created stage absent =>
      simp only [actor, setMarker_processes, setStage_processes, if_true] at h
      cases h
    | met stage =>
      simp only [actor, setStage_processes, if_true] at h ⊢
      exact ⟨trivial, .inl (by rw [stage]; exact h)⟩
    | @passed pid pass other marker stage second present =>
      simp only [actor, setStage_processes, if_true] at h ⊢
      refine ⟨trivial, .inl ?_⟩
      rcases lt_seenUpTo_advance h with ⟨hzero, -⟩ | ⟨-, hlt⟩
      · exact absurd hzero second
      · obtain ⟨pass, rfl⟩ := Nat.exists_eq_succ_of_ne_zero second
        rw [stage]
        exact hlt
    | named stage present =>
      simp only [actor, setMarker_processes, setStage_processes, if_true] at h
      cases h
    | lost stage other =>
      simp only [actor, setStage_processes, if_true] at h
      cases h
    | @spared pid other stage holder =>
      simp only [actor, setStage_processes, if_true] at h ⊢
      refine ⟨trivial, ?_⟩
      rcases lt_seenUpTo_advance h with ⟨-, hlt | rfl⟩ | ⟨hzero, -⟩
      · exact .inl (by rw [stage]; exact hlt)
      · exact .inr (.inr ⟨by rw [stage]; rfl, occupied_of_holderAlive hf holder⟩)
      · exact absurd rfl hzero
    | condemned stage holder =>
      simp only [actor, setStage_processes, if_true] at h ⊢
      exact ⟨trivial, .inl (by rw [stage]; exact h)⟩
    | @swept pid other read stage =>
      simp only [actor, setMarker_processes, setStage_processes, setMarker_markers, if_true] at h ⊢
      refine ⟨trivial, ?_⟩
      rcases lt_seenUpTo_advance h with ⟨-, hlt | rfl⟩ | ⟨hzero, -⟩
      · exact .inl (by rw [stage]; exact hlt)
      · exact .inr (.inl (if_pos rfl))
      · exact absurd rfl hzero
    | dropped stage =>
      simp only [actor, setMarker_processes, setStage_processes, if_true] at h
      cases h
    | crashed =>
      simp only [actor, setStage_processes, if_true] at h
      cases h
  · rw [he.others hne] at h ⊢
    exact ⟨rfl, .inl h⟩

/-- How a step adds a slot to those a process has found taken. -/
theorem Effect.covered {registry registry' : Registry} {next : Step} (he : Effect max registry next registry')
    {pid : Pid} {slot : Nat} (h : slot < coveredUpTo max (registry'.processes pid).stage) :
    (registry'.processes pid).calls = (registry.processes pid).calls ∧
      (slot < coveredUpTo max (registry.processes pid).stage ∨
        slot < seenUpTo max (registry.processes pid).stage ∧ registry.markers slot ≠ none) := by
  rcases eq_or_ne pid (actor next) with rfl | hne
  · cases he with
    | idle => exact ⟨rfl, .inl h⟩
    | opened stage =>
      simp only [actor, setProcess_processes, if_true] at h
      cases h
    | @passed pid pass other marker stage second present =>
      simp only [actor, setStage_processes, if_true] at h ⊢
      obtain ⟨pass, rfl⟩ := Nat.exists_eq_succ_of_ne_zero second
      refine ⟨trivial, ?_⟩
      rcases (lt_coveredUpTo_advance h).2 with hlt | ⟨rfl, hlt⟩
      · exact .inl (by rw [stage]; exact hlt)
      · exact .inr ⟨by rw [stage]; exact hlt, fun absent => by cases absent.symm.trans present⟩
    | spared stage holder =>
      simp only [actor, setStage_processes, if_true] at h
      exact absurd rfl (lt_coveredUpTo_advance h).1
    | swept stage =>
      simp only [actor, setMarker_processes, setStage_processes, if_true] at h
      exact absurd rfl (lt_coveredUpTo_advance h).1
    | created | named | dropped =>
      simp only [actor, setMarker_processes, setStage_processes, if_true] at h
      cases h
    | met | lost | condemned | crashed =>
      simp only [actor, setStage_processes, if_true] at h
      cases h
  · rw [he.others hne] at h ⊢
    exact ⟨rfl, .inl h⟩

/-- What a process knows of the slots in the course of its call. -/
structure Passes (max : Nat) (steps : List Step) : Prop where
  seen : ∀ pid slot, slot < seenUpTo max ((run max steps).processes pid).stage →
    (run max steps).markers slot = none ∨ OccupiedDuring max steps pid ((run max steps).processes pid).calls slot
  covered : ∀ pid slot, slot < coveredUpTo max ((run max steps).processes pid).stage →
    OccupiedDuring max steps pid ((run max steps).processes pid).calls slot

theorem occupiedDuring_concat {steps : List Step} {pid : Pid} {call slot : Nat}
    (h : OccupiedDuring max steps pid call slot) (next : Step) :
    OccupiedDuring max (steps ++ [next]) pid call slot := by
  obtain ⟨before, after, rfl, hcall, hopening, hoccupied⟩ := h
  exact ⟨before, after ++ [next], List.append_assoc .., hcall, hopening, hoccupied⟩

theorem Passes.concat {steps : List Step} (h : Passes max steps) (next : Step) : Passes max (steps ++ [next]) := by
  have he : Effect max (run max steps) next (run max (steps ++ [next])) := by
    unfold run
    rw [Run.run_concat]
    exact step_effect ..
  constructor
  · intro pid slot hlt
    have hopening := opening_of_seenUpTo hlt
    obtain ⟨hcalls, hseen | habsent | ⟨hopened, hoccupied⟩⟩ := he.seen (files_run max steps) hlt
    · rcases h.seen pid slot hseen with habsent | hduring
      · exact (he.appears habsent).imp_right fun hoccupied =>
          ⟨steps ++ [next], [], (List.append_nil _).symm, rfl, hopening, hoccupied⟩
      · exact .inr (hcalls ▸ occupiedDuring_concat hduring next)
    · exact .inl habsent
    · exact .inr ⟨steps, [next], rfl, hcalls.symm, hopened, hoccupied⟩
  · intro pid slot hlt
    obtain ⟨hcalls, hcovered | ⟨hseen, hpresent⟩⟩ := he.covered hlt
    · exact hcalls ▸ occupiedDuring_concat (h.covered pid slot hcovered) next
    · rcases h.seen pid slot hseen with habsent | hduring
      · exact absurd habsent hpresent
      · exact hcalls ▸ occupiedDuring_concat hduring next

theorem passes_run (max : Nat) (steps : List Step) : Passes max steps := by
  induction steps using List.reverseRecOn with
  | nil => exact ⟨fun _ _ h => absurd h (Nat.not_lt_zero _), fun _ _ h => absurd h (Nat.not_lt_zero _)⟩
  | append_singleton steps next ih => exact ih.concat next

end Registry

/-! ## The cap -/

/-- **The cap holds of every run whose steps go right.** `Full` needs no such condition. -/
theorem cap_holds {max : Nat} {steps : List Step} (h : Registry.UndisturbedRun max steps) : CapHolds max steps where
  capped := by
    intro pids hnodup hholds
    have hclaims := Registry.claims_run h
    have hfiles := Registry.files_run max steps
    let slotOf (pid : Pid) : Nat := ((Registry.run max steps).processes pid).stage.slot.getD 0
    have hslot {pid : Pid} (hpid : pid ∈ pids) :
        ∃ inode, ((Registry.run max steps).processes pid).stage = .holding (slotOf pid) inode := by
      obtain ⟨slot, inode, hstage⟩ := hholds pid hpid
      refine ⟨inode, ?_⟩
      simp only [slotOf, hstage, Stage.slot, Option.getD_some]
    have hinj : (pids.map slotOf).Nodup := by
      refine hnodup.map_on fun pid hpid other hother heq => ?_
      obtain ⟨inode, hstage⟩ := hslot hpid
      obtain ⟨inode', hstage'⟩ := hslot hother
      rw [heq] at hstage
      exact hclaims.unique hfiles (by rw [hstage]; rfl) (by rw [hstage']; rfl)
    have hrange : pids.map slotOf ⊆ List.range (slots max) := by
      intro slot hmem
      obtain ⟨pid, hpid, rfl⟩ := List.mem_map.mp hmem
      obtain ⟨inode, hstage⟩ := hslot hpid
      exact List.mem_range.mpr (hclaims.inRange pid (slotOf pid) (by rw [hstage]; rfl))
    calc pids.length = (pids.map slotOf).length := (List.length_map _).symm
      _ ≤ (List.range (slots max)).length := (List.subperm_of_subset hinj hrange).length_le
      _ = slots max := List.length_range
  named := by
    rintro pid slot ⟨inode, hstage⟩
    have hclaims := Registry.claims_run h
    obtain ⟨marker, hmarker, -⟩ := hclaims.marked pid slot inode (by rw [hstage]; rfl)
    exact ⟨marker, hmarker, hclaims.named pid slot inode hstage marker hmarker⟩
  swept := by
    rintro before after pid slot read marker rfl hstage hmarker
    have hread : read = some marker.inode := h before (.remove pid) after rfl slot read marker hstage hmarker
    exact (Registry.claims_run h.of_append).condemned pid slot marker.inode marker (by rw [hstage, hread]; rfl)
      hmarker rfl
  full pid hstage slot hlt := (Registry.passes_run max steps).covered pid slot (by rw [hstage]; exact hlt)

/-- A process dies before its marker says whose it is, and the next one sweeps it. -/
theorem cap_holds_swept : (Registry.run 1 [.openCall 0, .create 0, .crash 0, .openCall 1, .create 1, .read 1,
      .remove 1, .create 1, .writePid 1]).Holds 1 0 ∧
    CapHolds 1 [.openCall 0, .create 0, .crash 0, .openCall 1, .create 1, .read 1, .remove 1, .create 1,
      .writePid 1] := by
  refine ⟨⟨1, by decide +kernel⟩, cap_holds ?_⟩
  have hcrash : Registry.UndisturbedRun 1 [.openCall 0, .create 0, .crash 0] :=
    (((Run.Along.nil _).concat trivial).concat trivial).concat trivial
  have hopen : Registry.UndisturbedRun 1 [.openCall 0, .create 0, .crash 0, .openCall 1] :=
    Run.Along.concat hcrash trivial
  have hmet : Registry.UndisturbedRun 1 [.openCall 0, .create 0, .crash 0, .openCall 1, .create 1] :=
    Run.Along.concat hopen trivial
  have hread : Registry.UndisturbedRun 1 [.openCall 0, .create 0, .crash 0, .openCall 1, .create 1, .read 1] := by
    refine Run.Along.concat hmet fun slot marker hstage hmarker _ => ?_
    obtain rfl : 0 = slot := Stage.reading.inj hstage
    cases hmarker
    rfl
  have hremove : Registry.UndisturbedRun 1
      [.openCall 0, .create 0, .crash 0, .openCall 1, .create 1, .read 1, .remove 1] := by
    refine Run.Along.concat hread fun slot read marker hstage hmarker => ?_
    obtain ⟨rfl, rfl⟩ : 0 = slot ∧ some 0 = read := Stage.removing.inj hstage
    cases hmarker
    rfl
  have hcreate : Registry.UndisturbedRun 1
      [.openCall 0, .create 0, .crash 0, .openCall 1, .create 1, .read 1, .remove 1, .create 1] :=
    Run.Along.concat hremove trivial
  exact Run.Along.concat hcreate trivial

end TmuxAgents.Serve.Conn
