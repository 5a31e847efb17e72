/-
The device store over whole runs.

Where every write finds the records its command loaded, and gives the file a tuple that no
cache holds, the commands that succeed are as good as run one after another and every memo
answers as the file does (`updates_kept`).
-/
import TmuxAgents.Serve.Store

namespace TmuxAgents.Serve

/-! ## Commands one after another -/

theorem Replays.append {devices mid final : List Device} {older newer : List Entry} (h : Replays devices older mid)
    (h' : Replays mid newer final) : Replays devices (older ++ newer) final := by
  induction h with
  | nil => exact h'
  | cons applied rest ih => exact .cons applied (ih h')

theorem Replays.split {devices final : List Device} {older newer : List Entry}
    (h : Replays devices (older ++ newer) final) : ∃ mid, Replays devices older mid ∧ Replays mid newer final := by
  induction older generalizing devices with
  | nil => exact ⟨devices, .nil devices, h⟩
  | cons entry older ih =>
    cases h with
    | cons applied rest =>
      obtain ⟨mid, holder, hnewer⟩ := ih rest
      exact ⟨mid, .cons applied holder, hnewer⟩

theorem Replays.distinct {devices final : List Device} {entries : List Entry} (h : Replays devices entries final)
    (hd : Distinct devices) : Distinct final := by
  induction h with
  | nil => exact hd
  | cons applied _ ih => exact ih (hd.applied (applied_of_apply applied))

theorem Replays.absent {devices final : List Device} {entries : List Entry} (h : Replays devices entries final)
    {id : Text} (habsent : ∀ other ∈ devices, other.id ≠ id)
    (hpair : ∀ entry ∈ entries, entry.command.isPair = true → entry.device.id ≠ id) :
    ∀ other ∈ final, other.id ≠ id := by
  induction h with
  | nil => exact habsent
  | cons applied _ ih =>
    refine ih ((applied_of_apply applied).absent habsent (hpair _ List.mem_cons_self)) fun entry hentry => ?_
    exact hpair entry (List.mem_cons_of_mem _ hentry)

theorem Replays.granted {devices final : List Device} {entries : List Entry} (h : Replays devices entries final)
    {id : Text} {scope : Scope} (hgranted : Granted devices id scope)
    (hgrant : ∀ entry ∈ entries, entry.command.isGrant = false → entry.device.id ≠ id) : Granted final id scope := by
  induction h with
  | nil => exact hgranted
  | cons applied _ ih =>
    refine ih ((applied_of_apply applied).still_granted hgranted (hgrant _ List.mem_cons_self)) fun entry hentry => ?_
    exact hgrant entry (List.mem_cons_of_mem _ hentry)

/-- Among distinct records the one with a scope is the one that is found. -/
theorem Granted.recordOf {devices : List Device} (hd : Distinct devices) {id : Text} {scope : Scope}
    (h : Granted devices id scope) : ∃ found, recordOf devices id = some found ∧ found.allows scope = true := by
  obtain ⟨device, hmem, rfl, hscope⟩ := h
  obtain ⟨before, after, rfl⟩ := List.append_of_mem hmem
  refine ⟨device, ?_, List.contains_iff_mem.mpr hscope⟩
  refine List.find?_eq_some_iff_append.mpr ⟨beq_self_eq_true _, before, after, rfl, fun other hother => ?_⟩
  have hne := hd.id_ne other (List.mem_append_left _ hother)
  simpa using hne

/-! ## Undisturbed runs -/

namespace World

@[simp] theorem setCall_calls (world : World) (call other : CallId) (state : Call) :
    (world.setCall call state).calls other = if other = call then state else world.calls other :=
  Function.update_apply ..

@[simp] theorem setReader_readers (world : World) (reader other : ReaderId) (state : Reader) :
    (world.setReader reader state).readers other = if other = reader then state else world.readers other :=
  Function.update_apply ..

/-- A step of the kind that goes right: a write finds the records its command loaded, and gives the
file a tuple that no cache holds. -/
def Undisturbed (world : World) : Step → Prop
  | .write call memo =>
    (∀ command base devices device, world.calls call = .ready command base devices device →
      load world.file = .ok base) ∧
    ∀ reader, (world.readers reader).cache.loaded = true → (world.readers reader).cache.memo ≠ some memo
  | _ => True

/-- What has returned `Ok` makes the file of the one at the start, and a cache that has the tuple of
the file has its records. -/
structure Sound (start : List Device) (world : World) : Prop where
  replays : ∃ final, load world.file = .ok final ∧ Replays start world.log final
  ready : ∀ call command base devices device, world.calls call = .ready command base devices device →
    command.apply base = .ok (devices, device)
  returned : ∀ entry ∈ world.log, ∃ result, world.calls entry.call = .returned result
  once : (world.log.map Entry.call).Nodup
  cached : ∀ reader, (world.readers reader).cache.loaded = true →
    (world.readers reader).cache.memo = world.fileMemo → load world.file = .ok (world.readers reader).cache.devices

/-- A command that begins, or that ends without a write. -/
theorem Sound.setCall {start : List Device} {world : World} (h : Sound start world) {call : CallId} {state : Call}
    (running : ∀ result, world.calls call ≠ .returned result)
    (ready : ∀ command base devices device, state = .ready command base devices device →
      command.apply base = .ok (devices, device)) : Sound start (world.setCall call state) := by
  refine ⟨h.replays, fun other command base devices device hready => ?_, fun entry hentry => ?_, h.once, h.cached⟩
  · rw [setCall_calls] at hready
    split at hready
    · exact ready _ _ _ _ hready
    · exact h.ready _ _ _ _ _ hready
  · obtain ⟨result, hresult⟩ := h.returned entry hentry
    refine ⟨result, ?_⟩
    rw [setCall_calls, if_neg, hresult]
    intro heq
    exact running result (heq ▸ hresult)

theorem Sound.setReader {start : List Device} {world : World} (h : Sound start world) {reader : ReaderId}
    {state : Reader} (cached : state.cache.loaded = true → state.cache.memo = world.fileMemo →
      load world.file = .ok state.cache.devices) : Sound start (world.setReader reader state) := by
  refine ⟨h.replays, h.ready, h.returned, h.once, fun other => ?_⟩
  rw [setReader_readers]
  split
  · exact cached
  · exact h.cached other

theorem Sound.write {start : List Device} {world : World} (h : Sound start world) {call : CallId} {command : Command}
    {base devices : List Device} {device : Device} {memo : FileMemo}
    (hcall : world.calls call = .ready command base devices device) (hbase : load world.file = .ok base)
    (hmemo : ∀ reader, (world.readers reader).cache.loaded = true → (world.readers reader).cache.memo ≠ some memo) :
    Sound start { world.setCall call (.returned (.ok device)) with
      file := some { memo, records := some devices }
      log := world.log ++ [{ call, command, device }] } := by
  obtain ⟨final, hfinal, hreplays⟩ := h.replays
  obtain rfl : final = base := Except.ok.inj (hfinal.symm.trans hbase)
  have hrunning {entry : Entry} (hentry : entry ∈ world.log) : entry.call ≠ call := by
    intro heq
    obtain ⟨result, hresult⟩ := h.returned entry hentry
    rw [heq, hcall] at hresult
    cases hresult
  refine ⟨⟨devices, rfl, hreplays.append (.cons (h.ready _ _ _ _ _ hcall) (.nil devices))⟩,
    fun other command' base' devices' device' hready => ?_, fun entry hentry => ?_, ?_, fun reader hloaded heq => ?_⟩
  · rw [setCall_calls] at hready
    split at hready
    · cases hready
    · exact h.ready _ _ _ _ _ hready
  · rw [setCall_calls]
    rcases List.mem_append.mp hentry with hentry | hentry
    · obtain ⟨result, hresult⟩ := h.returned entry hentry
      exact ⟨result, by rw [if_neg (hrunning hentry), hresult]⟩
    · rw [List.mem_singleton.mp hentry]
      exact ⟨_, if_pos rfl⟩
  · rw [List.map_append]
    refine List.nodup_append.mpr ⟨h.once, List.nodup_singleton _, fun a ha b hb => ?_⟩
    obtain ⟨entry, hentry, rfl⟩ := List.mem_map.mp ha
    rw [List.map_singleton, List.mem_singleton] at hb
    rw [hb]
    exact hrunning hentry
  · exact absurd heq (hmemo reader hloaded)

theorem Sound.step {start : List Device} {world : World} (h : Sound start world) {next : Step}
    (calm : world.Undisturbed next) : Sound start (world.step next) := by
  unfold World.step
  cases next with
  | load call command =>
    simp only
    split
    · rename_i hfresh
      have hrunning (result) : world.calls call ≠ .returned result := by rw [hfresh]; exact nofun
      split
      · exact h.setCall hrunning nofun
      split
      · exact h.setCall hrunning nofun
      · rename_i base _ written happly
        refine h.setCall hrunning fun command' base' devices device hready => ?_
        cases hready
        exact happly
    · exact h
  | write call memo =>
    simp only
    split
    · rename_i hcall
      exact h.write hcall (calm.1 _ _ _ _ hcall) calm.2
    · exact h
  | writeFails call =>
    simp only
    split
    · rename_i hcall
      exact h.setCall (by rw [hcall]; exact nofun) nofun
    · exact h
  | stat reader id =>
    simp only
    split
    · exact h
    split
    · exact h.setReader (h.cached reader)
    · exact h.setReader (h.cached reader)
  | reload reader =>
    simp only
    split
    · exact h
    split
    · exact h.setReader (h.cached reader)
    · rename_i devices hload
      exact h.setReader fun _ _ => hload

/-- Every step of the run is of the kind that goes right. -/
def UndisturbedRun (file : Option File) (steps : List Step) : Prop := Run.Along step Undisturbed { file } steps

theorem sound_run {file : Option File} {start : List Device} (hstart : load file = .ok start) {steps : List Step}
    (h : UndisturbedRun file steps) : Sound start (run file steps) := by
  refine Run.Along.invariant (fun _ => Sound start) ?_ (fun steps next hsound calm => hsound.step calm) h
  exact ⟨⟨start, hstart, .nil start⟩, nofun, nofun, List.nodup_nil, nofun⟩

theorem step_log (world : World) (next : Step) : world.log <+: (world.step next).log := by
  unfold step
  cases next with
  | load call command =>
    simp only
    split
    · split
      · exact List.prefix_rfl
      split
      · exact List.prefix_rfl
      · exact List.prefix_rfl
    · exact List.prefix_rfl
  | write call memo =>
    simp only
    split
    · exact List.prefix_append _ _
    · exact List.prefix_rfl
  | writeFails call =>
    simp only
    split
    · exact List.prefix_rfl
    · exact List.prefix_rfl
  | stat reader id =>
    simp only
    split
    · exact List.prefix_rfl
    split
    · exact List.prefix_rfl
    · exact List.prefix_rfl
  | reload reader =>
    simp only
    split
    · exact List.prefix_rfl
    split
    · exact List.prefix_rfl
    · exact List.prefix_rfl

/-- The log only grows. -/
theorem log_grows (file : Option File) (before after : List Step) :
    (run file before).log <+: (run file (before ++ after)).log := by
  rw [run, run, Run.run_append]
  exact Run.invariant step (fun world => (Run.run step { file } before).log <+: world.log)
    (fun world next h => h.trans (step_log world next)) List.prefix_rfl after

/-- A `Cache::get` that ends answers as the file does. -/
theorem Sound.answer {start : List Device} {world : World} (h : Sound start world) {next : Step} {id : Text}
    {result : Except DeviceError (Option Device)} (ha : world.answer next = some (id, result)) :
    result = storeGet world.file id := by
  unfold World.answer at ha
  unfold storeGet
  cases next with
  | stat reader id' =>
    simp only at ha
    split at ha
    · cases ha
    split at ha
    · rename_i hcurrent
      cases ha
      rw [Cache.current, Bool.and_eq_true, beq_iff_eq] at hcurrent
      rw [h.cached reader hcurrent.1 hcurrent.2]
    · cases ha
  | reload reader =>
    simp only at ha
    split at ha
    · cases ha
    split at ha
    · rename_i hload
      cases ha
      rfl
    · rename_i hload
      cases ha
      rfl
  | load call command => cases ha
  | write call memo => cases ha
  | writeFails call => cases ha

end World

/-! ## The store -/

/-- **No update is lost in an undisturbed run**, from records that are distinct. -/
theorem updates_kept {file : Option File} {start : List Device} {steps : List Step} (hstart : load file = .ok start)
    (hdistinct : Distinct start) (h : World.UndisturbedRun file steps) : UpdatesKept file steps := by
  have hsound := World.sound_run hstart h
  obtain ⟨final, hfinal, hreplays⟩ := hsound.replays
  refine ⟨⟨start, final, _, hstart, hfinal, .refl _, fun p hp q hq hprecedes => ?_, hreplays⟩,
    fun older newer call name device own hlog hpair hown => ?_,
    fun older newer call name scope device own hlog hgrant hown => ?_, fun own hown => ?_,
    fun before next after id result hsteps hanswer => ?_⟩
  · obtain ⟨before, after, rfl, ⟨entry, hentry, hcall⟩, hfresh⟩ := hprecedes
    have hbefore := World.sound_run hstart (Run.Along.of_append h)
    obtain ⟨more, hmore⟩ := World.log_grows file before after
    rw [← hmore] at hp hq ⊢
    have honce := hsound.once
    rw [← hmore] at honce
    -- Of the two calls one is in the log of the earlier moment, and the other is not.
    have hpBefore : p ∈ (World.run file before).log := by
      have hsame : entry = p := List.inj_on_of_nodup_map honce (List.mem_append_left _ hentry) hp hcall
      exact hsame ▸ hentry
    have hqMore : q ∈ more := by
      refine (List.mem_append.mp hq).resolve_left fun hmem => ?_
      obtain ⟨result, hresult⟩ := hbefore.returned q hmem
      rw [hfresh] at hresult
      cases hresult
    exact (List.singleton_sublist.mpr hpBefore).append (List.singleton_sublist.mpr hqMore)
  · obtain rfl : final = own := Except.ok.inj (hfinal.symm.trans hown)
    rw [hlog] at hreplays
    obtain ⟨mid, holder, hrest⟩ := hreplays.split
    cases hrest with
    | cons applied hnewer =>
      have habsent := (applied_of_apply applied).revoked_absent (holder.distinct hdistinct)
      refine List.find?_eq_none.mpr fun other hother => ?_
      simpa using hnewer.absent habsent hpair other hother
  · obtain rfl : final = own := Except.ok.inj (hfinal.symm.trans hown)
    have hfinalDistinct := hreplays.distinct hdistinct
    rw [hlog] at hreplays
    obtain ⟨mid, holder, hrest⟩ := hreplays.split
    cases hrest with
    | cons applied hnewer =>
      exact (hnewer.granted (applied_of_apply applied).granted_granted hgrant).recordOf hfinalDistinct
  · obtain rfl : final = own := Except.ok.inj (hfinal.symm.trans hown)
    exact (hreplays.distinct hdistinct).names
  · subst hsteps
    exact (World.sound_run hstart (Run.Along.of_append h)).answer hanswer

/-- A pairing and its revocation, and a reader that has looked between the two. -/
theorem updates_kept_revocation : UpdatesKept none
    [.load 0 phone, .write 0 (memoOf 0), .stat 0 ['k'], .reload 0, .load 1 (.revoke ['p']), .write 1 (memoOf 1),
      .stat 0 ['k'], .reload 0] := by
  have hload : World.UndisturbedRun none [.load 0 phone] := (Run.Along.nil _).concat trivial
  have hpair : World.UndisturbedRun none [.load 0 phone, .write 0 (memoOf 0)] :=
    Run.Along.concat hload ⟨fun command base devices device hready => by cases hready; rfl, nofun⟩
  have hlooking : World.UndisturbedRun none [.load 0 phone, .write 0 (memoOf 0), .stat 0 ['k']] := Run.Along.concat hpair trivial
  have hlooked : World.UndisturbedRun none [.load 0 phone, .write 0 (memoOf 0), .stat 0 ['k'], .reload 0] :=
    Run.Along.concat hlooking trivial
  have hload' : World.UndisturbedRun none [.load 0 phone, .write 0 (memoOf 0), .stat 0 ['k'], .reload 0, .load 1 (.revoke ['p'])] :=
    Run.Along.concat hlooked trivial
  -- The reader's cache has the tuple of the pairing.
  have hrevoke : World.UndisturbedRun none [.load 0 phone, .write 0 (memoOf 0), .stat 0 ['k'], .reload 0, .load 1 (.revoke ['p']),
      .write 1 (memoOf 1)] := by
    refine Run.Along.concat hload' ⟨fun command base devices device hready => by cases hready; rfl, fun reader hloaded heq => ?_⟩
    cases reader with
    | zero => exact absurd heq (by decide)
    | succ reader => cases hloaded
  have hstat : World.UndisturbedRun none [.load 0 phone, .write 0 (memoOf 0), .stat 0 ['k'], .reload 0, .load 1 (.revoke ['p']),
      .write 1 (memoOf 1), .stat 0 ['k']] := Run.Along.concat hrevoke trivial
  exact updates_kept rfl .nil (Run.Along.concat hstat trivial)

end TmuxAgents.Serve
