/-
The session over whole runs: what every fire of it rests on (`session_authorised`).

`Authorised` speaks of the trace of a run alone: the lines read, the answers of the device
store, and what was done between one line and the next. The program's own state is used
only in the proof.
-/
import TmuxAgents.Serve.Session

namespace TmuxAgents.Serve.Session

open Interaction

abbrev Step := Exchange Call.Answer

/-! ## What a trace shows -/

namespace Call

def isNextLine : Call → Bool
  | nextLine => true
  | _ => false

def isFire : Call → Bool
  | fire .. => true
  | _ => false

def isSend : Call → Bool
  | send .. => true
  | _ => false

/-- What resolves a claim. -/
def settles (call : Call) (guard : Slots.SlotGuard) : Bool :=
  match call with
  | release guard' => guard' == guard
  | write guard' _ => guard' == guard
  | _ => false

/-- What reads the device store. -/
def readsStore : Call → Bool
  | stat | load => true
  | _ => false

end Call

/-- The newest `stat`, and what was loaded last with the tuple it was loaded under. -/
structure Reading where
  stat : Option (Option FileMemo) := none
  loaded : Option (Option FileMemo × List Device) := none

def Reading.next (reading : Reading) : Step → Reading
  | ⟨.stat, .ok memo⟩ => { reading with stat := some memo }
  | ⟨.load, .ok devices⟩ => { reading with loaded := reading.stat.map fun memo => (memo, devices) }
  | _ => reading

def readingOf (trace : List Step) : Reading := trace.foldl Reading.next {}

/-- The records that the read made in `during` answered with: what was loaded last, under the very
tuple its `stat` reports. -/
def Reads (before during : List Step) (devices : List Device) : Prop :=
  ∃ memo, ⟨.stat, .ok memo⟩ ∈ during ∧ (readingOf (before ++ during)).loaded = some (memo, devices)

/-- A request line of a run, with what was done until the next line. -/
def RequestAt (trace before : List Step) (line : Text) (during after : List Step) : Prop :=
  Between (fun e => e.call.isNextLine) trace before ⟨.nextLine, .ok (.line line)⟩ during after

section

variable (decode : Text → Option RequestFrame)

/-- A hello was accepted. -/
def Greeted (before : List Step) : Prop :=
  ∃ earlier line during after frame hello ok answer, RequestAt before earlier line during after ∧
    decode line = some frame ∧ frame.acceptHello = .ok hello ∧ ⟨.send frame.id (.hello ok), answer⟩ ∈ during

/-- What a fire rests on, when the line of its request has been read and `pre` has been done. -/
structure Granted (id : Text) (before : List Step) (line : Text) (pre : List Step) (action : Act.ActionManifest)
    (pane : Text) (fireArgs : Act.FireArgs) (frame : RequestFrame) (req : Dispatch) (devices : List Device)
    (device : Device) (scope : Scope) (guard : Slots.SlotGuard) : Prop where
  greeted : Greeted decode before
  parsed : decode line = some frame
  supported : frame.schema = schema
  body : frame.body = .dispatch req
  named : action.name = req.action
  target : pane = req.pane
  read : Reads before pre devices
  record : recordOf devices id = some device
  needed : requiredScope action.name = some scope
  granted : scope ∈ device.scopes
  keystrokes : action.kind.sendsKeystrokes = true
  text : action.kind = .text → req.text ≠ none
  keys : action.kind = .keys → req.text = none
  noAnswers : req.answers = none
  claimed : ∃ now, ⟨.claim req.slot req.pane action.name (some id) now, .ok (.claimed guard)⟩ ∈ pre
  force : fireArgs.force = false

/-- The one fire of its request, whose claim is resolved once, and after it. -/
structure Settled (guard : Slots.SlotGuard) (pre post : List Step) : Prop where
  only : ∀ e ∈ pre ++ post, e.call.isFire = false
  open_ : ∀ e ∈ pre, e.call.settles guard = false
  once : ∃ e, (post.filter fun e => e.call.settles guard) = [e]

/-- What holds of the trace of a session. -/
structure Authorised (id : Text) (trace : List Step) : Prop where
  fires : ∀ front action pane fireArgs outcome back, trace = front ++ ⟨.fire action pane fireArgs, outcome⟩ :: back →
    ∃ before line pre post after, front = before ++ ⟨.nextLine, .ok (.line line)⟩ :: pre ∧ back = post ++ after ∧
      RequestAt trace before line (pre ++ ⟨.fire action pane fireArgs, outcome⟩ :: post) after ∧
      ∃ frame req devices device scope guard,
        Granted decode id before line pre action pane fireArgs frame req devices device scope guard ∧
          Settled guard pre post
  answers : ∀ before line during after frame, RequestAt trace before line during after → decode line = some frame →
    ∃ response answer, (during.filter fun e => e.call.isSend) = [⟨.send frame.id response, answer⟩]
  ends : ∀ before line during after frame devices, RequestAt trace before line during after →
    decode line = some frame → Reads before during devices → recordOf devices id = none → after = []

end

/-! ## The store's read -/

/-- What is loaded, as a cache has it. -/
def view (cache : Cache) : Option (Option FileMemo × List Device) :=
  if cache.loaded then some (cache.memo, cache.devices) else none

/-- The ways `Cache::get` goes. -/
inductive Gets (cache : Cache) (id : Text) : List Step → Except Text (Option Device) × Cache → Prop
  | failed (message : Text) :
    Gets cache id [⟨.stat, .error message⟩] (.error message, { cache with statCalls := cache.statCalls + 1 })
  | current {memo : Option FileMemo} (h : cache.current memo = true) : Gets cache id [⟨.stat, .ok memo⟩]
      (.ok (recordOf cache.devices id), { cache with statCalls := cache.statCalls + 1 })
  | unreadable {memo : Option FileMemo} (h : cache.current memo = false) (message : Text) :
    Gets cache id [⟨.stat, .ok memo⟩, ⟨.load, .error message⟩]
      (.error message, { cache with statCalls := cache.statCalls + 1 })
  | loaded {memo : Option FileMemo} (h : cache.current memo = false) (devices : List Device) :
    Gets cache id [⟨.stat, .ok memo⟩, ⟨.load, .ok devices⟩] (.ok (recordOf devices id),
      { devices, memo, loaded := true, statCalls := cache.statCalls + 1, parseCalls := cache.parseCalls + 1 })

theorem cacheGet_spec (cache : Cache) (id : Text) : Always (cacheGet cache id) (Gets cache id) := by
  refine always_ask.mpr fun answer => ?_
  cases answer with
  | error message => exact always_done.mpr (.failed message)
  | ok memo =>
    cases hcurrent : cache.current memo with
    | true =>
      have h : ({ cache with statCalls := cache.statCalls + 1 } : Cache).current memo = true := hcurrent
      simp only [h, if_true]
      exact always_done.mpr (.current hcurrent)
    | false =>
      have h : ({ cache with statCalls := cache.statCalls + 1 } : Cache).current memo = false := hcurrent
      simp only [h, Bool.false_eq_true, if_false]
      refine always_ask.mpr fun answer => ?_
      cases answer with
      | error message => exact always_done.mpr (.unreadable hcurrent message)
      | ok devices => exact always_done.mpr (.loaded hcurrent devices)

theorem readingOf_append (trace more : List Step) :
    readingOf (trace ++ more) = more.foldl Reading.next (readingOf trace) :=
  List.foldl_append

theorem readingOf_quiet {trace quiet : List Step} (h : ∀ e ∈ quiet, e.call.readsStore = false) :
    readingOf (trace ++ quiet) = readingOf trace := by
  rw [readingOf_append]
  induction quiet with
  | nil => rfl
  | cons e quiet ih =>
    have he : (readingOf trace).next e = readingOf trace := by
      have hcall := h e List.mem_cons_self
      obtain ⟨call, answer⟩ := e
      cases call with
      | stat | load => cases hcall
      | _ => rfl
    rw [List.foldl_cons, he]
    exact ih fun x hx => h x (List.mem_cons_of_mem e hx)

variable {cache : Cache} {id : Text} {before gets : List Step} {get : Except Text (Option Device) × Cache}

theorem Gets.view (h : Gets cache id gets get) (hbefore : (readingOf before).loaded = view cache) :
    (readingOf (before ++ gets)).loaded = view get.2 := by
  rw [readingOf_append]
  cases h with
  | failed | current | unreadable => exact hbefore
  | loaded => rfl

theorem current_iff {memo : Option FileMemo} : cache.current memo = true ↔ view cache = some (memo, cache.devices) := by
  unfold Cache.current Session.view
  cases cache.loaded with
  | false => simp
  | true => simp

/-- What a read answers with. -/
theorem Gets.reads (h : Gets cache id gets get) (hbefore : (readingOf before).loaded = Session.view cache)
    {record : Option Device} (hget : get.1 = .ok record) :
    ∃ devices, Reads before gets devices ∧ recordOf devices id = record := by
  cases h with
  | failed | unreadable => cases hget
  | @current memo hcurrent =>
    cases hget
    refine ⟨cache.devices, ⟨memo, List.mem_cons_self, ?_⟩, rfl⟩
    rw [readingOf_append]
    exact hbefore.trans (current_iff.mp hcurrent)
  | @loaded memo hmoved devices =>
    cases hget
    refine ⟨devices, ⟨memo, List.mem_cons_self, ?_⟩, rfl⟩
    rw [readingOf_append]
    rfl

/-- A read that answers at all answers with the records it reads. -/
theorem Gets.of_reads (h : Gets cache id gets get) (hbefore : (readingOf before).loaded = Session.view cache)
    {devices : List Device} (hreads : Reads before gets devices) : get.1 = .ok (recordOf devices id) := by
  obtain ⟨memo, hmem, hloaded⟩ := hreads
  rw [readingOf_append] at hloaded
  cases h with
  | failed =>
    simp only [List.mem_singleton] at hmem
    cases hmem
  | @current memo' hcurrent =>
    have hview := hbefore.trans (current_iff.mp hcurrent)
    have hdevices := hview.symm.trans hloaded
    simp only [Option.some.injEq, Prod.mk.injEq] at hdevices
    rw [← hdevices.2]
  | @unreadable memo' hmoved message =>
    -- The tuple has moved: what was loaded was loaded under another.
    have hmemo : memo = memo' := by
      simp only [List.mem_cons, List.not_mem_nil, or_false] at hmem
      rcases hmem with hmem | hmem
      · cases hmem
        rfl
      · cases hmem
    have hview : Session.view cache = some (memo, devices) := hbefore.symm.trans hloaded
    have hdevices : cache.devices = devices := by
      unfold Session.view at hview
      split at hview
      · cases hview
        rfl
      · cases hview
    rw [← hdevices, hmemo] at hview
    rw [current_iff.mpr hview] at hmoved
    cases hmoved
  | @loaded memo' hmoved devices' =>
    cases hloaded
    rfl

/-! ## A dispatch -/

/-- A call that neither fires nor settles, answers nobody and reads no line and no store. -/
def Call.inert : Call → Bool
  | nowMs | claim .. | receipts _ | read _ | spawnStream .. => true
  | _ => false

theorem Call.isNextLine_of_inert {call : Call} (h : call.inert = true) : call.isNextLine = false := by
  cases call <;> first | rfl | cases h

theorem Call.isFire_of_inert {call : Call} (h : call.inert = true) : call.isFire = false := by
  cases call <;> first | rfl | cases h

theorem Call.isSend_of_inert {call : Call} (h : call.inert = true) : call.isSend = false := by
  cases call <;> first | rfl | cases h

theorem Call.readsStore_of_inert {call : Call} (h : call.inert = true) : call.readsStore = false := by
  cases call <;> first | rfl | cases h

/-- The ways a dispatch goes: it has no effect, or it claims, fires and settles. -/
inductive Dispatched (s : State) (req : Dispatch) : List Step → Prop
  | inert {trace : List Step} (h : ∀ e ∈ trace, e.call.inert = true) : Dispatched s req trace
  | fired {action : Act.ActionManifest} {scope : Scope} {now : Nat} {guard : Slots.SlotGuard} {outcome : Act.Outcome}
    {settle : Step} (named : action.name = req.action) (needed : requiredScope action.name = some scope)
    (granted : scope ∈ s.scopes) (keystrokes : action.kind.sendsKeystrokes = true)
    (payload : payloadError action req = none) (noAnswers : req.answers = none)
    (settles : settle.call = .release guard ∨ ∃ receipt, settle.call = .write guard receipt) :
    Dispatched s req [⟨.nowMs, now⟩,
      ⟨.claim req.slot req.pane action.name (some s.deviceId) now, .ok (.claimed guard)⟩,
      ⟨.fire action req.pane (fireArgs req), outcome⟩, settle]

theorem refused_inert (s : State) (req : Dispatch) :
    Always (refused s req) fun trace _ => ∀ e ∈ trace, e.call.inert = true := by
  refine always_ask.mpr fun now => always_done.mpr fun e he => ?_
  rw [List.mem_singleton.mp he]
  rfl

theorem cached_inert (s : State) (req : Dispatch) (receipt : Slots.Receipt) :
    Always (cached s req receipt) fun trace _ => ∀ e ∈ trace, e.call.inert = true := by
  refine always_ask.mpr fun answer => ?_
  have hlast (now : Nat) : ∀ e ∈ ([⟨.receipts req.slot, answer⟩, ⟨.nowMs, now⟩] : List Step), e.call.inert = true := by
    intro e he
    simp only [List.mem_cons, List.not_mem_nil, or_false] at he
    rcases he with rfl | rfl <;> rfl
  cases answer with
  | error message => exact always_ask.mpr fun now => always_done.mpr (hlast now)
  | ok entries =>
    cases entries with
    | nil => exact always_ask.mpr fun now => always_done.mpr (hlast now)
    | cons entry entries =>
      refine always_done.mpr fun e he => ?_
      rw [List.mem_singleton.mp he]
      rfl

theorem fired_spec (s : State) (req : Dispatch) (action : Act.ActionManifest) (now : Nat) (guard : Slots.SlotGuard) :
    Always (fired s req action now guard) fun trace _ => ∃ outcome settle,
      trace = [⟨.fire action req.pane (fireArgs req), outcome⟩, settle] ∧
        (settle.call = .release guard ∨ ∃ receipt, settle.call = .write guard receipt) := by
  refine always_ask.mpr fun (outcome : Act.Outcome) => ?_
  by_cases hlocked : outcome = .refused .locked
  · simp only [hlocked, if_true]
    refine always_ask.mpr fun answer => always_done.mpr ?_
    exact ⟨_, ⟨.release guard, answer⟩, rfl, .inl rfl⟩
  · simp only [hlocked, if_false]
    refine always_ask.mpr fun answer => always_done.mpr ?_
    exact ⟨outcome, ⟨.write guard (fromActResult outcome), answer⟩, rfl, .inr ⟨_, rfl⟩⟩

theorem onDispatch_spec (s : State) (req : Dispatch) :
    Always (onDispatch s req) fun trace _ => Dispatched s req trace := by
  have hnone {response : Response} :
      Always (.done response : Script Response) fun trace _ => Dispatched s req trace :=
    always_done.mpr (.inert fun _ he => absurd he List.not_mem_nil)
  have hrefused : Always (refused s req) fun trace _ => Dispatched s req trace :=
    (refused_inert s req).mono fun _ _ h => .inert h
  unfold onDispatch
  split
  · exact hnone
  split
  · exact hnone
  · rename_i action hfind
    have hnamed : action.name = req.action := by
      have hname := List.find?_some hfind
      exact beq_iff_eq.mp hname
    split
    · exact hnone
    · rename_i hkeystrokes
      rw [Bool.not_eq_true', Bool.not_eq_false] at hkeystrokes
      split
      · exact hnone
      · rename_i hpayload
        split
        · exact hnone
        · rename_i hanswers
          rw [Option.not_isSome_iff_eq_none] at hanswers
          split
          · exact hrefused
          · rename_i needed hneeded
            split
            · exact hrefused
            · rename_i hgranted
              rw [Bool.not_eq_true', Bool.not_eq_false, List.contains_iff_mem] at hgranted
              refine always_ask.mpr fun now => always_ask.mpr fun claim => ?_
              have hinert {trace : List Step} (h : ∀ e ∈ trace, e.call.inert = true) :
                  Dispatched s req (⟨.nowMs, now⟩ ::
                    ⟨.claim req.slot req.pane action.name (some s.deviceId) now, claim⟩ :: trace) := by
                refine .inert fun e he => ?_
                simp only [List.mem_cons] at he
                rcases he with rfl | rfl | he
                · rfl
                · rfl
                · exact h e he
              cases claim with
              | error message => exact always_done.mpr (hinert fun _ he => absurd he List.not_mem_nil)
              | ok claim =>
                cases claim with
                | hit receipt => exact (cached_inert s req receipt).mono fun _ _ h => hinert h
                | claimed guard =>
                  refine (fired_spec s req action now guard).mono fun trace response h => ?_
                  obtain ⟨outcome, settle, rfl, hsettle⟩ := h
                  exact .fired hnamed hneeded hgranted hkeystrokes hpayload hanswers hsettle

/-! ## A request line -/

/-- What is done about a frame, and the response to it. -/
structure Framed (s : State) (frame : RequestFrame) (work : List Step) (response : Response) (s' : State) : Prop where
  cache : s'.cache = s.cache
  deviceId : s'.deviceId = s.deviceId
  greeted : s'.greeted = true → s.greeted = true ∨ ∃ hello ok, frame.acceptHello = .ok hello ∧ response = .hello ok
  work : (∀ e ∈ work, e.call.inert = true) ∨
    s.greeted = true ∧ frame.schema = schema ∧ ∃ req, frame.body = .dispatch req ∧ Dispatched s req work

theorem answer_spec (s : State) (frame : RequestFrame) (hgreeted : s.greeted = true) (hschema : frame.schema = schema) :
    Always (answer s frame) fun trace result => Framed s frame trace result.2 result.1 := by
  have hinert {trace : List Step} {response : Response} {s' : State} (htrace : ∀ e ∈ trace, e.call.inert = true)
      (hcache : s'.cache = s.cache) (hdevice : s'.deviceId = s.deviceId) : Framed s frame trace response s' :=
    ⟨hcache, hdevice, fun _ => .inl hgreeted, .inl htrace⟩
  unfold answer
  split
  · exact always_done.mpr (hinert (fun _ he => absurd he List.not_mem_nil) rfl rfl)
  · split
    · exact always_done.mpr (hinert (fun _ he => absurd he List.not_mem_nil) rfl rfl)
    · refine always_ask.mpr fun _ => always_done.mpr (hinert (fun e he => ?_) rfl rfl)
      rw [List.mem_singleton.mp he]
      rfl
  · rename_i req hbody
    refine (onDispatch_spec s req).bind fun trace response h => always_done.mpr ?_
    rw [List.append_nil]
    exact ⟨rfl, rfl, fun _ => .inl hgreeted, .inr ⟨hgreeted, hschema, req, hbody, h⟩⟩
  · refine always_ask.mpr fun _ => always_done.mpr (hinert (fun e he => ?_) rfl rfl)
    rw [List.mem_singleton.mp he]
    rfl

theorem onFrame_spec (s : State) (frame : RequestFrame) :
    Always (onFrame s frame) fun trace result => result.2 = .continue ∧ ∃ work response answer,
      trace = work ++ [⟨.send frame.id response, answer⟩] ∧ Framed s frame work response result.1 := by
  have hnone {response : Response} {s' : State} (hcache : s'.cache = s.cache) (hdevice : s'.deviceId = s.deviceId)
      (hgreeted : s'.greeted = true →
        s.greeted = true ∨ ∃ hello ok, frame.acceptHello = .ok hello ∧ response = .hello ok) :
      Always (respond frame.id response s' .continue) fun trace result => result.2 = .continue ∧
        ∃ work response answer, trace = work ++ [⟨.send frame.id response, answer⟩] ∧
          Framed s frame work response result.1 :=
    always_ask.mpr fun answer => always_done.mpr
      ⟨rfl, [], response, answer, rfl, hcache, hdevice, hgreeted, .inl fun _ he => absurd he List.not_mem_nil⟩
  unfold onFrame
  split
  · split
    · rename_i hello haccept
      exact hnone rfl rfl fun _ => .inr ⟨hello, _, haccept, rfl⟩
    · exact hnone rfl rfl .inl
  · rename_i hgreeted
    rw [Bool.not_eq_true', Bool.not_eq_false] at hgreeted
    split
    · exact hnone rfl rfl .inl
    · rename_i hschema
      refine (answer_spec s frame hgreeted (of_not_not hschema)).bind fun work result h => ?_
      exact always_ask.mpr fun answer => always_done.mpr ⟨rfl, work, result.2, answer, rfl, h⟩

/-- The ways a request line that parses is handled. -/
inductive Answered (s : State) (frame : RequestFrame) : List Step → State × Flow → Prop
  | unread {gets : List Step} {get : Except Text (Option Device) × Cache} {response : Response}
    {answer : Except Text Unit} {flow : Flow} (read : Gets s.cache s.deviceId gets get)
    (absent : ∀ device, get.1 ≠ .ok (some device)) (stops : get.1 = .ok none → flow ≠ .continue) :
    Answered s frame (gets ++ [⟨.send frame.id response, answer⟩]) ({ s with cache := get.2 }, flow)
  | read {gets work : List Step} {get : Except Text (Option Device) × Cache} {device : Device} {response : Response}
    {answer : Except Text Unit} {s' : State} (read : Gets s.cache s.deviceId gets get)
    (record : get.1 = .ok (some device))
    (framed : Framed { s with cache := get.2, scopes := device.scopes } frame work response s') :
    Answered s frame (gets ++ (work ++ [⟨.send frame.id response, answer⟩])) (s', .continue)

theorem onLine_spec {decode : Text → Option RequestFrame} (s : State) {line : Text} {frame : RequestFrame}
    (hframe : decode line = some frame) : Always (onLine decode s line) (Answered s frame) := by
  unfold onLine
  simp only [hframe]
  refine (cacheGet_spec s.cache s.deviceId).bind fun gets get hget => ?_
  obtain ⟨result, cache⟩ := get
  cases result with
  | error message =>
    exact always_ask.mpr fun answer => always_done.mpr (.unread hget (fun _ h => by cases h) fun h => by cases h)
  | ok record =>
    cases record with
    | none =>
      exact always_ask.mpr fun answer => always_done.mpr (.unread hget (fun _ h => by cases h) fun _ h => by cases h)
    | some device =>
      refine (onFrame_spec _ frame).mono fun trace result h => ?_
      obtain ⟨s', flow⟩ := result
      obtain ⟨hflow, work, response, answer, rfl, hframed⟩ := h
      rw [show flow = .continue from hflow]
      exact .read hget rfl hframed

/-! ## What a handled line leaves -/

theorem Gets.readsStore (h : Gets cache id gets get) : ∀ e ∈ gets, e.call.readsStore = true := by
  intro e he
  cases h with
  | failed | current =>
    rw [List.mem_singleton.mp he]
    rfl
  | unreadable | loaded =>
    simp only [List.mem_cons, List.not_mem_nil, or_false] at he
    rcases he with rfl | rfl <;> rfl

theorem Call.of_readsStore {call : Call} (h : call.readsStore = true) :
    call.isNextLine = false ∧ call.isFire = false ∧ call.isSend = false ∧ ∀ guard, call.settles guard = false := by
  cases call with
  | stat | load => exact ⟨rfl, rfl, rfl, fun _ => rfl⟩
  | _ => cases h

theorem reads_append {gets quiet : List Step} {devices : List Device}
    (hquiet : ∀ e ∈ quiet, e.call.readsStore = false) :
    Reads before (gets ++ quiet) devices ↔ Reads before gets devices := by
  unfold Reads
  rw [← List.append_assoc, readingOf_quiet hquiet]
  refine exists_congr fun memo => and_congr_left fun _ => ?_
  rw [List.mem_append]
  refine ⟨fun h => h.resolve_right fun hmem => ?_, .inl⟩
  cases hquiet _ hmem

/-- A claim is settled by a call of its own. -/
theorem settles_spec {settle : Step} {guard : Slots.SlotGuard}
    (h : settle.call = .release guard ∨ ∃ receipt, settle.call = .write guard receipt) :
    settle.call.settles guard = true ∧ settle.call.isNextLine = false ∧ settle.call.isFire = false ∧
      settle.call.isSend = false ∧ settle.call.readsStore = false := by
  rcases h with h | ⟨receipt, h⟩
  · rw [h]
    exact ⟨beq_self_eq_true guard, rfl, rfl, rfl, rfl⟩
  · rw [h]
    exact ⟨beq_self_eq_true guard, rfl, rfl, rfl, rfl⟩

/-- No line is read, no response sent and no store read in the work of a dispatch. -/
theorem Dispatched.plain {s : State} {req : Dispatch} {work : List Step} (h : Dispatched s req work) :
    ∀ e ∈ work, e.call.isNextLine = false ∧ e.call.isSend = false ∧ e.call.readsStore = false := by
  intro e he
  cases h with
  | inert h =>
    exact ⟨Call.isNextLine_of_inert (h e he), Call.isSend_of_inert (h e he), Call.readsStore_of_inert (h e he)⟩
  | fired named needed granted keystrokes payload noAnswers settles =>
    obtain ⟨-, hline, -, hsend, hstore⟩ := settles_spec settles
    simp only [List.mem_cons, List.not_mem_nil, or_false] at he
    rcases he with rfl | rfl | rfl | rfl
    · exact ⟨rfl, rfl, rfl⟩
    · exact ⟨rfl, rfl, rfl⟩
    · exact ⟨rfl, rfl, rfl⟩
    · exact ⟨hline, hsend, hstore⟩

theorem Framed.plain {s s' : State} {frame : RequestFrame} {work : List Step} {response : Response}
    (h : Framed s frame work response s') :
    ∀ e ∈ work, e.call.isNextLine = false ∧ e.call.isSend = false ∧ e.call.readsStore = false := by
  rcases h.work with hinert | ⟨-, -, req, -, hdispatched⟩
  · exact fun e he =>
      ⟨Call.isNextLine_of_inert (hinert e he), Call.isSend_of_inert (hinert e he), Call.readsStore_of_inert (hinert e he)⟩
  · exact hdispatched.plain

/-- A trace as it is known to a session: what its cache holds was loaded, and its hello accepted. -/
structure Mirrors (decode : Text → Option RequestFrame) (s : State) (before : List Step) : Prop where
  view : (readingOf before).loaded = Session.view s.cache
  greeted : s.greeted = true → Greeted decode before

/-- What holds of the handling of one line, `rest` being what comes after. -/
structure Handled (decode : Text → Option RequestFrame) (id : Text) (before : List Step) (line : Text)
    (during rest : List Step) : Prop where
  within : ∀ e ∈ during, e.call.isNextLine = false
  fires : ∀ pre action pane fireArgs outcome post, during = pre ++ ⟨.fire action pane fireArgs, outcome⟩ :: post →
    ∃ frame req devices device scope guard,
      Granted decode id before line pre action pane fireArgs frame req devices device scope guard ∧ Settled guard pre post
  answers : ∀ frame, decode line = some frame →
    ∃ response answer, (during.filter fun e => e.call.isSend) = [⟨.send frame.id response, answer⟩]
  ends : ∀ frame devices, decode line = some frame → Reads before during devices → recordOf devices id = none → rest = []

variable {decode : Text → Option RequestFrame}

/-- A handling in which nothing fires. -/
theorem Handled.quiet {id line : Text} {before during rest : List Step}
    (within : ∀ e ∈ during, e.call.isNextLine = false) (quiet : ∀ e ∈ during, e.call.isFire = false)
    (answers : ∀ frame, decode line = some frame →
      ∃ response answer, (during.filter fun e => e.call.isSend) = [⟨.send frame.id response, answer⟩])
    (ends : ∀ frame devices, decode line = some frame → Reads before during devices → recordOf devices id = none →
      rest = []) : Handled decode id before line during rest := by
  refine ⟨within, fun pre action pane fireArgs outcome post hsplit => ?_, answers, ends⟩
  have hfalse := quiet _ (hsplit ▸ List.mem_append_right pre List.mem_cons_self)
  cases hfalse

theorem filter_send {quiet : List Step} (h : ∀ e ∈ quiet, e.call.isSend = false) (id : Text) (response : Response)
    (answer : Except Text Unit) :
    ((quiet ++ [(⟨.send id response, answer⟩ : Step)]).filter fun e => e.call.isSend) =
      [⟨.send id response, answer⟩] := by
  rw [List.filter_append, List.filter_eq_nil_iff.mpr fun e he => by rw [h e he]; decide]
  rfl

/-- The fire of a dispatch, and what it rests on. -/
theorem fires_of_dispatched {s : State} {frame : RequestFrame} {req : Dispatch} {line : Text} {before gets work : List Step}
    {get : Except Text (Option Device) × Cache} {device : Device} {send : Step} (hm : Mirrors decode s before)
    (hframe : decode line = some frame) (hread : Gets s.cache s.deviceId gets get)
    (hrecord : get.1 = .ok (some device)) (hgreeted : s.greeted = true) (hschema : frame.schema = schema)
    (hbody : frame.body = .dispatch req) (hsend : send.call.isSend = true)
    (h : Dispatched { s with cache := get.2, scopes := device.scopes } req work) {pre post : List Step}
    {action : Act.ActionManifest} {pane : Text} {args : Act.FireArgs} {outcome : Act.Outcome}
    (hsplit : gets ++ (work ++ [send]) = pre ++ ⟨.fire action pane args, outcome⟩ :: post) :
    ∃ frame req devices device scope guard,
      Granted decode s.deviceId before line pre action pane args frame req devices device scope guard ∧
        Settled guard pre post := by
  have hgets : ∀ e ∈ gets, e.call.isFire = false := fun e he => (Call.of_readsStore (hread.readsStore e he)).2.1
  have hsent : send.call.isFire = false ∧ ∀ guard, send.call.settles guard = false := by
    cases hcall : send.call with
    | send => exact ⟨rfl, fun _ => rfl⟩
    | _ =>
      rw [hcall] at hsend
      cases hsend
  cases h with
  | inert hinert =>
    have hall : ∀ e ∈ gets ++ (work ++ [send]), e.call.isFire = false := by
      intro e he
      simp only [List.mem_append, List.mem_singleton] at he
      rcases he with he | he | rfl
      · exact hgets e he
      · exact Call.isFire_of_inert (hinert e he)
      · exact hsent.1
    have hfalse := hall _ (hsplit ▸ List.mem_append_right pre List.mem_cons_self)
    cases hfalse
  | @fired fired scope now guard outcome' settle named needed granted keystrokes payload noAnswers settles =>
    obtain ⟨hsettles, -, hfire, -, -⟩ := settles_spec settles
    let claiming : List Step := [⟨.nowMs, now⟩,
      ⟨.claim req.slot req.pane fired.name (some s.deviceId) now, .ok (.claimed guard)⟩]
    have hpre : ∀ e ∈ gets ++ claiming, e.call.isFire = false ∧ e.call.settles guard = false := by
      intro e he
      simp only [claiming, List.mem_append, List.mem_cons, List.not_mem_nil, or_false] at he
      rcases he with he | rfl | rfl
      · exact ⟨hgets e he, (Call.of_readsStore (hread.readsStore e he)).2.2.2 guard⟩
      · exact ⟨rfl, rfl⟩
      · exact ⟨rfl, rfl⟩
    have hpost : ∀ e ∈ [settle, send], e.call.isFire = false := by
      intro e he
      simp only [List.mem_cons, List.not_mem_nil, or_false] at he
      rcases he with rfl | rfl
      · exact hfire
      · exact hsent.1
    have hsole : (gets ++ claiming) ++ ⟨.fire fired req.pane (fireArgs req), outcome'⟩ :: [settle, send] =
        pre ++ ⟨.fire action pane args, outcome⟩ :: post := by
      rw [← hsplit, List.append_assoc]
      rfl
    obtain ⟨hfront, hcall, hback⟩ := @sole_mark Step (fun e => e.call.isFire) _ _ _ _ _ _ hsole
      (fun e he => (hpre e he).1) hpost rfl
    cases hcall
    subst hfront hback
    obtain ⟨devices, hreads, hdevice⟩ := hread.reads hm.view hrecord
    refine ⟨frame, req, devices, device, scope, guard, ?_, ?_⟩
    · have hquiet : ∀ e ∈ claiming, e.call.readsStore = false := by
        intro e he
        simp only [claiming, List.mem_cons, List.not_mem_nil, or_false] at he
        rcases he with rfl | rfl <;> rfl
      refine ⟨hm.greeted hgreeted, hframe, hschema, hbody, named, rfl, (reads_append hquiet).mpr hreads, hdevice, needed,
        granted, keystrokes, fun hkind htext => ?_, fun hkind => ?_, noAnswers, ⟨now, ?_⟩, rfl⟩
      · simp only [payloadError, hkind, htext, Option.isSome_none] at payload
        cases payload
      · cases htext : req.text with
        | none => rfl
        | some text =>
          simp only [payloadError, hkind, htext, Option.isSome_some] at payload
          cases payload
      · exact List.mem_append_right gets (List.mem_cons_of_mem _ List.mem_cons_self)
    · refine ⟨fun e he => ?_, fun e he => (hpre e he).2, settle, ?_⟩
      · rcases List.mem_append.mp he with he | he
        · exact (hpre e he).1
        · exact hpost e he
      · simp only [List.filter_cons, hsettles, hsent.2 guard, if_true, Bool.false_eq_true, if_false, List.filter_nil]

theorem Answered.handled {s s' : State} {frame : RequestFrame} {line : Text} {before during rest : List Step} {flow : Flow}
    (h : Answered s frame during (s', flow)) (hm : Mirrors decode s before) (hframe : decode line = some frame)
    (hrest : flow ≠ .continue → rest = []) : Handled decode s.deviceId before line during rest := by
  have hmine {other : RequestFrame} (hother : decode line = some other) : other = frame :=
    Option.some.inj (hother.symm.trans hframe)
  cases h with
  | @unread gets get response answer flow read absent stops =>
    have hgets := fun e he => Call.of_readsStore (read.readsStore e he)
    refine .quiet (fun e he => ?_) (fun e he => ?_) (fun other hother => ?_) fun other devices hother hreads hnone => ?_
    · rcases List.mem_append.mp he with he | he
      · exact (hgets e he).1
      · rw [List.mem_singleton.mp he]
        rfl
    · rcases List.mem_append.mp he with he | he
      · exact (hgets e he).2.1
      · rw [List.mem_singleton.mp he]
        rfl
    · rw [hmine hother]
      exact ⟨response, answer, filter_send (fun e he => (hgets e he).2.2.1) ..⟩
    · refine hrest (stops ?_)
      rw [reads_append fun e he => by rw [List.mem_singleton.mp he]; rfl] at hreads
      rw [read.of_reads hm.view hreads, hnone]
  | @read gets work get device response answer s' read record framed =>
    have hgets := fun e he => Call.of_readsStore (read.readsStore e he)
    have hwork := framed.plain
    have hquiet : ∀ e ∈ work ++ [(⟨.send frame.id response, answer⟩ : Step)], e.call.readsStore = false := by
      intro e he
      rcases List.mem_append.mp he with he | he
      · exact (hwork e he).2.2
      · rw [List.mem_singleton.mp he]
        rfl
    have hwithin : ∀ e ∈ gets ++ (work ++ [(⟨.send frame.id response, answer⟩ : Step)]), e.call.isNextLine = false := by
      intro e he
      simp only [List.mem_append, List.mem_singleton] at he
      rcases he with he | he | rfl
      · exact (hgets e he).1
      · exact (hwork e he).1
      · rfl
    have hanswers : ∀ other, decode line = some other → ∃ response' answer',
        ((gets ++ (work ++ [(⟨.send frame.id response, answer⟩ : Step)])).filter fun e => e.call.isSend) =
          [⟨.send other.id response', answer'⟩] := by
      intro other hother
      rw [hmine hother, ← List.append_assoc]
      refine ⟨response, answer, filter_send (fun e he => ?_) ..⟩
      rcases List.mem_append.mp he with he | he
      · exact (hgets e he).2.2.1
      · exact (hwork e he).2.1
    have hends : ∀ other devices, decode line = some other →
        Reads before (gets ++ (work ++ [⟨.send frame.id response, answer⟩])) devices →
          recordOf devices s.deviceId = none → rest = [] := by
      intro other devices hother hreads hnone
      rw [reads_append hquiet] at hreads
      have hanswer := read.of_reads hm.view hreads
      rw [record, hnone] at hanswer
      cases hanswer
    rcases framed.work with hinert | ⟨hgreeted, hschema, req, hbody, hdispatched⟩
    · refine .quiet hwithin (fun e he => ?_) hanswers hends
      simp only [List.mem_append, List.mem_singleton] at he
      rcases he with he | he | rfl
      · exact (hgets e he).2.1
      · exact Call.isFire_of_inert (hinert e he)
      · rfl
    · exact ⟨hwithin, fun pre action pane fireArgs outcome post hsplit =>
        fires_of_dispatched hm hframe read record hgreeted hschema hbody rfl hdispatched hsplit, hanswers, hends⟩

/-- The handling of a line leaves a trace that the session mirrors. -/
theorem Answered.mirrors {s s' : State} {frame : RequestFrame} {line : Text} {before during : List Step} {flow : Flow}
    (h : Answered s frame during (s', flow)) (hm : Mirrors decode s before) (hframe : decode line = some frame)
    (within : ∀ e ∈ during, e.call.isNextLine = false) :
    s'.deviceId = s.deviceId ∧ Mirrors decode s' (before ++ ⟨.nextLine, .ok (.line line)⟩ :: during) := by
  have hline : (readingOf (before ++ [⟨.nextLine, .ok (.line line)⟩])).loaded = Session.view s.cache := by
    rw [readingOf_append]
    exact hm.view
  have hearlier (hgreeted : Greeted decode before) :
      Greeted decode (before ++ ⟨.nextLine, .ok (.line line)⟩ :: during) := by
    obtain ⟨earlier, line', during', after, frame', hello, ok, answer, hrequest, hrest⟩ := hgreeted
    exact ⟨earlier, line', during', _, frame', hello, ok, answer, hrequest.append rfl during, hrest⟩
  cases h with
  | @unread gets get response answer flow read absent stops =>
    refine ⟨rfl, ?_, fun hgreeted => hearlier (hm.greeted hgreeted)⟩
    rw [List.append_cons, ← List.append_assoc,
      readingOf_quiet fun e he => by rw [List.mem_singleton.mp he]; rfl]
    exact read.view hline
  | @read gets work get device response answer s' read record framed =>
    refine ⟨framed.deviceId, ?_, fun hgreeted => ?_⟩
    · rw [List.append_cons, ← List.append_assoc, readingOf_quiet fun e he => ?_, framed.cache]
      · exact read.view hline
      · rcases List.mem_append.mp he with he | he
        · exact (framed.plain e he).2.2
        · rw [List.mem_singleton.mp he]
          rfl
    · rcases framed.greeted hgreeted with hgreeted | ⟨hello, ok, haccept, hresponse⟩
      · exact hearlier (hm.greeted hgreeted)
      · refine ⟨before, line, _, [], frame, hello, ok, answer, ⟨?_, rfl, within, .inl rfl⟩, hframe, haccept, ?_⟩
        · rw [List.append_nil]
        · rw [hresponse]
          exact List.mem_append_right _ (List.mem_append_right _ List.mem_cons_self)

/-! ## The request loop -/

/-- A trace as the request loop makes it: line by line. -/
inductive Requests (decode : Text → Option RequestFrame) (id : Text) : List Step → List Step → Prop
  | waiting {before : List Step} : Requests decode id before []
  | ended {before : List Step} {answer : Except Text Incoming} (noLine : ∀ line, answer ≠ .ok (.line line)) :
    Requests decode id before [⟨.nextLine, answer⟩]
  | unread {before rest : List Step} {answer : Except Text Incoming} {response : Response} {sent : Except Text Unit}
    (noLine : ∀ line, answer ≠ .ok (.line line))
    (later : Requests decode id (before ++ ⟨.nextLine, answer⟩ :: [⟨.send ['0'] response, sent⟩]) rest) :
    Requests decode id before (⟨.nextLine, answer⟩ :: ([⟨.send ['0'] response, sent⟩] ++ rest))
  | line {before during rest : List Step} {line : Text} (handled : Handled decode id before line during rest)
    (later : Requests decode id (before ++ ⟨.nextLine, .ok (.line line)⟩ :: during) rest) :
    Requests decode id before (⟨.nextLine, .ok (.line line)⟩ :: (during ++ rest))

/-- A line that does not parse. -/
theorem handled_unparsed {id line : Text} {before rest : List Step} {response : Response} {answer : Except Text Unit}
    (h : decode line = none) : Handled decode id before line [⟨.send ['0'] response, answer⟩] rest := by
  refine .quiet (fun e he => ?_) (fun e he => ?_) (fun frame hframe => ?_) fun frame devices hframe => ?_
  · rw [List.mem_singleton.mp he]
    rfl
  · rw [List.mem_singleton.mp he]
    rfl
  · cases h.symm.trans hframe
  · cases h.symm.trans hframe

/-- A step that reads no store and is no request leaves what is mirrored. -/
theorem Mirrors.plain {s : State} {before : List Step} (h : Mirrors decode s before) {answer : Except Text Incoming}
    {quiet : List Step} (hquiet : ∀ e ∈ quiet, e.call.readsStore = false) :
    Mirrors decode s (before ++ ⟨.nextLine, answer⟩ :: quiet) := by
  refine ⟨?_, fun hgreeted => ?_⟩
  · rw [readingOf_quiet]
    · exact h.view
    · intro e he
      rcases List.mem_cons.mp he with rfl | he
      · rfl
      · exact hquiet e he
  · obtain ⟨earlier, line, during, after, frame, hello, ok, answer', hrequest, hrest⟩ := h.greeted hgreeted
    exact ⟨earlier, line, during, _, frame, hello, ok, answer', hrequest.append rfl quiet, hrest⟩

theorem requests_spec (lines : Nat) {s : State} {before : List Step} (hm : Mirrors decode s before) :
    Always (requests decode lines s) fun trace _ => Requests decode s.deviceId before trace := by
  induction lines generalizing s before with
  | zero => exact always_done.mpr .waiting
  | succ lines ih =>
    have hunread {answer : Except Text Incoming} {response : Response}
        (noLine : ∀ line, answer ≠ .ok (.line line)) :
        Always (.ask (.send ['0'] response) fun _ => requests decode lines s) fun trace _ =>
          Requests decode s.deviceId before (⟨.nextLine, answer⟩ :: trace) := by
      refine always_ask.mpr fun sent => (ih (hm.plain fun e he => ?_)).mono fun trace _ h => .unread noLine h
      rw [List.mem_singleton.mp he]
      rfl
    refine always_ask.mpr fun answer => ?_
    cases answer with
    | error message => exact always_done.mpr (.ended fun _ h => by cases h)
    | ok incoming =>
      cases incoming with
      | eof => exact always_done.mpr (.ended fun _ h => by cases h)
      | tooLong => exact hunread fun _ h => by cases h
      | notUtf8 => exact hunread fun _ h => by cases h
      | line line =>
        cases hframe : decode line with
        | none =>
          have hline : onLine decode s line =
              respond ['0'] (error .badRequest "this frame could not be read".toList) s .continue := by
            unfold onLine
            rw [hframe]
          simp only [hline]
          refine always_ask.mpr fun sent => (ih (hm.plain fun e he => ?_)).mono fun trace _ h =>
            .line (handled_unparsed hframe) h
          rw [List.mem_singleton.mp he]
          rfl
        | some frame =>
          refine (onLine_spec s hframe).bind fun during result h => ?_
          obtain ⟨s', flow⟩ := result
          cases flow with
          | stop code =>
            have hhandled : Handled decode s.deviceId before line during [] := h.handled hm hframe fun _ => rfl
            exact always_done.mpr (.line hhandled .waiting)
          | «continue» =>
            have hhandled (rest : List Step) : Handled decode s.deviceId before line during rest :=
              h.handled hm hframe fun hne => absurd rfl hne
            obtain ⟨hdevice, hm'⟩ := h.mirrors hm hframe (hhandled []).within
            refine (ih hm').mono fun rest _ hrest => .line (hhandled rest) ?_
            rw [← hdevice]
            exact hrest

theorem Requests.begins {id : Text} {before trace : List Step} (h : Requests decode id before trace) :
    trace = [] ∨ ∃ next rest, trace = next :: rest ∧ next.call.isNextLine = true := by
  cases h with
  | waiting => exact .inl rfl
  | ended | unread | line => exact .inr ⟨_, _, rfl, rfl⟩

/-- Every request line of a trace is handled. -/
theorem Requests.request {id : Text} {before trace : List Step} (h : Requests decode id before trace) {mid : List Step}
    {line : Text} {during after : List Step} (hrequest : RequestAt trace mid line during after) :
    Handled decode id (before ++ mid) line during after := by
  induction h generalizing mid with
  | waiting => exact absurd hrequest not_between_nil
  | @ended before answer noLine =>
    have hnil : ∀ e ∈ ([] : List Step), e.call.isNextLine = false := fun e he => absurd he List.not_mem_nil
    have halone : RequestAt (⟨.nextLine, answer⟩ :: ([] ++ [])) mid line during after := hrequest
    rcases Between.of_cons halone hnil (.inl rfl) with ⟨-, hfirst, -⟩ | ⟨mid', -, hlater⟩
    · cases hfirst
      exact absurd rfl (noLine line)
    · exact absurd hlater not_between_nil
  | @unread before rest answer response sent noLine later ih =>
    have hsend : ∀ e ∈ ([⟨.send ['0'] response, sent⟩] : List Step), e.call.isNextLine = false := by
      intro e he
      rw [List.mem_singleton.mp he]
      rfl
    rcases Between.of_cons hrequest hsend later.begins with ⟨-, hfirst, -⟩ | ⟨mid', rfl, hlater⟩
    · cases hfirst
      exact absurd rfl (noLine line)
    · have hhandled := ih hlater
      rw [List.append_assoc] at hhandled
      exact hhandled
  | @line before quiet rest line' handled later ih =>
    rcases Between.of_cons hrequest handled.within later.begins with ⟨rfl, hfirst, rfl, rfl⟩ | ⟨mid', rfl, hlater⟩
    · cases hfirst
      rw [List.append_nil]
      exact handled
    · have hhandled := ih hlater
      rw [List.append_assoc] at hhandled
      exact hhandled

/-- Every fire of a trace is in a request. -/
theorem Requests.fires {id : Text} {before trace : List Step} (h : Requests decode id before trace)
    {front back : List Step} {fire : Step} (hfire : fire.call.isFire = true) (hsplit : trace = front ++ fire :: back) :
    ∃ mid line pre post after, front = mid ++ ⟨.nextLine, .ok (.line line)⟩ :: pre ∧ back = post ++ after ∧
      RequestAt trace mid line (pre ++ fire :: post) after := by
  induction h generalizing front with
  | waiting => simp at hsplit
  | ended noLine =>
    have hmem : fire ∈ front ++ fire :: back := List.mem_append_right front List.mem_cons_self
    rw [← hsplit, List.mem_singleton] at hmem
    rw [hmem] at hfire
    cases hfire
  | @unread before rest answer response sent noLine later ih =>
    have hquiet : ∀ e ∈ ([⟨.nextLine, answer⟩, ⟨.send ['0'] response, sent⟩] : List Step), e.call.isFire = false := by
      intro e he
      simp only [List.mem_cons, List.not_mem_nil, or_false] at he
      rcases he with rfl | rfl <;> rfl
    obtain ⟨front', rfl, hrest⟩ := @past_quiet Step (fun e => e.call.isFire) _ _ _ _ _ hsplit hquiet hfire
    obtain ⟨mid, line, pre, post, after, rfl, hback, hrequest⟩ := ih hrest
    exact ⟨_, line, pre, post, after, (List.append_assoc ..).symm, hback,
      hrequest.prepend [⟨.nextLine, answer⟩, ⟨.send ['0'] response, sent⟩]⟩
  | @line before during rest line handled later ih =>
    have hlater {front' : List Step} (hrest : rest = front' ++ fire :: back)
        (hfront : front = ⟨.nextLine, .ok (.line line)⟩ :: (during ++ front')) :
        ∃ mid line' pre post after, front = mid ++ ⟨.nextLine, .ok (.line line')⟩ :: pre ∧ back = post ++ after ∧
          RequestAt (⟨.nextLine, .ok (.line line)⟩ :: (during ++ rest)) mid line' (pre ++ fire :: post) after := by
      obtain ⟨mid, line', pre, post, after, rfl, hback, hrequest⟩ := ih hrest
      refine ⟨⟨.nextLine, .ok (.line line)⟩ :: (during ++ mid), line', pre, post, after, ?_, hback, ?_⟩
      · rw [hfront, List.cons_append, List.append_assoc]
      · exact hrequest.prepend (⟨.nextLine, .ok (.line line)⟩ :: during)
    cases front with
    | nil =>
      rw [List.nil_append, List.cons.injEq] at hsplit
      rw [← hsplit.1] at hfire
      cases hfire
    | cons e front =>
      rw [List.cons_append, List.cons.injEq] at hsplit
      obtain ⟨rfl, hsplit⟩ := hsplit
      rcases List.append_eq_append_iff.mp hsplit with ⟨front', rfl, hrest⟩ | ⟨post, rfl, hback⟩
      · exact hlater hrest rfl
      · cases post with
        | nil => exact @hlater [] hback.symm (by rw [List.append_nil, List.append_nil])
        | cons e post =>
          rw [List.cons_append, List.cons.injEq] at hback
          obtain ⟨rfl, rfl⟩ := hback
          exact ⟨[], line, front, post, rest, rfl, rfl, rfl, rfl, handled.within, later.begins⟩

/-! ## The connection -/

/-- What is done before the first line is read. -/
def Opening (decode : Text → Option RequestFrame) (id : Text) (trace : List Step) : Prop :=
  ∃ opening rest, trace = opening ++ rest ∧ (∀ e ∈ opening, e.call.isNextLine = false ∧ e.call.isFire = false) ∧
    Requests decode id opening rest

theorem Opening.authorised {id : Text} {trace : List Step} (h : Opening decode id trace) : Authorised decode id trace := by
  obtain ⟨opening, rest, rfl, hquiet, hrequests⟩ := h
  have hrequest {before line during after} (hat : RequestAt (opening ++ rest) before line during after) :
      Handled decode id before line during after := by
    obtain ⟨mid, rfl, hmid⟩ := hat.of_append fun e he => (hquiet e he).1
    exact hrequests.request hmid
  refine ⟨fun front action pane fireArgs outcome back hsplit => ?_, fun before line during after frame hat hframe => ?_,
    fun before line during after frame devices hat hframe => ?_⟩
  · obtain ⟨front', rfl, hrest⟩ := @past_quiet Step (fun e => e.call.isFire) _ _ _ _ _ hsplit
      (fun e he => (hquiet e he).2) rfl
    obtain ⟨mid, line, pre, post, after, rfl, rfl, hat⟩ := hrequests.fires rfl hrest
    have hat' := hat.prepend opening
    exact ⟨opening ++ mid, line, pre, post, after, (List.append_assoc ..).symm, rfl, hat',
      (hrequest hat').fires pre action pane fireArgs outcome post rfl⟩
  · exact (hrequest hat).answers frame hframe
  · exact (hrequest hat).ends frame devices hframe

/-- A trace before the first line, as its session knows it. -/
structure Opens (cache : Cache) (opening : List Step) : Prop where
  quiet : ∀ e ∈ opening, e.call.isNextLine = false ∧ e.call.isFire = false
  view : (readingOf opening).loaded = Session.view cache

theorem Opens.ends {opening : List Step} (h : Opens cache opening) : Opening decode id opening :=
  ⟨opening, [], (List.append_nil _).symm, h.quiet, .waiting⟩

/-- One call more before the first line. -/
theorem Opens.ask {opening : List Step} (h : Opens cache opening) {call : Call} {next : call.Answer → Script Exit}
    (hcall : call.isNextLine = false ∧ call.isFire = false ∧ call.readsStore = false)
    (hnext : ∀ answer, Opens cache (opening ++ [⟨call, answer⟩]) →
      Always (next answer) fun trace _ => Opening decode id ((opening ++ [⟨call, answer⟩]) ++ trace)) :
    Always (.ask call next) fun trace _ => Opening decode id (opening ++ trace) := by
  refine always_ask.mpr fun answer => ?_
  have hopens : Opens cache (opening ++ [⟨call, answer⟩]) := by
    refine ⟨fun e he => ?_, ?_⟩
    · rcases List.mem_append.mp he with he | he
      · exact h.quiet e he
      · rw [List.mem_singleton.mp he]
        exact ⟨hcall.1, hcall.2.1⟩
    · rw [readingOf_quiet fun e he => by rw [List.mem_singleton.mp he]; exact hcall.2.2]
      exact h.view
  refine (hnext answer hopens).mono fun trace _ hopening => ?_
  rw [List.append_assoc] at hopening
  exact hopening

theorem Opens.done {opening : List Step} (h : Opens cache opening) (exit : Exit) :
    Always (.done exit : Script Exit) fun trace _ => Opening decode id (opening ++ trace) := by
  refine always_done.mpr ?_
  rw [List.append_nil]
  exact h.ends

theorem Opens.refuse {opening : List Step} (h : Opens cache opening) (code : ErrorCode) (message : Text) (exit : Nat) :
    Always (refuse code message exit) fun trace _ => Opening decode id (opening ++ trace) :=
  h.ask ⟨rfl, rfl, rfl⟩ fun _ hsent => hsent.done (.code exit)

theorem loaded_spec (opts : ServeOpts) (device : Device) (lines : Nat) {opening : List Step} (h : Opens cache opening) :
    Always (loaded decode opts device cache lines) fun trace _ => Opening decode opts.device (opening ++ trace) := by
  refine h.ask ⟨rfl, rfl, rfl⟩ fun manifests hmanifests => ?_
  cases manifests with
  | error code => exact hmanifests.done _
  | ok =>
    refine hmanifests.ask ⟨rfl, rfl, rfl⟩ fun actions hactions => ?_
    cases actions with
    | error message => exact hactions.refuse _ _ _
    | ok actionSet =>
      refine hactions.ask ⟨rfl, rfl, rfl⟩ fun ledger hledger => ?_
      cases ledger with
      | error message => exact hledger.refuse _ _ _
      | ok =>
        refine hledger.ask ⟨rfl, rfl, rfl⟩ fun host horigin => ?_
        refine (requests_spec lines ⟨horigin.view, fun hgreeted => by cases hgreeted⟩).mono fun rest _ hrest => ?_
        exact ⟨_, rest, rfl, horigin.quiet, hrest⟩

theorem run_spec (decode : Text → Option RequestFrame) (opts : ServeOpts) (lines : Nat) :
    Always (run decode opts lines) fun trace _ => Opening decode opts.device trace := by
  have hnil : Opens {} [] := ⟨fun e he => absurd he List.not_mem_nil, rfl⟩
  unfold run
  split
  · exact hnil.done _
  · refine hnil.ask ⟨rfl, rfl, rfl⟩ fun store hstore => ?_
    cases store with
    | error message => exact hstore.refuse _ _ _
    | ok =>
      refine (cacheGet_spec {} opts.device).bind fun gets get hget => ?_
      have hopens : Opens get.2 ([⟨.openStore, .ok ()⟩] ++ gets) := by
        refine ⟨fun e he => ?_, hget.view hstore.view⟩
        rcases List.mem_append.mp he with he | he
        · exact hstore.quiet e he
        · have hplain := Call.of_readsStore (hget.readsStore e he)
          exact ⟨hplain.1, hplain.2.1⟩
      obtain ⟨result, cache⟩ := get
      refine Always.mono (P := fun trace _ => Opening decode opts.device (([⟨.openStore, .ok ()⟩] ++ gets) ++ trace)) ?_
        fun trace _ h => by rw [← List.append_assoc]; exact h
      cases result with
      | error message => exact hopens.refuse _ _ _
      | ok record =>
        cases record with
        | none => exact hopens.refuse _ _ _
        | some device =>
          refine hopens.ask ⟨rfl, rfl, rfl⟩ fun opened hopened => ?_
          cases opened with
          | full max => exact hopened.refuse _ _ _
          | io message => exact hopened.refuse _ _ _
          | ok => exact loaded_spec opts device lines hopened

/-- **Every fire of a session is authorised.** Whatever lines are read, and whatever the device store answers between
and during the requests: a fire follows an accepted hello, rests on the record that its own request's read of the store
answered with, on the scope, the payload and a claim of its own slot, is never forced, and is the only one of its
request, whose claim is then resolved once. Every line that parses is answered once, under its own id, and nothing
follows a request that found no record. -/
theorem session_authorised (decode : Text → Option RequestFrame) (opts : ServeOpts) (lines : Nat) :
    Always (run decode opts lines) fun trace _ => Authorised decode opts.device trace :=
  (run_spec decode opts lines).mono fun _ _ h => h.authorised

def approve : Act.ActionManifest where
  name := "approve".toList
  kind := .keys
  when := none
  agents := []
  requires := []
  detach := false
  timeoutMs := 0
  detachTimeoutMs := 0
  command := none
  keys := SortedMap.empty
  api := SortedMap.empty
  text := SortedMap.empty
  sigils := []
  hook := SortedMap.empty

/-- Two lines that parse: a hello, which names another device, and a dispatch. -/
def decodeLine (line : Text) : Option RequestFrame :=
  if line = ['h'] then some ⟨1, ['1'], .hello ⟨[], [], ['x']⟩⟩
  else if line = ['d'] then
    some ⟨1, ['2'], .dispatch ⟨['s'], [], ['p'], "approve".toList, ⟨0, none⟩, none, none, none⟩⟩
  else none

def phoneDevice : Device := ⟨['k'], ['p'], defaultScopes, 0⟩

/-- After a hello a dispatch is fired. -/
theorem session_fires : Sometimes (run decodeLine ⟨true, ['k'], 4, 250, []⟩ 2) fun trace _ =>
    (trace.filter fun e => e.call.isFire).length = 1 ∧ Authorised decodeLine ['k'] trace := by
  have hrun : Sometimes (run decodeLine ⟨true, ['k'], 4, 250, []⟩ 2) fun trace _ =>
      (trace.filter fun e => e.call.isFire).length = 1 := by
    refine sometimes_ask (show Call.Answer .openStore from .ok ()) ?_
    refine sometimes_ask (show Call.Answer .stat from .ok none) ?_
    refine sometimes_ask (show Call.Answer .load from .ok [phoneDevice]) ?_
    refine sometimes_ask (show Call.Answer (.openConnection _ _) from .ok) ?_
    refine sometimes_ask (show Call.Answer .loadManifests from .ok ()) ?_
    refine sometimes_ask (show Call.Answer .loadActions from .ok [approve]) ?_
    refine sometimes_ask (show Call.Answer .openLedger from .ok ()) ?_
    refine sometimes_ask (show Call.Answer .resolveOrigin from []) ?_
    refine sometimes_ask (show Call.Answer .nextLine from .ok (.line ['h'])) ?_
    refine sometimes_ask (show Call.Answer .stat from .ok none) ?_
    refine sometimes_ask (show Call.Answer (.send _ _) from .ok ()) ?_
    refine sometimes_ask (show Call.Answer .nextLine from .ok (.line ['d'])) ?_
    refine sometimes_ask (show Call.Answer .stat from .ok none) ?_
    refine sometimes_ask (show Call.Answer .nowMs from (0 : Nat)) ?_
    refine sometimes_ask (show Call.Answer (.claim _ _ _ _ _) from .ok (.claimed ⟨"s", 0, 0⟩)) ?_
    refine sometimes_ask (show Call.Answer (.fire _ _ _) from Act.Outcome.sent) ?_
    refine sometimes_ask (show Call.Answer (.write _ _) from .ok ()) ?_
    refine sometimes_ask (show Call.Answer (.send _ _) from .ok ()) ?_
    exact sometimes_done rfl
  obtain ⟨trace, exit, hrun, hfire⟩ := hrun
  exact ⟨trace, exit, hrun, hfire, session_authorised _ _ _ _ _ hrun⟩

end TmuxAgents.Serve.Session
