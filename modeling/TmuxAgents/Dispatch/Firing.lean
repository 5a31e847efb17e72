/-
An action fires only in the state it was declared for.

The gates are evaluated before the lock and again on a read taken under it, and it is this read
that an effect is made from (`Fires`). The order of the calls is the argument: `actSequence_fires`
says what every run of the broker exchanges, whatever its surroundings answer.
-/
import TmuxAgents.Dispatch.Broker

namespace TmuxAgents.Act

open Interaction PaneLock

/-! ## What a read admits -/

def PaneFacts.Has (facts : PaneFacts) : Requirement → Prop
  | .session => facts.session ≠ none
  | .cwd => facts.cwd ≠ []
  | .pid => facts.pid ≠ none
  | .title => facts.title ≠ []

/-- The id that an op's path is built from. -/
def ApiOp.target (op : ApiOp) (facts : PaneFacts) : Option Text :=
  match op with
  | .permissionReply => facts.permissionRequest
  | .questionReply | .questionReject => facts.questionRequest
  | .interrupt => facts.session

/-- The read of the pane shows all that the action and its caller ask for. -/
structure Admits (action : ActionManifest) (fireArgs : FireArgs) (agent : Text) (facts : PaneFacts) : Prop where
  identity : facts.agent = some agent
  applies : action.appliesTo agent = true
  state : fireArgs.force = true ∨ action.StateHolds (facts.gateInput agent)
  requires : ∀ r ∈ action.requires, facts.Has r
  api : ∀ transport, action.apiFor agent = some transport →
    (∃ endpoint, facts.apiEndpoint = some endpoint ∧ endpoint ≠ []) ∧
      ∃ target, transport.op.target facts = some target ∧ target ≠ []
  episode : ∀ want, fireArgs.expectEpisodeMs = some want → facts.episodeMs = want
  request : ∀ want, fireArgs.expectPermissionRequest = some want → facts.permissionRequest = some want

theorem has_iff {facts : PaneFacts} {r : Requirement} : facts.contextKeys.has r = true ↔ facts.Has r := by
  cases r <;> simp [PaneFacts.contextKeys, ContextKeys.has, PaneFacts.Has, Option.isSome_iff_ne_none]

theorem nonempty_isSome {value : Option Text} : (nonempty value).isSome = true ↔ ∃ s, value = some s ∧ s ≠ [] := by
  cases value <;> simp [nonempty]

theorem apiRequires_ready {action : ActionManifest} {facts : PaneFacts} {agent : Text}
    (h : apiRequiresRefusal action facts agent = none) {transport : ApiTransport}
    (htransport : action.apiFor agent = some transport) :
    (∃ endpoint, facts.apiEndpoint = some endpoint ∧ endpoint ≠ []) ∧
      ∃ target, transport.op.target facts = some target ∧ target ≠ [] := by
  obtain ⟨op, reply⟩ := transport
  rw [apiRequiresRefusal, htransport] at h
  have hboth : ((nonempty facts.apiEndpoint).isSome && (nonempty (op.target facts)).isSome) = true := by
    by_contra hnot
    rw [Bool.not_eq_true] at hnot
    cases op <;> simp_all [ApiOp.target]
  rw [Bool.and_eq_true, nonempty_isSome, nonempty_isSome] at hboth
  exact hboth

theorem binder_holds {facts : PaneFacts} {fireArgs : FireArgs} (h : binderRefusal facts fireArgs = none) :
    (∀ want, fireArgs.expectEpisodeMs = some want → facts.episodeMs = want) ∧
      ∀ want, fireArgs.expectPermissionRequest = some want → facts.permissionRequest = some want := by
  rw [binderRefusal] at h
  split at h
  · cases h
  · rename_i hepisode
    split at h
    · cases h
    · rename_i hrequest
      constructor
      · intro want hwant
        rw [hwant, Option.any_some, bne_iff_ne, not_not] at hepisode
        exact hepisode.symm
      · intro want hwant
        rw [hwant, Option.any_some, bne_iff_ne, not_not] at hrequest
        exact hrequest

/-- What the re-assertion under the lock lets through. -/
theorem admits_of_gates {action : ActionManifest} {fireArgs : FireArgs} {agent : Text} {facts : PaneFacts}
    (hagent : facts.agent = some agent) (happlies : action.appliesTo agent = true)
    (hgate : gateRefusal action facts agent fireArgs.force = none) (hbinder : binderRefusal facts fireArgs = none) :
    Admits action fireArgs agent facts := by
  obtain ⟨hepisode, hrequest⟩ := binder_holds hbinder
  rw [gateRefusal, Option.or_eq_none_iff] at hgate
  obtain ⟨hbase, hapi⟩ := hgate
  have hboth : (fireArgs.force = true ∨ action.StateHolds (facts.gateInput agent)) ∧
      ∀ r ∈ action.requires, facts.contextKeys.has r = true := by
    split at hbase
    · rename_i hforce
      refine ⟨.inl hforce, ?_⟩
      have hmet : facts.requiresMet action = true := by
        by_contra hnot
        simp [hnot] at hbase
      exact List.all_eq_true.mp hmet
    · cases hout : action.evaluateGate (facts.gateInput agent) with
      | refused reason => simp [hout] at hbase
      | fireable =>
        obtain ⟨-, hrequires, hstate⟩ := evaluateGate_iff.mp hout
        exact ⟨.inr hstate, hrequires⟩
  exact ⟨hagent, happlies, hboth.1, fun r hr => has_iff.mp (hboth.2 r hr),
    fun transport => apiRequires_ready hapi, hepisode, hrequest⟩

/-! ## What a run exchanges -/

abbrev Step := Exchange Call.Answer

/-- Keystrokes, an HTTP call, a hook verdict, or a process. -/
def Call.isEffect : Call → Bool
  | .sendKeys _ _ | .sendText _ _ _ _ | .apiCall _ _ _ _ | .writeHookVerdict _ _ | .spawnSupervisor _
  | .runExec _ _ _ => true
  | _ => false

/-- What takes or releases the lock, or reads the pane. -/
def Call.isFence : Call → Bool
  | .readPane _ | .acquire _ _ _ _ | .clear _ _ => true
  | _ => false

/-- An effect is made from the manifest, the caller's own inputs, and one read of the pane. -/
def Call.MadeFrom (action : ActionManifest) (pane : Text) (fireArgs : FireArgs) (agent : Text) (lock : LockValue)
    (facts : PaneFacts) : Call → Prop
  | .sendKeys target keys => target = pane ∧ action.kind = .keys ∧ keys = (action.keysFor agent).getD []
  | .sendText target before text after =>
    target = pane ∧ action.kind = .text ∧ text = fireArgs.text.getD [] ∧
      ∃ transport, action.textFor agent = some transport ∧ before = transport.before ∧ after = transport.after
  | .apiCall endpoint path body _ =>
    ∃ transport, action.apiFor agent = some transport ∧ facts.apiEndpoint = some endpoint ∧
      apiRequest transport facts fireArgs.answers = some (path, body)
  | .writeHookVerdict request verdict =>
    ∃ transport, action.hookFor agent = some transport ∧ request = facts.permissionRequest.getD [] ∧
      verdict = transport.verdict
  | .spawnSupervisor spec => action.detach = true ∧ spec = supervisorSpec action pane fireArgs agent lock facts
  | .runExec command env timeoutMs =>
    action.kind = .exec ∧ command = action.command.getD [] ∧
      env = assembleEnv action facts pane agent fireArgs.args ∧ timeoutMs = action.timeoutMs
  | _ => True

/-- What follows the read under the lock: at most one effect, made from the read. -/
structure Fires (action : ActionManifest) (pane : Text) (fireArgs : FireArgs) (agent : Text) (lock : LockValue)
    (facts : PaneFacts) (rest : List Step) : Prop where
  inside : ∀ e ∈ rest, e.call.isFence = false
  once : (rest.filter fun e => e.call.isEffect).length ≤ 1
  made : ∀ e ∈ rest, e.call.isEffect = true → e.call.MadeFrom action pane fireArgs agent lock facts

variable {action : ActionManifest} {pane : Text} {fireArgs : FireArgs} {agent : Text} {lock : LockValue}
  {facts : PaneFacts} {rest : List Step}

theorem Fires.nil : Fires action pane fireArgs agent lock facts [] :=
  ⟨fun _ he => absurd he List.not_mem_nil, Nat.zero_le 1, fun _ he => absurd he List.not_mem_nil⟩

/-- A call that is no effect. -/
theorem Fires.cons {e : Step} (h : Fires action pane fireArgs agent lock facts rest) (hfence : e.call.isFence = false)
    (heffect : e.call.isEffect = false) : Fires action pane fireArgs agent lock facts (e :: rest) := by
  refine ⟨?_, ?_, ?_⟩
  · intro s hs
    rcases List.mem_cons.mp hs with rfl | hs
    · exact hfence
    · exact h.inside s hs
  · rw [List.filter_cons_of_neg (by rw [heffect]; decide)]
    exact h.once
  · intro s hs hse
    rcases List.mem_cons.mp hs with rfl | hs
    · rw [heffect] at hse
      cases hse
    · exact h.made s hs hse

/-- The effect, where none follows. -/
theorem Fires.effect {e : Step} (h : Fires action pane fireArgs agent lock facts rest)
    (hnone : ∀ s ∈ rest, s.call.isEffect = false) (hfence : e.call.isFence = false)
    (hmade : e.call.MadeFrom action pane fireArgs agent lock facts) :
    Fires action pane fireArgs agent lock facts (e :: rest) := by
  have hrest : (rest.filter fun s => s.call.isEffect) = [] := by
    rw [List.filter_eq_nil_iff]
    intro s hs
    rw [hnone s hs]
    decide
  refine ⟨?_, ?_, ?_⟩
  · intro s hs
    rcases List.mem_cons.mp hs with rfl | hs
    · exact hfence
    · exact h.inside s hs
  · rw [List.filter_cons, hrest]
    split <;> simp
  · intro s hs hse
    rcases List.mem_cons.mp hs with rfl | hs
    · exact hmade
    · rw [hnone s hs] at hse
      cases hse

/-! ## The arms -/

theorem sendKeySequence_fires (hkind : action.kind = .keys) (observed : ActObserved) :
    Always (sendKeySequence action pane agent observed) fun rest _ =>
      Fires action pane fireArgs agent lock facts rest := by
  refine always_ask.mpr fun (answer : Except TmuxError Unit) => ?_
  have hfires : Fires action pane fireArgs agent lock facts
      [⟨.sendKeys pane ((action.keysFor agent).getD []), answer⟩] :=
    Fires.nil.effect (fun _ hs => absurd hs List.not_mem_nil) rfl ⟨rfl, hkind, rfl⟩
  cases answer <;> exact always_done.mpr hfires

theorem replyOverHook_fires (hkind : action.kind = .keys) {transport : HookTransport}
    (htransport : action.hookFor agent = some transport) (observed : ActObserved) :
    Always (replyOverHook action pane agent transport facts observed) fun rest _ =>
      Fires action pane fireArgs agent lock facts rest := by
  refine always_ask.mpr fun (pending : Bool) => ?_
  cases pending
  · have hkeys := @sendKeySequence_fires action pane fireArgs agent lock facts hkind observed
    refine hkeys.mono fun rest _ h => ?_
    exact h.cons rfl rfl
  · refine always_ask.mpr fun (answer : VerdictWrite) => ?_
    have hmade : (Call.writeHookVerdict (facts.permissionRequest.getD []) transport.verdict).MadeFrom action pane
        fireArgs agent lock facts := ⟨transport, htransport, rfl, rfl⟩
    cases answer with
    | written =>
      refine always_ask.mpr fun (answer : Unit) => ?_
      refine always_done.mpr (Fires.cons ?_ rfl rfl)
      refine (Fires.nil.cons rfl rfl).effect (fun s hs => ?_) rfl hmade
      rw [List.mem_singleton.mp hs]
      rfl
    | alreadyThere =>
      refine always_done.mpr (Fires.cons ?_ rfl rfl)
      exact Fires.nil.effect (fun _ hs => absurd hs List.not_mem_nil) rfl hmade
    | error message =>
      refine always_done.mpr (Fires.cons ?_ rfl rfl)
      exact Fires.nil.effect (fun _ hs => absurd hs List.not_mem_nil) rfl hmade

theorem replyOverApi_fires {transport : ApiTransport} (htransport : action.apiFor agent = some transport)
    (hadmits : Admits action fireArgs agent facts) (observed : ActObserved) :
    Always (replyOverApi action pane fireArgs transport facts observed) fun rest _ =>
      Fires action pane fireArgs agent lock facts rest := by
  rw [replyOverApi]
  cases hrequest : apiRequest transport facts fireArgs.answers with
  | none => exact always_done.mpr Fires.nil
  | some request =>
    obtain ⟨path, body⟩ := request
    refine always_ask.mpr fun (answer : HttpOutcome) => ?_
    obtain ⟨⟨endpoint, hendpoint, -⟩, -⟩ := hadmits.api transport htransport
    have hmade : (Call.apiCall (facts.apiEndpoint.getD []) path body action.timeoutMs).MadeFrom action pane fireArgs
        agent lock facts := by
      refine ⟨transport, htransport, ?_, hrequest⟩
      rw [hendpoint]
      rfl
    have halone : Fires action pane fireArgs agent lock facts
        [⟨.apiCall (facts.apiEndpoint.getD []) path body action.timeoutMs, answer⟩] :=
      Fires.nil.effect (fun _ hs => absurd hs List.not_mem_nil) rfl hmade
    cases answer with
    | notFound => exact always_done.mpr halone
    | error message => exact always_done.mpr halone
    | ok =>
      -- The id is spent after the answer, and clearing it is no effect.
      have hcleared : ∀ s : Step, s.call.isFence = false → s.call.isEffect = false →
          Fires action pane fireArgs agent lock facts
            [⟨.apiCall (facts.apiEndpoint.getD []) path body action.timeoutMs, HttpOutcome.ok⟩, s] := by
        intro s hfence heffect
        refine (Fires.nil.cons hfence heffect).effect (fun t ht => ?_) rfl hmade
        rw [List.mem_singleton.mp ht]
        exact heffect
      obtain ⟨op, reply⟩ := transport
      cases op with
      | permissionReply =>
        refine always_ask.mpr fun answer => always_done.mpr (hcleared _ rfl rfl)
      | questionReply =>
        refine always_ask.mpr fun answer => always_done.mpr (hcleared _ rfl rfl)
      | questionReject =>
        refine always_ask.mpr fun answer => always_done.mpr (hcleared _ rfl rfl)
      | interrupt => exact always_done.mpr halone

/-! ## Under the lock -/

/-- What a run exchanges under the lock: a read of the pane, and an effect only where the read admits it. -/
def Reasserted (action : ActionManifest) (pane : Text) (fireArgs : FireArgs) (agent : Text) (lock : LockValue)
    (section_ : List Step) : Prop :=
  ∃ (answer : Except TmuxError (Option PaneFacts)) (rest : List Step), section_ = ⟨.readPane pane, answer⟩ :: rest ∧
    (rest = [] ∨ ∃ facts, answer = .ok (some facts) ∧ Admits action fireArgs agent facts ∧
      Fires action pane fireArgs agent lock facts rest)

theorem reasserting_spec {observed : ActObserved} {fire : PaneFacts → ActObserved → Script}
    (hfire : ∀ facts observed, Admits action fireArgs agent facts →
      Always (fire facts observed) fun rest _ => Fires action pane fireArgs agent lock facts rest) :
    Always (reasserting action pane fireArgs agent observed fire) fun section_ _ =>
      Reasserted action pane fireArgs agent lock section_ := by
  refine always_ask.mpr fun (answer : Except TmuxError (Option PaneFacts)) => ?_
  have hstopped : Reasserted action pane fireArgs agent lock [⟨.readPane pane, answer⟩] := ⟨answer, [], rfl, .inl rfl⟩
  cases answer with
  | error e => exact always_done.mpr hstopped
  | ok found =>
    cases found with
    | none => exact always_done.mpr hstopped
    | some facts =>
      dsimp only
      split
      · exact always_done.mpr hstopped
      · rename_i hidentity
        rw [not_or, not_not, Bool.not_eq_false] at hidentity
        cases hgate : gateRefusal action facts agent fireArgs.force with
        | some refusal => exact always_done.mpr hstopped
        | none =>
          cases hbinder : binderRefusal facts fireArgs with
          | some refusal => exact always_done.mpr hstopped
          | none =>
            have hadmits := admits_of_gates hidentity.1 hidentity.2 hgate hbinder
            refine always_ask.mpr fun (answer : Unit) => ?_
            refine (hfire facts _ hadmits).mono fun rest _ h => ?_
            exact ⟨_, _, rfl, .inr ⟨facts, rfl, hadmits, h.cons rfl rfl⟩⟩

theorem actUnderLock_spec (observed : ActObserved) :
    Always (actUnderLock action pane fireArgs agent observed) fun section_ _ =>
      Reasserted action pane fireArgs agent lock section_ := by
  refine reasserting_spec fun facts observed hadmits => ?_
  cases hkind : action.kind with
  | keys =>
    dsimp only
    cases hapi : action.apiFor agent with
    | some transport => exact replyOverApi_fires hapi hadmits observed
    | none =>
      cases hhook : action.hookFor agent with
      | some transport => exact replyOverHook_fires hkind hhook observed
      | none => exact sendKeySequence_fires hkind observed
  | text =>
    dsimp only
    cases htext : action.textFor agent with
    | none => exact always_done.mpr Fires.nil
    | some transport =>
      refine always_ask.mpr fun (answer : Except TmuxError Unit) => ?_
      have hfires : Fires action pane fireArgs agent lock facts
          [⟨.sendText pane transport.before (fireArgs.text.getD []) transport.after, answer⟩] :=
        Fires.nil.effect (fun _ hs => absurd hs List.not_mem_nil) rfl ⟨rfl, hkind, rfl, transport, htext, rfl, rfl⟩
      cases answer <;> exact always_done.mpr hfires
  | exec =>
    dsimp only
    refine always_ask.mpr fun (answer : ExecOutcome) => ?_
    have hfires : Fires action pane fireArgs agent lock facts
        [⟨.runExec (action.command.getD []) (assembleEnv action facts pane agent fireArgs.args) action.timeoutMs,
          answer⟩] :=
      Fires.nil.effect (fun _ hs => absurd hs List.not_mem_nil) rfl ⟨hkind, rfl, rfl, rfl⟩
    cases answer <;> exact always_done.mpr hfires

/-- A supervisor that was launched holds the lock. -/
def handed (lock : LockValue) (e : Step) : Prop :=
  ∃ spec, e = ⟨.spawnSupervisor spec, Except.ok ()⟩ ∧ spec.nonce = lock.nonce

theorem spawnDetached_spec (hdetach : action.detach = true) (observed : ActObserved) :
    Always (spawnDetachedUnderLock action pane fireArgs agent lock observed) fun section_ _ =>
      Reasserted action pane fireArgs agent lock section_ := by
  refine reasserting_spec fun facts observed _ => ?_
  refine always_ask.mpr fun (answer : Except Text Unit) => ?_
  have hfires : Fires action pane fireArgs agent lock facts
      [⟨.spawnSupervisor (supervisorSpec action pane fireArgs agent lock facts), answer⟩] :=
    Fires.nil.effect (fun _ hs => absurd hs List.not_mem_nil) rfl ⟨hdetach, rfl⟩
  cases answer <;> exact always_done.mpr hfires

/-- `Spawned` is answered only behind a launched supervisor. -/
theorem spawnDetached_handed (observed : ActObserved) :
    Always (spawnDetachedUnderLock action pane fireArgs agent lock observed) fun section_ result =>
      result.1 = .spawned → ∃ e, section_.getLast? = some e ∧ handed lock e := by
  have hio : ∀ e, ioError e ≠ .spawned := by
    intro e
    cases e with
    | paneGone message => exact fun h => by cases h
    | failed stderr message =>
      rw [ioError]
      split <;> exact fun h => by cases h
    | other message => exact fun h => by cases h
  refine always_ask.mpr fun (answer : Except TmuxError (Option PaneFacts)) => ?_
  cases answer with
  | error e => exact always_done.mpr fun h => absurd h (hio e)
  | ok found =>
    cases found with
    | none => exact always_done.mpr fun h => by cases h
    | some facts =>
      dsimp only
      split
      · exact always_done.mpr fun h => by cases h
      · split
        · exact always_done.mpr fun h => by cases h
        · split
          · exact always_done.mpr fun h => by cases h
          · refine always_ask.mpr fun (_ : Unit) => ?_
            refine always_ask.mpr fun (answer : Except Text Unit) => ?_
            cases answer with
            | ok launched => exact always_done.mpr fun _ => ⟨_, rfl, _, rfl, rfl⟩
            | error message => exact always_done.mpr fun h => by cases h

/-! ## The whole run -/

/-- A call before the lock is taken, or without it. -/
def Outside (e : Step) : Prop :=
  e.call.isEffect = false ∧ (∀ pane nonce, e.call ≠ .clear pane nonce) ∧
    ∀ pane now expiry name lock, e ≠ ⟨.acquire pane now expiry name, Except.ok (.acquired lock)⟩

/-- How the lock goes: it is cleared with its own nonce, or a launched supervisor has it. -/
def Released (pane : Text) (lock : LockValue) (section_ release : List Step) (outcome : Outcome) : Prop :=
  (∃ answer, release = [⟨.clear pane lock.nonce, answer⟩]) ∨
    (release = [] ∧ outcome = .spawned ∧ ∃ e, section_.getLast? = some e ∧ handed lock e)

/-- What a whole run exchanges: only calls outside the lock, or these, the acquired lock, what is re-asserted and made
under it, and its release. -/
def Fired (action : ActionManifest) (pane : Text) (fireArgs : FireArgs) (trace : List Step) (outcome : Outcome) :
    Prop :=
  (∀ e ∈ trace, Outside e) ∨
    ∃ agent before now expiry lock section_ release,
      trace = before ++ ⟨.acquire pane now expiry action.name, Except.ok (.acquired lock)⟩ :: (section_ ++ release) ∧
      (∀ e ∈ before, Outside e) ∧
      (∃ facts, ⟨.readPane pane, Except.ok (some facts)⟩ ∈ before ∧ facts.agent = some agent) ∧
      Reasserted action pane fireArgs agent lock section_ ∧ Released pane lock section_ release outcome

theorem Fired.cons {trace : List Step} {outcome : Outcome} (h : Fired action pane fireArgs trace outcome) {e : Step}
    (he : Outside e) : Fired action pane fireArgs (e :: trace) outcome := by
  rcases h with h | ⟨agent, before, now, expiry, lock, section_, release, rfl, hbefore, hread, hrest⟩
  · refine .inl fun s hs => ?_
    rcases List.mem_cons.mp hs with rfl | hs
    · exact he
    · exact h s hs
  · obtain ⟨facts, hmem, hagent⟩ := hread
    refine .inr ⟨agent, e :: before, now, expiry, lock, section_, release, rfl, fun s hs => ?_,
      ⟨facts, List.mem_cons_of_mem _ hmem, hagent⟩, hrest⟩
    rcases List.mem_cons.mp hs with rfl | hs
    · exact he
    · exact hbefore s hs

theorem holding_spec (observed : ActObserved) :
    Always (holding action pane fireArgs agent lock observed) fun trace result =>
      ∃ section_ release, trace = section_ ++ release ∧ Reasserted action pane fireArgs agent lock section_ ∧
        Released pane lock section_ release result.1 := by
  rw [holding]
  split
  · rename_i hdetach
    have hspec := @spawnDetached_spec action pane fireArgs agent lock hdetach observed
    refine (hspec.and (spawnDetached_handed observed)).bind fun section_ result h => ?_
    split
    · rename_i hspawned
      refine always_done.mpr ⟨section_, [], rfl, h.1, .inr ⟨rfl, hspawned, h.2 hspawned⟩⟩
    · exact always_ask.mpr fun answer => always_done.mpr ⟨section_, _, rfl, h.1, .inl ⟨answer, rfl⟩⟩
  · have hspec := @actUnderLock_spec action pane fireArgs agent lock observed
    refine hspec.bind fun section_ result h => ?_
    exact always_ask.mpr fun answer => always_done.mpr ⟨section_, _, rfl, h, .inl ⟨answer, rfl⟩⟩

/-- From the gate on, behind a read that named the agent. -/
theorem gating_spec {now : Nat} {read : PaneFacts} (observed : ActObserved) :
    Always (gating action pane fireArgs now agent read observed) fun trace result =>
      (∀ e ∈ trace, Outside e) ∨ ∃ now expiry lock section_ release,
        trace = ⟨.acquire pane now expiry action.name, Except.ok (.acquired lock)⟩ :: (section_ ++ release) ∧
        Reasserted action pane fireArgs agent lock section_ ∧ Released pane lock section_ release result.1 := by
  rw [gating]
  split
  · exact always_done.mpr (.inl fun _ he => absurd he List.not_mem_nil)
  · refine always_ask.mpr fun (answer : Except LockError Acquire) => ?_
    have hrefused : (∀ lock, answer ≠ .ok (.acquired lock)) → ∀ e ∈ ([⟨.acquire pane now (saturatingAdd
        (saturatingAdd now (if action.detach then action.detachTimeoutMs else action.timeoutMs)) slackMs) action.name,
        answer⟩] : List Step), Outside e := by
      intro hanswer e he
      rw [List.mem_singleton] at he
      subst he
      refine ⟨rfl, ?_, ?_⟩
      · intro pane' nonce h
        cases h
      · intro pane' now' expiry' name' lock h
        cases h
        exact hanswer lock rfl
    cases answer with
    | error e =>
      cases e with
      | tmux e => exact always_done.mpr (.inl (hrefused fun _ h => by cases h))
      | rng message => exact always_done.mpr (.inl (hrefused fun _ h => by cases h))
    | ok acquired =>
      cases acquired with
      | contended => exact always_done.mpr (.inl (hrefused fun _ h => by cases h))
      | acquired lock =>
        refine (holding_spec observed).mono fun trace result h => ?_
        obtain ⟨section_, release, rfl, hsection, hrelease⟩ := h
        exact .inr ⟨_, _, lock, section_, release, rfl, hsection, hrelease⟩

theorem outside_plain {call : Call} {answer : call.Answer} (heffect : call.isEffect = false)
    (hfence : ∀ pane nonce, call ≠ .clear pane nonce) (hacquire : ∀ pane now expiry name, call ≠ .acquire pane now expiry name) :
    Outside ⟨call, answer⟩ := by
  refine ⟨heffect, hfence, fun pane now expiry name lock h => ?_⟩
  exact hacquire pane now expiry name (congrArg Exchange.call h)

theorem outside_read {answer : Except TmuxError (Option PaneFacts)} : Outside ⟨.readPane pane, answer⟩ :=
  outside_plain rfl (fun _ _ h => by cases h) fun _ _ _ _ h => by cases h

/-- The gate behind a read: the read is a call before the lock. -/
theorem fired_of_gating {trace : List Step} {outcome : Outcome} {before : List Step} (hbefore : ∀ e ∈ before, Outside e)
    {read : PaneFacts} (hread : ⟨.readPane pane, Except.ok (some read)⟩ ∈ before) (hagent : read.agent = some agent)
    (h : (∀ e ∈ trace, Outside e) ∨ ∃ now expiry lock section_ release,
        trace = ⟨.acquire pane now expiry action.name, Except.ok (.acquired lock)⟩ :: (section_ ++ release) ∧
        Reasserted action pane fireArgs agent lock section_ ∧ Released pane lock section_ release outcome) :
    Fired action pane fireArgs (before ++ trace) outcome := by
  rcases h with h | ⟨now, expiry, lock, section_, release, rfl, hsection, hrelease⟩
  · refine .inl fun e he => ?_
    rcases List.mem_append.mp he with he | he
    · exact hbefore e he
    · exact h e he
  · exact .inr ⟨agent, before, now, expiry, lock, section_, release, rfl, hbefore, ⟨read, hread, hagent⟩, hsection,
      hrelease⟩

/-- The payload rules hold, or nothing is called. -/
def PayloadChecked (action : ActionManifest) (fireArgs : FireArgs) (trace : List Step) : Prop :=
  trace ≠ [] → (action.kind = .text → action.Sendable (fireArgs.text.getD [])) ∧
    needsAnswers action fireArgs.answers = false

/-- The effects of a run. -/
def effects (trace : List Step) : List Step := trace.filter fun e => e.call.isEffect

theorem effects_nil_of_outside {trace : List Step} (h : ∀ e ∈ trace, Outside e) : effects trace = [] := by
  rw [effects, List.filter_eq_nil_iff]
  intro e he
  rw [(h e he).1]
  decide

theorem Fired.once {trace : List Step} {outcome : Outcome} (h : Fired action pane fireArgs trace outcome) :
    (effects trace).length ≤ 1 := by
  rcases h with h | ⟨agent, before, now, expiry, lock, section_, release, rfl, hbefore, -, hsection, hrelease⟩
  · rw [effects_nil_of_outside h]
    exact Nat.zero_le 1
  · have hreleased : effects release = [] := by
      rcases hrelease with ⟨answer, rfl⟩ | ⟨rfl, -, -⟩ <;> rfl
    have hacquired : effects (before ++ ⟨.acquire pane now expiry action.name, Except.ok (.acquired lock)⟩ ::
        (section_ ++ release)) = effects section_ := by
      have hnone := effects_nil_of_outside hbefore
      rw [effects] at hnone hreleased
      rw [effects, List.filter_append, hnone, List.nil_append, List.filter_cons_of_neg Bool.false_ne_true,
        List.filter_append, hreleased, List.append_nil]
      rfl
    rw [hacquired]
    obtain ⟨answer, rest, rfl, rfl | ⟨facts, -, -, hfires⟩⟩ := hsection
    · exact Nat.zero_le 1
    · rw [effects, List.filter_cons_of_neg Bool.false_ne_true]
      exact hfires.once

theorem actSequence_fired (action : ActionManifest) (pane : Text) (fireArgs : FireArgs) (observed : ActObserved) :
    Always (actSequence action pane fireArgs observed) fun trace result =>
      PayloadChecked action fireArgs trace ∧ Fired action pane fireArgs trace result.1 := by
  have hstop : ∀ result : Outcome × ActObserved, Always (.done result : Script) fun trace result =>
      PayloadChecked action fireArgs trace ∧ Fired action pane fireArgs trace result.1 := by
    intro result
    exact always_done.mpr ⟨fun h => absurd rfl h, .inl fun _ he => absurd he List.not_mem_nil⟩
  rw [actSequence]
  split
  · exact hstop _
  · rename_i hpayload
    split
    · exact hstop _
    · rename_i hanswers
      rw [Bool.not_eq_true] at hanswers
      have hsendable : action.kind = .text → action.Sendable (fireArgs.text.getD []) := by
        intro hkind
        rw [if_pos hkind] at hpayload
        exact checkText_iff.mp hpayload
      refine Always.mono ?_ fun trace result h => ⟨fun _ => ⟨hsendable, hanswers⟩, h⟩
      refine always_ask.mpr fun (now : Nat) => ?_
      have hnow : Outside ⟨.nowMs, now⟩ := outside_plain rfl (fun _ _ h => by cases h) fun _ _ _ _ h => by cases h
      refine Always.mono ?_ fun trace result h => Fired.cons h hnow
      refine always_ask.mpr fun (answer : Except TmuxError (Option PaneFacts)) => ?_
      have hended : ∀ result : Outcome × ActObserved, Fired action pane fireArgs [⟨.readPane pane, answer⟩] result.1 := by
        intro result
        refine .inl fun e he => ?_
        rw [List.mem_singleton.mp he]
        exact outside_read
      cases answer with
      | error e => exact always_done.mpr (hended (ioError e, observed))
      | ok found =>
        cases found with
        | none => exact always_done.mpr (hended (.vanished .pane, observed))
        | some read =>
          dsimp only
          cases hagent : read.agent.filter action.appliesTo with
          | none => exact always_done.mpr (hended (.refused (.gate .wrongAgent), observed))
          | some agent =>
            have hread : read.agent = some agent := (Option.filter_eq_some_iff.mp hagent).1
            dsimp only
            have hfirst : ∀ e ∈ ([⟨.readPane pane, .ok (some read)⟩] : List Step), Outside e := by
              intro e he
              rw [List.mem_singleton.mp he]
              exact outside_read
            split
            · -- A stale stamp is re-verified, and the pane read again, before the gate.
              refine always_ask.mpr fun (verified : Except TmuxError Unit) => ?_
              have hreverify : Outside ⟨.reverify pane, verified⟩ :=
                outside_plain rfl (fun _ _ h => by cases h) fun _ _ _ _ h => by cases h
              have hsecond : ∀ answer : Except TmuxError (Option PaneFacts), ∀ e ∈ ([⟨.readPane pane, .ok (some read)⟩,
                  ⟨.reverify pane, verified⟩, ⟨.readPane pane, answer⟩] : List Step), Outside e := by
                intro answer e he
                simp only [List.mem_cons, List.not_mem_nil, or_false] at he
                rcases he with rfl | rfl | rfl
                · exact outside_read
                · exact hreverify
                · exact outside_read
              cases verified with
              | error e =>
                refine always_done.mpr (.inl fun s hs => hsecond (.ok none) s ?_)
                exact List.mem_append_left [⟨.readPane pane, .ok none⟩] hs
              | ok done =>
                refine always_ask.mpr fun (answer : Except TmuxError (Option PaneFacts)) => ?_
                cases answer with
                | error e => exact always_done.mpr (.inl (hsecond _))
                | ok found =>
                  cases found with
                  | none => exact always_done.mpr (.inl (hsecond _))
                  | some again =>
                    refine (gating_spec _).mono fun trace result h => ?_
                    exact fired_of_gating (hsecond _) List.mem_cons_self hread h
            · refine (gating_spec _).mono fun trace result h => ?_
              exact fired_of_gating hfirst List.mem_cons_self hread h

/-- **Gated actions fire only in the state they were declared for.** Whatever the surroundings answer, the pane's reads
before and after the lock included: nothing is called before the payload rules hold, at most one effect is made, only
behind a read under the acquired lock that admits it and from that read, and the lock is then cleared with its own
nonce, or a launched supervisor has it. -/
theorem actSequence_fires (action : ActionManifest) (pane : Text) (fireArgs : FireArgs) (observed : ActObserved) :
    Always (actSequence action pane fireArgs observed) fun trace result =>
      PayloadChecked action fireArgs trace ∧ Fired action pane fireArgs trace result.1 ∧ (effects trace).length ≤ 1 := by
  have hfired : Always (actSequence action pane fireArgs observed) fun trace result =>
      PayloadChecked action fireArgs trace ∧ Fired action pane fireArgs trace result.1 :=
    actSequence_fired action pane fireArgs observed
  exact hfired.mono fun trace result h => ⟨h.1, h.2, h.2.once⟩

end TmuxAgents.Act
