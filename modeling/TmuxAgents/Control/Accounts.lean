/-
The accounts over whole runs: no method ever panics, the counters agree with
the contents, and the allowance is kept.

`exec_invariant` is the rule every later module uses: an invariant of the steps
(`Micro`) and of a drain is an invariant of every run.
-/
import TmuxAgents.Control.Steps

namespace TmuxAgents

open Checked

namespace Collector

theorem Sound.drain {c : Collector} (h : Sound c) : Sound c.drain.2 := by
  obtain ⟨hb, hallowance⟩ := h
  refine ⟨⟨rfl, ?_, fun e he => (by cases he), Nat.zero_le _, Nat.zero_le _⟩, ?_⟩
  · change c.candidateBytes = _
    rw [hb.candidates]
    change _ = ((c.panes.mapValues _).values.map _).sum
    rw [SortedMap.values_mapValues, List.map_map]
    rfl
  · change 0 + c.candidateBytes ≤ c.payloadBudget
    unfold pendingBytes at hallowance
    omega

theorem sound_withEpoch (epoch : Nat) : Sound (withEpoch epoch) :=
  ⟨⟨rfl, rfl, fun e he => (by cases he), Nat.zero_le _, Nat.zero_le _⟩, Nat.zero_le _⟩

theorem Sound.setPayloadBudget {c : Collector} (h : Sound c) (available : Nat) :
    Returns (c.setPayloadBudget available) fun c' => Sound c' ∧ Quiet { c with payloadBudget := available } c' := by
  refine (setPayloadBudget_steps h.books available).mono fun c' h' => ?_
  obtain ⟨hb, -, hbudget⟩ := h'.1.steps.books (h.books.setBudget available)
  exact ⟨⟨hb, hbudget ▸ h'.2⟩, h'.1⟩

/-- More fuel does not change what the budget's loop returns. -/
theorem evictPanes_of_le {available fuel fuel' : Nat} {c c' : Collector}
    (h : evictPanes available fuel c = some c') (hle : fuel ≤ fuel') : evictPanes available fuel' c = some c' := by
  induction hle with
  | refl => exact h
  | step _ ih => exact evictPanes_fuel available ih

variable [Base64]

/-- What a method does. -/
inductive Acts (c : Collector) : CollectorOp → List ProgramDrain × Collector → Prop
  | drain : Acts c .drain ([c.drain.1], c.drain.2)
  | budget {available : Nat} {c' : Collector} (h : Quiet { c with payloadBudget := available } c') :
    Acts c (.setPayloadBudget available) ([], c')
  | heard {session : SessionId} {client : Nat} {item : Decoded} {c' : Collector}
    (h : Heard c session client item c') : Acts c (.decoded session client item) ([], c')
  | managed {op : CollectorOp} {c' : Collector} (h : Managed c c')
    (hitem : ∀ session client item, op ≠ .decoded session client item) (hdrain : op ≠ .drain) : Acts c op ([], c')

/-- An item of the control stream keeps the accounts. -/
theorem Sound.heard {c c' : Collector} (h : Sound c) {session : SessionId} {client : Nat} {item : Decoded}
    (hheard : Heard c session client item c') : Micros c c' ∧ Sound c' := by
  cases hheard with
  | nothing _ _ => exact ⟨.refl, h⟩
  | managed hm _ => exact ⟨hm.steps.micros, h.admins hm.steps⟩
  | byte ha hp hfed => exact h.fed (accepts_eq_some.mp ha).2.1 hfed
  | @ended pane stream ha hq =>
    have hs := (accepts_eq_some.mp ha).2.1
    have hmicro : Micro c (c.rescanned pane stream
      { stream with scanner := stream.scanner.boundary, quarantine := false }) := .rescan hs rfl
    refine ⟨.single hmicro, hmicro.books h.books, ?_⟩
    have hzero : stream.scanner.boundary.pendingBytes = 0 := Scanner.pendingBytes_of_candidate (by simp)
    have hallowance := h.allowance
    change c.queuedBytes + (c.candidateBytes - stream.scanner.pendingBytes + stream.scanner.boundary.pendingBytes) ≤
      c.payloadBudget
    unfold pendingBytes at hallowance
    omega

/-- **No method panics**, and every method keeps the accounts. -/
theorem Sound.step {c : Collector} (h : Sound c) (op : CollectorOp) :
    Returns (c.step op) fun result => Sound result.2 ∧ Acts c op result := by
  have hmanaged : ∀ {op : CollectorOp} {x : Option Collector}, Returns x (Managed c) →
      (∀ session client item, op ≠ .decoded session client item) → op ≠ .drain →
      Returns (x.map fun c => (([] : List ProgramDrain), c)) fun result => Sound result.2 ∧ Acts c op result := by
    rintro op x ⟨c', rfl, hm⟩ hitem hdrain
    exact ⟨_, rfl, h.admins hm.steps, .managed hm hitem hdrain⟩
  cases op with
  | reconcile topology clients =>
    exact hmanaged (reconcile_steps h.books topology clients) (fun _ _ _ => nofun) nofun
  | topologyFailed => exact hmanaged (topologyFailed_steps h.books) (fun _ _ _ => nofun) nofun
  | clientGap session reason => exact hmanaged (clientGap_steps h.books session reason) (fun _ _ _ => nofun) nofun
  | invalidate pane reason lost =>
    exact hmanaged ((invalidate_quiet h.books pane reason lost).mono fun _ hq => hq.1.toManaged)
      (fun _ _ _ => nofun) nofun
  | boundary pane inPayload =>
    obtain ⟨result, heq, hm⟩ := boundary_steps h.books pane inPayload
    refine ⟨([], result.2), ?_, h.admins hm.steps, .managed hm (fun _ _ _ => nofun) nofun⟩
    simp only [Collector.step, heq, Option.map_some]
  | decoded session client item =>
    obtain ⟨c', heq, hheard⟩ := decoded_heard h.books session client item
    exact ⟨([], c'), by simp only [Collector.step, heq, Option.map_some], (h.heard hheard).2, .heard hheard⟩
  | setPayloadBudget available =>
    obtain ⟨c', heq, hs, hquiet⟩ := h.setPayloadBudget available
    exact ⟨([], c'), by simp only [Collector.step, heq, Option.map_some], hs, .budget hquiet⟩
  | drain => exact ⟨_, rfl, h.drain, .drain⟩

/-- A method that does not drain takes steps. -/
theorem Acts.micros {c : Collector} (h : Sound c) {op : CollectorOp} {result : List ProgramDrain × Collector}
    (hacts : Acts c op result) :
    result = ([c.drain.1], c.drain.2) ∨ result.1 = [] ∧ Micros c result.2 := by
  cases hacts with
  | drain => exact .inl rfl
  | budget hquiet => exact .inr ⟨rfl, .head (.budget _) hquiet.steps.micros⟩
  | heard hheard => exact .inr ⟨rfl, (h.heard hheard).1⟩
  | managed hm _ _ => exact .inr ⟨rfl, hm.steps.micros⟩

/-- What a method does to one pane. -/
inductive PaneActs (pane : PaneId) (c : Collector) : CollectorOp → List ProgramDrain × Collector → Prop
  | drain : PaneActs pane c .drain ([c.drain.1], c.drain.2)
  | turn {op : CollectorOp} {c' : Collector} (h : Turn pane c c')
    (hfed : ∀ session client byte stream, op = .decoded session client (.byte pane byte) →
      c.accepts session client pane = some stream → stream.paused = true) : PaneActs pane c op ([], c')
  | byte {session : SessionId} {client : Nat} {byte : UInt8} {stream : PaneStream} {c' : Collector}
    (ha : c.accepts session client pane = some stream) (hp : stream.paused = false)
    (h : Fed c pane stream byte c') : PaneActs pane c (.decoded session client (.byte pane byte)) ([], c')
  | ended {session : SessionId} {client : Nat} {stream : PaneStream}
    (ha : c.accepts session client pane = some stream) (hq : stream.quarantine = true) :
    PaneActs pane c (.decoded session client (.end_ pane))
      ([], c.rescanned pane stream { stream with scanner := stream.scanner.boundary, quarantine := false })

/-- A byte of one pane is a turn of the others. -/
theorem Fed.turn {c c' : Collector} {pane q : PaneId} {stream : PaneStream} {byte : UInt8}
    (h : Fed c pane stream byte c') (hq : q ≠ pane) : Turn q c c' := by
  have hfed : ∀ scanner, Turn q c (c.fedTo pane stream scanner) := fun scanner =>
    ⟨Nat.le_refl _, List.prefix_refl _, .inl (kept_rescanned hq)⟩
  cases h with
  | quarantined hq => exact hfed _
  | silent hq hnone hroom => exact hfed _
  | emitted hquarantine hsome hroom =>
    exact (hfed _).trans ⟨Nat.le_refl _, List.prefix_refl _, .inl (kept_pushed hq)⟩
  | lost hquarantine overflows reason hroom =>
    have hflag : Turn q (c.fedTo pane stream (stream.scanner.feed byte).2)
        { c.fedTo pane stream (stream.scanner.feed byte).2 with overflows } :=
      ⟨Nat.le_refl _, List.prefix_refl _, .inl ⟨rfl, rfl, rfl, id⟩⟩
    refine ((hfed _).trans hflag).trans (turn_renewed ?_ q)
    exact renews_invalidated pane c.epoch reason false _

theorem Acts.of_pane {c : Collector} {op : CollectorOp} {result : List ProgramDrain × Collector}
    (h : Acts c op result) (pane : PaneId) : PaneActs pane c op result := by
  cases h with
  | drain => exact .drain
  | @budget available c' hquiet =>
    have hkept : Turn pane c { c with payloadBudget := available } :=
      ⟨Nat.le_refl _, List.prefix_refl _, .inl ⟨rfl, rfl, rfl, id⟩⟩
    exact .turn (hkept.trans (hquiet.turns pane)) fun _ _ _ _ => nofun
  | managed hm hitem hdrain => exact .turn (hm.turns pane) fun _ _ _ _ heq => absurd heq (hitem _ _ _)
  | heard hheard =>
    cases hheard with
    | nothing item hitem =>
      refine .turn (.refl pane c) fun session client byte stream heq ha => ?_
      cases heq
      exact hitem pane byte stream rfl ha
    | managed hm hitem =>
      refine .turn (hm.turns pane) fun session client byte stream heq _ => ?_
      cases heq
      exact absurd rfl (hitem pane byte)
    | @byte q byte stream c' ha hp hfed =>
      by_cases hq : pane = q
      · subst hq
        exact .byte ha hp hfed
      · refine .turn (hfed.turn hq) fun session client byte stream heq _ => ?_
        cases heq
        exact absurd rfl hq
    | @ended q stream ha hquarantine =>
      by_cases hq : pane = q
      · subst hq
        exact .ended ha hquarantine
      · exact .turn ⟨Nat.le_refl _, List.prefix_refl _, .inl (kept_rescanned hq)⟩ fun _ _ _ _ => nofun

/-- Every run returns. -/
theorem Sound.exec {c : Collector} (h : Sound c) (ops : List CollectorOp) :
    ∃ drains c', c.exec ops = some (drains, c') ∧ Sound c' :=
  Run.exec_total Sound (fun c op h => by
    obtain ⟨⟨out, c'⟩, heq, hs, -⟩ := h.step op
    exact ⟨out, c', heq, hs⟩) h ops

/-- An invariant of steps and drains holds after every run. -/
theorem exec_invariant (I : List ProgramDrain → Collector → Prop)
    (hmicro : ∀ drains c c', Books c → I drains c → Micro c c' → I drains c')
    (hdrain : ∀ drains c, Books c → I drains c → I (drains ++ [c.drain.1]) c.drain.2) {c : Collector}
    (hc : Sound c) (h : I [] c) {ops : List CollectorOp} {drains : List ProgramDrain} {c' : Collector}
    (he : c.exec ops = some (drains, c')) : Sound c' ∧ I drains c' := by
  have hmicros : ∀ drains c c', Books c → I drains c → Micros c c' → I drains c' := by
    intro drains c c' hb hI hsteps
    have : Books c' ∧ I drains c' := by
      induction hsteps with
      | refl => exact ⟨hb, hI⟩
      | tail _ hstep ih => exact ⟨hstep.books ih.1, hmicro _ _ _ ih.1 ih.2 hstep⟩
    exact this.2
  refine List.nil_append drains ▸ Run.exec_invariant (fun drains c => Sound c ∧ I drains c) ?_ ⟨hc, h⟩ he
  intro drains c op out c' ⟨hs, hI⟩ hstep
  obtain ⟨hs', hacts⟩ := (hs.step op).of_eq hstep
  refine ⟨hs', ?_⟩
  rcases hacts.micros hs with heq | ⟨hnil, hsteps⟩
  · cases heq
    exact hdrain drains c hs.books hI
  · cases hnil
    rw [List.append_nil]
    exact hmicros drains c c' hs.books hI hsteps

/-- **Byte accounting.** Every run returns; after it the counters are the sums of what is
queued and scanned, every queued event is its pane's current epoch's, caps and allowance are
kept, and the loop of a new budget ends, by any fuel above the pending bytes, within it. -/
theorem accounts_agree (epoch : Nat) (ops : List CollectorOp) :
    ∃ drains c, (withEpoch epoch).exec ops = some (drains, c) ∧
      c.queuedBytes = (c.queue.map fun event => payloadBytes event.event).sum ∧
      c.candidateBytes = (c.panes.values.map fun stream => stream.scanner.pendingBytes).sum ∧
      (∀ event ∈ c.queue, ∃ stream, c.panes.get? event.pane = some stream ∧ event.connection = stream.epoch) ∧
      c.queue.length ≤ maxProgramEvents ∧ c.queuedBytes ≤ maxProgramPayloadBytes ∧
      c.pendingBytes ≤ c.payloadBudget ∧
      ∀ available, ∃ c', c.setPayloadBudget available = some c' ∧ c'.pendingBytes ≤ available ∧
        ∀ fuel > c.pendingBytes, evictPanes available fuel { c with payloadBudget := available } = some c' := by
  obtain ⟨drains, c, heq, hb, hallowance⟩ := (sound_withEpoch epoch).exec ops
  refine ⟨drains, c, heq, hb.queued, hb.candidates, hb.current, hb.events, hb.payload, hallowance, fun available => ?_⟩
  obtain ⟨c', hset, -, hle⟩ := setPayloadBudget_steps hb available
  exact ⟨c', hset, hle, fun fuel hfuel => evictPanes_of_le hset hfuel⟩

end Collector

end TmuxAgents
