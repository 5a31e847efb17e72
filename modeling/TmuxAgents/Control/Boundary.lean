/-
Observation boundaries: what an observation after a boundary was made of, and
that a whole frame after it is not lost.

`Follow` is the invariant of the first half, at every point of the run since the
boundary. While the boundary's epoch lasts, its pane is in quarantine, or its
scanner is settled, or it is the settled scanner of an earlier point after the
bytes delivered since (`Trail`).
-/
import TmuxAgents.Control.Constructs
import TmuxAgents.Control.Epochs

namespace TmuxAgents

open Checked

/-- The bytes of a pane that one client delivers. -/
def delivered (session : SessionId) (client : Nat) (pane : PaneId) (ops : List CollectorOp) : Bytes :=
  ops.filterMap fun
    | .decoded session' client' (.byte pane' byte) =>
      if session' = session ∧ client' = client ∧ pane' = pane then some byte else none
    | _ => none

/-- The observations of a pane in a list of drains. -/
def observationsOf (pane : PaneId) (drains : List ProgramDrain) : List ObservedEvent :=
  drains.flatMap fun drain => drain.observations.filter fun event => event.pane == pane

@[simp] theorem delivered_nil (session : SessionId) (client : Nat) (pane : PaneId) :
    delivered session client pane [] = [] := rfl

@[simp] theorem delivered_append (session : SessionId) (client : Nat) (pane : PaneId) (ops ops' : List CollectorOp) :
    delivered session client pane (ops ++ ops') =
      delivered session client pane ops ++ delivered session client pane ops' := List.filterMap_append

theorem delivered_byte (session : SessionId) (client : Nat) (pane : PaneId) (byte : UInt8) :
    delivered session client pane [.decoded session client (.byte pane byte)] = [byte] := by
  simp [delivered]

/-- An operation that is no byte of the pane from that client delivers none. -/
theorem delivered_other {session : SessionId} {client : Nat} {pane : PaneId} {op : CollectorOp}
    (h : ∀ byte, op ≠ .decoded session client (.byte pane byte)) : delivered session client pane [op] = [] := by
  unfold delivered
  rw [List.filterMap_eq_nil_iff]
  intro op' hop'
  obtain rfl := List.mem_singleton.mp hop'
  split
  · split
    · rename_i hsame
      obtain ⟨rfl, rfl, rfl⟩ := hsame
      exact absurd rfl (h _)
    · rfl
  · rfl

@[simp] theorem observationsOf_append (pane : PaneId) (drains drains' : List ProgramDrain) :
    observationsOf pane (drains ++ drains') = observationsOf pane drains ++ observationsOf pane drains' :=
  List.flatMap_append

theorem observationsOf_drain (c : Collector) (pane : PaneId) : observationsOf pane [c.drain.1] = c.queuedOf pane := by
  simp [observationsOf, Collector.drain, Collector.queuedOf]

namespace Collector

variable [Base64]

/-- Since `c`, the owner of a pane delivered a construct that makes the event: its bytes, from
its ESC to its terminator, went through the pane's scanner without a gap, and no invalidation
of the pane was created meanwhile; after a boundary in a notification, after its end. -/
def ProducedSince (c : Collector) (pane : PaneId) (session : SessionId) (client : Nat) (inPayload : Bool)
    (ops : List CollectorOp) (event : ProgramEvent) : Prop :=
  ∃ before construct after, ops = before ++ construct ++ after ∧
    Construct (delivered session client pane construct) event ∧
    (inPayload = true → .decoded session client (.end_ pane) ∈ before) ∧
    ∃ drains m stream drains' m' stream', c.exec before = some (drains, m) ∧ m.panes.get? pane = some stream ∧
      c.exec (before ++ construct) = some (drains', m') ∧ m'.panes.get? pane = some stream' ∧
      stream'.scanner = stream.scanner.after (delivered session client pane construct) ∧
      m'.createdOf pane = c.createdOf pane

theorem ProducedSince.concat {c : Collector} {pane : PaneId} {session : SessionId} {client : Nat} {inPayload : Bool}
    {ops : List CollectorOp} {event : ProgramEvent} (h : ProducedSince c pane session client inPayload ops event)
    (op : CollectorOp) : ProducedSince c pane session client inPayload (ops ++ [op]) event := by
  obtain ⟨before, construct, after, rfl, h⟩ := h
  exact ⟨before, construct, after ++ [op], by simp, h⟩

/-- From `before` on, the pane's scanner is `start` after what was delivered. -/
def Trail (c : Collector) (pane : PaneId) (session : SessionId) (client : Nat) (before since : List CollectorOp)
    (start : Scanner) : Prop :=
  ∀ x y, since = x ++ y → ∃ drains m stream, c.exec (before ++ x) = some (drains, m) ∧
    m.panes.get? pane = some stream ∧ stream.scanner = start.after (delivered session client pane x)

theorem Trail.concat {c c' : Collector} {pane : PaneId} {session : SessionId} {client : Nat}
    {before since : List CollectorOp} {start : Scanner} (h : Trail c pane session client before since start)
    {op : CollectorOp} {drains : List ProgramDrain} {stream : PaneStream}
    (he : c.exec (before ++ since ++ [op]) = some (drains, c')) (hs : c'.panes.get? pane = some stream)
    (hscanner : stream.scanner = start.after (delivered session client pane (since ++ [op]))) :
    Trail c pane session client before (since ++ [op]) start := by
  intro x y hxy
  rcases List.eq_nil_or_concat y with rfl | ⟨y', last, rfl⟩
  · rw [List.append_nil] at hxy
    subst hxy
    exact ⟨drains, c', stream, by rw [← List.append_assoc]; exact he, hs, hscanner⟩
  · rw [List.concat_eq_append, ← List.append_assoc] at hxy
    exact h x y' (List.append_inj' hxy rfl).1

/-- How the boundary's stream is listened to. -/
inductive Listening (c : Collector) (pane : PaneId) (session : SessionId) (client : Nat) (inPayload : Bool)
    (done : List CollectorOp) (now : Collector) (stream : PaneStream) : Prop
  | waiting (hq : stream.quarantine = true) (hin : inPayload = true)
  | idle (hq : stream.quarantine = false) (hend : inPayload = true → .decoded session client (.end_ pane) ∈ done)
    (hsettled : stream.scanner.Settled)
  | tracking (hq : stream.quarantine = false) (hready : now.topologyReady = true) (hpaused : stream.paused = false)
    {before since : List CollectorOp} {start : Scanner} (hdone : done = before ++ since)
    (hend : inPayload = true → .decoded session client (.end_ pane) ∈ before) (hsettled : start.Settled)
    (htrail : Trail c pane session client before since start)

/-- What is known of the boundary's pane at every later point. -/
structure Follow (c : Collector) (pane : PaneId) (session : SessionId) (client : Nat) (inPayload : Bool)
    (connection : ConnectionEpoch) (done : List CollectorOp) (drains : List ProgramDrain) (now : Collector) : Prop where
  sound : Sound now
  told : ∀ e ∈ observationsOf pane drains ++ now.queuedOf pane, e.connection = connection →
    ProducedSince c pane session client inPayload done e.event
  epoch : connection ≤ now.epoch
  created : ∀ stream, now.panes.get? pane = some stream → stream.epoch = connection →
    stream.owner = session ∧ stream.client = client ∧ now.createdOf pane = c.createdOf pane ∧
      Listening c pane session client inPayload done now stream

variable {c : Collector} {pane : PaneId} {session : SessionId} {client : Nat} {inPayload : Bool}
  {connection : ConnectionEpoch} {done : List CollectorOp} {drains : List ProgramDrain} {now now' : Collector}
  {op : CollectorOp}

/-- A step that leaves the stream's scanner alone, and delivers nothing to it. -/
theorem Listening.keep {stream stream' : PaneStream}
    (h : Listening c pane session client inPayload done now stream) (hready : now.topologyReady = true →
      now'.topologyReady = true) {drains' : List ProgramDrain} (he : c.exec (done ++ [op]) = some (drains', now'))
    (hs : now'.panes.get? pane = some stream') (hscanner : stream'.scanner = stream.scanner)
    (hpaused : stream'.paused = stream.paused) (hquarantine : stream'.quarantine = stream.quarantine)
    (hnone : now.topologyReady = true → stream.paused = false → delivered session client pane [op] = [])
    (hnow : ∃ drains, c.exec done = some (drains, now)) (hold : now.panes.get? pane = some stream) :
    Listening c pane session client inPayload (done ++ [op]) now' stream' := by
  cases h with
  | waiting hq hin => exact .waiting (hquarantine.trans hq) hin
  | idle hq hend hsettled =>
    exact .idle (hquarantine.trans hq) (fun hin => List.mem_append_left _ (hend hin)) (hscanner ▸ hsettled)
  | @tracking hq hr hp before since start hdone hend hsettled htrail =>
    subst hdone
    refine .tracking (hquarantine.trans hq) (hready hr) (hpaused.trans hp) (List.append_assoc ..) hend hsettled
      (htrail.concat he hs ?_)
    obtain ⟨drains, hnow⟩ := hnow
    obtain ⟨_, m, stream₀, hm, hs₀, hscanner₀⟩ := htrail since [] (List.append_nil _).symm
    obtain ⟨-, rfl⟩ := Prod.mk.inj (Option.some.inj (hm.symm.trans hnow))
    obtain rfl := Option.some.inj (hs₀.symm.trans hold)
    rw [delivered_append, hnone hr hp, List.append_nil, hscanner, hscanner₀]

/-- The epoch is over. -/
theorem Follow.over (h : Follow c pane session client inPayload connection done drains now) (hsound : Sound now')
    (hle : now.epoch ≤ now'.epoch)
    (hover : ∀ stream, now'.panes.get? pane = some stream → stream.epoch ≠ connection) :
    Follow c pane session client inPayload connection (done ++ [op]) drains now' := by
  refine ⟨hsound, fun e he hc => ?_, h.epoch.trans hle, fun stream hs heq => absurd heq (hover stream hs)⟩
  rcases List.mem_append.mp he with he | he
  · exact (h.told e (List.mem_append_left _ he) hc).concat op
  · obtain ⟨he, hp⟩ := List.mem_filter.mp he
    obtain ⟨stream, hs, hcur⟩ := hsound.books.current e he
    obtain rfl : e.pane = pane := by simpa using hp
    exact absurd (hcur.symm.trans hc) (hover stream hs)

/-- A point the pane is listened to, as a trail of its own. -/
theorem Listening.trail {stream : PaneStream} (h : Listening c pane session client inPayload done now stream)
    (hq : stream.quarantine = false) (hnow : c.exec done = some (drains, now))
    (hs : now.panes.get? pane = some stream) :
    ∃ before since start, done = before ++ since ∧
      (inPayload = true → .decoded session client (.end_ pane) ∈ before) ∧ start.Settled ∧
      Trail c pane session client before since start ∧
      stream.scanner = start.after (delivered session client pane since) := by
  cases h with
  | waiting hq' _ => rw [hq] at hq'; cases hq'
  | idle _ hend hsettled =>
    refine ⟨done, [], stream.scanner, (List.append_nil _).symm, hend, hsettled, fun x y hxy => ?_, rfl⟩
    obtain ⟨rfl, rfl⟩ := List.append_eq_nil_iff.mp hxy.symm
    exact ⟨drains, now, stream, by rw [List.append_nil]; exact hnow, hs, rfl⟩
  | @tracking _ _ _ before since start hdone hend hsettled htrail =>
    subst hdone
    refine ⟨before, since, start, rfl, hend, hsettled, htrail, ?_⟩
    obtain ⟨_, m, stream₀, hm, hs₀, hscanner₀⟩ := htrail since [] (List.append_nil _).symm
    obtain ⟨-, rfl⟩ := Prod.mk.inj (Option.some.inj (hm.symm.trans hnow))
    obtain rfl := Option.some.inj (hs₀.symm.trans hs)
    exact hscanner₀

theorem traced_after {start : Scanner} (h : start.Settled) (fed : Bytes) : (start.after fed).Traced fed := by
  induction fed using List.reverseRecOn with
  | nil => exact h.traced []
  | append_singleton fed byte ih =>
    rw [Scanner.after_append]
    exact (ih.feed byte).1

/-- A byte the boundary's stream is fed: the trail goes on, and what the byte completes was
delivered since. -/
theorem Listening.feed {stream stream' : PaneStream} {byte : UInt8}
    (h : Listening c pane session client inPayload done now stream) (hq : stream.quarantine = false)
    (hnow : c.exec done = some (drains, now)) (hs : now.panes.get? pane = some stream)
    {drains' : List ProgramDrain}
    (he : c.exec (done ++ [.decoded session client (.byte pane byte)]) = some (drains', now'))
    (hs' : now'.panes.get? pane = some stream') (hready : now'.topologyReady = true)
    (hpaused : stream'.paused = false) (hq' : stream'.quarantine = false) (hscanner : stream'.scanner = stream.scanner.next byte)
    (hcreated : now'.createdOf pane = c.createdOf pane) :
    Listening c pane session client inPayload (done ++ [.decoded session client (.byte pane byte)]) now' stream' ∧
      ∀ event, stream.scanner.emits byte = some event →
        ProducedSince c pane session client inPayload (done ++ [.decoded session client (.byte pane byte)]) event := by
  obtain ⟨before, since, start, rfl, hend, hsettled, htrail, hsince⟩ := h.trail hq hnow hs
  have hafter : stream'.scanner = start.after
      (delivered session client pane (since ++ [.decoded session client (.byte pane byte)])) := by
    rw [hscanner, hsince, delivered_append, delivered_byte, Scanner.after_append]
    rfl
  have htrail' := htrail.concat he hs' hafter
  refine ⟨.tracking hq' hready hpaused (List.append_assoc ..) hend hsettled htrail', fun event hemits => ?_⟩
  have htraced := traced_after hsettled (delivered session client pane since)
  rw [← hsince] at htraced
  obtain ⟨first, construct, hsplit, hconstruct⟩ := (htraced.feed byte).2 event hemits
  rw [← delivered_byte session client pane byte, ← delivered_append] at hsplit
  -- The construct's bytes were delivered by the last operations.
  obtain ⟨x, y, hxy, rfl, rfl⟩ := List.filterMap_eq_append_iff.mp hsplit
  obtain ⟨ds, m, mid, hm, hmid, hmidScanner⟩ := htrail' x y hxy
  refine ⟨before ++ x, y, [], by rw [List.append_nil, List.append_assoc, List.append_assoc, hxy], hconstruct,
    fun hin => List.mem_append_left _ (hend hin), ds, m, mid, drains', now', stream', hm, hmid, ?_, hs', ?_, hcreated⟩
  · rw [List.append_assoc, ← hxy, ← List.append_assoc]
    exact he
  · rw [hafter, hxy, delivered_append, Scanner.after_append, ← hmidScanner]

/-- **One step** of the run after a boundary. -/
theorem Follow.step (h : Follow c pane session client inPayload connection done drains now)
    (hnow : c.exec done = some (drains, now)) {out : List ProgramDrain} (hstep : now.step op = some (out, now'))
    (hmid : ∀ stream, op = .decoded session client (.end_ pane) → now.accepts session client pane = some stream →
      stream.quarantine = true → stream.epoch = connection → stream.scanner.midEscape = false) :
    Follow c pane session client inPayload connection (done ++ [op]) (drains ++ out) now' := by
  obtain ⟨hsound, hacts⟩ := (h.sound.step op).of_eq hstep
  have he : c.exec (done ++ [op]) = some (drains ++ out, now') :=
    Run.exec_concat.mpr ⟨drains, now, out, hnow, hstep, rfl⟩
  have hkeep : ∀ e ∈ observationsOf pane drains ++ now.queuedOf pane, e.connection = connection →
      ProducedSince c pane session client inPayload (done ++ [op]) e.event :=
    fun e hmem hc => (h.told e hmem hc).concat op
  cases hacts.of_pane pane with
  | drain =>
    refine ⟨hsound, fun e hmem hc => hkeep e ?_ hc, h.epoch, fun stream hs heq => ?_⟩
    · rw [observationsOf_append, observationsOf_drain] at hmem
      simpa [queuedOf, Collector.drain] using hmem
    · obtain ⟨old, hold, rfl⟩ := Option.map_eq_some_iff.mp ((SortedMap.get?_mapValues ..).symm.trans hs)
      obtain ⟨howner, hclient, hcreated, hlisten⟩ := h.created old hold heq
      exact ⟨howner, hclient, hcreated, hlisten.keep id he hs rfl rfl rfl
        (fun _ _ => delivered_other fun _ h => by cases h) ⟨drains, hnow⟩ hold⟩
  | turn hturn hfed =>
    rw [List.append_nil] at he ⊢
    rcases hturn.either with hk | hended
    · refine ⟨hsound, fun e hmem hc => hkeep e (hk.queue ▸ hmem) hc, h.epoch.trans hturn.epoch, fun stream hs heq => ?_⟩
      have hold := hk.stream ▸ hs
      obtain ⟨howner, hclient, hcreated, hlisten⟩ := h.created stream hold heq
      refine ⟨howner, hclient, hk.created.trans hcreated, hlisten.keep hk.ready he hs rfl rfl rfl
        (fun hr hp => delivered_other fun byte heq' => ?_) ⟨drains, hnow⟩ hold⟩
      have ha : now.accepts session client pane = some stream := accepts_eq_some.mpr ⟨hr, hold, howner, hclient⟩
      rw [hfed session client byte stream heq' ha] at hp
      cases hp
    · exact h.over hsound hturn.epoch fun stream hs =>
        (Nat.lt_of_le_of_lt h.epoch (hended.stream stream hs)).ne'
  | @ended session' client' stream ha hq =>
    obtain ⟨-, hold, rfl, rfl⟩ := accepts_eq_some.mp ha
    rw [List.append_nil]
    refine ⟨hsound, hkeep, h.epoch, fun stream' hs heq => ?_⟩
    obtain rfl := Option.some.inj ((rescanned_get? ..).symm.trans hs)
    obtain ⟨rfl, rfl, hcreated, -⟩ := h.created stream hold heq
    exact ⟨rfl, rfl, hcreated, .idle rfl (fun _ => by simp) (Scanner.settled_boundary (hmid stream rfl ha hq heq))⟩
  | @byte session' client' byte stream c' ha hp hfed =>
    obtain ⟨hready, hold, rfl, rfl⟩ := accepts_eq_some.mp ha
    rw [List.append_nil] at he ⊢
    -- A byte of a later epoch is none of the boundary's.
    by_cases heq : stream.epoch = connection
    · obtain ⟨rfl, rfl, hcreated, hlisten⟩ := h.created stream hold heq
      cases hfed with
      | quarantined hq =>
        refine ⟨hsound, hkeep, h.epoch, fun stream' hs _ => ?_⟩
        obtain rfl := Option.some.inj ((fedTo_get? ..).symm.trans hs)
        cases hlisten with
        | waiting _ hin => exact ⟨rfl, rfl, hcreated, .waiting hq hin⟩
        | idle hq' _ _ | tracking hq' _ _ _ _ _ _ =>
          rw [hq] at hq'
          cases hq'
      | silent hq hnone hroom =>
        refine ⟨hsound, hkeep, h.epoch, fun stream' hs _ => ?_⟩
        obtain rfl := Option.some.inj ((fedTo_get? ..).symm.trans hs)
        exact ⟨rfl, rfl, hcreated,
          (hlisten.feed hq hnow hold he hs hready hp hq rfl hcreated).1⟩
      | @emitted event hq hsome hroom =>
        have hs := pushed_get? (now.fedTo pane stream (stream.scanner.feed byte).2) pane
          { stream with scanner := (stream.scanner.feed byte).2 } event
        have hfeed := hlisten.feed hq hnow hold he hs hready hp hq rfl hcreated
        refine ⟨hsound, fun e hmem hc => ?_, h.epoch, fun stream' hs' _ => ?_⟩
        · have hqueue : ((now.fedTo pane stream (stream.scanner.feed byte).2).pushed pane
              { stream with scanner := (stream.scanner.feed byte).2 } event).queuedOf pane = now.queuedOf pane ++
                [{ pane, connection := stream.epoch, sequence := stream.sequence + 1, event }] := by
            simp [queuedOf, pushed, fedTo, rescanned]
          rw [hqueue, ← List.append_assoc] at hmem
          rcases List.mem_append.mp hmem with hmem | hmem
          · exact hkeep e hmem hc
          · obtain rfl := List.mem_singleton.mp hmem
            exact hfeed.2 event hsome
        · obtain rfl := Option.some.inj (hs.symm.trans hs')
          exact ⟨rfl, rfl, hcreated, hfeed.1⟩
      | lost hq overflows reason hroom =>
        refine h.over hsound (Nat.le_succ _) fun stream' hs => ?_
        obtain rfl := Option.some.inj ((renewed_get? ..).symm.trans hs)
        exact (Nat.lt_succ_of_le h.epoch).ne'
    · cases hfed with
      | quarantined hq | silent hq hnone hroom =>
        refine h.over hsound (Nat.le_refl _) fun stream' hs => ?_
        obtain rfl := Option.some.inj ((fedTo_get? ..).symm.trans hs)
        exact heq
      | emitted hq hsome hroom =>
        refine h.over hsound (Nat.le_refl _) fun stream' hs => ?_
        obtain rfl := Option.some.inj ((pushed_get? ..).symm.trans hs)
        exact heq
      | lost hq overflows reason hroom =>
        refine h.over hsound (Nat.le_succ _) fun stream' hs => ?_
        obtain rfl := Option.some.inj ((renewed_get? ..).symm.trans hs)
        exact (Nat.lt_succ_of_le h.epoch).ne'

/-! ## After a boundary -/

/-- Neither the boundary, nor the accepted end of the notification it fell in, finds an ESC pending
inside an OSC. -/
structure CleanBoundary (c now : Collector) (pane : PaneId) (inPayload : Bool) (connection : ConnectionEpoch)
    (ops : List CollectorOp) : Prop where
  boundary : inPayload = false → ∀ stream, c.panes.get? pane = some stream → stream.scanner.midEscape = false
  ended : inPayload = true → ∀ done session client rest, ops = done ++ .decoded session client (.end_ pane) :: rest →
    ∀ drains m stream, now.exec done = some (drains, m) → m.accepts session client pane = some stream →
      stream.quarantine = true → stream.epoch = connection → stream.scanner.midEscape = false

/-- The point just after a boundary. -/
theorem follow_boundary {stream : PaneStream} (hsound : Sound c) (hs : c.panes.get? pane = some stream)
    (hclean : inPayload = false → stream.scanner.midEscape = false)
    {now : Collector} (hnow : now = c.renewed pane stream
      { invalidated pane (c.epoch + 1) .ownerChanged false stream with quarantine := inPayload }) :
    Follow now pane stream.owner stream.client inPayload (c.epoch + 1) [] [] now := by
  have hr := renews_invalidated pane c.epoch .ownerChanged false stream
  have hmanaged : Managed c now := hnow ▸ managed_renewed hs ⟨hr.epoch, hr.sequence, hr.scanner, hr.gap⟩
  have hqueue : now.queuedOf pane = [] := by
    rw [hnow, queuedOf, List.filter_eq_nil_iff]
    intro e he
    simpa using (List.mem_filter.mp he).2
  refine ⟨hsound.admins hmanaged.steps, fun e he => ?_, hnow ▸ Nat.le_refl _, fun stream' hs' _ => ?_⟩
  · rw [hqueue] at he
    cases he
  · rw [hnow, renewed_get?] at hs'
    obtain rfl := Option.some.inj hs'
    refine ⟨rfl, rfl, rfl, ?_⟩
    cases hin : inPayload with
    | true => exact .waiting rfl rfl
    | false => exact .idle rfl (fun h => (by cases h)) (Scanner.settled_boundary (hclean hin))

theorem follow_run {c₁ c₂ c₃ : Collector} {stream : PaneStream} {ops : List CollectorOp}
    (hsound : Sound c₁) (hs : c₁.panes.get? pane = some stream)
    (hnow : c₂ = c₁.renewed pane stream
      { invalidated pane (c₁.epoch + 1) .ownerChanged false stream with quarantine := inPayload })
    (hclean : CleanBoundary c₁ c₂ pane inPayload (c₁.epoch + 1) ops) (he : c₂.exec ops = some (drains, c₃)) :
    Follow c₂ pane stream.owner stream.client inPayload (c₁.epoch + 1) ops drains c₃ := by
  have hinit := follow_boundary hsound hs (fun hin => hclean.boundary hin stream hs) hnow
  -- The condition on the ends is one on the operations still to come.
  have hrun := Run.exec_history (fun done drains now => ∀ rest, ops = done ++ rest →
    Follow c₂ pane stream.owner stream.client inPayload (c₁.epoch + 1) done drains now) (fun _ _ => hinit) ?_ he
  · exact hrun [] (List.append_nil _).symm
  intro done drains now op out now' hexec hfollow hstep rest hops
  have hfollow := hfollow (op :: rest) (by rw [hops]; simp)
  refine hfollow.step hexec hstep fun stream' hop ha hq heq => ?_
  have hin : inPayload = true := by
    obtain ⟨-, hs', -, -⟩ := accepts_eq_some.mp ha
    obtain ⟨-, -, -, hlisten⟩ := hfollow.created stream' hs' heq
    cases hlisten with
    | waiting _ hin => exact hin
    | idle hq' _ _ | tracking hq' _ _ _ _ _ _ =>
      rw [hq] at hq'
      cases hq'
  refine hclean.ended hin done stream.owner stream.client rest ?_ drains now stream' hexec ha hq heq
  rw [hops, hop]
  simp

/-! ## Whole frames -/

/-- While `ops` run, each byte the owner delivers finds room, and nothing else invalidates the
pane. -/
def Uninterrupted (c : Collector) (pane : PaneId) (session : SessionId) (client : Nat) (ops : List CollectorOp) : Prop :=
  ∀ done op rest, ops = done ++ op :: rest → ∀ drains now out now', c.exec done = some (drains, now) →
    now.step op = some (out, now') →
      (∀ byte stream, op = .decoded session client (.byte pane byte) → now.panes.get? pane = some stream →
        Room (now.fedTo pane stream (stream.scanner.feed byte).2) (stream.scanner.feed byte).1) ∧
      ((∀ byte, op ≠ .decoded session client (.byte pane byte)) → now'.createdOf pane = now.createdOf pane)

/-- The pane's owner is heard: its scanner has seen all it delivered, and all it emitted is
queued or drained. -/
structure Heeded (c : Collector) (pane : PaneId) (stream₀ : PaneStream) (done : List CollectorOp)
    (drains : List ProgramDrain) (now : Collector) : Prop where
  ready : now.topologyReady = true
  stream : ∃ stream, now.panes.get? pane = some stream ∧ stream.owner = stream₀.owner ∧
    stream.client = stream₀.client ∧ stream.paused = false ∧ stream.quarantine = false ∧
    stream.scanner = stream₀.scanner.after (delivered stream₀.owner stream₀.client pane done)
  told : ∃ new, observationsOf pane drains ++ now.queuedOf pane = c.queuedOf pane ++ new ∧
    (new.map fun e => e.event) = stream₀.scanner.events (delivered stream₀.owner stream₀.client pane done)

/-- **One step** of an uninterrupted delivery. -/
theorem Heeded.step {stream₀ : PaneStream} (h : Heeded c pane stream₀ done drains now) (hsound : Sound now)
    (hdated : ∀ gap ∈ now.createdOf pane, gap.connection ≤ now.epoch) {out : List ProgramDrain}
    (hstep : now.step op = some (out, now'))
    (hroom : ∀ byte stream, op = .decoded stream₀.owner stream₀.client (.byte pane byte) →
      now.panes.get? pane = some stream →
        Room (now.fedTo pane stream (stream.scanner.feed byte).2) (stream.scanner.feed byte).1)
    (hother : (∀ byte, op ≠ .decoded stream₀.owner stream₀.client (.byte pane byte)) →
      now'.createdOf pane = now.createdOf pane) : Heeded c pane stream₀ (done ++ [op]) (drains ++ out) now' := by
  obtain ⟨hready, ⟨stream, hs, howner, hclient, hpaused, hquarantine, hscanner⟩, htold⟩ := h
  have ha : now.accepts stream₀.owner stream₀.client pane = some stream := accepts_eq_some.mpr ⟨hready, hs, howner, hclient⟩
  obtain ⟨-, hacts⟩ := (hsound.step op).of_eq hstep
  cases hacts.of_pane pane with
  | drain =>
    have hnone : delivered stream₀.owner stream₀.client pane [.drain] = [] := delivered_other fun _ => nofun
    refine ⟨hready, ⟨{ stream with pendingGap := none }, ?_, howner, hclient, hpaused, hquarantine, ?_⟩, ?_⟩
    · simp [Collector.drain, hs]
    · rw [delivered_append, hnone, List.append_nil]
      exact hscanner
    · rw [delivered_append, hnone, List.append_nil, observationsOf_append, observationsOf_drain]
      have hempty : now.drain.2.queuedOf pane = [] := rfl
      rw [hempty, List.append_nil]
      exact htold
  | turn hturn hfed =>
    have hop : ∀ byte, op ≠ .decoded stream₀.owner stream₀.client (.byte pane byte) := by
      intro byte heq
      rw [hfed _ _ byte stream heq ha] at hpaused
      cases hpaused
    rcases hturn.either with hk | hended
    · refine ⟨hk.ready hready, ⟨stream, hk.stream.trans hs, howner, hclient, hpaused, hquarantine, ?_⟩, ?_⟩
      · rw [delivered_append, delivered_other hop, List.append_nil]
        exact hscanner
      · rw [delivered_append, delivered_other hop, List.append_nil, List.append_nil, hk.queue]
        exact htold
    · obtain ⟨gap, hgap, hlt⟩ := hended.created (SortedMap.contains_iff.mpr ⟨stream, hs⟩)
      rw [hother hop] at hgap
      exact absurd (hdated gap hgap) (Nat.not_le_of_gt hlt)
  | @ended session client stream' ha' hq =>
    obtain rfl := Option.some.inj (hs.symm.trans (accepts_eq_some.mp ha').2.1)
    rw [hquarantine] at hq
    cases hq
  | @byte session client byte stream' c' ha' hp hfed =>
    obtain ⟨-, hs', rfl, rfl⟩ := accepts_eq_some.mp ha'
    obtain rfl := Option.some.inj (hs.symm.trans hs')
    have hroom := hroom byte stream (by rw [howner, hclient]) hs
    rw [howner, hclient]
    cases hfed with
    | quarantined hq =>
      rw [hquarantine] at hq
      cases hq
    | lost hq overflows reason hno => exact absurd hroom hno
    | silent hq hnone _ =>
      have hnone : (stream₀.scanner.after (delivered stream₀.owner stream₀.client pane done)).emits byte = none :=
        hscanner ▸ hnone
      refine ⟨hready, ⟨_, fedTo_get? .., howner, hclient, hpaused, hquarantine, ?_⟩, ?_⟩
      · rw [delivered_append, delivered_byte, Scanner.after_concat, ← hscanner]
        rfl
      · rw [delivered_append, delivered_byte, Scanner.events_concat, hnone, Option.toList_none, List.append_nil,
          List.append_nil]
        exact htold
    | @emitted event hq hsome _ =>
      have hsome : (stream₀.scanner.after (delivered stream₀.owner stream₀.client pane done)).emits byte = some event :=
        hscanner ▸ hsome
      refine ⟨hready, ⟨_, pushed_get? .., howner, hclient, hpaused, hquarantine, ?_⟩, ?_⟩
      · rw [delivered_append, delivered_byte, Scanner.after_concat, ← hscanner]
        rfl
      · obtain ⟨new, htold, hnew⟩ := htold
        refine ⟨new ++ [{ pane, connection := stream.epoch, sequence := stream.sequence + 1, event }], ?_, ?_⟩
        · rw [List.append_nil, ← List.append_assoc, ← htold, List.append_assoc]
          simp [queuedOf, pushed, fedTo, rescanned]
        · rw [delivered_append, delivered_byte, Scanner.events_concat, hsome, List.map_append, hnew]
          rfl

theorem determined {c : Collector} {ops : List CollectorOp} {r r' : List ProgramDrain × Collector}
    (h : c.exec ops = some r) (h' : c.exec ops = some r') : r = r' := Option.some.inj (h.symm.trans h')

/-- **A whole frame is enqueued once**, whatever else happens while it is delivered. -/
theorem frame_enqueued {epoch : Nat} {reached ops : List CollectorOp} {before : List ProgramDrain}
    (hreached : (withEpoch epoch).exec reached = some (before, c)) {stream : PaneStream}
    (hs : c.panes.get? pane = some stream) (hground : stream.scanner.state = .ground)
    (hready : c.topologyReady = true) (hpaused : stream.paused = false) (hquarantine : stream.quarantine = false)
    (hfree : Uninterrupted c pane stream.owner stream.client ops) {command : ProgramCommand}
    (hparse : parseFrame (delivered stream.owner stream.client pane ops) = .ok (.command command))
    (hcancel : ∀ byte ∈ delivered stream.owner stream.client pane ops, byte ≠ 0x18 ∧ byte ≠ 0x1a) :
    ∃ drains c' e, c.exec ops = some (drains, c') ∧
      observationsOf pane drains ++ c'.queuedOf pane = c.queuedOf pane ++ [e] ∧ e.event = .command command := by
  obtain ⟨_, c₀, hc₀, hsound⟩ := (sound_withEpoch epoch).exec reached
  obtain rfl : c = c₀ := congrArg Prod.snd (determined hreached hc₀)
  obtain ⟨drains, c', he, -⟩ := hsound.exec ops
  have hheeded : Heeded c pane stream ops drains c' := by
    have hinit : Heeded c pane stream [] [] c :=
      ⟨hready, ⟨stream, hs, rfl, rfl, hpaused, hquarantine, rfl⟩, [], by simp [observationsOf], rfl⟩
    refine Run.exec_history (fun done drains now => ∀ rest, ops = done ++ rest → Heeded c pane stream done drains now)
      (fun _ _ => hinit) ?_ he [] (List.append_nil _).symm
    intro done drains now op out now' hexec hheeded hstep rest hops
    have hops : ops = done ++ op :: rest := by rw [hops]; simp
    obtain ⟨hroom, hother⟩ := hfree done op rest hops drains now out now' hexec hstep
    obtain ⟨_, now₀, hnow₀, hsound'⟩ := hsound.exec done
    obtain rfl : now = now₀ := congrArg Prod.snd (determined hexec hnow₀)
    have hnow := Run.exec_append.mpr ⟨before, c, drains, hreached, hexec, rfl⟩
    exact (hheeded (op :: rest) hops).step hsound' (disciplined hnow pane).2.dated.epoch hstep hroom hother
  obtain ⟨new, htold, hnew⟩ := hheeded.told
  rw [(Scanner.frame_events hground hparse hcancel).1] at hnew
  obtain ⟨e, rfl, hevent⟩ := List.map_eq_singleton_iff.mp hnew
  exact ⟨drains, c', e, he, htold, hevent⟩

/-- **Observation boundary.** In a run whose boundary is clean, every observation of the
boundary's connection above its floor was made by a construct delivered after it, without a gap
and without an invalidation in between; and every whole frame delivered after it, to a scanner
in ground, is enqueued once. -/
theorem observation_boundary {epoch : Nat} {ops₁ ops₂ : List CollectorOp} {drains₁ drains₂ : List ProgramDrain}
    {c₁ c₂ c₃ : Collector} {boundary : ObservationBoundary}
    (h₁ : (withEpoch epoch).exec ops₁ = some (drains₁, c₁))
    (hb : c₁.boundary pane inPayload = some (some boundary, c₂)) (h₂ : c₂.exec ops₂ = some (drains₂, c₃))
    (hclean : CleanBoundary c₁ c₂ pane inPayload boundary.connection ops₂) :
    (∃ session client, c₂.owner pane = some (session, client) ∧
      ∀ drain ∈ drains₂, ∀ e ∈ drain.observations, e.pane = pane → e.connection = boundary.connection →
        boundary.sequenceFloor < e.sequence → ProducedSince c₂ pane session client inPayload ops₂ e.event) ∧
    ∀ done ops rest, ops₂ = done ++ ops ++ rest → ∀ drains m stream, c₂.exec done = some (drains, m) →
      m.panes.get? pane = some stream → stream.scanner.state = .ground → m.topologyReady = true →
      stream.paused = false → stream.quarantine = false → Uninterrupted m pane stream.owner stream.client ops →
      ∀ command, parseFrame (delivered stream.owner stream.client pane ops) = .ok (.command command) →
        (∀ byte ∈ delivered stream.owner stream.client pane ops, byte ≠ 0x18 ∧ byte ≠ 0x1a) →
        ∃ drains' m' e, m.exec ops = some (drains', m') ∧
          observationsOf pane drains' ++ m'.queuedOf pane = m.queuedOf pane ++ [e] ∧ e.event = .command command := by
  obtain ⟨_, c₀, hc₀, hsound⟩ := (sound_withEpoch epoch).exec ops₁
  obtain rfl : c₁ = c₀ := congrArg Prod.snd (determined h₁ hc₀)
  have hreached : (withEpoch epoch).exec (ops₁ ++ [.boundary pane inPayload]) = some (drains₁, c₂) :=
    Run.exec_concat.mpr ⟨drains₁, c₁, [], h₁, by simp only [step, hb, Option.map_some], by simp⟩
  refine ⟨?_, fun done ops rest hops drains m stream hm hs hg hr hp hq hfree command hparse hcancel => ?_⟩
  · cases hs : c₁.panes.get? pane with
    | none =>
      rw [boundary_none hs] at hb
      cases hb
    | some stream =>
      rw [boundary_some hsound.books hs] at hb
      obtain ⟨hboundary, hnow⟩ := Prod.mk.inj (Option.some.inj hb)
      obtain rfl := Option.some.inj hboundary
      have hfollow := follow_run hsound hs hnow.symm hclean h₂
      refine ⟨stream.owner, stream.client, by rw [← hnow, owner, renewed_get?]; rfl,
        fun drain hdrain e he hpane hconnection _ => hfollow.told e (List.mem_append_left _ ?_) hconnection⟩
      exact List.mem_flatMap.mpr ⟨drain, hdrain, List.mem_filter.mpr ⟨he, by simp [hpane]⟩⟩
  · exact frame_enqueued (Run.exec_append.mpr ⟨drains₁, c₂, drains, hreached, hm, rfl⟩) hs hg hr hp hq hfree hparse hcancel

/-! ## Two runs -/

/-- A run through a boundary: what the boundary answers, and what is drained after it. -/
def replay (before : List CollectorOp) (pane : PaneId) (inPayload : Bool) (after : List CollectorOp) :
    Option (Option ObservationBoundary × List ProgramDrain) :=
  ((withEpoch 0).exec before).bind fun reached =>
    (reached.2.boundary pane inPayload).bind fun answer =>
      (answer.2.exec after).map fun result => (answer.1, result.1)

theorem replay_some {before after : List CollectorOp} {answer : Option ObservationBoundary} {drains : List ProgramDrain}
    (h : replay before pane inPayload after = some (answer, drains)) :
    ∃ drains₁ c₁ c₂ c₃, (withEpoch 0).exec before = some (drains₁, c₁) ∧
      c₁.boundary pane inPayload = some (answer, c₂) ∧ c₂.exec after = some (drains, c₃) := by
  obtain ⟨⟨drains₁, c₁⟩, h₁, h⟩ := Option.bind_eq_some_iff.mp h
  obtain ⟨⟨answer', c₂⟩, h₂, h⟩ := Option.bind_eq_some_iff.mp h
  obtain ⟨⟨drains', c₃⟩, h₃, h⟩ := Option.map_eq_some_iff.mp h
  cases h
  exact ⟨drains₁, c₁, c₂, c₃, h₁, h₂, h₃⟩

/-- The bytes of pane 1 from its owner. -/
def sampleBytes (bytes : Bytes) : List CollectorOp := bytes.map fun byte => .decoded 1 1 (.byte 1 byte)

/-- Pane 1 is reconciled, and its scanner synchronised. -/
def sampleAttach : List CollectorOp :=
  .reconcile [(1, 1)] (SortedMap.empty.insert 1 1) :: sampleBytes [0x78, esc, backslash]

/-- A query frame, `7501;?`. -/
def sampleQuery : List CollectorOp := sampleBytes (esc :: bracket :: framePrefix ++ [0x3f, bel]) ++ [.drain]

omit [Base64] in
/-- A query delivered after a clean boundary is observed, and was made after it. -/
theorem observation_boundary_sample :
    ∃ drains₁ c₁ boundary c₂ drains₂ c₃ session client e,
      @exec noBase64 (withEpoch 0) sampleAttach = some (drains₁, c₁) ∧
      c₁.boundary 1 false = some (some boundary, c₂) ∧ @exec noBase64 c₂ sampleQuery = some (drains₂, c₃) ∧
      e ∈ observationsOf 1 drains₂ ∧ e.event = .command .query ∧ c₂.owner 1 = some (session, client) ∧
      @ProducedSince noBase64 c₂ 1 session client false sampleQuery e.event := by
  have h : @replay noBase64 sampleAttach 1 false sampleQuery = some (some { connection := 2, sequenceFloor := 1 },
      [{ invalidations := [{ pane := 1, connection := 2, sequence := 1, event := .gap .ownerChanged }]
         observations := [{ pane := 1, connection := 2, sequence := 2, event := .command .query }] }]) := by
    decide
  obtain ⟨drains₁, c₁, c₂, c₃, h₁, hb, h₂⟩ := @replay_some noBase64 _ _ _ _ _ _ h
  have hground : (@exec noBase64 (withEpoch 0) sampleAttach).map (fun reached =>
      (reached.2.panes.get? 1).map fun stream => stream.scanner.midEscape) = some (some false) := by decide
  rw [h₁, Option.map_some, Option.some.injEq] at hground
  have hclean : @CleanBoundary noBase64 c₁ c₂ 1 false 2 sampleQuery :=
    @CleanBoundary.mk noBase64 _ _ _ _ _ _ (fun _ stream hs => by simpa [hs] using hground) fun hin => (by cases hin)
  obtain ⟨⟨session, client, howner, hall⟩, -⟩ := @observation_boundary noBase64 1 false 0 _ _ _ _ _ _ _ _ h₁ hb h₂ hclean
  exact ⟨drains₁, c₁, _, c₂, _, c₃, session, client, _, h₁, hb, h₂, by decide, rfl, howner,
    hall _ (List.mem_singleton_self _) { pane := 1, connection := 2, sequence := 2, event := .command .query }
      (List.mem_singleton_self _) rfl rfl (by decide)⟩

omit [Base64] in
/-- The boundary falls after an ESC inside an OSC. The BEL that ends the OSC leaves that ESC
pending, and the next byte makes a full reset of it: no ESC was delivered after the boundary. -/
theorem unclean_boundary :
    ∃ drains₁ c₁ boundary c₂ drains₂ c₃ e,
      @exec noBase64 (withEpoch 0) (sampleAttach ++ sampleBytes [esc, bracket, 0x61, esc]) = some (drains₁, c₁) ∧
      c₁.boundary 1 false = some (some boundary, c₂) ∧
      @exec noBase64 c₂ (sampleBytes [bel, 0x63] ++ [.drain]) = some (drains₂, c₃) ∧
      e ∈ observationsOf 1 drains₂ ∧ e.connection = boundary.connection ∧ boundary.sequenceFloor < e.sequence ∧
      ∀ session client,
        ¬@ProducedSince noBase64 c₂ 1 session client false (sampleBytes [bel, 0x63] ++ [.drain]) e.event := by
  have h : @replay noBase64 (sampleAttach ++ sampleBytes [esc, bracket, 0x61, esc]) 1 false
      (sampleBytes [bel, 0x63] ++ [.drain]) = some (some { connection := 2, sequenceFloor := 1 },
        [{ invalidations := [{ pane := 1, connection := 2, sequence := 1, event := .gap .ownerChanged }]
           observations := [{ pane := 1, connection := 2, sequence := 2, event := .lifecycle .fullReset }] }]) := by
    decide
  obtain ⟨drains₁, c₁, c₂, c₃, h₁, hb, h₂⟩ := @replay_some noBase64 _ _ _ _ _ _ h
  refine ⟨drains₁, c₁, _, c₂, _, c₃, { pane := 1, connection := 2, sequence := 2, event := .lifecycle .fullReset },
    h₁, hb, h₂, by decide, rfl, by decide, fun session client hproduced => ?_⟩
  obtain ⟨before, construct, after, hops, hconstruct, -⟩ := hproduced
  obtain ⟨rest, hhead⟩ := @Construct.head noBase64 _ _ hconstruct
  have hesc : esc ∈ delivered session client 1 (sampleBytes [bel, 0x63] ++ [.drain]) := by
    rw [hops, delivered_append, delivered_append, hhead]
    simp
  by_cases hclient : session = 1 ∧ client = 1
  · obtain ⟨rfl, rfl⟩ := hclient
    revert hesc
    decide
  · have hnone : delivered session client 1 (sampleBytes [bel, 0x63] ++ [.drain]) = [] := by
      simp only [delivered, sampleBytes, List.filterMap_eq_nil_iff]
      intro op hop
      simp only [List.map_cons, List.map_nil, List.cons_append, List.nil_append, List.mem_cons, List.not_mem_nil,
        or_false] at hop
      rcases hop with rfl | rfl | rfl
      · exact if_neg fun h => hclient ⟨h.1.symm, h.2.1.symm⟩
      · exact if_neg fun h => hclient ⟨h.1.symm, h.2.1.symm⟩
      · rfl
    rw [hnone] at hesc
    cases hesc

end Collector

end TmuxAgents
