/-
The pool's clients over whole runs.

A serial names one client for the pool's whole life, which is what lets a collector tell a client
from the one that replaced it (`serial_names_client`). A session whose client attaches is owed a look
until one look lists its panes (`attach_seeded`).
-/
import TmuxAgents.Control.QuietEdges

namespace TmuxAgents.Control

/-! ## Serials -/

namespace ControlPool

/-- The sessions are distinct, and so are the serials, which are below the next. -/
structure Numbered (pool : ControlPool) : Prop where
  sessions : (pool.clients.map Prod.fst).Nodup
  serials : (pool.clients.map fun e => e.2.serial).Nodup
  below : ∀ e ∈ pool.clients, e.2.serial ≤ pool.nextClient

/-- Every client is one there was, no younger than it was, or has a serial there never was. -/
structure Continues (pool later : ControlPool) : Prop where
  next : pool.nextClient ≤ later.nextClient
  client : ∀ e ∈ later.clients, pool.nextClient < e.2.serial ∨
    ∃ old ∈ pool.clients, old.1 = e.1 ∧ old.2.serial = e.2.serial ∧ (old.2.dead = true → e.2.dead = true) ∧
      (old.2.attached = true → e.2.attached = true)

theorem Continues.refl (pool : ControlPool) : Continues pool pool :=
  ⟨Nat.le_refl _, fun e he => .inr ⟨e, he, rfl, rfl, id, id⟩⟩

theorem Continues.trans {a b c : ControlPool} (h : Continues a b) (h' : Continues b c) : Continues a c := by
  refine ⟨Nat.le_trans h.next h'.next, fun e he => ?_⟩
  rcases h'.client e he with hnew | ⟨mid, hmid, hsession, hserial, hdead, hattached⟩
  · exact .inl (Nat.lt_of_le_of_lt h.next hnew)
  · rcases h.client mid hmid with hnew | ⟨old, hold, hsession', hserial', hdead', hattached'⟩
    · rw [hserial] at hnew
      exact .inl hnew
    · exact .inr ⟨old, hold, hsession'.trans hsession, hserial'.trans hserial, hdead ∘ hdead', hattached ∘ hattached'⟩

end ControlPool

theorem ControlClient.ingest_frame (client : ControlClient) (enabled : Bool) (data : Bytes) :
    (client.ingest enabled data).1.serial = client.serial ∧ (client.ingest enabled data).1.attached = client.attached ∧
      (client.dead = true → (client.ingest enabled data).1.dead = true) :=
  ⟨rfl, rfl, fun h => by simp only [ControlClient.ingest, h, Bool.true_or]⟩

theorem ControlClient.readAvailable_frame (client : ControlClient) (enabled : Bool) (fuel : Nat) (reads : List ReadResult) :
    (client.readAvailable enabled fuel reads).1.serial = client.serial ∧
      (client.dead = true → (client.readAvailable enabled fuel reads).1.dead = true) ∧
      (client.attached = true → (client.readAvailable enabled fuel reads).1.attached = true) := by
  induction fuel generalizing client reads with
  | zero => exact ⟨by rw [readAvailable], by rw [readAvailable]; exact id, by rw [readAvailable]; exact id⟩
  | succ fuel ih =>
    cases reads with
    | nil => exact ⟨rfl, id, id⟩
    | cons result rest =>
      cases result with
      | eof => exact ⟨rfl, fun _ => rfl, id⟩
      | failed => exact ⟨rfl, fun _ => rfl, id⟩
      | wouldBlock => exact ⟨rfl, id, id⟩
      | interrupted => exact ih client rest
      | data chunk =>
        obtain ⟨hserial, hattached, hdead⟩ := ingest_frame { client with attached := true } enabled chunk
        obtain ⟨hserial', hdead', hattached'⟩ := ih ({ client with attached := true }.ingest enabled chunk).1 rest
        exact ⟨hserial'.trans hserial, fun h => hdead' (hdead h), fun _ => hattached' hattached⟩

namespace ControlPool

variable {pool : ControlPool}

theorem serials_set {clients : List (SessionId × ControlClient)} {session : SessionId} {client read : ControlClient}
    (h : Assoc.get? clients session = some client) (hserial : read.serial = client.serial) :
    (Assoc.set clients session read).map (fun e => e.2.serial) = clients.map fun e => e.2.serial := by
  induction clients with
  | nil => cases h
  | cons e rest ih =>
    rw [Assoc.get?_cons] at h
    rw [Assoc.set_cons]
    split at h
    next heq =>
      rw [if_pos heq, List.map_cons, List.map_cons, Option.some.inj h, hserial]
    next hne =>
      rw [if_neg hne, List.map_cons, List.map_cons, ih h]

theorem Numbered.readClient (h : pool.Numbered) (enabled : Bool) (session : SessionId) (reads : List ReadResult) :
    (pool.readClient enabled session reads).1.Numbered ∧ pool.Continues (pool.readClient enabled session reads).1 := by
  unfold ControlPool.readClient
  cases hget : Assoc.get? pool.clients session with
  | none => exact ⟨h, .refl pool⟩
  | some client =>
    obtain ⟨hserial, hdead, hattached⟩ := client.readAvailable_frame enabled maxChunksPerRead reads
    have hmem := Assoc.mem_of_get? hget
    refine ⟨⟨?_, ?_, fun e he => ?_⟩, Nat.le_refl _, fun e he => ?_⟩
    · simp only [Assoc.keys_set_of_some hget]
      exact h.sessions
    · simp only [serials_set hget hserial]
      exact h.serials
    · rcases Assoc.mem_set he with he | rfl
      · exact h.below e he
      · rw [hserial]
        exact h.below _ hmem
    · rcases Assoc.mem_set he with he | rfl
      · exact .inr ⟨e, he, rfl, rfl, id, id⟩
      · exact .inr ⟨_, hmem, rfl, hserial.symm, hdead, hattached⟩

theorem Numbered.readClients (h : pool.Numbered) (enabled : Bool) (ready : List (SessionId × List ReadResult)) :
    (pool.readClients enabled ready).1.Numbered ∧ pool.Continues (pool.readClients enabled ready).1 := by
  induction ready generalizing pool with
  | nil => exact ⟨h, .refl pool⟩
  | cons e rest ih =>
    obtain ⟨session, reads⟩ := e
    obtain ⟨hone, hcontinues⟩ := h.readClient enabled session reads
    obtain ⟨hrest, hcontinues'⟩ := ih hone
    exact ⟨hrest, hcontinues.trans hcontinues'⟩

theorem Numbered.attach (h : pool.Numbered) (spawned : SessionId → Bool) (session : SessionId) :
    (ControlPool.attach spawned pool session).Numbered ∧ pool.Continues (ControlPool.attach spawned pool session) := by
  unfold ControlPool.attach
  split
  next hnew =>
    rw [Bool.and_eq_true, Option.isNone_iff_eq_none] at hnew
    have hset : Assoc.set pool.clients session { serial := pool.nextClient + 1 } =
        pool.clients ++ [(session, { serial := pool.nextClient + 1 })] := Assoc.set_of_none hnew.1
    simp only [hset]
    refine ⟨⟨?_, ?_, fun e he => ?_⟩, Nat.le_succ _, fun e he => ?_⟩
    · rw [List.map_append]
      refine List.nodup_append.mpr ⟨h.sessions, List.nodup_singleton _, ?_⟩
      intro a ha b hb heq
      obtain ⟨e, he, rfl⟩ := List.mem_map.mp ha
      exact Assoc.get?_eq_none.mp hnew.1 e he (heq.trans (List.mem_singleton.mp hb))
    · rw [List.map_append]
      refine List.nodup_append.mpr ⟨h.serials, List.nodup_singleton _, ?_⟩
      intro a ha b hb heq
      obtain ⟨e, he, rfl⟩ := List.mem_map.mp ha
      have hbelow := h.below e he
      have hserial : e.2.serial = pool.nextClient + 1 := heq.trans (List.mem_singleton.mp hb)
      omega
    · rcases List.mem_append.mp he with he | he
      · exact Nat.le_succ_of_le (h.below e he)
      · rw [List.mem_singleton.mp he]
    · rcases List.mem_append.mp he with he | he
      · exact .inr ⟨e, he, rfl, rfl, id, id⟩
      · rw [List.mem_singleton.mp he]
        exact .inl (Nat.lt_succ_self _)
  next => exact ⟨h, .refl pool⟩

theorem Numbered.attaches (h : pool.Numbered) (spawned : SessionId → Bool) (sessions : List SessionId) :
    (sessions.foldl (ControlPool.attach spawned) pool).Numbered ∧
      pool.Continues (sessions.foldl (ControlPool.attach spawned) pool) := by
  induction sessions generalizing pool with
  | nil => exact ⟨h, .refl pool⟩
  | cons session rest ih =>
    obtain ⟨hone, hcontinues⟩ := h.attach spawned session
    obtain ⟨hrest, hcontinues'⟩ := ih hone
    exact ⟨hrest, hcontinues.trans hcontinues'⟩

/-- Clients that are let go. -/
theorem Numbered.sublist (h : pool.Numbered) (later : ControlPool) (hclients : later.clients.Sublist pool.clients)
    (hnext : later.nextClient = pool.nextClient) : later.Numbered ∧ pool.Continues later := by
  refine ⟨⟨h.sessions.sublist (hclients.map _), h.serials.sublist (hclients.map _), fun e he => ?_⟩,
    Nat.le_of_eq hnext.symm, fun e he => ?_⟩
  · rw [hnext]
    exact h.below e (hclients.subset he)
  · exact .inr ⟨e, hclients.subset he, rfl, rfl, id, id⟩

theorem Numbered.reconcile (h : pool.Numbered) (sessions : Option (List SessionId)) (spawned : SessionId → Bool) :
    (pool.reconcile sessions spawned).Numbered ∧ pool.Continues (pool.reconcile sessions spawned) := by
  cases sessions with
  | none => exact h.sublist _ List.filter_sublist rfl
  | some sessions =>
    obtain ⟨hkept, hcontinues⟩ := h.sublist
      { pool with
        clients := (pool.clients.filter fun e => !e.2.dead).filter fun e => sessions.contains e.1
        recoveries := if pool.everPopulated &&
            ((pool.clients.filter fun e => !e.2.dead).filter fun e => sessions.contains e.1).isEmpty && !sessions.isEmpty
          then pool.recoveries + 1 else pool.recoveries }
      (List.filter_sublist.trans List.filter_sublist) rfl
    obtain ⟨hattached, hcontinues'⟩ := hkept.attaches spawned sessions
    have hall := hcontinues.trans hcontinues'
    exact ⟨⟨hattached.sessions, hattached.serials, hattached.below⟩, hall.next, hall.client⟩

theorem marks_clients (panes : List Text) (now : Nat) (pool : ControlPool) :
    (panes.foldl (markActive · now) pool).clients = pool.clients ∧
      (panes.foldl (markActive · now) pool).nextClient = pool.nextClient ∧
      (panes.foldl (markActive · now) pool).newlyAttached = pool.newlyAttached := by
  induction panes generalizing pool with
  | nil => exact ⟨rfl, rfl, rfl⟩
  | cons pane rest ih => exact ih (pool.markActive now pane)

theorem emits_clients (panes : List Text) (nowEpoch : Nat) (pool : ControlPool) :
    (panes.foldl (emitEdge nowEpoch) pool).clients = pool.clients ∧
      (panes.foldl (emitEdge nowEpoch) pool).nextClient = pool.nextClient ∧
      (panes.foldl (emitEdge nowEpoch) pool).newlyAttached = pool.newlyAttached := by
  induction panes generalizing pool with
  | nil => exact ⟨rfl, rfl, rfl⟩
  | cons pane rest ih => exact ih (emitEdge nowEpoch pool pane)

/-- What the notifications leave alone. -/
theorem dispatch_clients (enabled : Bool) (ready : List (SessionId × List ReadResult)) (now : Nat) (pool : ControlPool) :
    (pool.dispatchReady enabled ready now).1.clients = (pool.readClients enabled ready).1.clients ∧
      (pool.dispatchReady enabled ready now).1.nextClient = (pool.readClients enabled ready).1.nextClient ∧
      (pool.dispatchReady enabled ready now).1.newlyAttached = (pool.readClients enabled ready).1.newlyAttached := by
  have hpool : (pool.dispatchReady enabled ready now).1 =
      ((pool.readClients enabled ready).2.filterMap Notification.pane?).foldl (markActive · now)
        (pool.readClients enabled ready).1 :=
    Watched.dispatch_notes (pool.readClients enabled ready).2 now (pool.readClients enabled ready).1 {}
  rw [hpool]
  exact marks_clients _ now _

/-- Operations that leave the clients. -/
theorem Numbered.same (h : pool.Numbered) {later : ControlPool} (hclients : later.clients = pool.clients)
    (hnext : later.nextClient = pool.nextClient) : later.Numbered ∧ pool.Continues later :=
  h.sublist later (by rw [hclients]) hnext

theorem Numbered.next (h : pool.Numbered) (op : PoolOp) :
    (Watched.next pool op).Numbered ∧ pool.Continues (Watched.next pool op) := by
  cases op with
  | rehash active => exact h.same rfl rfl
  | dispatch enabled ready now =>
    obtain ⟨hclients, hnext, -⟩ := dispatch_clients enabled ready now pool
    obtain ⟨hread, hcontinues⟩ := h.readClients enabled ready
    obtain ⟨hsame, hcontinues'⟩ := hread.same hclients hnext
    exact ⟨hsame, hcontinues.trans hcontinues'⟩
  | seed topology now =>
    simp only [Watched.next, seedAttached]
    split
    · exact ⟨h, .refl pool⟩
    · cases topology with
      | none => exact h.same rfl rfl
      | some panes =>
        obtain ⟨hclients, hnext, -⟩ := marks_clients (pool.owed panes) now { pool with newlyAttached := [] }
        exact h.same hclients hnext
  | recheck panes now =>
    obtain ⟨hclients, hnext, -⟩ := marks_clients panes now pool
    exact h.same hclients hnext
  | tick now nowEpoch sweep =>
    obtain ⟨hclients, hnext, -⟩ := emits_clients (pool.quiet now) nowEpoch pool
    exact h.same hclients hnext
  | drain => exact h.same rfl rfl
  | reload quietThreshold => exact h.same rfl rfl
  | reconcile sessions spawned => exact h.reconcile sessions spawned

theorem Numbered.run (ops : List PoolOp) {s : Watched} (h : s.pool.Numbered) :
    (Run.run Watched.step s ops).pool.Numbered ∧ s.pool.Continues (Run.run Watched.step s ops).pool := by
  induction ops generalizing s with
  | nil => exact ⟨h, .refl s.pool⟩
  | cons op rest ih =>
    obtain ⟨hone, hcontinues⟩ := h.next op
    obtain ⟨hrest, hcontinues'⟩ := ih (s := s.step op) hone
    exact ⟨hrest, hcontinues.trans hcontinues'⟩

end ControlPool

/-- **A serial names one client** for the pool's whole life: of two clients with one serial, however far apart, the
later is the same session's, still dead if it was, and still attached if it was. -/
theorem serial_names_client (threshold : Nat) (before after : List PoolOp) :
    ∀ e ∈ (Run.run Watched.step (Watched.start threshold) before).pool.clients,
      ∀ e' ∈ (Run.run Watched.step (Watched.start threshold) (before ++ after)).pool.clients,
        e.2.serial = e'.2.serial →
          e.1 = e'.1 ∧ (e.2.dead = true → e'.2.dead = true) ∧ (e.2.attached = true → e'.2.attached = true) := by
  intro e he e' he' hserial
  have hfresh : (Watched.start threshold).pool.Numbered :=
    ⟨List.nodup_nil, List.nodup_nil, fun _ h => absurd h List.not_mem_nil⟩
  obtain ⟨hnumbered, -⟩ := hfresh.run before
  obtain ⟨-, hcontinues⟩ := hnumbered.run after
  rw [← Run.run_append] at hcontinues
  rcases hcontinues.client e' he' with hnew | ⟨old, hold, hsession, hold', hdead, hattached⟩
  · have hbelow := hnumbered.below e he
    omega
  · have hsame : old = e := List.inj_on_of_nodup_map hnumbered.serials hold he (hold'.trans hserial.symm)
    rw [hsame] at hsession hdead hattached
    exact ⟨hsession, hdead, hattached⟩

/-- A client for session 7 is the same one when it says its first byte. -/
theorem serial_names_client_first_byte :
    ∃ e ∈ (Run.run Watched.step (Watched.start quietThreshold) [.reconcile (some [7]) fun _ => true]).pool.clients,
      ∃ e' ∈ (Run.run Watched.step (Watched.start quietThreshold)
        ([.reconcile (some [7]) fun _ => true] ++ [.dispatch false [(7, [.data [37]])] 5])).pool.clients,
        e.2.serial = 1 ∧ e'.2.serial = 1 ∧ e.1 = e'.1 := by
  have hfirst : ((7 : SessionId), ({ serial := 1 } : ControlClient)) ∈
      (Run.run Watched.step (Watched.start quietThreshold) [.reconcile (some [7]) fun _ => true]).pool.clients := by
    decide
  have hlater : ∃ e' ∈ (Run.run Watched.step (Watched.start quietThreshold)
      ([.reconcile (some [7]) fun _ => true] ++ [.dispatch false [(7, [.data [37]])] 5])).pool.clients,
      e'.2.serial = 1 := by
    decide
  obtain ⟨e', he', hserial⟩ := hlater
  exact ⟨_, hfirst, e', he', rfl, hserial, (serial_names_client quietThreshold [.reconcile (some [7]) fun _ => true]
    [.dispatch false [(7, [.data [37]])] 5] _ hfirst e' he' hserial.symm).1⟩

/-! ## The look a session is owed -/

/-- The operation looks: a listing that came back, with panes in it or not. -/
def PoolOp.looks : PoolOp → Bool
  | .seed (some _) _ => true
  | _ => false

namespace ControlPool

def hasAttached (pool : ControlPool) (session : SessionId) : Bool := pool.clients.any fun e => e.1 == session && e.2.attached

theorem hasAttached_iff {pool : ControlPool} {session : SessionId} :
    pool.hasAttached session = true ↔ ∃ e ∈ pool.clients, e.1 = session ∧ e.2.attached = true := by
  simp only [hasAttached, List.any_eq_true, Bool.and_eq_true, beq_iff_eq]

/-- What was owed still is, and so is what has attached since. -/
structure Owes (pool later : ControlPool) : Prop where
  still : ∀ session ∈ pool.newlyAttached, session ∈ later.newlyAttached
  attached : ∀ e ∈ later.clients, e.2.attached = true →
    e.1 ∈ later.newlyAttached ∨ ∃ old ∈ pool.clients, old.1 = e.1 ∧ old.2.attached = true

theorem Owes.refl (pool : ControlPool) : Owes pool pool :=
  ⟨fun _ h => h, fun e he hattached => .inr ⟨e, he, rfl, hattached⟩⟩

theorem Owes.trans {a b c : ControlPool} (h : Owes a b) (h' : Owes b c) : Owes a c := by
  refine ⟨fun session hs => h'.still session (h.still session hs), fun e he hattached => ?_⟩
  rcases h'.attached e he hattached with howed | ⟨mid, hmid, hsession, hmid'⟩
  · exact .inl howed
  · rcases h.attached mid hmid hmid' with howed | ⟨old, hold, hsession', hold'⟩
    · rw [hsession] at howed
      exact .inl (h'.still _ howed)
    · exact .inr ⟨old, hold, hsession'.trans hsession, hold'⟩

variable {pool later : ControlPool}

/-- Clients are let go, or join before they have attached. -/
theorem Owes.of_clients (howed : later.newlyAttached = pool.newlyAttached)
    (hclients : ∀ e ∈ later.clients, e ∈ pool.clients ∨ e.2.attached = false) : Owes pool later := by
  refine ⟨fun session hs => by rw [howed]; exact hs, fun e he hattached => ?_⟩
  rcases hclients e he with hold | hfresh
  · exact .inr ⟨e, hold, rfl, hattached⟩
  · rw [hattached] at hfresh
    cases hfresh

theorem Owes.readClient (pool : ControlPool) (enabled : Bool) (session : SessionId) (reads : List ReadResult) :
    Owes pool (pool.readClient enabled session reads).1 := by
  unfold ControlPool.readClient
  cases hget : Assoc.get? pool.clients session with
  | none => exact .refl pool
  | some client =>
    have hmem := Assoc.mem_of_get? hget
    constructor
    · intro s hs
      dsimp only
      split
      · exact List.mem_append_left _ hs
      · exact hs
    · intro e he hattached
      rcases Assoc.mem_set he with he | rfl
      · exact .inr ⟨e, he, rfl, hattached⟩
      · dsimp only at hattached ⊢
        cases hclient : client.attached with
        | true => exact .inr ⟨_, hmem, rfl, hclient⟩
        | false =>
          rw [hattached, Bool.not_false, Bool.and_self, if_pos rfl]
          exact .inl (List.mem_append_right _ List.mem_cons_self)

theorem Owes.readClients (pool : ControlPool) (enabled : Bool) (ready : List (SessionId × List ReadResult)) :
    Owes pool (pool.readClients enabled ready).1 := by
  induction ready generalizing pool with
  | nil => exact .refl pool
  | cons e rest ih => exact (Owes.readClient pool enabled e.1 e.2).trans (ih (pool.readClient enabled e.1 e.2).1)

theorem Owes.attach (spawned : SessionId → Bool) (pool : ControlPool) (session : SessionId) :
    Owes pool (ControlPool.attach spawned pool session) := by
  unfold ControlPool.attach
  split
  next =>
    refine .of_clients rfl fun e he => ?_
    rcases Assoc.mem_set he with he | rfl
    · exact .inl he
    · exact .inr rfl
  next => exact .refl pool

theorem Owes.attaches (spawned : SessionId → Bool) (sessions : List SessionId) (pool : ControlPool) :
    Owes pool (sessions.foldl (ControlPool.attach spawned) pool) := by
  induction sessions generalizing pool with
  | nil => exact .refl pool
  | cons session rest ih => exact (Owes.attach spawned pool session).trans (ih _)

theorem Owes.reconcile (pool : ControlPool) (sessions : Option (List SessionId)) (spawned : SessionId → Bool) :
    Owes pool (pool.reconcile sessions spawned) := by
  cases sessions with
  | none => exact .of_clients rfl fun e he => .inl (List.mem_filter.mp he).1
  | some sessions =>
    have hkept : Owes pool
        { pool with
          clients := (pool.clients.filter fun e => !e.2.dead).filter fun e => sessions.contains e.1
          recoveries := if pool.everPopulated &&
              ((pool.clients.filter fun e => !e.2.dead).filter fun e => sessions.contains e.1).isEmpty && !sessions.isEmpty
            then pool.recoveries + 1 else pool.recoveries } :=
      .of_clients rfl fun e he => .inl (List.mem_filter.mp (List.mem_filter.mp he).1).1
    have hall := hkept.trans (Owes.attaches spawned sessions _)
    exact ⟨hall.still, hall.attached⟩

/-- Every operation but a look owes what it did. -/
theorem Owes.next (pool : ControlPool) (op : PoolOp) (h : op.looks = false) : Owes pool (Watched.next pool op) := by
  have hsame : ∀ later : ControlPool, later.clients = pool.clients → later.newlyAttached = pool.newlyAttached →
      Owes pool later := fun later hclients howed =>
    .of_clients howed fun e he => .inl (by rw [← hclients]; exact he)
  cases op with
  | rehash active => exact hsame _ rfl rfl
  | dispatch enabled ready now =>
    obtain ⟨hclients, -, howed⟩ := dispatch_clients enabled ready now pool
    exact (Owes.readClients pool enabled ready).trans (.of_clients howed fun e he => .inl (by rw [← hclients]; exact he))
  | seed topology now =>
    cases topology with
    | some panes => cases h
    | none =>
      simp only [Watched.next, seedAttached]
      split
      · exact .refl pool
      · exact hsame _ rfl rfl
  | recheck panes now =>
    obtain ⟨hclients, -, howed⟩ := marks_clients panes now pool
    exact hsame _ hclients howed
  | tick now nowEpoch sweep =>
    obtain ⟨hclients, -, howed⟩ := emits_clients (pool.quiet now) nowEpoch pool
    exact hsame _ hclients howed
  | drain => exact hsame _ rfl rfl
  | reload quietThreshold => exact hsame _ rfl rfl
  | reconcile sessions spawned => exact .reconcile pool sessions spawned

theorem Owes.run (ops : List PoolOp) (s : Watched) (h : ∀ op ∈ ops, op.looks = false) :
    Owes s.pool (Run.run Watched.step s ops).pool := by
  induction ops generalizing s with
  | nil => exact .refl s.pool
  | cons op rest ih =>
    have hone := Owes.next s.pool op (h op List.mem_cons_self)
    exact hone.trans (ih (s.step op) fun o ho => h o (List.mem_cons_of_mem _ ho))

/-- A look leaves the clients. -/
theorem hasAttached_look (pool : ControlPool) (op : PoolOp) (h : op.looks = true) (session : SessionId) :
    (Watched.next pool op).hasAttached session = pool.hasAttached session := by
  cases op with
  | seed topology now =>
    cases topology with
    | none => cases h
    | some panes =>
      simp only [Watched.next, seedAttached, hasAttached]
      split
      · rfl
      · rw [(marks_clients (pool.owed panes) now { pool with newlyAttached := [] }).1]
  | _ => cases h

theorem get?_marks (panes : List Text) (now : Nat) (pool : ControlPool) (pane : Text) :
    Assoc.get? (panes.foldl (markActive · now) pool).active pane =
      if pane ∈ panes then some now else Assoc.get? pool.active pane := by
  induction panes generalizing pool with
  | nil => rw [if_neg List.not_mem_nil, List.foldl_nil]
  | cons first rest ih =>
    rw [List.foldl_cons, ih]
    by_cases hrest : pane ∈ rest
    · rw [if_pos hrest, if_pos (List.mem_cons_of_mem _ hrest)]
    · rw [if_neg hrest]
      by_cases hfirst : pane = first
      · rw [if_pos (hfirst ▸ List.mem_cons_self), hfirst]
        exact Assoc.get?_set_self
      · rw [if_neg fun hmem => hrest ((List.mem_cons.mp hmem).resolve_left hfirst)]
        exact Assoc.get?_set_other hfirst

end ControlPool

/-- **The look a session is owed.** However much later the first listing comes back, and whatever happened between
(failed listings, ticks, the client's death), it gives every pane of a session whose client had attached a fresh
activity. -/
theorem attach_seeded (threshold : Nat) (before between : List PoolOp) (op : PoolOp) (session : SessionId)
    (panes : List (SessionId × PaneId)) (now : Nat)
    (hbefore : (Run.run Watched.step (Watched.start threshold) before).pool.hasAttached session = false)
    (hafter : (Run.run Watched.step (Watched.start threshold) (before ++ [op])).pool.hasAttached session = true)
    (hbetween : ∀ o ∈ between, o.looks = false) :
    ∀ pane, (session, pane) ∈ panes →
      Assoc.get? (Run.run Watched.step (Watched.start threshold) (before ++ op :: between ++ [.seed (some panes) now])).pool.active
        (paneText pane) = some now := by
  intro pane hpane
  generalize hs : Run.run Watched.step (Watched.start threshold) before = s at *
  have hstep : Run.run Watched.step (Watched.start threshold) (before ++ [op]) = s.step op := by
    rw [Run.run_append, hs]
    rfl
  rw [hstep] at hafter
  have howed : session ∈ (s.step op).pool.newlyAttached := by
    obtain ⟨e, he, rfl, hattached⟩ := ControlPool.hasAttached_iff.mp hafter
    have hlooks : op.looks = false := by
      by_contra hlook
      have hclients := ControlPool.hasAttached_look s.pool op (Bool.eq_true_of_not_eq_false hlook) e.1
      have hboth := (ControlPool.hasAttached_iff.mpr ⟨e, he, rfl, hattached⟩).symm.trans (hclients.trans hbefore)
      cases hboth
    rcases (ControlPool.Owes.next s.pool op hlooks).attached e he hattached with howed | ⟨old, hold, hsession, hold'⟩
    · exact howed
    · rw [ControlPool.hasAttached_iff.mpr ⟨old, hold, hsession, hold'⟩] at hbefore
      cases hbefore
  have howed' := (ControlPool.Owes.run between (s.step op) hbetween).still session howed
  have hrun : Run.run Watched.step (Watched.start threshold) (before ++ op :: between ++ [.seed (some panes) now]) =
      (Run.run Watched.step (s.step op) between).step (.seed (some panes) now) := by
    rw [Run.run_append, Run.run_append, hs]
    rfl
  rw [hrun]
  generalize Run.run Watched.step (s.step op) between = later at *
  have hseed : (later.step (.seed (some panes) now)).pool =
      (later.pool.owed panes).foldl (ControlPool.markActive · now) { later.pool with newlyAttached := [] } := by
    show later.pool.seedAttached (some panes) now = _
    unfold ControlPool.seedAttached
    rw [if_neg]
    intro hempty
    rw [List.isEmpty_iff.mp hempty] at howed'
    exact List.not_mem_nil howed'
  rw [hseed, ControlPool.get?_marks, if_pos]
  refine List.mem_map.mpr ⟨(session, pane), List.mem_filter.mpr ⟨hpane, ?_⟩, rfl⟩
  exact List.contains_iff_mem.mpr howed'

/-- A client for session 7 says its first byte, a listing fails, and the next one has pane 3 in it. -/
theorem attach_seeded_second_listing :
    (7, 3) ∈ [((7 : SessionId), (3 : PaneId))] ∧
      Assoc.get? (Run.run Watched.step (Watched.start quietThreshold)
        ([.reconcile (some [7]) fun _ => true] ++ .dispatch false [(7, [.data [37]])] 5 :: [.seed none 6] ++
          [.seed (some [(7, 3)]) 9])).pool.active (paneText 3) = some 9 :=
  ⟨by decide, attach_seeded quietThreshold [.reconcile (some [7]) fun _ => true] [.seed none 6]
    (.dispatch false [(7, [.data [37]])] 5) 7 [(7, 3)] 9 (by decide) (by decide) (by decide) 3 (by decide)⟩

end TmuxAgents.Control
