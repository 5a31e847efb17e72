/-
Fetching one event by its cursor (`Reader::body`).

A cursor is handed out by a page or a tail and comes back after the file has grown. Every cursor
handed out addresses a line start (`Serving.Inv`), and a line that is finished stays where it is
and what it is: the event it was handed out for is the one it fetches (`body_of_issued`).
-/
import TmuxAgents.Transcript.Paging

namespace TmuxAgents.Transcript

open Lines

inductive BodyRefusal
  | refused (refusal : Refusal)
  | recordTooLarge (max : Nat)
deriving DecidableEq

/-- The flag of `read_record`: the newline was found, or the file ends here. -/
def recordComplete (bytes : Bytes) (offset size : Nat) : Bool :=
  let stop := min size (offset + maxRecordBytes)
  (position newline (readRange bytes offset stop)).isSome || stop == size

section

variable {Kind Session : Type} (adapters : Adapters Kind Session)

/-- `Reader::body`, of the file the stat saw and the file the read opened. -/
def Reader.body (reader : Reader) (source : Source) (statted opened : Option File) (cursor : Cursor) :
    Reader × Except BodyRefusal (Event Kind) :=
  if !source.store.isFileStore then (reader, .error (.refused (.forStore source.store)))
  else match stat source statted with
    | .error refusal => (reader, .error (.refused refusal))
    | .ok stat =>
      match validate cursor stat with
      | .error refusal => (reader, .error (.refused refusal))
      | .ok _ =>
        match opened with
        | none => (reader, .error (.refused .io))
        | some file =>
          if !recordComplete file.bytes cursor.offset stat.size then (reader, .error (.recordTooLarge maxRecordBytes))
          else
            let line := readRecord file.bytes cursor.offset stat.size
            let (events, unknown) := mapLine adapters source.store stat.id stat.size line cursor.offset
            ({ reader with unknown := reader.unknown + unknown },
              match events[cursor.part]? with
              | some event => .ok event
              | none => .error (.refused .cursorInvalid))

end

/-! ## Records -/

/-- The record at an offset, once its newline is written. -/
def recordAt (bytes : Bytes) (offset : Nat) : Option Bytes :=
  (position newline (bytes.drop offset)).map fun i => (bytes.drop offset).take (i + 1)

theorem recordAt_eq_some {bytes record : Bytes} {offset : Nat} :
    recordAt bytes offset = some record ↔
      ∃ front rest, bytes.drop offset = (front ++ [newline]) ++ rest ∧ newline ∉ front ∧ record = front ++ [newline] := by
  constructor
  · intro h
    obtain ⟨i, hi, rfl⟩ := Option.map_eq_some_iff.mp h
    obtain ⟨front, rest, heq, hfront, rfl⟩ := position_eq_some.mp hi
    have hcut : bytes.drop offset = (front ++ [newline]) ++ rest := by rw [heq, List.append_assoc]; rfl
    refine ⟨front, rest, hcut, hfront, ?_⟩
    rw [hcut]
    exact List.take_left' List.length_append
  · rintro ⟨front, rest, hcut, hfront, rfl⟩
    have hpos : position newline (bytes.drop offset) = some front.length :=
      position_eq_some.mpr ⟨front, rest, by rw [hcut, List.append_assoc]; rfl, hfront, rfl⟩
    rw [recordAt, hpos, Option.map_some, hcut]
    exact congrArg some (List.take_left' List.length_append)

/-- A record that is written stays. -/
theorem recordAt_prefix {bytes longer record : Bytes} {offset : Nat} (hgrown : bytes <+: longer)
    (h : recordAt bytes offset = some record) : recordAt longer offset = some record := by
  obtain ⟨front, rest, hcut, hfront, rfl⟩ := recordAt_eq_some.mp h
  obtain ⟨more, rfl⟩ := hgrown
  refine recordAt_eq_some.mpr ⟨front, rest ++ more, ?_, hfront, rfl⟩
  have hle : offset ≤ bytes.length := by
    by_contra hlt
    rw [List.drop_eq_nil_of_le (by omega)] at hcut
    simp at hcut
  rw [List.drop_append_of_le_length hle, hcut, List.append_assoc]

/-- A record within the cap is read whole, as far as the file was when it was looked at. -/
theorem readRecord_of_recordAt {bytes record : Bytes} {offset size : Nat}
    (h : recordAt (bytes.take size) offset = some record) (hcap : record.length ≤ maxRecordBytes) :
    readRecord bytes offset size = record ∧ recordComplete bytes offset size = true := by
  obtain ⟨front, rest, hcut, hfront, rfl⟩ := recordAt_eq_some.mp h
  have hbuf : readRange bytes offset (min size (offset + maxRecordBytes)) =
      ((bytes.take size).drop offset).take maxRecordBytes := by
    rw [readRange, List.drop_take, List.take_take]
    congr 1
    omega
  rw [hcut, List.take_append, List.take_of_length_le hcap, List.append_assoc] at hbuf
  have hpos : position newline (readRange bytes offset (min size (offset + maxRecordBytes))) = some front.length :=
    position_eq_some.mpr ⟨front, _, hbuf, hfront, rfl⟩
  constructor
  · unfold readRecord
    simp only [hpos]
    rw [hbuf, ← List.append_assoc]
    exact List.take_left' List.length_append
  · unfold recordComplete
    simp only [hpos, Option.isSome_some, Bool.true_or]

/-! ## Where an event comes from -/

/-- An event of a line of the file, or of what was there of it: all of it where it is finished and within the cap. -/
structure Sourced {Kind Session : Type} (adapters : Adapters Kind Session) (store : Store) (id : FileId) (bytes : Bytes)
    (event : Event Kind) (line : Bytes) (k : Nat) : Prop where
  mapped : ∃ size ≤ bytes.length, (mapLine adapters store id size line event.cursor.offset).1[k]? = some event
  start : Whole newline (bytes.take event.cursor.offset)
  inside : event.cursor.offset < bytes.length
  record : ∀ record, recordAt bytes event.cursor.offset = some record → record.length ≤ maxRecordBytes → line = record

/-- A walk is at a line start, or at the end of the file. -/
def Stopped (bytes : Bytes) (stop : Nat) : Prop := Whole newline (bytes.take stop) ∨ stop = bytes.length

section

variable {Kind Session : Type} {adapters : Adapters Kind Session} {store : Store} {id : FileId} {bytes : Bytes}
  {req : WindowRequest} {acc : Accumulator Kind}

theorem sourced_of_piece {lo stop size : Nat} {event : Event Kind} (hlo : Whole newline (bytes.take lo)) (hle : lo ≤ stop)
    (hstop : Stopped bytes stop) (hsize : size ≤ bytes.length)
    (h : event ∈ (mapRange adapters store id size (readRange bytes lo stop) lo).1) :
    ∃ line k, Sourced adapters store id bytes event line k := by
  obtain ⟨n, hn⟩ := List.mem_iff_getElem?.mp h
  obtain ⟨before, line, after, k, hsplit, -, hk⟩ := mapLines_getElem adapters store id hn
  have hcursor := mapLine_cursor adapters store id hk
  have hoffset : event.cursor.offset = lo + before.flatten.length := by rw [hcursor]
  obtain ⟨hbefore, hline⟩ := splitInclusive_piece hsplit
  have hpiece : readRange bytes lo stop = before.flatten ++ (line ++ after.flatten) := by
    rw [← List.flatten_cons, ← List.flatten_append, ← hsplit, flatten_splitInclusive]
  have hne : line ≠ [] := ne_nil_of_mem (by rw [hsplit]; exact List.mem_append_right _ List.mem_cons_self)
  have hrest : bytes.drop lo = before.flatten ++ (line ++ after.flatten ++ bytes.drop stop) := by
    have hcut := List.take_append_drop (stop - lo) (bytes.drop lo)
    rw [List.drop_drop, Nat.add_sub_cancel' hle] at hcut
    rw [← hcut, ← List.append_assoc, ← hpiece]
    rfl
  have hdrop : bytes.drop event.cursor.offset = line ++ after.flatten ++ bytes.drop stop := by
    rw [hoffset, ← List.drop_drop, hrest, List.drop_left]
  have htake : bytes.take event.cursor.offset = bytes.take lo ++ before.flatten := by
    rw [hoffset, List.take_add, hrest, List.take_left]
  refine ⟨line, k, ⟨size, hsize, by rw [hoffset]; exact hk⟩, ?_, ?_, ?_⟩
  · rw [htake]
    exact hlo.append hbefore
  · by_contra hlt
    rw [List.drop_eq_nil_of_le (Nat.not_lt.mp hlt)] at hdrop
    exact hne (List.append_eq_nil_iff.mp (List.append_eq_nil_iff.mp hdrop.symm).1).1
  · intro record hrecord _
    obtain ⟨front, rest, hcut, hfront, rfl⟩ := recordAt_eq_some.mp hrecord
    rcases hline with ⟨front', rfl, hfront'⟩ | ⟨rfl, hline⟩
    · have hsame : recordAt bytes event.cursor.offset = some (front' ++ [newline]) :=
        recordAt_eq_some.mpr ⟨front', _, by rw [hdrop, List.append_assoc], hfront', rfl⟩
      exact Option.some.inj (hsame.symm.trans hrecord)
    · -- The unfinished last line of what was read: nothing of the file is behind it.
      rw [List.flatten_nil, List.append_nil] at hdrop hpiece
      rcases hstop with hstop | rfl
      · rw [← take_readRange hle, hpiece, ← List.append_assoc] at hstop
        exact absurd (hstop.of_append.eq_nil hline) hne
      · rw [List.drop_length, List.append_nil] at hdrop
        rw [← hdrop, hcut] at hline
        simp at hline

theorem sourced_of_record {offset k : Nat} {event : Event Kind} (hstart : Whole newline (bytes.take offset))
    (hinside : offset < bytes.length)
    (h : (mapLine adapters store id bytes.length (readRecord bytes offset bytes.length) offset).1[k]? = some event) :
    ∃ line k, Sourced adapters store id bytes event line k := by
  have hoffset : event.cursor.offset = offset := by rw [mapLine_cursor adapters store id h]
  subst hoffset
  refine ⟨_, k, ⟨bytes.length, Nat.le_refl _, h⟩, hstart, hinside, fun record hrecord hcap => ?_⟩
  refine (readRecord_of_recordAt ?_ hcap).1
  rw [List.take_length]
  exact hrecord

/-- An accumulator of a file's events. -/
structure Gathered (adapters : Adapters Kind Session) (store : Store) (id : FileId) (bytes : Bytes) (req : WindowRequest)
    (acc : Accumulator Kind) : Prop where
  store_eq : acc.store = store
  id_eq : acc.id = id
  size_eq : acc.size = bytes.length
  req_eq : acc.req = req
  events : ∀ event ∈ acc.events, ∃ whole line k,
    Sourced adapters store id bytes whole line k ∧ event = shown adapters req whole

theorem Gathered.new : Gathered adapters store id bytes req (Accumulator.new store id bytes.length req) :=
  ⟨rfl, rfl, rfl, rfl, fun _ h => absurd h List.not_mem_nil⟩

/-- What it has read, has seen unknown and has refused does not matter. -/
theorem Gathered.congr (h : Gathered adapters store id bytes req acc) (readBytes unknown : Nat) (truncated more : Bool) :
    Gathered adapters store id bytes req { acc with readBytes, unknown, truncated, more } :=
  ⟨h.store_eq, h.id_eq, h.size_eq, h.req_eq, h.events⟩

theorem Gathered.keep (h : Gathered adapters store id bytes req acc) (frame : Nat) {event : Event Kind} {line : Bytes}
    {k : Nat} (hevent : Sourced adapters store id bytes event line k) :
    Gathered adapters store id bytes req { acc with frame, events := acc.events ++ [shown adapters req event] } := by
  refine ⟨h.store_eq, h.id_eq, h.size_eq, h.req_eq, fun e he => ?_⟩
  rcases List.mem_append.mp he with he | he
  · exact h.events e he
  · exact ⟨event, line, k, hevent, List.mem_singleton.mp he⟩

theorem Gathered.push (h : Gathered adapters store id bytes req acc) {events : List (Event Kind)}
    (hevents : ∀ event ∈ events, ∃ line k, Sourced adapters store id bytes event line k) :
    Gathered adapters store id bytes req (acc.pushNewestFirst adapters events) := by
  induction events generalizing acc with
  | nil => exact h
  | cons event rest ih =>
    have hrest : ∀ e ∈ rest, ∃ line k, Sourced adapters store id bytes e line k :=
      fun e he => hevents e (List.mem_cons_of_mem _ he)
    obtain ⟨line, k, hevent⟩ := hevents event List.mem_cons_self
    rw [Accumulator.pushNewestFirst]
    split
    · exact ih h hrest
    · split
      · exact h.congr acc.readBytes acc.unknown acc.truncated true
      · split
        next hheaders =>
          dsimp only
          split
          · exact h.congr acc.readBytes acc.unknown true true
          · have hkeep := h.keep (acc.frame + (event.toHeader adapters acc.req.budget).headerCost) hevent
            rw [h.req_eq] at hheaders hkeep ⊢
            rw [shown, if_pos hheaders] at hkeep
            exact ih hkeep hrest
        next hheaders =>
          have hkeep := h.keep acc.frame hevent
          rw [h.req_eq] at hheaders
          rw [shown, if_neg hheaders] at hkeep
          exact ih hkeep hrest

theorem Gathered.absorb (h : Gathered adapters store id bytes req acc) {lo stop : Nat} (hlo : Whole newline (bytes.take lo))
    (hle : lo ≤ stop) (hstop : Stopped bytes stop) :
    Gathered adapters store id bytes req (acc.absorb adapters (readRange bytes lo stop) lo) := by
  refine (h.congr acc.readBytes _ acc.truncated acc.more).push fun event hevent => ?_
  rw [List.mem_reverse, h.store_eq, h.id_eq, h.size_eq] at hevent
  exact sourced_of_piece hlo hle hstop (Nat.le_refl _) hevent

/-- The last newline of what is pending ends a line of the file. -/
theorem rposition_pending {low stop i : Nat} (h : rposition newline (readRange bytes low stop) = some i) :
    low + i + 1 ≤ stop ∧ Whole newline (bytes.take (low + i + 1)) := by
  obtain ⟨front, rest, heq, -, rfl⟩ := rposition_eq_some h
  have hbound : low + front.length + 1 ≤ stop := by
    have hlength := congrArg List.length heq
    rw [readRange, List.length_take, List.length_drop, List.length_append, List.length_cons] at hlength
    omega
  have hcut : readRange bytes low (low + front.length + 1) = front ++ [newline] := by
    have hsplit : front ++ newline :: rest = (front ++ [newline]) ++ rest := by
      rw [List.append_assoc]
      rfl
    rw [← take_pending hbound, heq, hsplit]
    exact List.take_left' (by rw [List.length_append, List.length_singleton])
  refine ⟨hbound, ?_⟩
  rw [← take_readRange (by omega : low ≤ low + front.length + 1), hcut, ← List.append_assoc]
  exact .inr ⟨_, rfl⟩

/-- A walk gathers events of the file, wherever it ends. -/
theorem scan_gathered {lo stop : Nat} {pending : Bytes} {first : Bool} (h : Gathered adapters store id bytes req acc)
    (hle : lo ≤ stop) (hlen : stop ≤ bytes.length) (hstop : Stopped bytes stop) (hpending : pending = readRange bytes lo stop) :
    Gathered adapters store id bytes req (scan adapters bytes lo pending first acc).1 := by
  induction lo using Nat.strong_induction_on generalizing pending first acc stop with
  | _ lo ih =>
    rw [scan]
    split
    · exact h
    split
    · exact h
    split
    · exact h.congr acc.readBytes acc.unknown true acc.more
    rename_i hzero hfull hread
    have hlow : lo - min chunkBytes (acc.req.budget.readBytes - acc.readBytes) < lo := by simp only [chunkBytes]; omega
    generalize hlowdef : lo - min chunkBytes (acc.req.budget.readBytes - acc.readBytes) = low at hlow
    have hjoin : readRange bytes low lo ++ pending = readRange bytes low stop := by
      rw [hpending, readRange_append (Nat.le_of_lt hlow) hle]
    have hnext := h.congr (acc.readBytes + (readRange bytes low lo).length) acc.unknown acc.truncated acc.more
    -- The lines of what is pending, once its end is right.
    have hround : ∀ {stop'}, low ≤ stop' → stop' ≤ bytes.length → Stopped bytes stop' → ∀ {found : Option Nat},
        (if low = 0 then some 0 else (position newline (readRange bytes low stop')).map (· + 1)) = found →
        Gathered adapters store id bytes req (found.elim
          (scan adapters bytes low (readRange bytes low stop') false
            { acc with readBytes := acc.readBytes + (readRange bytes low lo).length })
          (fun bodyStart => scan adapters bytes low ((readRange bytes low stop').take bodyStart) false
            (Accumulator.absorb adapters { acc with readBytes := acc.readBytes + (readRange bytes low lo).length }
              ((readRange bytes low stop').drop bodyStart) (low + bodyStart)))).1 := by
      rintro stop' hle' hlen' hstop' found rfl
      by_cases hhead : low = 0
      · subst hhead
        simp only [if_true, Option.elim_some, List.drop_zero, List.take_zero]
        exact ih 0 hlow (hnext.absorb (.inl List.take_zero) (Nat.zero_le _) hstop') (Nat.le_refl 0) (Nat.zero_le _)
          (.inl (.inl List.take_zero)) (by rw [readRange, Nat.sub_self, List.take_zero])
      · simp only [if_neg hhead]
        cases hpos : position newline (readRange bytes low stop') with
        | none => exact ih low hlow hnext hle' hlen' hstop' rfl
        | some i =>
          obtain ⟨hbound, hwhole, -⟩ := position_pending hlen' hpos
          simp only [Option.map_some, Option.elim_some, take_pending hbound, drop_pending]
          exact ih low hlow (hnext.absorb hwhole hbound hstop') (by omega) (Nat.le_trans hbound hlen') (.inl hwhole) rfl
    have hlowle : low ≤ stop := Nat.le_trans (Nat.le_of_lt hlow) hle
    simp only [hlowdef, hjoin]
    cases first with
    | false =>
      simp only [Bool.false_eq_true, if_false]
      split
      next heq => exact hround hlowle hlen hstop heq
      next heq => exact hround hlowle hlen hstop heq
    | true =>
      cases hpos : rposition newline (readRange bytes low stop) with
      | none =>
        simp only [if_true]
        by_cases hhead : 0 < low
        · rw [if_pos hhead]
          exact ih low hlow hnext hlowle hlen hstop rfl
        · rw [if_neg hhead]
          dsimp only
          split
          next heq => exact hround hlowle hlen hstop heq
          next heq => exact hround hlowle hlen hstop heq
      | some i =>
        obtain ⟨hbound, hwhole⟩ := rposition_pending hpos
        simp only [if_true, take_pending hbound]
        split
        next heq => exact hround (by omega) (Nat.le_trans hbound hlen) (.inl hwhole) heq
        next heq => exact hround (by omega) (Nat.le_trans hbound hlen) (.inl hwhole) heq

end

/-! ## What is handed out -/

/-- A body, or a header. -/
def presented {Kind Session : Type} (adapters : Adapters Kind Session) (headers : Option Budget) (event : Event Kind) :
    Event Kind :=
  headers.elim event (event.toHeader adapters ·)

/-- An event as a client got it, and the file as it was then. -/
structure Issued (Kind : Type) where
  event : Event Kind
  headers : Option Budget
  bytes : Bytes

section

variable {Kind Session : Type} {adapters : Adapters Kind Session}

theorem presented_cursor (headers : Option Budget) (event : Event Kind) :
    (presented adapters headers event).cursor = event.cursor := by
  cases headers with
  | none => rfl
  | some budget => rfl

theorem presented_unsized (headers : Option Budget) (event : Event Kind) :
    (presented adapters headers event).unsized = presented adapters headers event.unsized := by
  cases headers with
  | none => rfl
  | some budget => rfl

/-- It is an event of the file, and it addresses the record it is of. -/
def Issued.Genuine (adapters : Adapters Kind Session) (store : Store) (id : FileId) (issued : Issued Kind) : Prop :=
  ∃ whole line k, Sourced adapters store id issued.bytes whole line k ∧
    issued.event = presented adapters issued.headers whole

theorem Issued.Genuine.cursor {store : Store} {id : FileId} {issued : Issued Kind}
    (h : issued.Genuine adapters store id) :
    issued.event.cursor.file = id ∧ issued.event.cursor.size ≤ issued.bytes.length ∧
      issued.event.cursor.offset < issued.bytes.length ∧
      Whole newline (issued.bytes.take issued.event.cursor.offset) := by
  obtain ⟨whole, line, k, hsourced, hevent⟩ := h
  obtain ⟨size, hsize, hmapped⟩ := hsourced.mapped
  have hcursor := mapLine_cursor adapters store id hmapped
  rw [hevent, presented_cursor]
  refine ⟨?_, ?_, hsourced.inside, hsourced.start⟩
  · rw [hcursor]
  · rw [hcursor]
    exact hsize

/-- A page of a file, from its end or from behind a line start. -/
theorem window_genuine {reader : Reader} {source : Source} {file : File} {req : WindowRequest}
    {window : Window Kind Session} (hbefore : ∀ c, req.before = some c → Whole newline (file.bytes.take c.offset))
    (h : (reader.window adapters source (some file) req).2 = .ok window) {event : Event Kind} (hevent : event ∈ window.events) :
    Issued.Genuine adapters source.store file.id
      { event, headers := if req.headersOnly then some req.budget else none, bytes := file.bytes } := by
  have hgathered : Gathered adapters source.store file.id file.bytes req
      (scan adapters file.bytes (req.before.elim file.bytes.length Cursor.offset) [] true
        (startWindow adapters source.store file.memo file.bytes req)).1 ∧
      window.events = (scan adapters file.bytes (req.before.elim file.bytes.length Cursor.offset) [] true
        (startWindow adapters source.store file.memo file.bytes req)).1.events := by
    unfold Reader.window at h
    split at h
    · cases h
    split at h
    · cases h
    rename_i hstat
    split at h
    · cases h
    rename_i hvalid
    have hmemo : file.memo = ‹FileMemo› := by
      unfold stat at hstat
      split at hstat
      · cases hstat
      · exact Except.ok.inj hstat
    subst hmemo
    refine ⟨?_, by rw [← Except.ok.inj h]; rfl⟩
    cases hreq : req.before with
    | none =>
      have hstart : startWindow adapters source.store file.memo file.bytes req =
          (Accumulator.new source.store file.id file.bytes.length req : Accumulator Kind) := by
        simp only [startWindow, hreq]
        rfl
      rw [hstart]
      refine scan_gathered Gathered.new (Nat.le_refl _) (Nat.le_refl _) (.inr rfl) ?_
      rw [Option.elim_none, readRange, Nat.sub_self, List.take_zero]
    | some c =>
      rw [hreq, Option.elim_some] at hvalid
      have hinside : c.offset < file.bytes.length := by
        unfold validate at hvalid
        split at hvalid
        next hc => exact hc.2.2
        next => cases hvalid
      have hwhole := hbefore c hreq
      have hstart : Gathered adapters source.store file.id file.bytes req
          (startWindow adapters source.store file.memo file.bytes req) := by
        simp only [startWindow, hreq]
        split
        · refine Gathered.push (Gathered.new.congr _ _ false false) fun event hevent => ?_
          have hmem := List.mem_of_mem_take (List.mem_reverse.mp hevent)
          obtain ⟨k, hk⟩ := List.mem_iff_getElem?.mp hmem
          exact sourced_of_record hwhole hinside hk
        · exact Gathered.new
      refine scan_gathered hstart (Nat.le_refl _) (Nat.le_of_lt hinside) (.inl hwhole) ?_
      rw [readRange, Nat.sub_self, List.take_zero]
  obtain ⟨hgathered, hevents⟩ := hgathered
  rw [hevents] at hevent
  obtain ⟨whole, line, k, hsourced, rfl⟩ := hgathered.events event hevent
  refine ⟨whole, line, k, hsourced, ?_⟩
  unfold shown presented
  split <;> rfl

theorem readRange_take {bytes : Bytes} {lo stop n : Nat} (h : n ≤ stop - lo) :
    (readRange bytes lo stop).take n = readRange bytes lo (lo + n) := by
  rw [readRange, readRange, List.take_take, Nat.min_eq_left h, Nat.add_sub_cancel_left]

/-- A poll answers nothing, or reads on from a line start to a line start. -/
theorem tail_cases (adapters : Adapters Kind Session) (reader : Reader) (source : Source) (statted opened : File) (budget : Budget) :
    ((reader.tail adapters source (some statted) (some opened) budget).1 = reader ∧
        Tail.events (reader.tail adapters source (some statted) (some opened) budget).2 = []) ∨
      ∃ offset ≤ statted.bytes.length, ∃ stop, (offset = 0 ∨ reader.offsets statted.id = some offset) ∧
        offset ≤ stop ∧ stop ≤ max offset opened.bytes.length ∧ Whole newline (readRange opened.bytes offset stop) ∧
        (reader.tail adapters source (some statted) (some opened) budget).1.offsets =
          Function.update reader.offsets statted.id (some stop) ∧
        Tail.events (reader.tail adapters source (some statted) (some opened) budget).2 =
          (mapRange adapters source.store statted.id statted.bytes.length (readRange opened.bytes offset stop) offset).1 := by
  unfold Reader.tail
  split
  · exact .inl ⟨rfl, rfl⟩
  split
  · exact .inl ⟨rfl, rfl⟩
  rename_i hstat
  have hmemo : statted.memo = ‹FileMemo› := by
    unfold stat at hstat
    split at hstat
    · cases hstat
    · exact Except.ok.inj hstat
  subst hmemo
  split
  · exact .inl ⟨rfl, rfl⟩
  refine .inr ⟨if statted.bytes.length < (reader.offsets statted.id).getD 0 then 0 else (reader.offsets statted.id).getD 0,
    ?_, ?_⟩
  · split <;> omega
  generalize hoffset : (if statted.bytes.length < (reader.offsets statted.id).getD 0 then 0
    else (reader.offsets statted.id).getD 0) = offset
  have hread : (if decide (statted.memo.size < (reader.offsets statted.memo.id).getD 0) then 0
      else (reader.offsets statted.memo.id).getD 0) = offset := by
    rw [← hoffset]
    simp only [decide_eq_true_eq]
    rfl
  simp only [hread]
  generalize readEnd offset statted.memo.size budget.readBytes = stop
  have hcomplete := completeLen_le newline (readRange opened.bytes offset stop)
  have hbuf : (readRange opened.bytes offset stop).length = min (stop - offset) (opened.bytes.length - offset) := by
    rw [readRange, List.length_take, List.length_drop]
  have htake : (readRange opened.bytes offset stop).take (completeLen newline (readRange opened.bytes offset stop)) =
      readRange opened.bytes offset (offset + completeLen newline (readRange opened.bytes offset stop)) :=
    readRange_take (by omega)
  refine ⟨offset + completeLen newline (readRange opened.bytes offset stop), ?_, Nat.le_add_right _ _, by omega, ?_, rfl, ?_⟩
  · rw [← hoffset]
    split
    · exact .inl rfl
    · cases hstored : reader.offsets statted.id with
      | none => exact .inl rfl
      | some stored => exact .inr rfl
  · rw [← htake]
    exact (complete_split newline _).1
  · rw [← htake]
    rfl

/-- A poll of a file that may have grown since its stat. -/
theorem tail_genuine (adapters : Adapters Kind Session) {reader : Reader} {source : Source} {statted opened : File} {budget : Budget}
    (hgrown : statted.bytes <+: opened.bytes)
    (hoffset : ∀ offset, reader.offsets statted.id = some offset → Whole newline (statted.bytes.take offset))
    {event : Event Kind} (hevent : event ∈ Tail.events (reader.tail adapters source (some statted) (some opened) budget).2) :
    Issued.Genuine adapters source.store statted.id { event, headers := none, bytes := opened.bytes } := by
  rcases tail_cases adapters reader source statted opened budget with
    ⟨-, hnone⟩ | ⟨offset, hle, stop, hfrom, hstop, -, hwhole, -, hevents⟩
  · rw [hnone] at hevent
    cases hevent
  · rw [hevents] at hevent
    have hstart : Whole newline (opened.bytes.take offset) := by
      obtain ⟨more, hmore⟩ := hgrown
      rw [← hmore, List.take_append_of_le_length hle]
      rcases hfrom with rfl | hfrom
      · exact .inl List.take_zero
      · exact hoffset offset hfrom
    have hend : Whole newline (opened.bytes.take stop) := by
      rw [← take_readRange hstop]
      exact hstart.append hwhole
    obtain ⟨line, k, hsourced⟩ := sourced_of_piece hstart hstop (.inl hend) hgrown.length_le hevent
    exact ⟨event, line, k, hsourced, rfl⟩

end

/-! ## A file that is read while it grows -/

inductive Request
  | append (growth : Growth)
  | window (req : WindowRequest)
  | tail (budget : Budget) (late : Option Growth)
  | body (cursor : Cursor) (late : Option Growth)

/-- The reader, the file, and what was handed out. -/
structure Serving (Kind : Type) where
  reader : Reader
  file : File
  issued : List (Issued Kind)

namespace Serving

variable {Kind Session : Type} (adapters : Adapters Kind Session) (source : Source)

def start (file : File) : Serving Kind := { reader := Reader.new, file, issued := [] }

/-- What a page hands out. -/
def pageEvents (result : Except Refusal (Window Kind Session)) : List (Event Kind) :=
  match result with
  | .ok window => window.events
  | .error _ => []

def step (s : Serving Kind) : Request → Serving Kind
  | .append growth => { s with file := s.file.grow growth }
  | .window req =>
    let (reader, result) := s.reader.window adapters source (some s.file) req
    { s with
      reader
      issued := s.issued ++ (pageEvents result).map fun event =>
        { event, headers := if req.headersOnly then some req.budget else none, bytes := s.file.bytes } }
  | .tail budget late =>
    let opened := late.elim s.file s.file.grow
    let (reader, result) := s.reader.tail adapters source (some s.file) (some opened) budget
    { reader
      file := opened
      issued := s.issued ++ (Tail.events result).map fun event => { event, headers := none, bytes := opened.bytes } }
  | .body cursor late =>
    let opened := late.elim s.file s.file.grow
    { s with reader := (s.reader.body adapters source (some s.file) (some opened) cursor).1, file := opened }

/-- The client pages by cursors it was given. -/
def Returned (s : Serving Kind) : Request → Prop
  | .window req => ∀ c, req.before = some c → ∃ issued ∈ s.issued, issued.event.cursor = c
  | _ => True

/-- A cursor that was handed out for a finished record within the cap fetches the event it was handed out for. -/
def Resolves (s : Serving Kind) : Prop :=
  ∀ issued ∈ s.issued, ∀ record, recordAt issued.bytes issued.event.cursor.offset = some record →
    record.length ≤ maxRecordBytes → ∀ late : Option Growth, ∃ full,
      (s.reader.body adapters source (some s.file) (some (late.elim s.file s.file.grow)) issued.event.cursor).2 = .ok full ∧
        full.ts = issued.event.ts ∧ (presented adapters issued.headers full).unsized = issued.event.unsized

/-- What every run keeps: what was handed out is of the file as it was, and the next poll starts at a line start. -/
structure Inv (s : Serving Kind) : Prop where
  issued : ∀ issued ∈ s.issued, issued.bytes <+: s.file.bytes ∧ issued.Genuine adapters source.store s.file.id
  offset : ∀ offset, s.reader.offsets s.file.id = some offset →
    offset ≤ s.file.bytes.length ∧ Whole newline (s.file.bytes.take offset)

variable {adapters source} {s : Serving Kind}

theorem bytes_prefix_late (file : File) (late : Option Growth) : file.bytes <+: (late.elim file file.grow).bytes := by
  cases late with
  | none => exact List.prefix_refl _
  | some growth => exact List.prefix_append _ _

theorem id_late (file : File) (late : Option Growth) : (late.elim file file.grow).id = file.id := by
  cases late with
  | none => rfl
  | some growth => rfl

theorem take_of_grown {bytes longer : Bytes} (h : bytes <+: longer) {offset : Nat} (hle : offset ≤ bytes.length) :
    longer.take offset = bytes.take offset := by
  obtain ⟨more, rfl⟩ := h
  exact List.take_append_of_le_length hle

theorem Inv.start (file : File) : Inv adapters source (start file : Serving Kind) := by
  refine ⟨fun _ h => absurd h List.not_mem_nil, fun _ h => ?_⟩
  cases h

/-- The file grows. -/
theorem Inv.late (h : Inv adapters source s) (late : Option Growth) :
    Inv adapters source { s with file := late.elim s.file s.file.grow } := by
  have hgrown := bytes_prefix_late s.file late
  have hid := id_late s.file late
  refine ⟨fun issued hmem => ?_, fun offset hoffset => ?_⟩
  · obtain ⟨hbytes, hgenuine⟩ := h.issued issued hmem
    refine ⟨hbytes.trans hgrown, ?_⟩
    simp only [hid]
    exact hgenuine
  · simp only [hid] at hoffset
    obtain ⟨hle, hwhole⟩ := h.offset offset hoffset
    refine ⟨Nat.le_trans hle hgrown.length_le, ?_⟩
    simp only [take_of_grown hgrown hle]
    exact hwhole

theorem window_offsets (reader : Reader) (file : Option File) (req : WindowRequest) :
    (reader.window adapters source file req).1.offsets = reader.offsets := by
  unfold Reader.window
  split
  · rfl
  split
  · rfl
  split
  · rfl
  rfl

theorem body_offsets (reader : Reader) (statted opened : Option File) (cursor : Cursor) :
    (reader.body adapters source statted opened cursor).1.offsets = reader.offsets := by
  unfold Reader.body
  split
  · rfl
  split
  · rfl
  split
  · rfl
  split
  · rfl
  split <;> rfl

theorem Inv.window (h : Inv adapters source s) {req : WindowRequest} (hreq : s.Returned (.window req)) :
    Inv adapters source (s.step adapters source (.window req)) := by
  have hbefore : ∀ c, req.before = some c → Whole newline (s.file.bytes.take c.offset) := by
    intro c hc
    obtain ⟨issued, hmem, rfl⟩ := hreq c hc
    obtain ⟨hbytes, hgenuine⟩ := h.issued issued hmem
    obtain ⟨-, -, hinside, hwhole⟩ := hgenuine.cursor
    rw [take_of_grown hbytes (Nat.le_of_lt hinside)]
    exact hwhole
  have hissued : (s.step adapters source (.window req)).issued =
      s.issued ++ (pageEvents (s.reader.window adapters source (some s.file) req).2).map fun event =>
        { event, headers := if req.headersOnly then some req.budget else none, bytes := s.file.bytes } := rfl
  constructor
  · intro issued hmem
    rw [hissued, List.mem_append] at hmem
    rcases hmem with hmem | hmem
    · exact h.issued issued hmem
    · obtain ⟨event, hevent, rfl⟩ := List.mem_map.mp hmem
      refine ⟨List.prefix_refl _, ?_⟩
      cases hresult : (s.reader.window adapters source (some s.file) req).2 with
      | error refusal =>
        rw [hresult] at hevent
        cases hevent
      | ok window =>
        rw [hresult] at hevent
        exact window_genuine hbefore hresult hevent
  · intro offset hoffset
    refine h.offset offset ?_
    rw [← hoffset]
    exact congrFun (window_offsets s.reader (some s.file) req).symm s.file.id

theorem Inv.tail (h : Inv adapters source s) (budget : Budget) (late : Option Growth) :
    Inv adapters source (s.step adapters source (.tail budget late)) := by
  have hgrown := bytes_prefix_late s.file late
  have hid := id_late s.file late
  have hlate := h.late late
  constructor
  · intro issued hmem
    rcases List.mem_append.mp hmem with hmem | hmem
    · exact hlate.issued issued hmem
    · obtain ⟨event, hevent, rfl⟩ := List.mem_map.mp hmem
      refine ⟨List.prefix_refl _, ?_⟩
      have hgenuine := tail_genuine adapters hgrown (fun offset ho => (h.offset offset ho).2) hevent
      simp only [Serving.step, hid]
      exact hgenuine
  · intro offset hoffset
    rcases tail_cases adapters s.reader source s.file (late.elim s.file s.file.grow) budget with
      ⟨hsame, -⟩ | ⟨from', hle, stop, hfrom, hstop, hlen, hwhole, hoffsets, -⟩
    · simp only [Serving.step, hsame] at hoffset
      exact hlate.offset offset hoffset
    · have hpair : offset = stop := by
        simp only [Serving.step, hoffsets, hid, Function.update_self, Option.some.injEq] at hoffset
        exact hoffset.symm
      subst hpair
      have hstart : Whole newline ((late.elim s.file s.file.grow).bytes.take from') := by
        rw [take_of_grown hgrown hle]
        rcases hfrom with rfl | hfrom
        · exact .inl List.take_zero
        · exact (h.offset from' hfrom).2
      have hlength := hgrown.length_le
      refine ⟨by simp only [Serving.step]; omega, ?_⟩
      simp only [Serving.step]
      rw [← take_readRange hstop]
      exact hstart.append hwhole

theorem Inv.step (h : Inv adapters source s) {request : Request} (hreturned : s.Returned request) :
    Inv adapters source (s.step adapters source request) := by
  cases request with
  | append growth => exact h.late (some growth)
  | window req => exact h.window hreturned
  | tail budget late => exact h.tail budget late
  | body cursor late =>
    have hlate := h.late late
    refine ⟨hlate.issued, fun offset hoffset => hlate.offset offset ?_⟩
    rw [← hoffset]
    exact congrFun (body_offsets s.reader (some s.file) (some (late.elim s.file s.file.grow)) cursor).symm _

/-- A genuine cursor of a finished record fetches its event from any later state of the file. -/
theorem Inv.resolves (hstore : source.store.isReadable = true)
    (hcount : ∀ line : Bytes, line.length ≤ maxRecordBytes → eventCount adapters source.store line ≤ 2 ^ 32)
    (h : Inv adapters source s) : s.Resolves adapters source := by
  intro issued hmem record hrecord hcap late
  obtain ⟨hbytes, hgenuine⟩ := h.issued issued hmem
  obtain ⟨hfile, hsize, hinside, -⟩ := hgenuine.cursor
  obtain ⟨whole, line, k, hsourced, hevent⟩ := hgenuine
  have hcursor : issued.event.cursor = whole.cursor := by rw [hevent, presented_cursor]
  rw [hcursor] at hrecord hfile hsize hinside ⊢
  obtain rfl := hsourced.record record hrecord hcap
  obtain ⟨size, -, hmapped⟩ := hsourced.mapped
  have hgrown : (late.elim s.file s.file.grow).bytes.take s.file.bytes.length = s.file.bytes := by
    rw [take_of_grown (bytes_prefix_late s.file late) (Nat.le_refl _), List.take_length]
  obtain ⟨hread, hcomplete⟩ := readRecord_of_recordAt
    (by rw [hgrown]; exact recordAt_prefix hbytes hrecord) hcap
  have hk : k < eventCount adapters source.store line := by
    rw [← length_mapLine adapters source.store s.file.id size whole.cursor.offset line]
    exact (List.getElem?_eq_some_iff.mp hmapped).1
  have hpart : whole.cursor.part = k := by
    rw [mapLine_cursor adapters source.store s.file.id hmapped]
    exact Nat.mod_eq_of_lt (Nat.lt_of_lt_of_le hk (hcount line hcap))
  -- The same record, whatever the file's size is by now.
  have hsame : ((mapLine adapters source.store s.file.id s.file.bytes.length line whole.cursor.offset).1[k]?).map
      Event.unsized = some whole.unsized := by
    rw [← List.getElem?_map, mapLine_unsized, ← mapLine_unsized adapters source.store s.file.id size, List.getElem?_map,
      hmapped, Option.map_some]
  obtain ⟨full, hfull, hunsized⟩ := Option.map_eq_some_iff.mp hsame
  have hvalid : validate whole.cursor s.file.memo = .ok () :=
    if_pos ⟨hfile, Nat.le_trans hsize hbytes.length_le, Nat.lt_of_lt_of_le hinside hbytes.length_le⟩
  have hlocal : source.store.isFileStore = true := by
    revert hstore
    cases source.store <;> decide
  refine ⟨full, ?_, ?_, ?_⟩
  · unfold Reader.body stat
    simp only [hlocal, hstore, Bool.not_true, Bool.false_eq_true, if_false, hvalid]
    have hcomplete' : recordComplete (late.elim s.file s.file.grow).bytes whole.cursor.offset s.file.memo.size = true :=
      hcomplete
    have hread' : readRecord (late.elim s.file s.file.grow).bytes whole.cursor.offset s.file.memo.size = line := hread
    have hfull' : (mapLine adapters source.store s.file.memo.id s.file.memo.size line whole.cursor.offset).1[k]? =
        some full := hfull
    simp only [hcomplete', hread', hpart, hfull', Bool.not_true, Bool.false_eq_true, if_false]
  · have hts : full.unsized.ts = whole.unsized.ts := congrArg Event.ts hunsized
    refine hts.trans ?_
    rw [hevent]
    unfold presented
    cases issued.headers <;> rfl
  · rw [hevent, presented_unsized, hunsized, ← presented_unsized]

end Serving

/-- **A cursor keeps addressing its event**, however the file grows and whatever else is read: where the newline of its
record was there when it was shown, and the record is within the cap. -/
theorem resolves_of_returned {Kind Session : Type} {adapters : Adapters Kind Session} {source : Source}
    (hstore : source.store.isReadable = true)
    (hcount : ∀ line : Bytes, line.length ≤ maxRecordBytes → eventCount adapters source.store line ≤ 2 ^ 32)
    {file : File} {requests : List Request}
    (h : Run.Along (Serving.step adapters source) Serving.Returned (Serving.start file) requests) :
    (Run.run (Serving.step adapters source) (Serving.start file) requests).Resolves adapters source := by
  refine Serving.Inv.resolves hstore hcount ?_
  exact h.invariant (fun _ s => Serving.Inv adapters source s) (Serving.Inv.start file)
    fun ops op hinv hgood => hinv.step hgood

/-- A file of whole lines that one read takes. -/
theorem scan_whole {Kind Session : Type} {adapters : Adapters Kind Session} {bytes : Bytes} {acc : Accumulator Kind}
    (hwhole : Whole newline bytes) (hne : bytes ≠ []) (hlength : bytes.length ≤ chunkBytes) (hfull : acc.isFull = false)
    (hbudget : acc.readBytes + bytes.length ≤ acc.req.budget.readBytes) :
    scan adapters bytes bytes.length [] true acc =
      (Accumulator.absorb adapters { acc with readBytes := acc.readBytes + bytes.length } bytes 0, true) := by
  have hpos := List.length_pos_of_ne_nil hne
  have hwant : bytes.length - min chunkBytes (acc.req.budget.readBytes - acc.readBytes) = 0 := by omega
  have hall : readRange bytes 0 bytes.length = bytes := by
    rw [readRange, Nat.sub_zero, List.drop_zero, List.take_length]
  obtain ⟨last, hlast, hclip⟩ := rposition_whole hwhole hne
  rw [scan, if_neg (by omega), if_neg (by rw [hfull]; exact Bool.false_ne_true), if_neg (by omega)]
  simp only [hwant, hall, List.append_nil, if_true, hlast, hclip, List.take_zero, List.drop_zero, Nat.add_zero]
  rw [scan, if_pos rfl]

/-- The last of a file's lines. -/
def lastLine : WindowRequest :=
  { last := 1, before := none, headersOnly := true, budget := { Withheld.oneLine with readBytes := 4 } }

/-- A line that is written behind it. -/
def third : Growth := { byte := 0x78, more := [newline], mtime := 1, mtimeNsec := 0 }

/-- Its cursor fetches it from the file as it is then. -/
theorem resolves_of_page : ∃ issued : Issued Unit,
    (Run.run (Serving.step Withheld.unparsed Withheld.session) (Serving.start Withheld.file)
        [.window lastLine, .append third]).issued =
        [issued] ∧
      recordAt issued.bytes issued.event.cursor.offset = some [0x78, newline] ∧ ∃ full,
        ((Run.run (Serving.step Withheld.unparsed Withheld.session) (Serving.start Withheld.file)
            [.window lastLine, .append third]).reader.body Withheld.unparsed Withheld.session
          (some (Withheld.file.grow third)) (some (Withheld.file.grow third)) issued.event.cursor).2 = .ok full ∧
          full.ts = issued.event.ts ∧ (presented Withheld.unparsed issued.headers full).unsized = issued.event.unsized := by
  have hscan : scan Withheld.unparsed Withheld.file.bytes Withheld.file.bytes.length [] true
      (startWindow Withheld.unparsed .claude Withheld.file.memo Withheld.file.bytes lastLine) = _ :=
    scan_whole (.inr ⟨[0x78, newline, 0x78], rfl⟩) (by decide) (by decide) (by decide) (by decide)
  have hissued : (Run.run (Serving.step Withheld.unparsed Withheld.session) (Serving.start Withheld.file)
      [.window lastLine, .append third]).issued = [{
        event := {
          cursor := { file := { dev := 1, ino := 1 }, size := 4, offset := 2, part := 0 }
          ts := none, kind := (), preview := none, body := none }
        headers := some lastLine.budget, bytes := Withheld.file.bytes }] := by
    have hwindow : Reader.new.window Withheld.unparsed Withheld.session (some Withheld.file) lastLine = _ :=
      window_of_scan rfl rfl rfl hscan
    change [] ++ (Serving.pageEvents (Reader.new.window Withheld.unparsed Withheld.session (some Withheld.file)
      lastLine).2).map _ = _
    rw [hwindow]
    rfl
  have hresolves : (Run.run (Serving.step Withheld.unparsed Withheld.session) (Serving.start Withheld.file)
      [.window lastLine, .append third]).Resolves Withheld.unparsed Withheld.session := by
    refine resolves_of_returned rfl (fun line _ => ?_) ?_
    · unfold eventCount
      split
      · exact Nat.zero_le _
      · exact (by decide : 1 ≤ 2 ^ 32)
    · refine ((Run.Along.nil _).concat ?_).concat trivial
      intro c hc
      cases hc
  refine ⟨_, hissued, by decide, ?_⟩
  exact hresolves _ (hissued ▸ List.mem_singleton_self _) _ (by decide : recordAt _ _ = some [0x78, newline]) (by decide) none

end TmuxAgents.Transcript
