/-
Paging a transcript backwards.

A page is a front of the events older than its cursor, newest first (`page_spec`), and its
`older` addresses the last of them. What can end a conversation early is a page that runs out
of its read budget before it finds an event: it has no event to continue from. `Spans` rules
this out, and then following `older` returns every event exactly once (`paging_complete`).
-/
import TmuxAgents.Transcript.Tail

namespace TmuxAgents.Transcript

open Lines

variable {Kind Session : Type} (adapters : Adapters Kind Session)

/-! ## What the accumulator keeps -/

/-- What a page shows of an event. -/
def shown (req : WindowRequest) (event : Event Kind) : Event Kind :=
  if req.headersOnly then event.toHeader adapters req.budget else event

theorem shown_cursor (req : WindowRequest) (event : Event Kind) : (shown adapters req event).cursor = event.cursor := by
  unfold shown
  split <;> rfl

/-- What is kept of the events offered so far is a front of them, and not an empty one. -/
structure Kept (req : WindowRequest) (acc : Accumulator Kind) (offered : List (Event Kind)) (m : Nat) : Prop where
  le : m ≤ offered.length
  events : acc.events = (offered.take m).map (shown adapters req)
  more : acc.more = true ↔ m < offered.length
  first : offered ≠ [] → m ≠ 0

/-- The accumulator of a walk that goes on: it has refused an event only where it is full. -/
structure Offered (req : WindowRequest) (acc : Accumulator Kind) (offered : List (Event Kind)) (m : Nat) : Prop
    extends Kept adapters req acc offered m where
  req_eq : acc.req = req
  full : m < offered.length → acc.isFull = true
  truncated : acc.truncated = true → m ≠ 0

variable {adapters} {req : WindowRequest} {acc : Accumulator Kind} {offered : List (Event Kind)} {m : Nat}

theorem Kept.length (h : Kept adapters req acc offered m) : acc.events.length = m := by
  rw [h.events, List.length_map, List.length_take_of_le h.le]

/-- An accumulator that is full has an event. -/
theorem Offered.full_pos (hlast : 1 ≤ req.last) (h : Offered adapters req acc offered m) (hfull : acc.isFull = true) :
    m ≠ 0 := by
  simp only [Accumulator.isFull, Bool.or_eq_true, decide_eq_true_eq, h.req_eq, h.length] at hfull
  rcases hfull with hfull | hfull
  · omega
  · exact h.truncated hfull

/-- An event that is kept. -/
theorem Offered.keep (h : Offered adapters req acc offered m) (hfull : acc.isFull = false) {event : Event Kind}
    {next : Accumulator Kind} (hreq : next.req = acc.req) (hevents : next.events = acc.events ++ [shown adapters req event])
    (hmore : next.more = acc.more) : Offered adapters req next (offered ++ [event]) (m + 1) := by
  have hall : m = offered.length := by
    by_contra hne
    rw [h.full (Nat.lt_of_le_of_ne h.le hne)] at hfull
    cases hfull
  subst hall
  refine ⟨⟨?_, ?_, ?_, fun _ => Nat.succ_ne_zero _⟩, hreq.trans h.req_eq, ?_, fun _ => Nat.succ_ne_zero _⟩
  · rw [List.length_append, List.length_singleton]
  · rw [hevents, h.events, List.take_length, List.take_of_length_le (by simp), List.map_append]
    rfl
  · rw [hmore, h.more, List.length_append, List.length_singleton]
    omega
  · rw [List.length_append, List.length_singleton]
    omega

/-- An event that is not kept, and with it all that follow. -/
theorem Offered.refuse (h : Offered adapters req acc offered m) {event : Event Kind}
    {rest : List (Event Kind)} {next : Accumulator Kind} (hreq : next.req = acc.req) (hevents : next.events = acc.events)
    (hmore : next.more = true) (hfull : next.isFull = true) (hpos : m ≠ 0) :
    Offered adapters req next (offered ++ event :: rest) m := by
  have hle := h.le
  have hlt : m < (offered ++ event :: rest).length := by
    rw [List.length_append, List.length_cons]
    omega
  refine ⟨⟨Nat.le_of_lt hlt, ?_, ?_, fun _ => hpos⟩, hreq.trans h.req_eq, fun _ => hfull, fun _ => hpos⟩
  · rw [hevents, h.events, List.take_append_of_le_length hle]
  · rw [hmore]
    exact ⟨fun _ => hlt, fun _ => rfl⟩

/-- Older events offered to the accumulator. -/
theorem Offered.push (hlast : 1 ≤ req.last) (h : Offered adapters req acc offered m) {events : List (Event Kind)}
    (hbefore : ∀ event ∈ events, req.before.any event.cursor.atOrAfter = false) :
    ∃ m', Offered adapters req (acc.pushNewestFirst adapters events) (offered ++ events) m' := by
  induction events generalizing acc offered m with
  | nil =>
    rw [List.append_nil]
    exact ⟨m, h⟩
  | cons event rest ih =>
    have hrest : ∀ e ∈ rest, req.before.any e.cursor.atOrAfter = false :=
      fun e he => hbefore e (List.mem_cons_of_mem _ he)
    have hcat : offered ++ event :: rest = (offered ++ [event]) ++ rest := by rw [List.append_assoc]; rfl
    have hevent := hbefore event List.mem_cons_self
    rw [← h.req_eq] at hevent
    rw [Accumulator.pushNewestFirst, if_neg (by rw [hevent]; decide)]
    by_cases hfull : acc.isFull = true
    · rw [if_pos hfull]
      exact ⟨m, h.refuse rfl rfl rfl hfull (h.full_pos hlast hfull)⟩
    · rw [Bool.not_eq_true] at hfull
      rw [if_neg (by rw [hfull]; decide)]
      by_cases hheaders : acc.req.headersOnly = true
      · rw [if_pos hheaders]
        dsimp only
        split
        · -- The frame budget refuses the event, which is not the page's first.
          rename_i hframe
          rw [Bool.and_eq_true, Bool.not_eq_true', List.isEmpty_eq_false_iff] at hframe
          have hpos : m ≠ 0 := by
            intro hzero
            have hlen := h.length
            rw [hzero, List.length_eq_zero_iff] at hlen
            exact hframe.1 hlen
          exact ⟨m, h.refuse rfl rfl rfl (by simp [Accumulator.isFull]) hpos⟩
        · rw [hcat]
          refine ih (h.keep hfull rfl ?_ rfl) hrest
          rw [h.req_eq] at hheaders ⊢
          rw [shown, if_pos hheaders]
      · rw [if_neg hheaders, hcat]
        refine ih (h.keep hfull rfl ?_ rfl) hrest
        rw [h.req_eq] at hheaders
        rw [shown, if_neg hheaders]

/-- What it has read and how many unknown events it has seen do not matter. -/
theorem Offered.congr (h : Offered adapters req acc offered m) {next : Accumulator Kind} (hreq : next.req = acc.req)
    (hevents : next.events = acc.events) (hmore : next.more = acc.more) (htruncated : next.truncated = acc.truncated) :
    Offered adapters req next offered m := by
  refine ⟨⟨h.le, hevents.trans h.events, ?_, h.first⟩, hreq.trans h.req_eq, ?_, ?_⟩
  · rw [hmore]
    exact h.more
  · unfold Accumulator.isFull
    rw [hreq, hevents, htruncated]
    exact h.full
  · rw [htruncated]
    exact h.truncated

/-! ## Pieces of a file -/

section Pieces

variable {bytes : Bytes} {lo mid hi : Nat}

theorem length_readRange (h : hi ≤ bytes.length) : (readRange bytes lo hi).length = hi - lo := by
  rw [readRange, List.length_take, List.length_drop]
  omega

theorem readRange_append (hlo : lo ≤ mid) (hhi : mid ≤ hi) :
    readRange bytes lo mid ++ readRange bytes mid hi = readRange bytes lo hi := by
  have hsum : hi - lo = (mid - lo) + (hi - mid) := by omega
  rw [readRange, readRange, readRange, hsum, List.take_add, List.drop_drop, Nat.add_sub_cancel' hlo]

theorem take_readRange (h : lo ≤ hi) : bytes.take lo ++ readRange bytes lo hi = bytes.take hi := by
  have hzero : ∀ n, bytes.take n = readRange bytes 0 n := by
    intro n
    rw [readRange, List.drop_zero, Nat.sub_zero]
  rw [hzero, hzero, readRange_append (Nat.zero_le lo) h]

/-- What lies between two line starts is whole lines. -/
theorem whole_readRange (h : lo ≤ hi) (hhi : Whole newline (bytes.take hi)) : Whole newline (readRange bytes lo hi) := by
  rw [← take_readRange h] at hhi
  exact hhi.of_append

/-- A line start is behind a newline. -/
theorem newline_mem_of_whole {n : Nat} (hn : n ≤ bytes.length) (hlo : lo < n) (hhi : n ≤ hi)
    (hwhole : Whole newline (bytes.take n)) : ∃ front rest, readRange bytes lo hi = front ++ newline :: rest ∧
      lo + front.length + 1 = n := by
  rcases whole_readRange (Nat.le_of_lt hlo) hwhole with hnil | ⟨front, hfront⟩
  · have hlen : (readRange bytes lo n).length = n - lo := length_readRange hn
    rw [hnil] at hlen
    simp only [List.length_nil] at hlen
    omega
  · refine ⟨front, readRange bytes n hi, ?_, ?_⟩
    · rw [← readRange_append (Nat.le_of_lt hlo) hhi, hfront, List.append_assoc]
      rfl
    · have hlen : (readRange bytes lo n).length = n - lo := length_readRange hn
      rw [hfront, List.length_append, List.length_singleton] at hlen
      omega

end Pieces

variable (adapters) (store : Store) (id : FileId) (bytes : Bytes)

/-- The events of the lines between two line starts of a file, in file order. -/
def between (lo hi : Nat) : List (Event Kind) :=
  (mapRange adapters store id bytes.length (readRange bytes lo hi) lo).1

theorem between_append {lo mid hi : Nat} (hlo : lo ≤ mid) (hhi : mid ≤ hi) (hlen : hi ≤ bytes.length)
    (hmid : Whole newline (bytes.take mid)) :
    between adapters store id bytes lo mid ++ between adapters store id bytes mid hi =
      between adapters store id bytes lo hi := by
  have hstart : lo + (readRange bytes lo mid).length = mid := by
    rw [length_readRange (Nat.le_trans hhi hlen)]
    omega
  rw [between, between, between, ← readRange_append hlo hhi,
    mapRange_append _ _ _ _ _ (whole_readRange hlo hmid), hstart]

theorem between_self (n : Nat) : between adapters store id bytes n n = [] := by
  rw [between, readRange, Nat.sub_self, List.take_zero]
  rfl

/-- Where an event's record starts. -/
theorem mapLine_cursor {size offset : Nat} {line : Bytes} {k : Nat} {event : Event Kind}
    (h : (mapLine adapters store id size line offset).1[k]? = some event) :
    event.cursor = { file := id, size, offset, part := k % 2 ^ 32 } := by
  unfold mapLine at h
  by_cases hblank : (stripEol line).all isAsciiWhitespace = true
  · simp [hblank] at h
  · cases hrecord : adapters.mapRecord store (stripEol line) with
    | none =>
      simp only [hblank, hrecord, Bool.false_eq_true, if_false, List.getElem?_singleton, Option.ite_none_right_eq_some,
        Option.some.injEq] at h
      obtain ⟨rfl, rfl⟩ := h
      rfl
    | some record =>
      simp only [hblank, hrecord, Bool.false_eq_true, if_false, List.getElem?_mapIdx, Option.map_eq_some_iff] at h
      obtain ⟨-, -, rfl⟩ := h
      rfl

/-- Which line an event is of, and which of the line's events it is. -/
theorem mapLines_getElem {size offset : Nat} {lines : List Bytes} {n : Nat} {event : Event Kind}
    (h : (mapLines adapters store id size offset lines).1[n]? = some event) :
    ∃ before line after k, lines = before ++ line :: after ∧
      n = (mapLines adapters store id size offset before).1.length + k ∧
      (mapLine adapters store id size line (offset + before.flatten.length)).1[k]? = some event := by
  induction lines generalizing offset n with
  | nil => simp [mapLines] at h
  | cons line lines ih =>
    simp only [mapLines] at h
    by_cases hn : n < (mapLine adapters store id size line offset).1.length
    · rw [List.getElem?_append_left hn] at h
      exact ⟨[], line, lines, n, rfl, (Nat.zero_add n).symm, h⟩
    · rw [List.getElem?_append_right (Nat.not_lt.mp hn)] at h
      obtain ⟨before, l, after, k, rfl, hk, hl⟩ := ih h
      refine ⟨line :: before, l, after, k, rfl, ?_, ?_⟩
      · simp only [mapLines, List.length_append]
        omega
      · rw [List.flatten_cons, List.length_append, ← Nat.add_assoc]
        exact hl

theorem mapLines_offset {size offset : Nat} {lines : List Bytes} {event : Event Kind}
    (h : event ∈ (mapLines adapters store id size offset lines).1) :
    offset ≤ event.cursor.offset ∧ event.cursor.offset < offset + lines.flatten.length := by
  obtain ⟨n, hn⟩ := List.mem_iff_getElem?.mp h
  obtain ⟨before, line, after, k, rfl, -, hk⟩ := mapLines_getElem adapters store id hn
  rw [mapLine_cursor adapters store id hk]
  have hline : line ≠ [] := by
    rintro rfl
    simp [mapLine, stripEol, stripSuffix] at hk
  have hpos := List.length_pos_iff.mpr hline
  simp only [List.flatten_append, List.flatten_cons, List.length_append]
  omega

theorem between_offset {lo hi : Nat} (hlo : lo ≤ hi) (hlen : hi ≤ bytes.length) {event : Event Kind}
    (h : event ∈ between adapters store id bytes lo hi) : lo ≤ event.cursor.offset ∧ event.cursor.offset < hi := by
  have hoffset := mapLines_offset adapters store id h
  rw [flatten_splitInclusive, length_readRange hlen] at hoffset
  omega

/-! ## The walk -/

variable {store id bytes}

/-- `push_newest_first` keeps what it does not collect. -/
theorem push_frame (acc : Accumulator Kind) (events : List (Event Kind)) :
    (acc.pushNewestFirst adapters events).store = acc.store ∧ (acc.pushNewestFirst adapters events).id = acc.id ∧
      (acc.pushNewestFirst adapters events).size = acc.size ∧
      (acc.pushNewestFirst adapters events).readBytes = acc.readBytes := by
  induction events generalizing acc with
  | nil => exact ⟨rfl, rfl, rfl, rfl⟩
  | cons event rest ih =>
    rw [Accumulator.pushNewestFirst]
    split
    · exact ih acc
    · split
      · exact ⟨rfl, rfl, rfl, rfl⟩
      · split
        · dsimp only
          split
          · exact ⟨rfl, rfl, rfl, rfl⟩
          · exact ih _
        · exact ih _

theorem push_unknown (acc : Accumulator Kind) (events : List (Event Kind)) :
    (acc.pushNewestFirst adapters events).unknown = acc.unknown := by
  induction events generalizing acc with
  | nil => rfl
  | cons event rest ih =>
    rw [Accumulator.pushNewestFirst]
    split
    · exact ih acc
    · split
      · rfl
      · split
        · dsimp only
          split
          · rfl
          · exact ih _
        · exact ih _

/-- Where a walk from `hi` is: everything from the line start `start` on is offered, and what is pending has no line
start but its end. -/
structure Walking (store : Store) (id : FileId) (bytes : Bytes) (req : WindowRequest) (hi extra : Nat)
    (base : List (Event Kind)) (acc : Accumulator Kind) (lo start m : Nat) : Prop where
  store_eq : acc.store = store
  id_eq : acc.id = id
  size_eq : acc.size = bytes.length
  lo_le : lo ≤ start
  head : lo = 0 → start = 0
  start_le : start ≤ hi
  whole : Whole newline (bytes.take start)
  next : ∀ s, lo < s → s < start → ¬ Whole newline (bytes.take s)
  offered : Offered adapters req acc (base ++ (between adapters store id bytes start hi).reverse) m
  read : acc.readBytes + lo = extra + hi

variable {adapters} {hi extra lo start : Nat} {base : List (Event Kind)}

/-- One chunk further back. -/
theorem Walking.widen (h : Walking adapters store id bytes req hi extra base acc lo start m) {low : Nat} (hlow : low ≤ lo)
    (hzero : low ≠ 0) (hnext : ∀ s, low < s → s < start → ¬ Whole newline (bytes.take s)) :
    Walking adapters store id bytes req hi extra base { acc with readBytes := acc.readBytes + (lo - low) } low start m where
  store_eq := h.store_eq
  id_eq := h.id_eq
  size_eq := h.size_eq
  lo_le := Nat.le_trans hlow h.lo_le
  head := fun h => absurd h hzero
  start_le := h.start_le
  whole := h.whole
  next := hnext
  offered := h.offered.congr rfl rfl rfl rfl
  read := by
    have hread := h.read
    simp only
    omega

/-- The lines from an earlier line start on, once they are pending. -/
theorem Walking.absorb (hlast : 1 ≤ req.last) (hhi : hi ≤ bytes.length)
    (hbefore : ∀ event ∈ between adapters store id bytes 0 hi, req.before.any event.cursor.atOrAfter = false)
    (h : Walking adapters store id bytes req hi extra base acc lo start m) {low earlier : Nat} (hlow : low ≤ lo)
    (hearlier : earlier ≤ start) (hle : low ≤ earlier) (hhead : low = 0 → earlier = 0) (hwhole : Whole newline (bytes.take earlier))
    (hnext : ∀ s, low < s → s < earlier → ¬ Whole newline (bytes.take s)) :
    ∃ m', Walking adapters store id bytes req hi extra base
      (Accumulator.absorb adapters { acc with readBytes := acc.readBytes + (lo - low) }
        (readRange bytes earlier start) earlier) low earlier m' := by
  have hstart := h.start_le
  have hoffered : Offered adapters req
      { acc with
        readBytes := acc.readBytes + (lo - low)
        unknown := acc.unknown + (mapRange adapters acc.store acc.id acc.size (readRange bytes earlier start) earlier).2 }
      (base ++ (between adapters store id bytes start hi).reverse) m := h.offered.congr rfl rfl rfl rfl
  have hevents : (mapRange adapters acc.store acc.id acc.size (readRange bytes earlier start) earlier).1 =
      between adapters store id bytes earlier start := by
    rw [h.store_eq, h.id_eq, h.size_eq]
    rfl
  have hall : between adapters store id bytes earlier start ++ between adapters store id bytes start hi =
      between adapters store id bytes earlier hi :=
    between_append adapters store id bytes hearlier hstart hhi h.whole
  have hfilter : ∀ event ∈ (between adapters store id bytes earlier start).reverse,
      req.before.any event.cursor.atOrAfter = false := by
    intro event hmem
    refine hbefore event ?_
    rw [← between_append adapters store id bytes (Nat.zero_le earlier) (Nat.le_trans hearlier hstart) hhi hwhole, ← hall]
    exact List.mem_append_right _ (List.mem_append_left _ (List.mem_reverse.mp hmem))
  obtain ⟨m', hpush⟩ := hoffered.push hlast hfilter
  rw [List.append_assoc, ← List.reverse_append, hall] at hpush
  have hframe := push_frame adapters
    { acc with
      readBytes := acc.readBytes + (lo - low)
      unknown := acc.unknown + (mapRange adapters acc.store acc.id acc.size (readRange bytes earlier start) earlier).2 }
    (between adapters store id bytes earlier start).reverse
  have habsorb : Accumulator.absorb adapters { acc with readBytes := acc.readBytes + (lo - low) }
      (readRange bytes earlier start) earlier = Accumulator.pushNewestFirst adapters
        { acc with
          readBytes := acc.readBytes + (lo - low)
          unknown := acc.unknown +
            (mapRange adapters acc.store acc.id acc.size (readRange bytes earlier start) earlier).2 }
        (between adapters store id bytes earlier start).reverse := by
    rw [Accumulator.absorb]
    simp only [hevents]
  refine ⟨m', ?_⟩
  rw [habsorb]
  exact ⟨hframe.1.trans h.store_eq, hframe.2.1.trans h.id_eq, hframe.2.2.1.trans h.size_eq, hle, hhead,
    Nat.le_trans hearlier hstart, hwhole, hnext, hpush, by
      have hread := h.read
      rw [hframe.2.2.2]
      simp only
      omega⟩

/-- Whole lines end in their last newline. -/
theorem rposition_whole {pending : Bytes} (hwhole : Whole newline pending) (hne : pending ≠ []) :
    ∃ i, rposition newline pending = some i ∧ pending.take (i + 1) = pending := by
  cases hpos : rposition newline pending with
  | none => exact absurd (hwhole.eq_nil (rposition_eq_none.mp hpos)) hne
  | some i =>
    obtain ⟨front, rest, rfl, hmem, rfl⟩ := rposition_eq_some hpos
    have hcut : front ++ newline :: rest = (front ++ [newline]) ++ rest := by rw [List.append_assoc]; rfl
    rw [hcut] at hwhole ⊢
    rw [hwhole.of_append.eq_nil hmem]
    exact ⟨front.length, rfl, List.take_of_length_le (by simp)⟩

/-- A round of the walk, once what is pending starts at `low` and ends at `stop`. -/
def round (adapters : Adapters Kind Session) (bytes : Bytes) (low stop : Nat) (acc : Accumulator Kind) :
    Accumulator Kind × Bool :=
  if low = 0 then scan adapters bytes 0 [] false (acc.absorb adapters (readRange bytes 0 stop) 0)
  else
    (position newline (readRange bytes low stop)).elim (scan adapters bytes low (readRange bytes low stop) false acc)
      fun i => scan adapters bytes low (readRange bytes low (low + i + 1)) false
        (acc.absorb adapters (readRange bytes (low + i + 1) stop) (low + i + 1))

theorem take_pending {low stop i : Nat} (h : low + i + 1 ≤ stop) :
    (readRange bytes low stop).take (i + 1) = readRange bytes low (low + i + 1) := by
  rw [readRange, readRange, List.take_take]
  congr 1
  omega

theorem drop_pending {low stop i : Nat} : (readRange bytes low stop).drop (i + 1) = readRange bytes (low + i + 1) stop := by
  rw [readRange, readRange, List.drop_take, List.drop_drop]
  congr 1
  omega

/-- The first newline of what is pending ends a line of the file. -/
theorem position_pending {low stop i : Nat} (hstop : stop ≤ bytes.length)
    (h : position newline (readRange bytes low stop) = some i) :
    low + i + 1 ≤ stop ∧ Whole newline (bytes.take (low + i + 1)) ∧
      ∀ s, low < s → s < low + i + 1 → ¬ Whole newline (bytes.take s) := by
  obtain ⟨front, rest, heq, hfront, hlen⟩ := position_eq_some.mp h
  have hbound : low + i + 1 ≤ stop := by
    have hlen' := congrArg List.length heq
    rw [readRange, List.length_take, List.length_drop, List.length_append, List.length_cons] at hlen'
    omega
  refine ⟨hbound, ?_, ?_⟩
  · have hcut : readRange bytes low (low + i + 1) = front ++ [newline] := by
      have hsplit : front ++ newline :: rest = (front ++ [newline]) ++ rest := by
        rw [List.append_assoc]
        rfl
      rw [← take_pending hbound, heq, hsplit, ← hlen]
      exact List.take_left' (by rw [List.length_append, List.length_singleton])
    rw [← take_readRange (by omega : low ≤ low + i + 1), hcut, ← List.append_assoc]
    exact .inr ⟨_, rfl⟩
  · -- A line start before the first newline's would be behind an earlier newline.
    intro s hs hs' hwhole'
    obtain ⟨front', rest', heq', hlen'⟩ := newline_mem_of_whole
      (Nat.le_trans (Nat.le_of_lt hs') (Nat.le_trans hbound hstop)) hs
      (Nat.le_trans (Nat.le_of_lt hs') hbound) hwhole'
    have hmem : newline ∈ front := by
      have htake := congrArg (List.take i) (heq.symm.trans heq')
      rw [← hlen, List.take_left] at htake
      rw [htake, List.take_append]
      refine List.mem_append_right _ ?_
      have hpos' : 0 < front.length - front'.length := by omega
      obtain ⟨d, hd⟩ := Nat.exists_eq_succ_of_ne_zero (Nat.ne_of_gt hpos')
      rw [hd, List.take_succ_cons]
      exact List.mem_cons_self
    exact hfront hmem

/-- One round of the walk. Its first chunk has no incomplete last line to drop where it starts at a line start. -/
theorem scan_round {pending : Bytes} {first : Bool} (hstart : start ≤ bytes.length) (hlole : lo ≤ start)
    (hwhole : first = true → Whole newline (bytes.take start))
    (hpending : pending = readRange bytes lo start) (hlo : lo ≠ 0) (hfull : acc.isFull = false)
    (hread : acc.readBytes < acc.req.budget.readBytes) :
    ∃ low < lo, low = lo - min chunkBytes (acc.req.budget.readBytes - acc.readBytes) ∧
      scan adapters bytes lo pending first acc =
        round adapters bytes low start { acc with readBytes := acc.readBytes + (lo - low) } := by
  refine ⟨lo - min chunkBytes (acc.req.budget.readBytes - acc.readBytes), by simp only [chunkBytes]; omega, rfl, ?_⟩
  have hlow : lo - min chunkBytes (acc.req.budget.readBytes - acc.readBytes) < lo := by simp only [chunkBytes]; omega
  generalize hlowdef : lo - min chunkBytes (acc.req.budget.readBytes - acc.readBytes) = low at hlow
  have hchunk : (readRange bytes low lo).length = lo - low := length_readRange (by omega)
  have hjoin : readRange bytes low lo ++ pending = readRange bytes low start := by
    rw [hpending, readRange_append (Nat.le_of_lt hlow) hlole]
  have hne : readRange bytes low start ≠ [] := by
    intro hnil
    have hlen : (readRange bytes low start).length = start - low := length_readRange hstart
    rw [hnil] at hlen
    simp only [List.length_nil] at hlen
    omega
  have hbody : (if low = 0 then some 0 else (position newline (readRange bytes low start)).map (· + 1)).elim
      (scan adapters bytes low (readRange bytes low start) false
        { acc with readBytes := acc.readBytes + (lo - low) })
      (fun bodyStart => scan adapters bytes low ((readRange bytes low start).take bodyStart) false
        (Accumulator.absorb adapters { acc with readBytes := acc.readBytes + (lo - low) }
          ((readRange bytes low start).drop bodyStart) (low + bodyStart))) =
      round adapters bytes low start { acc with readBytes := acc.readBytes + (lo - low) } := by
    rw [round]
    by_cases hzero : low = 0
    · subst hzero
      simp only [if_true, Option.elim_some, List.drop_zero, List.take_zero]
    · simp only [if_neg hzero]
      cases hpos : position newline (readRange bytes low start) with
      | none => rfl
      | some i =>
        have hbound := (position_pending hstart hpos).1
        simp only [Option.map_some, take_pending hbound, drop_pending, Nat.add_assoc, Option.elim_some]
  rw [scan, if_neg hlo, if_neg (by rw [hfull]; decide), if_neg (Nat.not_le.mpr hread)]
  simp only [hlowdef, hchunk, hjoin]
  rw [← hbody]
  cases first with
  | false =>
    simp only [Bool.false_eq_true, if_false]
    generalize (if low = 0 then some 0 else (position newline (readRange bytes low start)).map (· + 1)) = found
    cases found with
    | none => rfl
    | some bodyStart => rfl
  | true =>
    obtain ⟨last, hlast, htakelast⟩ :=
      rposition_whole (whole_readRange (Nat.le_trans (Nat.le_of_lt hlow) hlole) (hwhole rfl)) hne
    simp only [hlast, htakelast, if_true]
    generalize (if low = 0 then some 0 else (position newline (readRange bytes low start)).map (· + 1)) = found
    cases found with
    | none => rfl
    | some bodyStart => rfl

theorem scan_head {pending : Bytes} {first : Bool} : scan adapters bytes 0 pending first acc = (acc, true) := by
  rw [scan, if_pos rfl]

theorem scan_spent {pending : Bytes} {first : Bool} (hlo : lo ≠ 0) (hfull : acc.isFull = false)
    (hread : acc.req.budget.readBytes ≤ acc.readBytes) :
    scan adapters bytes lo pending first acc = ({ acc with truncated := true }, false) := by
  rw [scan, if_neg hlo, if_neg (by rw [hfull]; decide), if_pos hread]

theorem scan_full {pending : Bytes} {first : Bool} (hlo : lo ≠ 0) (hfull : acc.isFull = true) :
    scan adapters bytes lo pending first acc = (acc, false) := by
  rw [scan, if_neg hlo, if_pos hfull]

/-- What a walk ends with: everything down to the head, or everything from a line start on. It ends without an event
only where the read budget is spent and no line starts in between. -/
def Walked (adapters : Adapters Kind Session) (store : Store) (id : FileId) (bytes : Bytes) (req : WindowRequest)
    (hi extra : Nat) (base : List (Event Kind)) (result : Accumulator Kind × Bool) : Prop :=
  ∃ m, (result.2 = true ∧ Kept adapters req result.1 (base ++ (between adapters store id bytes 0 hi).reverse) m) ∨
    (result.2 = false ∧ ∃ start ≤ hi, Whole newline (bytes.take start) ∧
      Kept adapters req result.1 (base ++ (between adapters store id bytes start hi).reverse) m ∧
      (m ≠ 0 ∨ ∃ lo, 0 < lo ∧ req.budget.readBytes + lo ≤ extra + hi ∧
        ∀ s, lo < s → s < start → ¬ Whole newline (bytes.take s)))

theorem scan_spec (hlast : 1 ≤ req.last) (hhi : hi ≤ bytes.length)
    (hbefore : ∀ event ∈ between adapters store id bytes 0 hi, req.before.any event.cursor.atOrAfter = false)
    {pending : Bytes} {first : Bool} (h : Walking adapters store id bytes req hi extra base acc lo start m)
    (hpending : pending = readRange bytes lo start) :
    Walked adapters store id bytes req hi extra base (scan adapters bytes lo pending first acc) := by
  induction lo using Nat.strong_induction_on generalizing pending first acc start m with
  | _ lo ih =>
    have hreq := h.offered.req_eq
    by_cases hzero : lo = 0
    · subst hzero
      have hkept := h.offered.toKept
      rw [h.head rfl] at hkept
      rw [scan_head]
      exact ⟨m, .inl ⟨rfl, hkept⟩⟩
    by_cases hfull : acc.isFull = true
    · rw [scan_full hzero hfull]
      exact ⟨m, .inr ⟨rfl, start, h.start_le, h.whole, h.offered.toKept, .inl (h.offered.full_pos hlast hfull)⟩⟩
    rw [Bool.not_eq_true] at hfull
    by_cases hread : req.budget.readBytes ≤ acc.readBytes
    · have hkept : Kept adapters req { acc with truncated := true }
          (base ++ (between adapters store id bytes start hi).reverse) m :=
        ⟨h.offered.le, h.offered.events, h.offered.more, h.offered.first⟩
      rw [scan_spent hzero hfull (by rw [hreq]; exact hread)]
      refine ⟨m, .inr ⟨rfl, start, h.start_le, h.whole, hkept, .inr ⟨lo, Nat.pos_of_ne_zero hzero, ?_, h.next⟩⟩⟩
      have hbytes := h.read
      omega
    · obtain ⟨low, hlow, -, hround⟩ := @scan_round _ _ adapters acc bytes lo start pending first
        (Nat.le_trans h.start_le hhi) h.lo_le (fun _ => h.whole) hpending hzero hfull (by rw [hreq]; exact Nat.not_le.mp hread)
      rw [hround, round]
      by_cases hhead : low = 0
      · subst hhead
        rw [if_pos rfl]
        obtain ⟨m', hw⟩ := h.absorb hlast hhi hbefore (Nat.zero_le lo) (Nat.zero_le start) (Nat.le_refl 0)
          (fun _ => rfl) (.inl List.take_zero) (fun s hs hs' => absurd hs' (Nat.not_lt_zero s))
        refine ih 0 hlow hw ?_
        rw [readRange, Nat.sub_self, List.take_zero]
      · rw [if_neg hhead]
        have hstart := Nat.le_trans h.start_le hhi
        cases hpos : position newline (readRange bytes low start) with
        | none =>
          rw [Option.elim_none]
          refine ih low hlow (h.widen (Nat.le_of_lt hlow) hhead ?_) rfl
          intro s hs hs' hwhole
          obtain ⟨front, rest, heq, -⟩ := newline_mem_of_whole (Nat.le_trans (Nat.le_of_lt hs') hstart) hs
            (Nat.le_of_lt hs') hwhole
          refine position_eq_none.mp hpos ?_
          rw [heq]
          exact List.mem_append_right _ List.mem_cons_self
        | some i =>
          obtain ⟨hbound, hwhole, hnext⟩ := position_pending hstart hpos
          obtain ⟨m', hw⟩ := h.absorb hlast hhi hbefore (Nat.le_of_lt hlow) hbound (by omega)
            (fun h => absurd h hhead) hwhole hnext
          rw [Option.elim_some]
          exact ih low hlow hw rfl

/-! ## One page -/

/-- The events of a file, in file order. -/
def fileEvents (adapters : Adapters Kind Session) (store : Store) (id : FileId) (bytes : Bytes) : List (Event Kind) :=
  (mapRange adapters store id bytes.length bytes 0).1

/-- A record that maps to an event fits in one page's read budget, together with the newline before it and the lines
without events behind it: a page that starts behind these finds the record. -/
def Spans (adapters : Adapters Kind Session) (store : Store) (bytes : Bytes) (readBytes : Nat) : Prop :=
  ∀ before line blank after, Lines.splitInclusive newline bytes = before ++ line :: (blank ++ after) →
    bears adapters store line = true → (∀ l ∈ blank, bears adapters store l = false) →
    line.length + blank.flatten.length + (if before = [] then 0 else 1) ≤ readBytes

/-- A record of several events can be read again from its cursor. -/
def Rereadable (adapters : Adapters Kind Session) (store : Store) (bytes : Bytes) : Prop :=
  ∀ line ∈ Lines.splitInclusive newline bytes, 1 < eventCount adapters store line →
    line.length ≤ maxRecordBytes ∧ eventCount adapters store line ≤ 2 ^ 32

theorem between_file : between adapters store id bytes 0 bytes.length = fileEvents adapters store id bytes := by
  rw [between, readRange, List.drop_zero, Nat.sub_zero, List.take_length]
  rfl

/-- Where the events older than one of a file's begin: whole lines, and the earlier events of its record. -/
structure At (adapters : Adapters Kind Session) (store : Store) (id : FileId) (bytes : Bytes) (n : Nat)
    (before after : List Bytes) (line : Bytes) (k : Nat) : Prop where
  lines : Lines.splitInclusive newline bytes = before ++ line :: after
  count : k < eventCount adapters store line
  index : n = (between adapters store id bytes 0 before.flatten.length).length + k
  older : (fileEvents adapters store id bytes).take n = between adapters store id bytes 0 before.flatten.length ++
    (mapLine adapters store id bytes.length line before.flatten.length).1.take k
  cursor : ∀ event, (fileEvents adapters store id bytes)[n]? = some event →
    event.cursor = { file := id, size := bytes.length, offset := before.flatten.length, part := k % 2 ^ 32 }

/-- A file cut at a line start. -/
theorem cut_before (hwhole : Whole newline bytes) {before after : List Bytes}
    (h : Lines.splitInclusive newline bytes = before ++ after) :
    before.flatten.length ≤ bytes.length ∧ bytes.take before.flatten.length = before.flatten ∧
      bytes.drop before.flatten.length = after.flatten ∧ Whole newline (bytes.take before.flatten.length) := by
  obtain ⟨hbytes, hbefore, -, -⟩ := hwhole.cut h
  have htake : bytes.take before.flatten.length = before.flatten := by
    rw [hbytes]
    exact List.take_left
  refine ⟨?_, htake, ?_, ?_⟩
  · rw [hbytes, List.length_append]
    exact Nat.le_add_right _ _
  · rw [hbytes]
    exact List.drop_left
  · rw [htake]
    exact hbefore

/-- The events of the lines before a line start. -/
theorem between_before (hwhole : Whole newline bytes) {before after : List Bytes}
    (h : Lines.splitInclusive newline bytes = before ++ after) :
    between adapters store id bytes 0 before.flatten.length =
      (mapLines adapters store id bytes.length 0 before).1 := by
  rw [between, readRange, List.drop_zero, Nat.sub_zero, (cut_before hwhole h).2.1, mapRange, (hwhole.cut h).2.2.1]

theorem exists_at (hwhole : Whole newline bytes) {n : Nat} (hn : n < (fileEvents adapters store id bytes).length) :
    ∃ before after line k, At adapters store id bytes n before after line k := by
  obtain ⟨before, line, after, k, hlines, hindex, hk⟩ := mapLines_getElem adapters store id
    (List.getElem?_eq_getElem (l := (fileEvents adapters store id bytes)) hn)
  rw [Nat.zero_add] at hk
  have hbetween := @between_before _ _ adapters store id bytes hwhole before (line :: after) hlines
  have hcount : k < eventCount adapters store line := by
    rw [← length_mapLine adapters store id bytes.length before.flatten.length]
    exact (List.getElem?_eq_some_iff.mp hk).1
  have hevents : fileEvents adapters store id bytes = between adapters store id bytes 0 before.flatten.length ++
      ((mapLine adapters store id bytes.length line before.flatten.length).1 ++
        (mapLines adapters store id bytes.length (before.flatten.length + line.length) after).1) := by
    rw [hbetween, fileEvents, mapRange, hlines, mapLines_append, Nat.zero_add]
    rfl
  refine ⟨before, after, line, k, hlines, hcount, by rw [hbetween]; exact hindex, ?_, ?_⟩
  · rw [hevents, hindex, ← hbetween, List.take_length_add_append]
    rw [List.take_append_of_le_length (by rw [length_mapLine]; omega)]
  · intro event hevent
    rw [hevents, hindex, ← hbetween, List.getElem?_append_right (Nat.le_add_right _ _), Nat.add_sub_cancel_left,
      List.getElem?_append_left (by rw [length_mapLine]; exact hcount)] at hevent
    exact mapLine_cursor adapters store id hevent

/-- The record a cursor points into is read whole where it is within the cap. -/
theorem readRecord_line (hwhole : Whole newline bytes) {before after : List Bytes} {line : Bytes}
    (hlines : Lines.splitInclusive newline bytes = before ++ line :: after) (hcap : line.length ≤ maxRecordBytes) :
    readRecord bytes before.flatten.length bytes.length = line := by
  have hline : line ∈ Lines.splitInclusive newline bytes := by
    rw [hlines]
    simp
  obtain ⟨front, rfl, hmem⟩ := hwhole.line hline
  obtain ⟨hle, -, hdrop, -⟩ := cut_before hwhole hlines
  have hrest : bytes.length = before.flatten.length + ((front ++ [newline]).length + after.flatten.length) := by
    have hlen := congrArg List.length hdrop
    rw [List.length_drop, List.flatten_cons, List.length_append] at hlen
    omega
  rw [List.flatten_cons] at hdrop
  have hlong : (front ++ [newline]).length ≤
      min bytes.length (before.flatten.length + maxRecordBytes) - before.flatten.length := by omega
  have hbuf : readRange bytes before.flatten.length (min bytes.length (before.flatten.length + maxRecordBytes)) =
      front ++ newline :: after.flatten.take
        (min bytes.length (before.flatten.length + maxRecordBytes) - before.flatten.length -
          (front ++ [newline]).length) := by
    rw [readRange, hdrop, List.take_append, List.take_of_length_le hlong, List.append_assoc]
    rfl
  have hpos : position newline (readRange bytes before.flatten.length
      (min bytes.length (before.flatten.length + maxRecordBytes))) = some front.length :=
    position_eq_some.mpr ⟨front, _, hbuf, hmem, rfl⟩
  unfold readRecord
  simp only [hpos]
  rw [hbuf, List.take_append, List.take_of_length_le (Nat.le_succ _), Nat.add_sub_cancel_left]
  rfl

/-- A line that maps to an event has a byte. -/
theorem ne_nil_of_count {line : Bytes} (h : 0 < eventCount adapters store line) : line ≠ [] := by
  rintro rfl
  simp [eventCount, stripEol, stripSuffix] at h

/-- Where a page starts that shows the events older than the `n`-th. -/
structure Starting (adapters : Adapters Kind Session) (store : Store) (id : FileId) (bytes : Bytes) (req : WindowRequest)
    (n hi extra : Nat) (base : List (Event Kind)) (acc : Accumulator Kind) : Prop where
  hi_le : hi ≤ bytes.length
  before : ∀ event ∈ between adapters store id bytes 0 hi, req.before.any event.cursor.atOrAfter = false
  walking : ∃ m, Walking adapters store id bytes req hi extra base acc hi hi m
  older : ((fileEvents adapters store id bytes).take n).reverse =
    base ++ (between adapters store id bytes 0 hi).reverse
  lines : ∃ before after, Lines.splitInclusive newline bytes = before ++ after ∧ hi = before.flatten.length
  extra_eq : base = [] → extra = 0

theorem Offered.fresh {size : Nat} : Offered adapters req (Accumulator.new store id size req) [] 0 := by
  refine ⟨⟨Nat.le_refl 0, rfl, ?_, fun h => absurd rfl h⟩, rfl, fun h => absurd h (Nat.lt_irrefl 0), ?_⟩
  · simp [Accumulator.new]
  · intro h
    cases h

/-- A walk that has read nothing. -/
theorem Walking.fresh (hhi : Whole newline (bytes.take hi)) :
    Walking adapters store id bytes req hi 0 [] (Accumulator.new store id bytes.length req) hi hi 0 := by
  refine ⟨rfl, rfl, rfl, Nat.le_refl _, fun h => h, Nat.le_refl _, hhi, ?_, ?_, rfl⟩
  · intro s hs hs' _
    omega
  · rw [between_self]
    exact Offered.fresh

/-- The first page starts behind the last line. -/
theorem starting_first (hwhole : Whole newline bytes) (hbefore : req.before = none) {stat : FileMemo} (hid : stat.id = id)
    (hsize : stat.size = bytes.length) :
    Starting adapters store id bytes req (fileEvents adapters store id bytes).length bytes.length 0 []
      (startWindow adapters store stat bytes req) := by
  have hacc : startWindow adapters store stat bytes req = (Accumulator.new store id bytes.length req : Accumulator Kind) := by
    rw [startWindow, hid, hsize]
    simp only [hbefore]
  rw [hacc]
  have hwalking := @Walking.fresh _ _ adapters req store id bytes bytes.length (by rwa [List.take_length])
  refine ⟨Nat.le_refl _, ?_, ⟨0, hwalking⟩, ?_, ?_, fun _ => rfl⟩
  · intro event _
    rw [hbefore]
    rfl
  · rw [List.take_length, between_file, List.nil_append]
  · refine ⟨Lines.splitInclusive newline bytes, [], (List.append_nil _).symm, ?_⟩
    rw [flatten_splitInclusive]

/-- A later page starts behind the record its cursor points into, and at the earlier events of that record. -/
theorem starting_at (hwhole : Whole newline bytes) (hlast : 1 ≤ req.last) (hreread : Rereadable adapters store bytes)
    {n k : Nat} {before after : List Bytes} {line : Bytes} (hat : At adapters store id bytes n before after line k)
    (hbefore : req.before = some { file := id, size := bytes.length, offset := before.flatten.length, part := k % 2 ^ 32 })
    {stat : FileMemo} (hid : stat.id = id) (hsize : stat.size = bytes.length) :
    ∃ extra base, Starting adapters store id bytes req n before.flatten.length extra base
      (startWindow adapters store stat bytes req) := by
  obtain ⟨hle, -, -, hstart⟩ := cut_before hwhole hat.lines
  have hpart : k % 2 ^ 32 = k := by
    by_cases hk : k = 0
    · rw [hk, Nat.zero_mod]
    · have hcount := hat.count
      have hbound := (hreread line (by rw [hat.lines]; simp) (by omega)).2
      exact Nat.mod_eq_of_lt (by omega)
  rw [hpart] at hbefore
  have hfilter : ∀ event ∈ between adapters store id bytes 0 before.flatten.length,
      req.before.any event.cursor.atOrAfter = false := by
    intro event hmem
    have hoffset := between_offset adapters store id bytes (Nat.zero_le _) hle hmem
    rw [hbefore, Option.any_some]
    simp only [Cursor.atOrAfter, Bool.or_eq_false_iff, decide_eq_false_iff_not, Bool.and_eq_false_iff,
      beq_eq_false_iff_ne]
    exact ⟨by omega, .inl (by omega)⟩
  by_cases hk : k = 0
  · -- The cursor is of its record's first event.
    subst hk
    have hacc : startWindow adapters store stat bytes req =
        (Accumulator.new store id bytes.length req : Accumulator Kind) := by
      rw [startWindow, hid, hsize]
      simp only [hbefore, Nat.lt_irrefl, if_false]
    rw [hacc]
    refine ⟨0, [], hle, hfilter, ⟨0, .fresh hstart⟩, ?_, ⟨before, line :: after, hat.lines, rfl⟩, fun _ => rfl⟩
    · rw [hat.older, List.take_zero, List.append_nil, List.nil_append]
  · have hcount := hat.count
    have hcap := (hreread line (by rw [hat.lines]; simp) (by omega)).1
    have hline := readRecord_line hwhole hat.lines hcap
    have hacc : startWindow adapters store stat bytes req = Accumulator.pushNewestFirst adapters
        { (Accumulator.new store id bytes.length req : Accumulator Kind) with
          readBytes := line.length
          unknown := (mapLine adapters store id bytes.length line before.flatten.length).2 }
        ((mapLine adapters store id bytes.length line before.flatten.length).1.take k).reverse := by
      rw [startWindow, hid, hsize]
      simp only [hbefore, Nat.pos_of_ne_zero hk, if_true, hline, Accumulator.new, Nat.zero_add]
    have hbase : ∀ event ∈ ((mapLine adapters store id bytes.length line before.flatten.length).1.take k).reverse,
        req.before.any event.cursor.atOrAfter = false := by
      intro event hmem
      obtain ⟨j, hj⟩ := List.mem_iff_getElem?.mp (List.mem_reverse.mp hmem)
      have hjk : j < k := by
        have hlt := (List.getElem?_eq_some_iff.mp hj).1
        rw [List.length_take] at hlt
        omega
      rw [List.getElem?_take_of_lt hjk] at hj
      rw [mapLine_cursor adapters store id hj, hbefore, Option.any_some]
      have hmod := Nat.mod_le j (2 ^ 32)
      simp only [Cursor.atOrAfter, Bool.or_eq_false_iff, decide_eq_false_iff_not, Bool.and_eq_false_iff]
      exact ⟨Nat.lt_irrefl _, .inr (by omega)⟩
    have hnew : Offered adapters req (Accumulator.new store id bytes.length req) [] 0 := Offered.fresh
    have hread : Offered adapters req
        { (Accumulator.new store id bytes.length req : Accumulator Kind) with
          readBytes := line.length
          unknown := (mapLine adapters store id bytes.length line before.flatten.length).2 } [] 0 :=
      hnew.congr rfl rfl rfl rfl
    obtain ⟨m, hpush⟩ := hread.push hlast hbase
    have hframe := push_frame adapters { (Accumulator.new store id bytes.length req : Accumulator Kind) with
        readBytes := line.length
        unknown := (mapLine adapters store id bytes.length line before.flatten.length).2 }
      ((mapLine adapters store id bytes.length line before.flatten.length).1.take k).reverse
    rw [List.nil_append] at hpush
    rw [hacc]
    refine ⟨line.length, ((mapLine adapters store id bytes.length line before.flatten.length).1.take k).reverse, hle,
      hfilter, ⟨m, ⟨hframe.1, hframe.2.1, hframe.2.2.1, Nat.le_refl _, fun h => h, Nat.le_refl _, hstart, ?_, ?_, ?_⟩⟩,
      ?_, ⟨before, line :: after, hat.lines, rfl⟩, ?_⟩
    · intro s hs hs' _
      omega
    · rw [between_self, List.reverse_nil, List.append_nil]
      exact hpush
    · rw [hframe.2.2.2]
    · rw [hat.older, List.reverse_append]
    · intro hnil
      rw [List.reverse_eq_nil_iff, List.take_eq_nil_iff] at hnil
      have hlen := length_mapLine adapters store id bytes.length before.flatten.length line
      rcases hnil with hnil | hnil
      · exact absurd hnil hk
      · rw [hnil, List.length_nil] at hlen
        omega

/-- A walk that spent its read budget without an event had no event left to find. -/
theorem no_event_left (hwhole : Whole newline bytes) (hspans : Spans adapters store bytes req.budget.readBytes)
    {n : Nat} (hs : Starting adapters store id bytes req n hi extra [] acc) {lo start : Nat} (hstart : start ≤ hi)
    (hnone : between adapters store id bytes start hi = []) (hlo : 0 < lo)
    (hspent : req.budget.readBytes + lo ≤ extra + hi)
    (hnext : ∀ s, lo < s → s < start → ¬ Whole newline (bytes.take s)) :
    between adapters store id bytes 0 hi = [] := by
  by_contra hne
  obtain ⟨before, after, hlines, rfl⟩ := hs.lines
  have hextra := hs.extra_eq rfl
  rw [between_before hwhole hlines, ← ne_eq, ne_eq, mapLines_eq_nil] at hne
  have hbearing : ∃ line ∈ before, bears adapters store line = true := by
    by_contra hall
    refine hne fun line hline => ?_
    rw [← Bool.not_eq_true]
    exact fun hb => hall ⟨line, hline, hb⟩
  obtain ⟨earlier, line, blank, rfl, hbears, hblank⟩ := exists_last hbearing
  have hsplit : Lines.splitInclusive newline bytes = earlier ++ line :: (blank ++ after) := by
    rw [hlines, List.append_assoc]
    rfl
  have hfits := hspans earlier line blank after hsplit hbears fun l hl => by
    rw [← Bool.not_eq_true]
    exact hblank l hl
  have hhi : (earlier ++ line :: blank).flatten.length =
      earlier.flatten.length + (line.length + blank.flatten.length) := by
    rw [List.flatten_append, List.flatten_cons, List.length_append, List.length_append]
  by_cases hempty : earlier = []
  · subst hempty
    rw [if_pos rfl] at hfits
    rw [hhi, List.flatten_nil, List.length_nil] at hspent
    omega
  · rw [if_neg hempty] at hfits
    have hline : lo < earlier.flatten.length := by omega
    obtain ⟨hlen, -, -, hcut⟩ := cut_before hwhole hsplit
    have hreach : start ≤ earlier.flatten.length := by
      by_contra hlate
      exact hnext _ hline (Nat.not_le.mp hlate) hcut
    have hle : earlier.flatten.length ≤ (earlier ++ line :: blank).flatten.length := by omega
    -- The record that maps to an event is among what was offered.
    have htail : between adapters store id bytes earlier.flatten.length (earlier ++ line :: blank).flatten.length =
        (mapLines adapters store id bytes.length earlier.flatten.length (line :: blank)).1 := by
      have hall := between_append adapters store id bytes (Nat.zero_le _) hle hs.hi_le hcut
      rw [between_before hwhole hsplit, between_before hwhole hlines, mapLines_append, Nat.zero_add] at hall
      exact List.append_cancel_left hall
    rw [← between_append adapters store id bytes hreach hle hs.hi_le hcut, List.append_eq_nil_iff, htail,
      mapLines_eq_nil] at hnone
    rw [hnone.2 line List.mem_cons_self] at hbears
    cases hbears

/-- The cursor of the last event that a page shows. -/
theorem last_shown {events : List (Event Kind)} {n m : Nat} (hn : n ≤ events.length) (hm : m ≤ n) {c : Cursor}
    (h : (((events.take n).reverse.take m).map (shown adapters req)).getLast?.map Event.cursor = some c) :
    m ≠ 0 ∧ ∃ event, events[n - m]? = some event ∧ event.cursor = c := by
  by_cases hzero : m = 0
  · rw [hzero, List.take_zero] at h
    cases h
  · refine ⟨hzero, ?_⟩
    have hlen : (events.take n).length = n := List.length_take_of_le hn
    have hindex : n - 1 - (m - 1) = n - m := by omega
    have hlt : n - m < n := by omega
    rw [List.getLast?_map, List.getLast?_take, if_neg hzero, List.getElem?_reverse (by rw [hlen]; omega), hlen, hindex,
      List.getElem?_take_of_lt hlt, List.getElem?_eq_getElem (by omega)] at h
    simp only [Option.some_or, Option.map_some, Option.some.injEq, shown_cursor] at h
    exact ⟨_, List.getElem?_eq_getElem (by omega), h⟩

/-- **One page.** It shows a front of the events that are older than its cursor, newest first, and `older` is the
cursor of the last one shown; there is none only where all were shown. -/
theorem page_of_starting (hwhole : Whole newline bytes) (hlast : 1 ≤ req.last)
    (hspans : Spans adapters store bytes req.budget.readBytes) {n : Nat}
    (hn : n ≤ (fileEvents adapters store id bytes).length)
    (hs : Starting adapters store id bytes req n hi extra base acc) (session : Option Session) :
    ∃ m ≤ n,
      ((scan adapters bytes hi [] true acc).1.finish (scan adapters bytes hi [] true acc).2 session).events =
        (((fileEvents adapters store id bytes).take n).reverse.take m).map (shown adapters req) ∧
      (((scan adapters bytes hi [] true acc).1.finish (scan adapters bytes hi [] true acc).2 session).older = none →
        m = n) ∧
      ∀ c, ((scan adapters bytes hi [] true acc).1.finish (scan adapters bytes hi [] true acc).2 session).older = some c →
        m ≠ 0 ∧ ∃ event, (fileEvents adapters store id bytes)[n - m]? = some event ∧ event.cursor = c := by
  obtain ⟨m₀, hwalking⟩ := hs.walking
  have hwalked := @scan_spec _ _ adapters req acc m₀ store id bytes hi extra hi hi base hlast hs.hi_le hs.before [] true
    hwalking (by rw [readRange, Nat.sub_self, List.take_zero])
  generalize scan adapters bytes hi [] true acc = result at hwalked ⊢
  have hlen : ((fileEvents adapters store id bytes).take n).reverse.length = n := by
    rw [List.length_reverse, List.length_take_of_le hn]
  obtain ⟨m, ⟨hhead, hkept⟩ | ⟨hhead, start, hstart, hwholestart, hkept, hpos⟩⟩ := hwalked
  · rw [← hs.older] at hkept
    have hle := hkept.le
    rw [hlen] at hle
    refine ⟨m, hle, hkept.events, ?_, ?_⟩
    · intro holder
      by_contra hne
      have hmore : result.1.more = true := hkept.more.mpr (by rw [hlen]; omega)
      have hnil : result.1.events = [] := by
        simpa [Accumulator.finish, hmore] using holder
      have hzero := hkept.length
      rw [hnil, List.length_nil] at hzero
      refine hkept.first ?_ hzero.symm
      intro hnil'
      rw [hnil', List.length_nil] at hlen
      omega
    · intro c hc
      refine @last_shown _ _ adapters req _ n m hn hle c ?_
      rw [← hkept.events]
      simp only [Accumulator.finish] at hc
      split at hc
      · exact hc
      · cases hc
  · have hall : ((fileEvents adapters store id bytes).take n).reverse =
        (base ++ (between adapters store id bytes start hi).reverse) ++
          (between adapters store id bytes 0 start).reverse := by
      rw [hs.older, ← between_append adapters store id bytes (Nat.zero_le start) hstart hs.hi_le hwholestart,
        List.reverse_append, List.append_assoc]
    have hle : m ≤ n := by
      have hsum := congrArg List.length hall
      rw [hlen, List.length_append] at hsum
      have hm := hkept.le
      omega
    have hevents : result.1.events =
        (((fileEvents adapters store id bytes).take n).reverse.take m).map (shown adapters req) := by
      rw [hkept.events, hall, List.take_append_of_le_length hkept.le]
    refine ⟨m, hle, hevents, ?_, ?_⟩
    · intro holder
      have hnil : result.1.events = [] := by
        simpa [Accumulator.finish, hhead] using holder
      have hzero := hkept.length
      rw [hnil, List.length_nil] at hzero
      subst hzero
      have hoffered : base ++ (between adapters store id bytes start hi).reverse = [] := by
        by_contra hne
        exact hkept.first hne rfl
      obtain ⟨rfl, hrev⟩ := List.append_eq_nil_iff.mp hoffered
      have hnone := List.reverse_eq_nil_iff.mp hrev
      rcases hpos with hpos | ⟨lo, hlo, hspent, hnext⟩
      · exact absurd rfl hpos
      · have hempty := no_event_left hwhole hspans hs hstart hnone hlo hspent hnext
        have holdest := hs.older
        rw [hempty] at holdest
        rw [holdest] at hlen
        exact hlen
    · intro c hc
      refine @last_shown _ _ adapters req _ n m hn hle c ?_
      rw [← hevents]
      simp only [Accumulator.finish] at hc
      split at hc
      · exact hc
      · cases hc

/-! ## Every page -/

/-- The pages from a cursor back, each asked for with the `older` of the one before it, to one that has none. -/
inductive Pages (adapters : Adapters Kind Session) (source : Source) (file : File) (req : WindowRequest) :
    Reader → Option Cursor → List (Window Kind Session) → Prop
  | last {reader reader' : Reader} {before : Option Cursor} {window : Window Kind Session}
      (asked : reader.window adapters source (some file) { req with before } = (reader', .ok window))
      (older : window.older = none) : Pages adapters source file req reader before [window]
  | next {reader reader' : Reader} {before : Option Cursor} {window : Window Kind Session} {cursor : Cursor}
      {pages : List (Window Kind Session)}
      (asked : reader.window adapters source (some file) { req with before } = (reader', .ok window))
      (older : window.older = some cursor) (rest : Pages adapters source file req reader' (some cursor) pages) :
      Pages adapters source file req reader before (window :: pages)

variable {source : Source} {file : File} {reader : Reader}

theorem Pages.ne_nil {before : Option Cursor} {pages : List (Window Kind Session)}
    (h : Pages adapters source file req reader before pages) : pages ≠ [] := by
  cases h <;> exact List.cons_ne_nil _ _

/-- Each page follows from what was asked for. -/
theorem Pages.unique {before : Option Cursor} {pages pages' : List (Window Kind Session)}
    (h : Pages adapters source file req reader before pages)
    (h' : Pages adapters source file req reader before pages') : pages = pages' := by
  induction h generalizing pages' with
  | last asked older =>
    cases h' with
    | last asked' older' =>
      rw [asked, Prod.mk.injEq, Except.ok.injEq] at asked'
      rw [asked'.2]
    | next asked' older' rest' =>
      rw [asked, Prod.mk.injEq, Except.ok.injEq] at asked'
      rw [← asked'.2, older] at older'
      cases older'
  | next asked older rest ih =>
    cases h' with
    | last asked' older' =>
      rw [asked, Prod.mk.injEq, Except.ok.injEq] at asked'
      rw [← asked'.2, older] at older'
      cases older'
    | next asked' older' rest' =>
      rw [asked, Prod.mk.injEq, Except.ok.injEq] at asked'
      obtain ⟨rfl, rfl⟩ := asked'
      rw [older, Option.some.injEq] at older'
      subst older'
      rw [ih rest']

theorem Pages.older {before : Option Cursor} {pages : List (Window Kind Session)}
    (h : Pages adapters source file req reader before pages) {page : Window Kind Session} (hpage : page ∈ pages.dropLast) :
    page.older ≠ none := by
  induction h with
  | last => cases hpage
  | next asked older rest ih =>
    rw [List.dropLast_cons_of_ne_nil rest.ne_nil, List.mem_cons] at hpage
    rcases hpage with rfl | hpage
    · rw [older]
      exact Option.some_ne_none _
    · exact ih hpage

/-- A page of a file, by its walk. -/
theorem window_of_scan (hstore : source.store.isReadable = true)
    (hvalid : (req.before.elim (.ok ()) fun c => validate c file.memo) = .ok ())
    (hhi : req.before.elim file.bytes.length Cursor.offset = hi) {reachedHead : Bool}
    (hscan : scan adapters file.bytes hi [] true (startWindow adapters source.store file.memo file.bytes req) =
      (acc, reachedHead)) :
    reader.window adapters source (some file) req = ({ reader with unknown := reader.unknown + acc.unknown },
      .ok (acc.finish reachedHead
        (if req.before.isSome then none else headSession adapters source.store file.bytes))) := by
  have hfile : source.store.isFileStore = true := by
    revert hstore
    cases source.store <;> decide
  have hstat : stat source (some file) = .ok file.memo := by simp [stat, hstore]
  have hsize : file.memo.size = file.bytes.length := rfl
  simp only [Reader.window, hfile, hstat, hvalid, hsize, hhi, hscan, Bool.not_true, Bool.false_eq_true, if_false,
    Option.elim_some]

/-- A page of a file that starts where the events older than the `n`-th begin. -/
theorem window_of_starting (hstore : source.store.isReadable = true) (hwhole : Whole newline file.bytes)
    (hlast : 1 ≤ req.last) (hspans : Spans adapters source.store file.bytes req.budget.readBytes) {n : Nat}
    (hn : n ≤ (fileEvents adapters source.store file.id file.bytes).length)
    (hvalid : (req.before.elim (.ok ()) fun c => validate c file.memo) = .ok ())
    (hhi : req.before.elim file.bytes.length Cursor.offset = hi)
    (hs : Starting adapters source.store file.id file.bytes req n hi extra base
      (startWindow adapters source.store file.memo file.bytes req)) :
    ∃ reader' window, reader.window adapters source (some file) req = (reader', .ok window) ∧
      ∃ m ≤ n,
        window.events = (((fileEvents adapters source.store file.id file.bytes).take n).reverse.take m).map
          (shown adapters req) ∧
        (window.older = none → m = n) ∧
        ∀ c, window.older = some c →
          m ≠ 0 ∧ ∃ event, (fileEvents adapters source.store file.id file.bytes)[n - m]? = some event ∧
            event.cursor = c := by
  have hpage := page_of_starting hwhole hlast hspans hn hs
    (if req.before.isSome then none else headSession adapters source.store file.bytes)
  exact ⟨_, _, window_of_scan hstore hvalid hhi rfl, hpage⟩

/-- The events older than the `n`-th, page by page. -/
theorem pages_from (hstore : source.store.isReadable = true) (hwhole : Whole newline file.bytes)
    (hlast : 1 ≤ req.last) (hspans : Spans adapters source.store file.bytes req.budget.readBytes)
    (hreread : Rereadable adapters source.store file.bytes) {n : Nat} {before : Option Cursor}
    (hbefore : (n = (fileEvents adapters source.store file.id file.bytes).length ∧ before = none) ∨
      ∃ event, (fileEvents adapters source.store file.id file.bytes)[n]? = some event ∧ before = some event.cursor) :
    ∃ pages, Pages adapters source file req reader before pages ∧ (∀ page ∈ pages.dropLast, page.events ≠ []) ∧
      pages.flatMap Window.events =
        ((fileEvents adapters source.store file.id file.bytes).take n).reverse.map (shown adapters req) := by
  induction n using Nat.strong_induction_on generalizing before reader with
  | _ n ih =>
    have hpage : n ≤ (fileEvents adapters source.store file.id file.bytes).length ∧
        ∃ reader' window, reader.window adapters source (some file) { req with before } = (reader', .ok window) ∧
        ∃ m ≤ n,
          window.events = (((fileEvents adapters source.store file.id file.bytes).take n).reverse.take m).map
            (shown adapters req) ∧
          (window.older = none → m = n) ∧
          ∀ c, window.older = some c →
            m ≠ 0 ∧ ∃ event, (fileEvents adapters source.store file.id file.bytes)[n - m]? = some event ∧
              event.cursor = c := by
      rcases hbefore with ⟨rfl, rfl⟩ | ⟨event, hevent, rfl⟩
      · refine ⟨Nat.le_refl _, ?_⟩
        have hs : Starting adapters source.store file.id file.bytes { req with before := none }
            (fileEvents adapters source.store file.id file.bytes).length file.bytes.length 0 []
            (startWindow adapters source.store file.memo file.bytes { req with before := none }) :=
          starting_first hwhole rfl rfl rfl
        have hlast' : 1 ≤ ({ req with before := none } : WindowRequest).last := hlast
        exact window_of_starting hstore hwhole hlast' hspans (Nat.le_refl _) rfl rfl hs
      · have hlt := (List.getElem?_eq_some_iff.mp hevent).1
        obtain ⟨earlier, after, line, k, hat⟩ := exists_at hwhole hlt
        obtain ⟨hle, -, hdrop, -⟩ := cut_before hwhole hat.lines
        have hcursor := hat.cursor event hevent
        have hinside : earlier.flatten.length < file.bytes.length := by
          have hlen := congrArg List.length hdrop
          have hline := List.length_pos_iff.mpr (ne_nil_of_count (Nat.lt_of_le_of_lt (Nat.zero_le k) hat.count))
          rw [List.length_drop, List.flatten_cons, List.length_append] at hlen
          omega
        have hbefore : ({ req with before := some event.cursor } : WindowRequest).before =
            some { file := file.id, size := file.bytes.length, offset := earlier.flatten.length, part := k % 2 ^ 32 } := by
          rw [← hcursor]
        have hlast' : 1 ≤ ({ req with before := some event.cursor } : WindowRequest).last := hlast
        obtain ⟨extra, base, hs⟩ := starting_at hwhole hlast' hreread hat hbefore (rfl : file.memo.id = file.id) rfl
        refine ⟨Nat.le_of_lt hlt, ?_⟩
        refine window_of_starting hstore hwhole hlast' hspans (Nat.le_of_lt hlt) ?_ ?_ hs
        · rw [hbefore]
          exact if_pos ⟨rfl, Nat.le_refl _, hinside⟩
        · rw [hbefore]
          rfl
    obtain ⟨hn, reader', window, hasked, m, hm, hevents, hnone, hsome⟩ := hpage
    cases holder : window.older with
    | none =>
      refine ⟨[window], .last hasked holder, fun page hpage => absurd hpage List.not_mem_nil, ?_⟩
      obtain rfl := hnone holder
      rw [List.flatMap_singleton, hevents, List.take_of_length_le]
      rw [List.length_reverse, List.length_take]
      exact Nat.min_le_left _ _
    | some cursor =>
      obtain ⟨hpos, event, hevent, rfl⟩ := hsome cursor holder
      obtain ⟨pages, hpages, hfilled, hrest⟩ := @ih (n - m) (by omega) reader' (some event.cursor)
        (.inr ⟨event, hevent, rfl⟩)
      have hshown : window.events ≠ [] := by
        intro hnil
        have hlen := congrArg List.length hevents
        rw [hnil, List.length_map, List.length_take, List.length_reverse, List.length_take_of_le hn,
          Nat.min_eq_left hm] at hlen
        exact hpos hlen.symm
      refine ⟨window :: pages, .next hasked holder hpages, ?_, ?_⟩
      · intro page hpage
        rw [List.dropLast_cons_of_ne_nil hpages.ne_nil, List.mem_cons] at hpage
        rcases hpage with rfl | hpage
        · exact hshown
        · exact hfilled page hpage
      have hdrop : ((fileEvents adapters source.store file.id file.bytes).take n).reverse.drop m =
          ((fileEvents adapters source.store file.id file.bytes).take (n - m)).reverse := by
        rw [List.drop_reverse, List.length_take_of_le hn, List.take_take, Nat.min_eq_left (Nat.sub_le _ _)]
      rw [List.flatMap_cons, hevents, hrest, ← List.map_append, ← hdrop, List.take_append_drop]

/-- **Paging is complete.** Over a transcript of whole lines whose records each fit in the read budget, from the end and
on through `older`: the walk ends, and its pages are all of the file's events, newest first, each once. Only the last
page has no `older`, and no page before it is empty. -/
theorem paging_complete (hstore : source.store.isReadable = true) (hwhole : Whole newline file.bytes)
    (hlast : 1 ≤ req.last) (hspans : Spans adapters source.store file.bytes req.budget.readBytes)
    (hreread : Rereadable adapters source.store file.bytes) :
    ∃ pages, (∀ walk, Pages adapters source file req reader none walk ↔ walk = pages) ∧
      pages.flatMap Window.events =
        (fileEvents adapters source.store file.id file.bytes).reverse.map (shown adapters req) ∧
      ∀ page ∈ pages.dropLast, page.older ≠ none ∧ page.events ≠ [] := by
  obtain ⟨pages, hpages, hfilled, hevents⟩ :=
    @pages_from _ _ adapters req source file reader hstore hwhole hlast hspans hreread _ none (.inl ⟨rfl, rfl⟩)
  rw [List.take_length] at hevents
  refine ⟨pages, fun walk => ⟨fun hwalk => hwalk.unique hpages, ?_⟩, hevents, ?_⟩
  · rintro rfl
    exact hpages
  · exact fun page hpage => ⟨hpages.older hpage, hfilled page hpage⟩

/-! ## A page that ends before the head -/

namespace Early

open Withheld (unparsed session)

/-- One event a page, and one chunk. -/
def oneEvent : WindowRequest :=
  { last := 1, before := none, headersOnly := false
    budget := { headerBytes := 256, readBytes := chunkBytes, frameBytes := 32768 } }

def fileOf (bytes : Bytes) : File := { id := { dev := 1, ino := 1 }, bytes, mtime := 0, mtimeNsec := 0 }

/-- A record behind blank lines. -/
def spaced (blank : Nat) : Bytes := List.replicate blank newline ++ [0x78, newline]

/-- A long record behind another. -/
def long (width : Nat) : Bytes := [0x78, newline] ++ (List.replicate width 0x78 ++ [newline])

def twoRecords : Bytes := [0x78, newline, 0x78, newline]

theorem whole_spaced (blank : Nat) : Whole newline (spaced blank) :=
  .inr ⟨List.replicate blank newline ++ [0x78], by rw [spaced, List.append_assoc]; rfl⟩

/-- Blank lines map to nothing. -/
theorem mapRange_blank (size base blank : Nat) (bytes : Bytes) :
    mapRange unparsed .claude { dev := 1, ino := 1 } size (List.replicate blank newline ++ bytes) base =
      mapRange unparsed .claude { dev := 1, ino := 1 } size bytes (base + blank) := by
  induction blank generalizing base with
  | zero => rfl
  | succ blank ih =>
    have hline : mapLine unparsed .claude { dev := 1, ino := 1 } size [newline] base = ([], 0) := rfl
    have hsum : base + (blank + 1) = base + 1 + blank := by omega
    rw [List.replicate_succ, List.cons_append, mapRange, Lines.splitInclusive, if_pos rfl, mapLines, hline, hsum, ← ih]
    simp [mapRange]

/-- The event of the record behind the blank lines. -/
def oldest (size offset : Nat) : Event Unit :=
  { cursor := { file := { dev := 1, ino := 1 }, size, offset, part := 0 }, ts := none, kind := (), preview := none,
    body := none }

theorem mapRange_spaced (size base blank : Nat) :
    mapRange unparsed .claude { dev := 1, ino := 1 } size (spaced blank) base = ([oldest size (base + blank)], 1) := by
  rw [spaced, mapRange_blank]
  rfl

theorem length_spaced (blank : Nat) : (spaced blank).length = blank + 2 := by
  rw [spaced, List.length_append, List.length_replicate]
  rfl

/-- The pieces of the file of blank lines. -/
theorem readRange_spaced {lo blank : Nat} (h : lo ≤ blank) :
    readRange (spaced blank) lo (blank + 2) = spaced (blank - lo) := by
  have hlen := length_spaced (blank - lo)
  rw [readRange, spaced, List.drop_append_of_le_length (by rw [List.length_replicate]; exact h), List.drop_replicate,
    List.take_of_length_le (by rw [spaced] at hlen; rw [hlen]; omega)]
  rfl

theorem take_spaced (blank : Nat) : (spaced blank).take blank = List.replicate blank newline := by
  rw [spaced]
  exact List.take_left' List.length_replicate

theorem three_le_chunkBytes : 3 ≤ chunkBytes := by decide

/-- The first page is full before the walk is at the head. -/
theorem scan_spaced {width : Nat} (hwidth : width = chunkBytes) :
    ∃ acc, scan unparsed (spaced width) (width + 2) [] true
        (Accumulator.new .claude { dev := 1, ino := 1 } (width + 2) oneEvent) = (acc, false) ∧
      acc.events = [oldest (width + 2) width] := by
  have hthree := three_le_chunkBytes
  have hlen := length_spaced width
  obtain ⟨low, hlow, hlowdef, hround⟩ := @scan_round _ _ unparsed
    (Accumulator.new .claude { dev := 1, ino := 1 } (width + 2) oneEvent) (spaced width) (width + 2) (width + 2) [] true
    (Nat.le_of_eq hlen.symm) (Nat.le_refl _) (fun _ => by rw [← hlen, List.take_length]; exact whole_spaced width)
    (by rw [readRange, Nat.sub_self, List.take_zero]) (by omega) rfl (by simp only [Accumulator.new, oneEvent]; omega)
  have hlowtwo : low = 2 := by
    rw [hlowdef, hwidth]
    simp only [Accumulator.new, oneEvent]
    omega
  subst hlowtwo
  obtain ⟨rest, rfl⟩ : ∃ rest, width = rest + 3 := ⟨width - 3, by omega⟩
  have hpos : position newline (readRange (spaced (rest + 3)) 2 (rest + 3 + 2)) = some 0 := by
    rw [readRange_spaced (by omega)]
    exact if_pos rfl
  have hbody : readRange (spaced (rest + 3)) (2 + 0 + 1) (rest + 3 + 2) = spaced rest := readRange_spaced (by omega)
  rw [round, if_neg (by decide), hpos, Option.elim_some, hbody, Accumulator.absorb] at hround
  simp only [Accumulator.new, mapRange_spaced, List.reverse_singleton] at hround
  refine ⟨_, hround.trans (scan_full (by decide) rfl), ?_⟩
  rw [Nat.add_comm rest 3]
  rfl

/-- The second finds only the blank lines, and the head. -/
theorem scan_blank {width : Nat} (hwidth : width = chunkBytes) (c : Cursor) :
    ∃ acc, scan unparsed (spaced width) width [] true
        (Accumulator.new .claude { dev := 1, ino := 1 } (width + 2) { oneEvent with before := some c }) = (acc, true) ∧
      acc.events = [] := by
  have hthree := three_le_chunkBytes
  have hlen := length_spaced width
  have hwhole : Whole newline ((spaced width).take width) := by
    obtain ⟨rest, rfl⟩ : ∃ rest, width = rest + 1 := ⟨width - 1, by omega⟩
    rw [take_spaced, List.replicate_succ']
    exact .inr ⟨_, rfl⟩
  obtain ⟨low, hlow, hlowdef, hround⟩ := @scan_round _ _ unparsed
    (Accumulator.new .claude { dev := 1, ino := 1 } (width + 2) { oneEvent with before := some c }) (spaced width) width
    width [] true (by omega) (Nat.le_refl _) (fun _ => hwhole) (by rw [readRange, Nat.sub_self, List.take_zero]) (by omega)
    rfl (by simp only [Accumulator.new, oneEvent]; omega)
  have hlowzero : low = 0 := by
    rw [hlowdef, hwidth]
    simp only [Accumulator.new, oneEvent]
    omega
  have hbody : readRange (spaced width) 0 width = List.replicate width newline ++ [] := by
    rw [readRange, List.drop_zero, Nat.sub_zero, take_spaced, List.append_nil]
  subst hlowzero
  rw [round, if_pos rfl, hbody, Accumulator.absorb] at hround
  simp only [Accumulator.new, mapRange_blank] at hround
  refine ⟨_, hround.trans scan_head, rfl⟩

theorem length_long (width : Nat) : (long width).length = width + 3 := by
  rw [long, List.length_append, List.length_append, List.length_replicate]
  simp only [List.length_cons, List.length_nil]
  omega

/-- The read budget is spent inside the long record. -/
theorem scan_long {width : Nat} (hwidth : width = chunkBytes) :
    ∃ acc, scan unparsed (long width) (width + 3) [] true
        (Accumulator.new .claude { dev := 1, ino := 1 } (width + 3) oneEvent) = (acc, false) ∧
      acc.events = [] := by
  have hthree := three_le_chunkBytes
  have hlen := length_long width
  obtain ⟨low, hlow, hlowdef, hround⟩ := @scan_round _ _ unparsed
    (Accumulator.new .claude { dev := 1, ino := 1 } (width + 3) oneEvent) (long width) (width + 3) (width + 3) [] true
    (Nat.le_of_eq hlen.symm) (Nat.le_refl _)
    (fun _ => by rw [← hlen, List.take_length]; exact .inr ⟨_, by rw [long, ← List.append_assoc]⟩)
    (by rw [readRange, Nat.sub_self, List.take_zero]) (by omega) rfl (by simp only [Accumulator.new, oneEvent]; omega)
  have hlowthree : low = 3 := by
    rw [hlowdef, hwidth]
    simp only [Accumulator.new, oneEvent]
    omega
  subst hlowthree
  obtain ⟨rest, rfl⟩ : ∃ rest, width = rest + 1 := ⟨width - 1, by omega⟩
  have hchunk : readRange (long (rest + 1)) 3 (rest + 1 + 3) = List.replicate rest 0x78 ++ [newline] := by
    have hdrop : (long (rest + 1)).drop 3 = List.replicate rest 0x78 ++ [newline] := rfl
    rw [readRange, hdrop]
    refine List.take_of_length_le ?_
    rw [List.length_append, List.length_replicate, List.length_singleton]
    omega
  have hpos : position newline (readRange (long (rest + 1)) 3 (rest + 1 + 3)) = some rest := by
    refine position_eq_some.mpr ⟨List.replicate rest 0x78, [], hchunk, ?_, List.length_replicate⟩
    intro hmem
    exact absurd (List.eq_of_mem_replicate hmem) (by decide)
  have hbody : readRange (long (rest + 1)) (3 + rest + 1) (rest + 1 + 3) = [] := by
    rw [readRange, List.take_eq_nil_iff]
    exact .inl (by omega)
  have hread : chunkBytes ≤ 0 + (rest + 1 + 3 - 3) := by omega
  rw [round, if_neg (by decide), hpos, Option.elim_some, hbody] at hround
  refine ⟨_, hround.trans (scan_spent (by decide) rfl hread), rfl⟩

/-- A page that does not start inside a record starts with nothing read. -/
theorem startWindow_new (bytes : Bytes) {size offset : Nat} :
    startWindow unparsed .claude (fileOf bytes).memo bytes { oneEvent with before := some (oldest size offset).cursor } =
      Accumulator.new .claude { dev := 1, ino := 1 } bytes.length
        { oneEvent with before := some (oldest size offset).cursor } := rfl

/-- Two pages of the blank lines' file: the oldest event is not on the one that has no `older`. -/
theorem pages_spaced {width : Nat} (hwidth : width = chunkBytes) :
    ∃ page₁ page₂ : Window Unit Unit,
      Pages unparsed session (fileOf (spaced width)) oneEvent Reader.new none [page₁, page₂] ∧
        page₁.events = [oldest (width + 2) width] ∧ page₂.events = [] := by
  have hlen := length_spaced width
  have hinside : width < (spaced width).length := by omega
  obtain ⟨acc₁, hscan₁, hevents₁⟩ := scan_spaced hwidth
  obtain ⟨acc₂, hscan₂, hevents₂⟩ := scan_blank hwidth (oldest (width + 2) width).cursor
  rw [← hlen] at hscan₁
  have hstart := @startWindow_new (spaced width) (width + 2) width
  rw [hlen] at hstart
  rw [← hstart] at hscan₂
  have hwindow₁ := @window_of_scan _ _ unparsed oneEvent acc₁ _ session (fileOf (spaced width)) Reader.new
    rfl rfl rfl false hscan₁
  have hwindow₂ := fun reader => @window_of_scan _ _ unparsed
    { oneEvent with before := some (oldest (width + 2) width).cursor } acc₂ width session (fileOf (spaced width)) reader
    rfl (if_pos ⟨rfl, Nat.le_of_eq hlen.symm, hinside⟩) rfl true hscan₂
  refine ⟨_, _, .next hwindow₁ (?_ : _ = some (oldest (width + 2) width).cursor) (.last (hwindow₂ _) ?_), hevents₁,
    hevents₂⟩
  · simp [Accumulator.finish, hevents₁]
  · simp [Accumulator.finish, hevents₂]

/-- One page of the long record's file, and nothing on it. -/
theorem pages_long {width : Nat} (hwidth : width = chunkBytes) :
    ∃ page : Window Unit Unit,
      Pages unparsed session (fileOf (long width)) oneEvent Reader.new none [page] ∧ page.events = [] := by
  have hlen := length_long width
  obtain ⟨acc, hscan, hevents⟩ := scan_long hwidth
  rw [← hlen] at hscan
  have hwindow := @window_of_scan _ _ unparsed oneEvent acc _ session (fileOf (long width)) Reader.new
    rfl rfl rfl false hscan
  refine ⟨_, .last hwindow ?_, hevents⟩
  simp [Accumulator.finish, hevents]

end Early

theorem paging_complete_two_records :
    ∃ pages, (∀ walk, Pages Withheld.unparsed Withheld.session (Early.fileOf Early.twoRecords) Early.oneEvent Reader.new
        none walk ↔ walk = pages) ∧
      pages.flatMap Window.events =
        (fileEvents Withheld.unparsed .claude { dev := 1, ino := 1 } Early.twoRecords).reverse.map
          (shown Withheld.unparsed Early.oneEvent) ∧
      ∀ page ∈ pages.dropLast, page.older ≠ none ∧ page.events ≠ [] := by
  have hwhole : Whole newline Early.twoRecords := .inr ⟨[0x78, newline, 0x78], rfl⟩
  have hspans : Spans Withheld.unparsed .claude Early.twoRecords Early.oneEvent.budget.readBytes := by
    intro before line blank after hlines _ _
    have hlen := congrArg (List.length ∘ List.flatten) hlines
    have hfile : (Lines.splitInclusive newline Early.twoRecords).flatten.length = 4 := by decide
    simp only [Function.comp_apply, hfile, List.flatten_append, List.flatten_cons, List.length_append] at hlen
    have hbudget : Early.oneEvent.budget.readBytes = 65536 := rfl
    rw [hbudget]
    split <;> omega
  have hreread : Rereadable Withheld.unparsed .claude Early.twoRecords := by
    intro line hline hcount
    have hall : ∀ l ∈ Lines.splitInclusive newline Early.twoRecords, eventCount Withheld.unparsed .claude l = 1 := by decide
    rw [hall line hline] at hcount
    omega
  exact @paging_complete _ _ Withheld.unparsed Early.oneEvent Withheld.session (Early.fileOf Early.twoRecords) Reader.new
    rfl hwhole (Nat.le_refl 1) hspans hreread

/-- The page without an `older` need not be the one with the oldest event, and where a record is longer than the read
budget it can be the only page and empty. -/
theorem older_none_early :
    (∃ page₁ page₂ : Window Unit Unit,
      Pages Withheld.unparsed Withheld.session (Early.fileOf (Early.spaced chunkBytes)) Early.oneEvent Reader.new none
          [page₁, page₂] ∧
        page₁.events = [Early.oldest (chunkBytes + 2) chunkBytes] ∧ page₂.events = []) ∧
      ∃ page : Window Unit Unit,
        Pages Withheld.unparsed Withheld.session (Early.fileOf (Early.long chunkBytes)) Early.oneEvent Reader.new none
            [page] ∧
          page.events = [] ∧
          fileEvents Withheld.unparsed .claude { dev := 1, ino := 1 } (Early.long chunkBytes) ≠ [] := by
  obtain ⟨page, hpages, hevents⟩ := Early.pages_long rfl
  refine ⟨Early.pages_spaced rfl, page, hpages, hevents, ?_⟩
  rw [fileEvents, ne_eq, mapRange_eq_nil]
  intro hnone
  have hbears : bears Withheld.unparsed .claude [0x78, newline] = true := by decide
  rw [hnone _ List.mem_cons_self] at hbears
  cases hbears

end TmuxAgents.Transcript
