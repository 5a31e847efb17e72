/-
What the control-stream decoder may hand on, whatever the stream holds.

`Move` says once what a byte can do; every invariant is read off it. `Frame` is
the grammar of the items: what a notification, a gap and the end of a client may
be followed by. `Told` ties the machine to the bytes it has read: the header it
retains, the block it is in, and the block that let it attach.
-/
import TmuxAgents.Control.Decoder

namespace TmuxAgents

/-! ## Chunks -/

/-- Every byte of the chunks, with the flag it is fed under. -/
def tagged (chunks : List (Bool × Bytes)) : List (Bool × UInt8) := chunks.flatMap fun chunk => chunk.2.map (chunk.1, ·)

/-- The bytes of the chunks. -/
def bytesOf (chunks : List (Bool × Bytes)) : Bytes := chunks.flatMap Prod.snd

theorem bytesOf_eq (chunks : List (Bool × Bytes)) : bytesOf chunks = (tagged chunks).map Prod.snd := by
  induction chunks with
  | nil => rfl
  | cons chunk chunks ih =>
    have hchunk : ((chunk.2.map (chunk.1, ·)).map Prod.snd : Bytes) = chunk.2 := by simp [Function.comp_def]
    simp only [bytesOf, tagged, List.flatMap_cons, List.map_append, hchunk] at ih ⊢
    rw [ih]

namespace Decoder

/-- A byte; a poisoned machine reads no further. -/
def read (d : Decoder) (input : Bool × UInt8) : List Decoded × Decoder :=
  if d.line = .poisoned then ([], d) else d.byte input.1 input.2

theorem read_poisoned {d : Decoder} (h : d.line = .poisoned) (stream : List (Bool × UInt8)) :
    Transducer.feed read d stream = ([], d) := by
  induction stream with
  | nil => rfl
  | cons input stream ih =>
    have hread : read d input = ([], d) := if_pos h
    rw [Transducer.feed_cons, hread, ih, List.append_nil]

theorem feed_eq (d : Decoder) (protocol : Bool) (bytes : Bytes) :
    d.feed protocol bytes = Transducer.feed read d (bytes.map (protocol, ·)) := by
  induction bytes generalizing d with
  | nil => rfl
  | cons b rest ih =>
    by_cases h : d.line = .poisoned
    · rw [read_poisoned h, feed, if_pos h]
    · have hread : read d (protocol, b) = d.byte protocol b := if_neg h
      rw [feed, if_neg h, List.map_cons, Transducer.feed_cons, hread, ← ih]

/-- **The cut into chunks does not matter.** -/
theorem feedAll_eq (d : Decoder) (chunks : List (Bool × Bytes)) :
    d.feedAll chunks = Transducer.feed read d (tagged chunks) := by
  induction chunks generalizing d with
  | nil => rfl
  | cons chunk chunks ih =>
    have hcons : tagged (chunk :: chunks) = chunk.2.map (chunk.1, ·) ++ tagged chunks := List.flatMap_cons
    rw [hcons, Transducer.feed_append, ← feed_eq, ← ih]
    rfl

/-! ## What a byte can do -/

/-- The lines that end a block with this key. -/
def Closes (key : Nat × Nat × Nat) (line : Bytes) : Prop :=
  (tag line = ascii "%end" ∨ tag line = ascii "%error") ∧ frame line = some key

/-- The items of a whole line outside a block. -/
def Notified (items : List Decoded) : Prop :=
  items = [] ∨ items = [.gap none .malformedTransport] ∨ (∃ pane, items = [.pause pane] ∨ items = [.continue_ pane]) ∨
    items = [.note .sessionsChanged] ∨ items = [.note .lifecycle]

/-- What a byte within the budget does to a machine in a block. -/
inductive BlockMove (d : Decoder) (key : Nat × Nat × Nat) (byte : UInt8) : List Decoded → Decoder → Prop
  | heard (hline : d.line = .header) (hbyte : byte ≠ newline) (hshort : d.header.length + 1 ≤ maxHeader) :
    BlockMove d key byte [] { d.charged with header := d.header ++ [byte] }
  | data (hline : d.line = .header) (hbyte : byte ≠ newline) :
    BlockMove d key byte [] { d.charged with header := [], line := .blockData }
  | skipped (hline : d.line = .blockData) (hbyte : byte ≠ newline) : BlockMove d key byte [] d.charged
  | resumed (hline : d.line = .blockData) (hbyte : byte = newline) (hlines : d.blockLines + 1 ≤ maxBlockLines) :
    BlockMove d key byte [] { d.charged with line := .header, blockLines := d.blockLines + 1 }
  | line (hline : d.line = .header) (hbyte : byte = newline) (hlines : d.blockLines + 1 ≤ maxBlockLines) :
    BlockMove d key byte [] { d.charged with header := [], blockLines := d.blockLines + 1 }
  | refused (hline : d.line = .header) (hbyte : byte = newline) (hcloses : Closes key d.header) {d' : Decoder}
    (hpoisoned : d'.line = .poisoned) (hheader : d'.header = []) (hattached : d'.attached = d.attached) :
    BlockMove d key byte [.note .exit] d'
  | closed (hline : d.line = .header) (hbyte : byte = newline) (hcloses : Closes key d.header)
    (hfirst : d.attached = true ∨ tag d.header = ascii "%end") :
    BlockMove d key byte []
      { d with header := [], block := none, blockBytes := 0, blockLines := 0, attached := true }

/-- What a byte does to a machine that is not poisoned. -/
inductive Move (d : Decoder) (byte : UInt8) : List Decoded → Decoder → Prop
  | fatal (hline : d.line = .header ∨ d.line = .blockData) {d' : Decoder} (hpoisoned : d'.line = .poisoned)
    (hheader : d'.header = []) (hattached : d'.attached = d.attached) :
    Move d byte [.gap none .framingLoss, .fatal] d'
  /-- A payload's line ends, in the middle of an escape or not. -/
  | ended {pane : PaneId} {octal : Option (Nat × Nat)} (hline : d.line = .payload pane octal) (hbyte : byte = newline)
    {gap : List Decoded} (hgap : gap = [] ∨ gap = [.gap (some pane) .malformedTransport]) :
    Move d byte (gap ++ [.end_ pane]) { d with line := .header }
  | payload {pane : PaneId} {octal : Option (Nat × Nat)} (octal' : Option (Nat × Nat))
    (hline : d.line = .payload pane octal) {items : List Decoded} (hitems : items = [] ∨ ∃ b, items = [.byte pane b]) :
    Move d byte items { d with line := .payload pane octal' }
  | faulted {pane : PaneId} {octal : Option (Nat × Nat)} (hline : d.line = .payload pane octal) :
    Move d byte [.gap (some pane) .malformedTransport, .end_ pane] { d with line := .skip }
  | skipped (hline : d.line = .skip) (hbyte : byte ≠ newline) : Move d byte [] d
  | resumed (hline : d.line = .skip) (hbyte : byte = newline) : Move d byte [] { d with line := .header }
  | started {pane : PaneId} (hline : d.line = .header) (hattached : d.attached = true) (hbyte : byte ≠ newline)
    (hblock : d.block = none) : Move d byte [.start pane] { d with line := .payload pane none, header := [] }
  | heard (hline : d.line = .header) (hblock : d.block = none) (hbyte : byte ≠ newline)
    (hshort : d.header.length + 1 ≤ maxHeader) : Move d byte [] { d with header := d.header ++ [byte] }
  | notified (hline : d.line = .header) (hblock : d.block = none) (hbyte : byte = newline) {items : List Decoded}
    (hitems : Notified items) : Move d byte items { d with header := [] }
  | exited (hline : d.line = .header) (hblock : d.block = none) (hbyte : byte = newline) :
    Move d byte [.note .exit] { d with header := [], line := .poisoned }
  | opened {key : Nat × Nat × Nat} (hline : d.line = .header) (hblock : d.block = none) (hbyte : byte = newline)
    (htag : tag d.header = ascii "%begin") (hframe : frame d.header = some key) :
    Move d byte [] { d with header := [], block := some key, blockBytes := 0, blockLines := 0 }
  | block {key : Nat × Nat × Nat} (hblock : d.block = some key) (hbytes : d.blockBytes + 1 ≤ maxBlockBytes)
    {items : List Decoded} {d' : Decoder} (h : BlockMove d key byte items d') : Move d byte items d'

/-- The lines a machine can be on in a block, and outside one. -/
def Placed (d : Decoder) : Prop :=
  (d.block.isSome = true → d.line = .header ∨ d.line = .blockData ∨ d.line = .poisoned) ∧
    (d.line = .blockData → d.block.isSome = true)

theorem headerLimit_le (d : Decoder) : d.headerLimit ≤ maxHeader := by
  rw [headerLimit]
  split
  · decide
  · split
    · decide
    · exact Nat.le_refl _

theorem payloadByte_move {d : Decoder} {pane : PaneId} {octal : Option (Nat × Nat)} (protocol : Bool) (byte : UInt8)
    (hline : d.line = .payload pane octal) :
    Move d byte (d.payloadByte protocol pane octal byte).1 (d.payloadByte protocol pane octal byte).2 := by
  have hkeep {items : List Decoded} (h : items = [] ∨ ∃ b, items = [.byte pane b]) : Move d byte items d := by
    have hself : { d with line := .payload pane octal } = d := by rw [← hline]
    have hmove := @Move.payload d byte pane octal octal hline items h
    rwa [hself] at hmove
  unfold payloadByte
  split
  next hbyte =>
    refine .ended hline hbyte ?_
    split
    · exact .inr rfl
    · exact .inl rfl
  next hbyte =>
    split
    · exact hkeep (.inl rfl)
    · split
      · simp only
        split
        · exact .faulted hline
        · split
          · exact .payload none hline (.inr ⟨_, rfl⟩)
          · exact .payload _ hline (.inl rfl)
      · split
        · exact .payload _ hline (.inl rfl)
        · exact hkeep (.inr ⟨_, rfl⟩)

theorem startPayload_eq {d d' : Decoder} {items : List Decoded} (h : d.startPayload = some (items, d')) :
    ∃ pane, (items, d') = d.openPayload pane := by
  unfold startPayload at h
  split at h
  · split at h
    · obtain ⟨pane, -, h⟩ := Option.bind_eq_some_iff.mp h
      split at h
      · exact ⟨pane, (Option.some.inj h).symm⟩
      · cases h
    · split at h
      · obtain ⟨pane, -, h⟩ := Option.bind_eq_some_iff.mp h
        split at h
        · split at h
          · exact ⟨pane, (Option.some.inj h).symm⟩
          · cases h
        · cases h
      · cases h
  · cases h

theorem completeNotification_move {d : Decoder} {byte : UInt8} (hline : d.line = .header) (hblock : d.block = none)
    (hbyte : byte = newline) :
    Move d byte d.completeNotification.1 { d.completeNotification.2 with header := [] } := by
  unfold completeNotification
  simp only
  split
  next htag =>
    split
    next key hframe => exact .opened hline hblock hbyte htag hframe
    next => exact .fatal (.inl hline) rfl rfl rfl
  next =>
    split
    · exact .fatal (.inl hline) rfl rfl rfl
    · split
      · exact .notified hline hblock hbyte (.inr (.inl rfl))
      · split
        · split
          next id hid =>
            refine .notified hline hblock hbyte (.inr (.inr (.inl ⟨id, ?_⟩)))
            split
            · exact .inl rfl
            · exact .inr rfl
          next => exact .notified hline hblock hbyte (.inr (.inl rfl))
        · split
          · exact .notified hline hblock hbyte (.inr (.inr (.inr (.inl rfl))))
          · split
            · exact .notified hline hblock hbyte (.inr (.inr (.inr (.inr rfl))))
            · split
              · exact .exited hline hblock hbyte
              · exact .notified hline hblock hbyte (.inl rfl)

theorem completeBlockLine_move {d : Decoder} {byte : UInt8} {key : Nat × Nat × Nat} (hline : d.line = .header)
    (hblock : d.block = some key) (hbytes : d.blockBytes + 1 ≤ maxBlockBytes) (hbyte : byte = newline) :
    Move d byte (d.charged.completeBlockLine key).1 { (d.charged.completeBlockLine key).2 with header := [] } := by
  unfold completeBlockLine
  simp only
  split
  · exact .fatal (.inl hline) rfl rfl rfl
  next hlines =>
    have hle : d.blockLines + 1 ≤ maxBlockLines := Nat.le_of_not_lt hlines
    split
    next htag =>
      split
      next hframe =>
        have hcloses : Closes key d.header := ⟨htag, hframe⟩
        split
        · exact .block hblock hbytes (.refused hline hbyte hcloses rfl rfl rfl)
        next hfirst =>
          refine .block hblock hbytes (.closed hline hbyte hcloses ?_)
          simp only [charged, Bool.and_eq_true, Bool.not_eq_true', beq_iff_eq, not_and] at hfirst
          cases hattached : d.attached with
          | true => exact .inl rfl
          | false => exact .inr (htag.resolve_right (hfirst hattached))
      next => exact .fatal (.inl hline) rfl rfl rfl
    next =>
      split
      · exact .fatal (.inl hline) rfl rfl rfl
      · exact .block hblock hbytes (.line hline hbyte hle)

theorem headerByte_move {d : Decoder} {byte : UInt8} (hline : d.line = .header) (hblock : d.block = none) :
    Move d byte (d.headerByte byte).1 (d.headerByte byte).2 := by
  unfold headerByte
  split
  next hbyte =>
    simp only [completeHeader, hblock]
    exact completeNotification_move hline hblock hbyte
  next hbyte =>
    simp only
    split
    next hdata => simp [isBlockData, hblock] at hdata
    next =>
      split
      · exact .fatal (.inl hline) rfl rfl rfl
      next hlimit =>
        have hshort : d.header.length + 1 ≤ maxHeader := by
          have hle := (Nat.le_of_not_lt hlimit).trans (headerLimit_le _)
          rwa [List.length_append] at hle
        split
        · split
          next items d' hstart =>
            obtain ⟨pane, hopen⟩ := startPayload_eq hstart
            unfold openPayload at hopen
            split at hopen
            · obtain ⟨rfl, rfl⟩ := Prod.mk.inj hopen
              exact .fatal (.inl hline) rfl rfl rfl
            next hattached =>
              obtain ⟨rfl, rfl⟩ := Prod.mk.inj hopen
              simp only [Bool.not_eq_true', Bool.not_eq_false] at hattached
              exact .started hline hattached hbyte hblock
          next => exact .heard hline hblock hbyte hshort
        · exact .heard hline hblock hbyte hshort

theorem headerByte_blockMove {d : Decoder} {byte : UInt8} {key : Nat × Nat × Nat} (hline : d.line = .header)
    (hblock : d.block = some key) (hbytes : d.blockBytes + 1 ≤ maxBlockBytes) :
    Move d byte (d.charged.headerByte byte).1 (d.charged.headerByte byte).2 := by
  have hcharged : d.charged.block = some key := hblock
  unfold headerByte
  split
  next hbyte =>
    simp only [completeHeader, hcharged]
    exact completeBlockLine_move hline hblock hbytes hbyte
  next hbyte =>
    simp only
    split
    · exact .block hblock hbytes (.data hline hbyte)
    · split
      · exact .fatal (.inl hline) rfl rfl rfl
      next hlimit =>
        have hshort : d.header.length + 1 ≤ maxHeader := by
          have hle := (Nat.le_of_not_lt hlimit).trans (headerLimit_le _)
          rwa [List.length_append] at hle
        have hnone : d.charged.block.isNone = false := by rw [hcharged]; rfl
        simp only [hnone, Bool.false_and, Bool.false_eq_true, if_false]
        exact .block hblock hbytes (.heard hline hbyte hshort)

theorem blockDataByte_move {d : Decoder} {byte : UInt8} {key : Nat × Nat × Nat} (hline : d.line = .blockData)
    (hblock : d.block = some key) (hbytes : d.blockBytes + 1 ≤ maxBlockBytes) :
    Move d byte (d.charged.blockDataByte byte).1 (d.charged.blockDataByte byte).2 := by
  unfold blockDataByte
  split
  next hbyte =>
    simp only
    split
    · exact .fatal (.inr hline) rfl rfl rfl
    next hlines => exact .block hblock hbytes (.resumed hline hbyte (Nat.le_of_not_lt hlines))
  next hbyte => exact .block hblock hbytes (.skipped hline hbyte)

theorem byte_outside {d : Decoder} (hblock : d.block = none) (protocol : Bool) (byte : UInt8) :
    d.byte protocol byte = d.lineByte protocol byte := by
  have hnone : d.block.isSome = false := by rw [hblock]; rfl
  simp only [Decoder.byte, hnone, Bool.false_eq_true, if_false, Bool.false_and]

theorem byte_inside {d : Decoder} {key : Nat × Nat × Nat} (hblock : d.block = some key) (protocol : Bool)
    (byte : UInt8) :
    d.byte protocol byte =
      if maxBlockBytes < d.blockBytes + 1 then d.charged.fatal else d.charged.lineByte protocol byte := by
  have hsome : d.block.isSome = true := by rw [hblock]; rfl
  have hstill : d.charged.block.isSome = true := hsome
  simp only [Decoder.byte, hsome, if_true, hstill, Bool.true_and, decide_eq_true_eq]
  rfl

/-- **What a byte can do.** -/
theorem byte_move {d : Decoder} (protocol : Bool) (byte : UInt8) (hplaced : d.Placed) (hline : d.line ≠ .poisoned) :
    Move d byte (d.byte protocol byte).1 (d.byte protocol byte).2 := by
  rcases Option.eq_none_or_eq_some d.block with hblock | ⟨key, hblock⟩
  · rw [byte_outside hblock]
    unfold lineByte
    split
    next pane octal hl => exact payloadByte_move protocol byte hl
    next hl =>
      by_cases hbyte : byte = newline
      · rw [if_pos hbyte]
        exact .resumed hl hbyte
      · rw [if_neg hbyte]
        exact .skipped hl hbyte
    next hl => exact absurd (hplaced.2 hl) (by simp [hblock])
    next hl => exact headerByte_move hl hblock
    next hl => exact absurd hl hline
  · have hwhere := (hplaced.1 (by simp [hblock])).imp_right fun h => h.resolve_right hline
    rw [byte_inside hblock]
    split
    · exact .fatal hwhere rfl rfl rfl
    next hbytes =>
      have hle := Nat.le_of_not_lt hbytes
      unfold lineByte
      rcases hwhere with hl | hl
      · have hcharged : d.charged.line = .header := hl
        simp only [hcharged]
        exact headerByte_blockMove hl hblock hle
      · have hcharged : d.charged.line = .blockData := hl
        simp only [hcharged]
        exact blockDataByte_move hl hblock hle

/-! ## The grammar of the items -/

/-- What has been emitted so far leaves a client in one of these. -/
inductive Phase
  | closed
  | open_ (pane : PaneId)
  /-- A broken escape was reported, and its notification is about to end. -/
  | faulted (pane : PaneId)
  /-- Nothing follows. -/
  | over
deriving DecidableEq

/-- A notification starts only outside another, its bytes and its fault are its own pane's, a
fault is followed by its end, and nothing follows a fatal item or an exit. -/
def Phase.next : Phase → Decoded → Option Phase
  | .closed, .start pane => some (.open_ pane)
  | .closed, .pause _ | .closed, .continue_ _ | .closed, .gap none _ => some .closed
  | .closed, .note .exit | .closed, .fatal => some .over
  | .closed, .note _ => some .closed
  | .open_ pane, .byte pane' _ => if pane' = pane then some (.open_ pane) else none
  | .open_ pane, .gap (some pane') .malformedTransport => if pane' = pane then some (.faulted pane) else none
  | .open_ pane, .end_ pane' | .faulted pane, .end_ pane' => if pane' = pane then some .closed else none
  | _, _ => none

def phase (d : Decoder) : Phase :=
  match d.line with
  | .payload pane _ => .open_ pane
  | .poisoned => .over
  | _ => .closed

theorem Move.phase {d d' : Decoder} {byte : UInt8} {items : List Decoded} (h : Move d byte items d') :
    items.foldlM Phase.next d.phase = some d'.phase := by
  cases h with
  | fatal hline hpoisoned => rcases hline with hline | hline <;> simp only [Decoder.phase, hline, hpoisoned] <;> rfl
  | ended hline hbyte hgap =>
    rcases hgap with rfl | rfl <;> simp [Decoder.phase, hline, Phase.next, List.foldlM]
  | payload octal' hline hitems =>
    rcases hitems with rfl | ⟨b, rfl⟩ <;> simp [Decoder.phase, hline, Phase.next, List.foldlM]
  | faulted hline => simp [Decoder.phase, hline, Phase.next, List.foldlM]
  | skipped | heard | opened => rfl
  | resumed hline | started hline | exited hline => simp only [Decoder.phase, hline]; rfl
  | notified hline hblock hbyte hitems =>
    simp only [Decoder.phase, hline]
    rcases hitems with rfl | rfl | ⟨pane, rfl | rfl⟩ | rfl | rfl <;> rfl
  | block hblock hbytes h =>
    cases h with
    | heard | skipped | line | closed => rfl
    | data hline | resumed hline => simp only [Decoder.phase, hline]; rfl
    | refused hline hbyte hcloses hpoisoned => simp only [Decoder.phase, hline, hpoisoned]; rfl

theorem Move.placed {d d' : Decoder} {byte : UInt8} {items : List Decoded} (h : Move d byte items d')
    (hplaced : d.Placed) : d'.Placed := by
  cases h with
  | fatal hline hpoisoned => exact ⟨fun _ => .inr (.inr hpoisoned), fun hdata => by rw [hpoisoned] at hdata; cases hdata⟩
  | ended hline => exact ⟨fun _ => .inl rfl, fun hdata => by cases hdata⟩
  | payload octal' hline | faulted hline =>
    refine ⟨fun hsome => ?_, fun hdata => by cases hdata⟩
    have hwhere := hplaced.1 hsome
    rw [hline] at hwhere
    rcases hwhere with h | h | h <;> cases h
  | skipped => exact hplaced
  | resumed => exact ⟨fun _ => .inl rfl, fun hdata => by cases hdata⟩
  | started hline hattached hbyte hblock =>
    refine ⟨fun hsome => ?_, fun hdata => by cases hdata⟩
    rw [hblock] at hsome
    cases hsome
  | heard hline | notified hline => exact ⟨fun _ => .inl hline, fun hdata => by rw [hline] at hdata; cases hdata⟩
  | exited => exact ⟨fun _ => .inr (.inr rfl), fun hdata => by cases hdata⟩
  | opened hline => exact ⟨fun _ => .inl hline, fun _ => rfl⟩
  | block hblock hbytes h =>
    have hsome : d.block.isSome = true := by rw [hblock]; rfl
    cases h with
    | heard hline | line hline => exact ⟨fun _ => .inl hline, fun _ => hsome⟩
    | data => exact ⟨fun _ => .inr (.inl rfl), fun _ => hsome⟩
    | skipped hline => exact ⟨fun _ => .inr (.inl hline), fun _ => hsome⟩
    | resumed => exact ⟨fun _ => .inl rfl, fun hdata => by cases hdata⟩
    | refused hline hbyte hcloses hpoisoned =>
      exact ⟨fun _ => .inr (.inr hpoisoned), fun hdata => by rw [hpoisoned] at hdata; cases hdata⟩
    | closed hline => exact ⟨fun _ => .inl hline, fun hdata => by rw [hline] at hdata; cases hdata⟩

/-! ## The retained header -/

/-- The header is the current line so far, and is kept on no other kind of line. -/
structure HeaderKept (d : Decoder) : Prop where
  short : d.header.length ≤ maxHeader
  clean : newline ∉ d.header
  bare : d.line ≠ .header → d.header = []

theorem HeaderKept.nil {d : Decoder} (h : d.header = []) : d.HeaderKept :=
  ⟨by rw [h]; exact Nat.zero_le _, by rw [h]; exact List.not_mem_nil, fun _ => h⟩

theorem HeaderKept.push {d d' : Decoder} {byte : UInt8} (h : d.HeaderKept) (hbyte : byte ≠ newline)
    (hshort : d.header.length + 1 ≤ maxHeader) (hheader : d'.header = d.header ++ [byte]) (hline : d'.line = .header) :
    d'.HeaderKept := by
  refine ⟨by simpa [hheader] using hshort, ?_, fun hother => absurd hline hother⟩
  rw [hheader, List.mem_append, List.mem_singleton]
  exact fun hmem => hmem.elim h.clean fun heq => hbyte heq.symm

theorem Move.headerKept {d d' : Decoder} {byte : UInt8} {items : List Decoded} (h : Move d byte items d')
    (hkept : d.HeaderKept) : d'.HeaderKept := by
  cases h with
  | fatal hline hpoisoned hheader => exact .nil hheader
  | ended hline | payload octal' hline | faulted hline | resumed hline =>
    exact .nil (hkept.bare (by rw [hline]; exact Line.noConfusion))
  | skipped => exact hkept
  | started | notified | exited | opened => exact .nil rfl
  | heard hline hblock hbyte hshort => exact hkept.push hbyte hshort rfl hline
  | block hblock hbytes h =>
    cases h with
    | heard hline hbyte hshort => exact hkept.push hbyte hshort rfl hline
    | data | line | closed => exact .nil rfl
    | skipped hline | resumed hline => exact .nil (hkept.bare (by rw [hline]; exact Line.noConfusion))
    | refused hline hbyte hcloses hpoisoned hheader => exact .nil hheader

/-! ## Authority -/

/-- Pane output. -/
def isOutput : Decoded → Bool
  | .start _ | .byte _ _ => true
  | _ => false

/-- A payload is read by an attached client only. -/
def Authorised (d : Decoder) : Prop := ∀ pane octal, d.line = .payload pane octal → d.attached = true

theorem Move.attached {d d' : Decoder} {byte : UInt8} {items : List Decoded} (h : Move d byte items d')
    (hattached : d.attached = true) : d'.attached = true := by
  cases h with
  | fatal hline hpoisoned hheader hsame => exact hsame.trans hattached
  | ended | payload | faulted | skipped | resumed | started | heard | notified | exited | opened => exact hattached
  | block hblock hbytes h =>
    cases h with
    | heard | data | skipped | resumed | line => exact hattached
    | refused hline hbyte hcloses hpoisoned hheader hsame => exact hsame.trans hattached
    | closed => rfl

theorem Move.authorised {d d' : Decoder} {byte : UInt8} {items : List Decoded} (h : Move d byte items d')
    (hauth : d.Authorised) : d'.Authorised := by
  intro pane octal hpayload
  cases h with
  | fatal hline hpoisoned => rw [hpoisoned] at hpayload; cases hpayload
  | ended | faulted | resumed | exited => cases hpayload
  | payload octal' hline => exact hauth _ _ hline
  | skipped | heard | notified | opened => exact hauth _ _ hpayload
  | started hline hattached => exact hattached
  | block hblock hbytes h =>
    cases h with
    | heard | skipped | line => exact hauth _ _ hpayload
    | data | resumed => cases hpayload
    | refused hline hbyte hcloses hpoisoned => rw [hpoisoned] at hpayload; cases hpayload
    | closed => rfl

/-- Output is emitted by an attached client only. -/
theorem Move.output {d d' : Decoder} {byte : UInt8} {items : List Decoded} (h : Move d byte items d')
    (hauth : d.Authorised) (hout : items.any isOutput = true) : d.attached = true := by
  cases h with
  | payload octal' hline => exact hauth _ _ hline
  | started hline hattached => exact hattached
  | fatal | faulted | skipped | resumed | heard | exited | opened => simp [isOutput] at hout
  | ended hline hbyte hgap => rcases hgap with rfl | rfl <;> simp [isOutput] at hout
  | notified hline hblock hbyte hitems =>
    rcases hitems with rfl | rfl | ⟨pane, rfl | rfl⟩ | rfl | rfl <;> simp [isOutput] at hout
  | block hblock hbytes h => cases h <;> simp [isOutput] at hout

/-! ## What has been read -/

/-- The next byte begins a line. -/
def LineStart (seen : Bytes) : Prop := seen = [] ∨ ∃ before, seen = before ++ [newline]

theorem lineStart_newline (before : Bytes) : LineStart (before ++ [newline]) := .inr ⟨before, rfl⟩

/-- A block with this key was opened, and these bytes have followed. -/
def OpenBlock (key : Nat × Nat × Nat) (seen body : Bytes) : Prop :=
  ∃ before opening, seen = before ++ opening ++ newline :: body ∧ LineStart before ∧ newline ∉ opening ∧
    tag opening = ascii "%begin" ∧ frame opening = some key

theorem OpenBlock.concat {key : Nat × Nat × Nat} {seen body : Bytes} (h : OpenBlock key seen body) (byte : UInt8) :
    OpenBlock key (seen ++ [byte]) (body ++ [byte]) := by
  obtain ⟨before, opening, rfl, h⟩ := h
  exact ⟨before, opening, by simp, h⟩

/-- A `%begin` was followed by its matching `%end`. -/
def CompletedBlock (seen : Bytes) : Prop :=
  ∃ key before body closing rest, seen = before ++ body ++ closing ++ newline :: rest ∧
    OpenBlock key before [] ∧ LineStart body ∧ newline ∉ closing ∧ tag closing = ascii "%end" ∧
    frame closing = some key

theorem CompletedBlock.append {seen : Bytes} (h : CompletedBlock seen) (more : Bytes) : CompletedBlock (seen ++ more) := by
  obtain ⟨key, before, body, closing, rest, rfl, h⟩ := h
  exact ⟨key, before, body, closing, rest ++ more, by simp, h⟩

/-- An open block's counters count what followed its `%begin`. -/
structure Blocked (key : Nat × Nat × Nat) (seen : Bytes) (d : Decoder) (body : Bytes) : Prop where
  opened : OpenBlock key seen body
  bytes : d.blockBytes = body.length
  lines : d.blockLines = body.count newline
  maxBytes : body.length ≤ maxBlockBytes
  maxLines : body.count newline ≤ maxBlockLines
  atLine : d.line = .header → ∃ before, body = before ++ d.header ∧ LineStart before
  data : d.line = .blockData → body ≠ []

/-- A machine and the bytes it has read. -/
structure Told (seen : Bytes) (d : Decoder) : Prop where
  placed : d.Placed
  kept : d.HeaderKept
  authorised : d.Authorised
  atLine : d.line = .header → ∃ before, seen = before ++ d.header ∧ LineStart before
  block : ∀ key, d.block = some key → d.line ≠ .poisoned → ∃ body, Blocked key seen d body
  attached : d.attached = true → CompletedBlock seen

theorem BlockMove.blocked {d d' : Decoder} {key : Nat × Nat × Nat} {byte : UInt8} {items : List Decoded} {seen body : Bytes}
    (h : BlockMove d key byte items d') (hb : Blocked key seen d body) (hbytes : d.blockBytes + 1 ≤ maxBlockBytes)
    (hkept : d.HeaderKept) (hopen : d'.block.isSome = true) (hlive : d'.line ≠ .poisoned) :
    Blocked key (seen ++ [byte]) d' (body ++ [byte]) := by
  have hlength : (body ++ [byte]).length = d.blockBytes + 1 := by rw [List.length_append, hb.bytes]; rfl
  have hcount (hne : byte ≠ newline) : (body ++ [byte]).count newline = d.blockLines := by
    rw [List.count_append, hb.lines, List.count_singleton]
    simp [hne]
  have hcount' (heq : byte = newline) : (body ++ [byte]).count newline = d.blockLines + 1 := by
    rw [List.count_append, hb.lines, heq]
    simp
  cases h with
  | heard hline hbyte =>
    refine ⟨hb.opened.concat byte, hlength.symm, (hcount hbyte).symm, hlength ▸ hbytes, ?_, fun _ => ?_, fun hdata => ?_⟩
    · rw [hcount hbyte, hb.lines]
      exact hb.maxLines
    · obtain ⟨before, hbody, hstart⟩ := hb.atLine hline
      exact ⟨before, by rw [hbody, List.append_assoc], hstart⟩
    · cases hline.symm.trans hdata
  | data hline hbyte =>
    refine ⟨hb.opened.concat byte, hlength.symm, (hcount hbyte).symm, hlength ▸ hbytes, ?_, fun h => ?_, fun _ => by simp⟩
    · rw [hcount hbyte, hb.lines]
      exact hb.maxLines
    · cases h
  | skipped hline hbyte =>
    refine ⟨hb.opened.concat byte, hlength.symm, (hcount hbyte).symm, hlength ▸ hbytes, ?_, fun h => ?_, fun _ => by simp⟩
    · rw [hcount hbyte, hb.lines]
      exact hb.maxLines
    · cases hline.symm.trans h
  | resumed hline hbyte hlines =>
    refine ⟨hb.opened.concat byte, hlength.symm, (hcount' hbyte).symm, hlength ▸ hbytes, ?_, fun _ => ?_,
      fun hdata => by cases hdata⟩
    · rw [hcount' hbyte]
      exact hlines
    · have hheader := hkept.bare (by rw [hline]; exact Line.noConfusion)
      exact ⟨body ++ [byte], by simp [charged, hheader], by rw [hbyte]; exact lineStart_newline body⟩
  | line hline hbyte hlines =>
    refine ⟨hb.opened.concat byte, hlength.symm, (hcount' hbyte).symm, hlength ▸ hbytes, ?_, fun _ => ?_, fun hdata => ?_⟩
    · rw [hcount' hbyte]
      exact hlines
    · exact ⟨body ++ [byte], by simp, by rw [hbyte]; exact lineStart_newline body⟩
    · cases hline.symm.trans hdata
  | refused hline hbyte hcloses hpoisoned => exact absurd hpoisoned hlive
  | closed => cases hopen

/-- The block that let a client attach has been read. -/
theorem Blocked.completed {d : Decoder} {key : Nat × Nat × Nat} {seen body : Bytes} (hb : Blocked key seen d body)
    (hline : d.line = .header) (hkept : d.HeaderKept) (htag : tag d.header = ascii "%end")
    (hframe : frame d.header = some key) : CompletedBlock (seen ++ [newline]) := by
  obtain ⟨before, opening, rfl, hopening⟩ := hb.opened
  obtain ⟨lines, rfl, hstart⟩ := hb.atLine hline
  refine ⟨key, before ++ opening ++ [newline], lines, d.header, [], by simp, ⟨before, opening, by simp, hopening⟩, hstart,
    hkept.clean, htag, hframe⟩

theorem Move.atLine {d d' : Decoder} {byte : UInt8} {items : List Decoded} {seen : Bytes} (h : Move d byte items d')
    (ht : Told seen d) (hnow : d'.line = .header) : ∃ before, seen ++ [byte] = before ++ d'.header ∧ LineStart before := by
  have hbegun {d' : Decoder} (hbyte : byte = newline) (hheader : d'.header = []) :
      ∃ before, seen ++ [byte] = before ++ d'.header ∧ LineStart before :=
    ⟨seen ++ [newline], by rw [hbyte, hheader, List.append_nil], lineStart_newline seen⟩
  have hpushed {d' : Decoder} (hline : d.line = .header) (hheader : d'.header = d.header ++ [byte]) :
      ∃ before, seen ++ [byte] = before ++ d'.header ∧ LineStart before := by
    obtain ⟨before, hseen, hstart⟩ := ht.atLine hline
    exact ⟨before, by rw [hheader, hseen, List.append_assoc], hstart⟩
  have hbare {line : Line} (hline : d.line = line) (hother : line ≠ .header) : d.header = [] :=
    ht.kept.bare fun heq => hother (hline.symm.trans heq)
  cases h with
  | fatal hline hpoisoned => cases hpoisoned.symm.trans hnow
  | ended hline hbyte | resumed hline hbyte => exact hbegun hbyte (hbare hline Line.noConfusion)
  | payload | faulted | started | exited => cases hnow
  | skipped hline => cases hline.symm.trans hnow
  | heard hline => exact hpushed hline rfl
  | notified hline hblock hbyte | opened hline hblock hbyte => exact hbegun hbyte rfl
  | block hblock hbytes h =>
    cases h with
    | heard hline => exact hpushed hline rfl
    | data => cases hnow
    | skipped hline => cases hline.symm.trans hnow
    | resumed hline hbyte => exact hbegun hbyte (hbare hline Line.noConfusion)
    | line hline hbyte | closed hline hbyte => exact hbegun hbyte rfl
    | refused hline hbyte hcloses hpoisoned => cases hpoisoned.symm.trans hnow

theorem Move.blocked {d d' : Decoder} {byte : UInt8} {items : List Decoded} {seen : Bytes} {key : Nat × Nat × Nat}
    (h : Move d byte items d') (ht : Told seen d) (hlive : d.line ≠ .poisoned) (hkey : d'.block = some key)
    (hlive' : d'.line ≠ .poisoned) : ∃ body, Blocked key (seen ++ [byte]) d' body := by
  have hout {line : Line} (hline : d.line = line) (h : line ≠ .header ∧ line ≠ .blockData) : d.block ≠ some key := by
    intro hblock
    have hwhere := (ht.placed.1 (by simp [hblock])).imp_right fun h => h.resolve_right hlive
    rw [hline] at hwhere
    exact hwhere.elim h.1 h.2
  cases h with
  | fatal hline hpoisoned => exact absurd hpoisoned hlive'
  | ended hline | payload octal' hline | faulted hline | skipped hline | resumed hline =>
    exact absurd hkey (hout hline ⟨Line.noConfusion, Line.noConfusion⟩)
  | started hline hattached hbyte hblock => cases hblock.symm.trans hkey
  | heard hline hblock | notified hline hblock | exited hline hblock => cases hblock.symm.trans hkey
  | opened hline hblock hbyte htag hframe =>
    obtain rfl := Option.some.inj hkey
    obtain ⟨before, hseen, hstart⟩ := ht.atLine hline
    refine ⟨[], ⟨before, d.header, by rw [hseen, hbyte], hstart, ht.kept.clean, htag, hframe⟩, rfl, rfl, Nat.zero_le _,
      Nat.zero_le _, fun _ => ⟨[], rfl, .inl rfl⟩, fun hdata => ?_⟩
    cases hline.symm.trans hdata
  | @block key' hblock hbytes _ _ h =>
    obtain ⟨body, hb⟩ := ht.block key' hblock hlive
    have hsame : key' = key := by
      cases h with
      | heard | data | skipped | resumed | line => exact Option.some.inj (hblock.symm.trans hkey)
      | refused hline hbyte hcloses hpoisoned => exact absurd hpoisoned hlive'
      | closed => cases hkey
    subst hsame
    exact ⟨_, h.blocked hb hbytes ht.kept (by simp [hkey]) hlive'⟩

theorem Move.told {d d' : Decoder} {byte : UInt8} {items : List Decoded} {seen : Bytes} (h : Move d byte items d')
    (ht : Told seen d) (hlive : d.line ≠ .poisoned) : Told (seen ++ [byte]) d' where
  placed := h.placed ht.placed
  kept := h.headerKept ht.kept
  authorised := h.authorised ht.authorised
  atLine := h.atLine ht
  block := fun _ hkey hlive' => h.blocked ht hlive hkey hlive'
  attached := by
    intro hattached
    cases hbefore : d.attached with
    | true => exact (ht.attached hbefore).append _
    | false =>
      -- only the end of the first block attaches
      have hsame (heq : d'.attached = d.attached) : CompletedBlock (seen ++ [byte]) := by
        rw [heq, hbefore] at hattached
        cases hattached
      cases h with
      | fatal hline hpoisoned hheader heq => exact hsame heq
      | ended | payload | faulted | skipped | resumed | started | heard | notified | exited | opened => exact hsame rfl
      | @block key hblock hbytes _ _ h =>
        cases h with
        | heard | data | skipped | resumed | line => exact hsame rfl
        | refused hline hbyte hcloses hpoisoned hheader heq => exact hsame heq
        | closed hline hbyte hcloses hfirst =>
          obtain ⟨body, hb⟩ := ht.block key hblock hlive
          rw [hbyte]
          exact hb.completed hline ht.kept (hfirst.resolve_left (by simp [hbefore])) hcloses.2

/-- A poisoned machine reads no further. -/
theorem Told.poisoned {d : Decoder} {seen : Bytes} (ht : Told seen d) (hline : d.line = .poisoned) (more : Bytes) :
    Told (seen ++ more) d where
  placed := ht.placed
  kept := ht.kept
  authorised := ht.authorised
  atLine := fun hnow => by cases hline.symm.trans hnow
  block := fun _ _ hlive => absurd hline hlive
  attached := fun hattached => (ht.attached hattached).append _

theorem told_start : Told [] {} where
  placed := ⟨fun h => (by cases h), fun h => (by cases h)⟩
  kept := .nil rfl
  authorised := fun _ _ h => by cases h
  atLine := fun _ => ⟨[], rfl, .inl rfl⟩
  block := fun _ h => by cases h
  attached := fun h => by cases h

theorem read_live {d : Decoder} (hlive : d.line ≠ .poisoned) (input : Bool × UInt8) :
    d.read input = d.byte input.1 input.2 := if_neg hlive

/-- **What holds of a machine at every point of a stream.** -/
theorem feedAll_told (chunks : List (Bool × Bytes)) :
    Told (bytesOf chunks) (feedAll {} chunks).2 ∧
      (feedAll {} chunks).1.foldlM Phase.next .closed = some (feedAll {} chunks).2.phase ∧
      ((feedAll {} chunks).1.any isOutput = true → (feedAll {} chunks).2.attached = true) := by
  rw [feedAll_eq, bytesOf_eq]
  refine Transducer.feed_induct (fun seen items d => Told (seen.map Prod.snd) d ∧
    items.foldlM Phase.next .closed = some d.phase ∧ (items.any isOutput = true → d.attached = true))
    ⟨told_start, rfl, fun h => by cases h⟩ ?_ _
  rintro seen items d input ⟨ht, hphase, hout⟩
  rw [List.map_append]
  by_cases hline : d.line = .poisoned
  · have hread : d.read input = ([], d) := if_pos hline
    rw [hread, List.append_nil]
    exact ⟨ht.poisoned hline _, hphase, hout⟩
  · rw [read_live hline]
    have hmove := byte_move input.1 input.2 ht.placed hline
    refine ⟨hmove.told ht hline, ?_, fun hany => ?_⟩
    · rw [List.foldlM_append, hphase]
      exact hmove.phase
    · rw [List.any_append, Bool.or_eq_true] at hany
      exact hmove.attached (hany.elim hout (hmove.output ht.authorised))

/-! ## Inside a block -/

/-- A whole line of the block's bytes closes it. -/
def HasTerminator (key : Nat × Nat × Nat) (body : Bytes) : Prop :=
  ∃ before closing rest, body = before ++ closing ++ newline :: rest ∧ LineStart before ∧ newline ∉ closing ∧
    Closes key closing

/-- The items of a decoder that gives a client up. -/
def GivesUp (item : Decoded) : Prop := item = .gap none .framingLoss ∨ item = .fatal

theorem HasTerminator.append {key : Nat × Nat × Nat} {body : Bytes} (h : HasTerminator key body) (more : Bytes) :
    HasTerminator key (body ++ more) := by
  obtain ⟨before, closing, rest, rfl, h⟩ := h
  exact ⟨before, closing, rest ++ more, by simp, h⟩

/-- A byte of a block ends a line that closes it, or leaves it open or the client lost. -/
theorem Move.silent {d d' : Decoder} {byte : UInt8} {items : List Decoded} {seen body : Bytes} {key : Nat × Nat × Nat}
    (h : Move d byte items d') (ht : Told seen d) (hlive : d.line ≠ .poisoned) (hblock : d.block = some key)
    (hb : Blocked key seen d body) :
    HasTerminator key (body ++ [byte]) ∨
      (∀ item ∈ items, GivesUp item) ∧
        (d'.line = .poisoned ∨ d'.block = some key ∧ Blocked key (seen ++ [byte]) d' (body ++ [byte])) := by
  have hwhere := (ht.placed.1 (by simp [hblock])).imp_right fun h => h.resolve_right hlive
  have hclosed (hline : d.line = .header) (hbyte : byte = newline) (hcloses : Closes key d.header) :
      HasTerminator key (body ++ [byte]) := by
    obtain ⟨before, hbody, hstart⟩ := hb.atLine hline
    exact ⟨before, d.header, [], by rw [hbody, hbyte], hstart, ht.kept.clean, hcloses⟩
  have hnone : ∀ item ∈ ([] : List Decoded), GivesUp item := fun item hitem => by cases hitem
  cases h with
  | fatal hline hpoisoned =>
    refine .inr ⟨fun item hitem => ?_, .inl hpoisoned⟩
    simpa [GivesUp] using hitem
  | ended hline | payload octal' hline | faulted hline | skipped hline | resumed hline =>
    rw [hline] at hwhere
    rcases hwhere with h | h <;> cases h
  | started hline hattached hbyte hother => cases hother.symm.trans hblock
  | heard hline hother | notified hline hother | exited hline hother | opened hline hother =>
    cases hother.symm.trans hblock
  | @block key' hkey hbytes _ _ h =>
    obtain rfl := Option.some.inj (hkey.symm.trans hblock)
    have hstay (hopen : d'.block = some key') :
        d'.line = .poisoned ∨ d'.block = some key' ∧ Blocked key' (seen ++ [byte]) d' (body ++ [byte]) := by
      by_cases hdead : d'.line = .poisoned
      · exact .inl hdead
      · exact .inr ⟨hopen, h.blocked hb hbytes ht.kept (by simp [hopen]) hdead⟩
    cases h with
    | heard | data | skipped | resumed | line => exact .inr ⟨hnone, hstay hkey⟩
    | refused hline hbyte hcloses | closed hline hbyte hcloses => exact .inl (hclosed hline hbyte hcloses)

/-- **A block is silent**: until a line that closes it, its bytes produce nothing but the loss of
the client. -/
theorem block_silent {d : Decoder} {seen : Bytes} {key : Nat × Nat × Nat} (ht : Told seen d)
    (hblock : d.block = some key) (hfresh : d.blockBytes = 0) {stream : List (Bool × UInt8)}
    (hno : ¬ HasTerminator key (stream.map Prod.snd)) :
    ∀ item ∈ (Transducer.feed read d stream).1, GivesUp item := by
  have hrun := @Transducer.feed_induct _ _ _ read d (fun more items s =>
      ¬ HasTerminator key (more.map Prod.snd) → (∀ item ∈ items, GivesUp item) ∧
        (s.line = .poisoned ∨ s.block = some key ∧ Told (seen ++ more.map Prod.snd) s ∧
          Blocked key (seen ++ more.map Prod.snd) s (more.map Prod.snd))) ?_ ?_ stream
  · exact (hrun hno).1
  · intro _
    refine ⟨fun item hitem => (by cases hitem), ?_⟩
    by_cases hline : d.line = .poisoned
    · exact .inl hline
    · obtain ⟨body, hb⟩ := ht.block key hblock hline
      obtain rfl : body = [] := List.length_eq_zero_iff.mp (hb.bytes.symm.trans hfresh)
      rw [List.map_nil, List.append_nil]
      exact .inr ⟨hblock, ht, hb⟩
  · intro more items s input ih hno
    rw [List.map_append] at hno ⊢
    obtain ⟨hquiet, hs⟩ := ih fun h => hno (h.append _)
    by_cases hline : s.line = .poisoned
    · have hread : s.read input = ([], s) := if_pos hline
      rw [hread, List.append_nil]
      exact ⟨hquiet, .inl hline⟩
    · obtain ⟨hblock, ht, hb⟩ := hs.resolve_left hline
      rw [read_live hline]
      have hmove := byte_move input.1 input.2 ht.placed hline
      obtain ⟨hitems, hnext⟩ := (hmove.silent ht hline hblock hb).resolve_left hno
      have htold := hmove.told ht hline
      rw [List.append_assoc] at htold hnext
      exact ⟨fun item hitem => (List.mem_append.mp hitem).elim (hquiet item) (hitems item),
        hnext.imp_right fun h => ⟨h.1, htold, h.2⟩⟩

/-! ## A payload -/

def isOctalDigit (byte : UInt8) : Bool := 48 ≤ byte.toNat && byte.toNat ≤ 55

/-- The byte that three digits stand for. -/
def octalByte (x y z : UInt8) : Option UInt8 :=
  if isOctalDigit x && x.toNat ≤ 51 && isOctalDigit y && isOctalDigit z then
    some (UInt8.ofNat (((x.toNat - 48) * 8 + (y.toNat - 48)) * 8 + (z.toNat - 48)))
  else none

/-- The bytes an escaped payload stands for up to its first broken escape, and whether it has
one. -/
def unescape : Bytes → Bytes × Bool
  | [] => ([], false)
  | byte :: rest =>
    if byte = backslash then
      match rest with
      | x :: y :: z :: rest =>
        match octalByte x y z with
        | some value => (value :: (unescape rest).1, (unescape rest).2)
        | none => ([], true)
      | _ => ([], true)
    else (byte :: (unescape rest).1, (unescape rest).2)

/-- How a notification ends: a broken escape is reported first. -/
def ending (pane : PaneId) (broken : Bool) : List Decoded :=
  if broken then [.gap (some pane) .malformedTransport, .end_ pane] else [.end_ pane]

section Payload

variable {d : Decoder} {pane : PaneId}

theorem feed_cons_live (hlive : d.line ≠ .poisoned) (protocol : Bool) (b : UInt8) (rest : Bytes) :
    d.feed protocol (b :: rest) =
      ((d.byte protocol b).1 ++ ((d.byte protocol b).2.feed protocol rest).1,
        ((d.byte protocol b).2.feed protocol rest).2) := by
  rw [feed, if_neg hlive]

/-- The rest of a line whose notification has ended. -/
theorem feed_skip (hblock : d.block = none) (hline : d.line = .skip) (protocol : Bool) {rest : Bytes}
    (hrest : newline ∉ rest) : d.feed protocol (rest ++ [newline]) = ([], { d with line := .header }) := by
  have hlive : d.line ≠ .poisoned := by rw [hline]; exact Line.noConfusion
  induction rest with
  | nil =>
    rw [List.nil_append, feed_cons_live hlive, byte_outside hblock]
    simp [lineByte, hline, feed]
  | cons b rest ih =>
    rw [List.mem_cons, not_or] at hrest
    have hbyte : d.byte protocol b = ([], d) := by
      rw [byte_outside hblock]
      simp [lineByte, hline, Ne.symm hrest.1]
    rw [List.cons_append, feed_cons_live hlive, hbyte, ih hrest.2]
    rfl

theorem byte_payload (hblock : d.block = none) {octal : Option (Nat × Nat)} (hline : d.line = .payload pane octal)
    (b : UInt8) : d.byte true b = d.payloadByte true pane octal b := by
  rw [byte_outside hblock]
  simp only [lineByte, hline]

/-- A digit of an escape that is no digit there. -/
theorem feed_fault (hblock : d.block = none) {digits value : Nat} (hline : d.line = .payload pane (some (digits, value)))
    {b : UInt8} (hbad : isOctalDigit b = false ∨ digits = 0 ∧ 51 < b.toNat) (hb : b ≠ newline) {rest : Bytes}
    (hrest : newline ∉ rest) :
    d.feed true (b :: rest ++ [newline]) =
      ([.gap (some pane) .malformedTransport, .end_ pane], { d with line := .header }) := by
  have hlive : d.line ≠ .poisoned := by rw [hline]; exact Line.noConfusion
  have hfault : d.byte true b =
      ([.gap (some pane) .malformedTransport, .end_ pane], { d with line := .skip }) := by
    rw [byte_payload hblock hline]
    have hcond : (!isOctalDigit b || (digits == 0 && decide (51 < b.toNat))) = true := by
      rcases hbad with h | ⟨rfl, h⟩ <;> simp [h]
    simp only [payloadByte, if_neg hb, Bool.not_true, Bool.false_eq_true, if_false]
    exact if_pos hcond
  rw [List.cons_append, feed_cons_live hlive, hfault, feed_skip (by exact hblock) rfl true hrest]
  rfl

/-- The newline that ends a payload. -/
theorem feed_newline (hblock : d.block = none) {octal : Option (Nat × Nat)} (hline : d.line = .payload pane octal) :
    d.feed true [newline] = (ending pane octal.isSome, { d with line := .header }) := by
  have hlive : d.line ≠ .poisoned := by rw [hline]; exact Line.noConfusion
  rw [feed_cons_live hlive, byte_payload hblock hline]
  cases octal <;> simp [payloadByte, ending, feed]

theorem octal_ne_newline {b : UInt8} (h : isOctalDigit b = true) : b ≠ newline := by
  rintro rfl
  revert h
  decide

/-- A digit of an escape. -/
theorem byte_digit (hblock : d.block = none) {digits value : Nat} (hline : d.line = .payload pane (some (digits, value)))
    {b : UInt8} (hgood : isOctalDigit b = true) (hfirst : digits = 0 → b.toNat ≤ 51) :
    d.byte true b =
      if digits + 1 = 3 then
        ([.byte pane (UInt8.ofNat (value * 8 + (b.toNat - 48)))], { d with line := .payload pane none })
      else ([], { d with line := .payload pane (some (digits + 1, value * 8 + (b.toNat - 48))) }) := by
  rw [byte_payload hblock hline]
  have hcond : ¬ (!isOctalDigit b || (digits == 0 && decide (51 < b.toNat))) = true := by
    have hle : digits = 0 → ¬ 51 < b.toNat := fun h => Nat.not_lt_of_le (hfirst h)
    simpa [hgood] using hle
  simp only [payloadByte, if_neg (octal_ne_newline hgood), Bool.not_true, Bool.false_eq_true, if_false]
  exact if_neg hcond

/-- The digits an escape is still missing stand at the front. -/
def completes : Nat → Bytes → Bool
  | 0, _ => true
  | _ + 1, [] => false
  | left + 1, b :: rest => isOctalDigit b && (left != 2 || decide (b.toNat ≤ 51)) && completes left rest

theorem octalByte_none {x y z : UInt8} {rest : Bytes} :
    octalByte x y z = none ↔ completes 3 (x :: y :: z :: rest) = false := by
  unfold octalByte
  split
  next h => simp_all [completes]
  next h => simp_all [completes]

theorem octalByte_some {x y z value : UInt8} (h : octalByte x y z = some value) :
    (isOctalDigit x = true ∧ x.toNat ≤ 51) ∧ isOctalDigit y = true ∧ isOctalDigit z = true ∧
      value = UInt8.ofNat (((x.toNat - 48) * 8 + (y.toNat - 48)) * 8 + (z.toNat - 48)) := by
  unfold octalByte at h
  split at h
  next hgood =>
    simp only [Bool.and_eq_true, decide_eq_true_eq] at hgood
    exact ⟨hgood.1.1, hgood.1.2, hgood.2, (Option.some.inj h).symm⟩
  next => cases h

theorem completes_short {rest : Bytes} (h : rest.length < 3) : completes 3 rest = false := by
  rcases rest with _ | ⟨x, _ | ⟨y, _ | ⟨z, rest⟩⟩⟩
  · rfl
  · simp [completes]
  · simp [completes]
  · simp only [List.length_cons] at h
    omega

/-- A whole escape. -/
theorem feed_escape (hblock : d.block = none) (hline : d.line = .payload pane (some (0, 0))) {x y z value : UInt8}
    (hvalue : octalByte x y z = some value) (rest : Bytes) :
    d.feed true (x :: y :: z :: rest) =
      (.byte pane value :: (({ d with line := .payload pane none } : Decoder).feed true rest).1,
        (({ d with line := .payload pane none } : Decoder).feed true rest).2) := by
  obtain ⟨⟨hx, hxle⟩, hy, hz, rfl⟩ := octalByte_some hvalue
  have hlive : d.line ≠ .poisoned := by rw [hline]; exact Line.noConfusion
  have hfirst := byte_digit hblock hline hx fun _ => hxle
  simp only [Nat.zero_mul, Nat.zero_add, show ¬ 1 = 3 by decide, if_false] at hfirst
  rw [feed_cons_live hlive, hfirst]
  have hsecond := @byte_digit { d with line := .payload pane (some (1, x.toNat - 48)) } pane hblock 1 _ rfl y hy
    (fun h => by cases h)
  simp only [show ¬ 1 + 1 = 3 by decide, if_false] at hsecond
  rw [feed_cons_live (fun h => by cases h), hsecond]
  have hthird := @byte_digit
    { d with line := .payload pane (some (1 + 1, (x.toNat - 48) * 8 + (y.toNat - 48))) } pane hblock 2 _ rfl z hz
    (fun h => by cases h)
  simp only [if_true] at hthird
  rw [feed_cons_live (fun h => by cases h), hthird]
  rfl

/-- **An escape that breaks ends its notification**, and the rest of its line produces nothing. -/
theorem feed_broken {rest : Bytes} (hrest : newline ∉ rest) {digits left value : Nat} (hleft : digits + left = 3)
    (hmissing : 0 < left) (hblock : d.block = none) (hline : d.line = .payload pane (some (digits, value)))
    (hbroken : completes left rest = false) :
    d.feed true (rest ++ [newline]) = (ending pane true, { d with line := .header }) := by
  induction rest generalizing d digits left value with
  | nil => exact feed_newline hblock hline
  | cons b rest ih =>
    obtain ⟨left, rfl⟩ : ∃ n, left = n + 1 := ⟨left - 1, by omega⟩
    rw [List.mem_cons, not_or] at hrest
    by_cases hgood : isOctalDigit b = true ∧ (digits = 0 → b.toNat ≤ 51)
    · have hlive : d.line ≠ .poisoned := by rw [hline]; exact Line.noConfusion
      have hnext : completes left rest = false := by
        have hfirst : (left != 2 || decide (b.toNat ≤ 51)) = true := by
          by_cases hdigits : digits = 0
          · simp [hgood.2 hdigits]
          · have hne : left ≠ 2 := by omega
            simp [hne]
        rw [completes, hgood.1, hfirst] at hbroken
        exact hbroken
      have hmore : 0 < left := by
        rcases Nat.eq_zero_or_pos left with rfl | h
        · cases hnext
        · exact h
      have hne : ¬ digits + 1 = 3 := by omega
      rw [List.cons_append, feed_cons_live hlive, byte_digit hblock hline hgood.1 hgood.2, if_neg hne,
        ih hrest.2 (by omega) hmore (by exact hblock) rfl hnext]
      rfl
    · refine feed_fault hblock hline ?_ (Ne.symm hrest.1) hrest.2
      rw [not_and_or] at hgood
      rcases hgood with h | h
      · exact .inl (Bool.eq_false_iff.mpr h)
      · rw [Classical.not_imp] at h
        exact .inr ⟨h.1, Nat.lt_of_not_le h.2⟩

/-- **The items of a payload's line are its unescaped bytes and its end.** -/
theorem payload_line (hblock : d.block = none) (hline : d.line = .payload pane none) {payload : Bytes}
    (hpayload : newline ∉ payload) :
    d.feed true (payload ++ [newline]) =
      ((unescape payload).1.map (Decoded.byte pane) ++ ending pane (unescape payload).2,
        { d with line := .header }) := by
  have hlive : d.line ≠ .poisoned := by rw [hline]; exact Line.noConfusion
  have hslash (rest : Bytes) : d.feed true (backslash :: rest) =
      ({ d with line := .payload pane (some (0, 0)) } : Decoder).feed true rest := by
    have hne : backslash ≠ newline := by decide
    have hbyte : d.byte true backslash = ([], { d with line := .payload pane (some (0, 0)) }) := by
      rw [byte_payload hblock hline]
      simp [payloadByte, hne]
    rw [feed_cons_live hlive, hbyte]
    rfl
  fun_induction unescape payload with
  | case1 => exact feed_newline hblock hline
  | case2 x y z rest value hvalue ih =>
    have hself : ({ d with line := .payload pane none } : Decoder) = d := by rw [← hline]
    have hrest : newline ∉ rest := fun h => hpayload (by simp [h])
    rw [List.cons_append, hslash, List.cons_append, List.cons_append, List.cons_append,
      feed_escape (by exact hblock) rfl hvalue, hself, ih hrest]
    rfl
  | case3 x y z rest hvalue =>
    rw [List.cons_append, hslash]
    have hrest : newline ∉ x :: y :: z :: rest := fun h => hpayload (List.mem_cons_of_mem _ h)
    exact feed_broken hrest rfl (by decide) (by exact hblock) rfl (octalByte_none.mp hvalue)
  | case4 rest hshort =>
    rw [List.cons_append, hslash]
    have hlength : rest.length < 3 := by
      rcases rest with _ | ⟨x, _ | ⟨y, _ | ⟨z, rest⟩⟩⟩
      · simp
      · simp
      · simp
      · exact absurd rfl (hshort x y z rest)
    exact feed_broken (fun h => hpayload (List.mem_cons_of_mem _ h)) rfl (by decide) (by exact hblock) rfl
      (completes_short hlength)
  | case5 b rest hb ih =>
    rw [List.mem_cons, not_or] at hpayload
    have hbyte : d.byte true b = ([.byte pane b], d) := by
      rw [byte_payload hblock hline]
      simp [payloadByte, Ne.symm hpayload.1, hb]
    rw [List.cons_append, feed_cons_live hlive, hbyte, ih hpayload.2]
    rfl

/-- The same in any chunking. -/
theorem payload_line_cut (hblock : d.block = none) (hline : d.line = .payload pane none) {payload : Bytes}
    (hpayload : newline ∉ payload) {cuts : List Bytes} (hcuts : cuts.flatten = payload ++ [newline]) :
    d.feedAll (cuts.map (true, ·)) =
      ((unescape payload).1.map (Decoded.byte pane) ++ ending pane (unescape payload).2,
        { d with line := .header }) := by
  have htagged : tagged (cuts.map (true, ·)) = cuts.flatten.map (true, ·) := by
    simp [tagged, List.map_flatten, List.flatMap_def, Function.comp_def]
  rw [feedAll_eq, htagged, hcuts, ← feed_eq, payload_line hblock hline hpayload]

end Payload

/-! ## A notification's items -/

/-- The items of a notification, between its start and its end. -/
def Inside (pane : PaneId) (item : Decoded) : Prop :=
  (∃ b, item = .byte pane b) ∨ item = .gap (some pane) .malformedTransport

theorem next_open {phase : Phase} {item : Decoded} {pane : PaneId} (h : phase.next item = some (.open_ pane)) :
    item = .start pane ∧ phase = .closed ∨ (∃ b, item = .byte pane b) ∧ phase = .open_ pane := by
  unfold Phase.next at h
  split at h <;> simp_all

/-- A notification that is open began with its start. -/
theorem open_began {items : List Decoded} {pane : PaneId} (h : items.foldlM Phase.next .closed = some (.open_ pane)) :
    ∃ before inside, items = before ++ .start pane :: inside ∧ ∀ item ∈ inside, ∃ b, item = .byte pane b := by
  induction items using List.reverseRecOn with
  | nil => cases h
  | append_singleton items item ih =>
    rw [List.foldlM_append] at h
    obtain ⟨phase, hphase, hnext⟩ := Option.bind_eq_some_iff.mp h
    simp only [List.foldlM_cons, List.foldlM_nil, Option.bind_eq_bind, Option.bind_eq_some_iff] at hnext
    obtain ⟨_, hnext, hpure⟩ := hnext
    cases hpure
    rcases next_open hnext with ⟨rfl, -⟩ | ⟨⟨b, rfl⟩, rfl⟩
    · exact ⟨items, [], rfl, fun item h => by cases h⟩
    · obtain ⟨before, inside, rfl, hinside⟩ := ih hphase
      refine ⟨before, inside ++ [.byte pane b], by simp, fun item hitem => ?_⟩
      rcases List.mem_append.mp hitem with hitem | hitem
      · exact hinside item hitem
      · exact ⟨b, List.mem_singleton.mp hitem⟩

/-- A notification that is open ends, or is open still. -/
theorem open_ends {items : List Decoded} {pane : PaneId} {start phase : Phase}
    (hstart : start = .open_ pane ∨ start = .faulted pane) (h : items.foldlM Phase.next start = some phase) :
    (∃ inside after, items = inside ++ .end_ pane :: after ∧ ∀ item ∈ inside, Inside pane item) ∨
      phase = .open_ pane ∨ phase = .faulted pane := by
  induction items generalizing start with
  | nil =>
    cases h
    exact .inr hstart
  | cons item items ih =>
    rw [List.foldlM_cons] at h
    obtain ⟨next, hnext, hrest⟩ := Option.bind_eq_some_iff.mp h
    have hstep : item = .end_ pane ∨ Inside pane item ∧ (next = .open_ pane ∨ next = .faulted pane) := by
      unfold Phase.next at hnext
      split at hnext <;> simp_all [Inside]
    rcases hstep with rfl | ⟨hitem, hnext⟩
    · exact .inl ⟨[], items, rfl, fun item h => by cases h⟩
    · refine (ih hnext hrest).imp_left ?_
      rintro ⟨inside, after, rfl, hinside⟩
      refine ⟨item :: inside, after, rfl, fun other hother => ?_⟩
      rcases List.mem_cons.mp hother with rfl | hother
      · exact hitem
      · exact hinside other hother

/-- A byte lies after its notification's start, and before its end unless the stream ends first. -/
theorem byte_between {d : Decoder} {before after : List Decoded} {pane : PaneId} {b : UInt8}
    (h : (before ++ .byte pane b :: after).foldlM Phase.next .closed = some d.phase) :
    (∃ earlier inside, before = earlier ++ .start pane :: inside ∧ ∀ item ∈ inside, ∃ b, item = .byte pane b) ∧
      ((∃ inside later, after = inside ++ .end_ pane :: later ∧ ∀ item ∈ inside, Inside pane item) ∨
        d.inPayload pane = true) := by
  rw [List.foldlM_append] at h
  obtain ⟨phase, hbefore, hrest⟩ := Option.bind_eq_some_iff.mp h
  rw [List.foldlM_cons] at hrest
  obtain ⟨next, hnext, hafter⟩ := Option.bind_eq_some_iff.mp hrest
  obtain ⟨rfl, rfl⟩ : phase = .open_ pane ∧ next = .open_ pane := by
    unfold Phase.next at hnext
    split at hnext <;> simp_all
  refine ⟨open_began hbefore, (open_ends (.inl rfl) hafter).imp_right fun hphase => ?_⟩
  unfold Decoder.phase at hphase
  split at hphase
  next pane' octal hline =>
    obtain rfl : pane' = pane := by simpa using hphase
    simp [inPayload, hline]
  next => simp at hphase
  next => simp at hphase

/-- **The decoder is safe, whatever the stream holds and however it is cut.** -/
theorem decoder_safe (chunks : List (Bool × Bytes)) :
    let items := (feedAll {} chunks).1
    let d := (feedAll {} chunks).2
    -- notifications do not nest, a fault is followed by its end, nothing follows the end of a client
    items.foldlM Phase.next .closed = some d.phase ∧
      (d.phase = .over → ∀ more, (d.feedAll more).1 = []) ∧
      -- a byte is its open notification's, which ends unless the stream does
      (∀ before pane b after, items = before ++ .byte pane b :: after →
        (∃ earlier inside, before = earlier ++ .start pane :: inside ∧ ∀ item ∈ inside, ∃ b, item = .byte pane b) ∧
          ((∃ inside later, after = inside ++ .end_ pane :: later ∧ ∀ item ∈ inside, Inside pane item) ∨
            d.inPayload pane = true)) ∧
      -- a payload's line, from its start or from between two of its escapes
      (∀ (pane : PaneId) (payload : Bytes) (cuts : List Bytes), d.line = .payload pane none → newline ∉ payload →
        cuts.flatten = payload ++ [newline] → d.feedAll (cuts.map (true, ·)) =
          ((unescape payload).1.map (Decoded.byte pane) ++ ending pane (unescape payload).2,
            { d with line := .header })) ∧
      -- no output before a command block has completed, and nothing from inside one
      (items.any isOutput = true → CompletedBlock (bytesOf chunks)) ∧
      (∀ key more, d.block = some key → d.blockBytes = 0 → ¬ HasTerminator key (bytesOf more) →
        ∀ item ∈ (d.feedAll more).1, GivesUp item) ∧
      -- what is retained
      d.header.length ≤ maxHeader ∧
      (∀ key, d.block = some key → d.line ≠ .poisoned → ∃ body, OpenBlock key (bytesOf chunks) body ∧
        body.length ≤ maxBlockBytes ∧ body.count newline ≤ maxBlockLines) ∧
      d.finish.1 = [.gap none .disconnected] := by
  intro items d
  obtain ⟨ht, hphase, hout⟩ := feedAll_told chunks
  refine ⟨hphase, fun hover more => ?_, fun before pane b after heq => ?_, fun pane payload cuts hline hpayload hcuts => ?_,
    fun hany => ht.attached (hout hany), fun key more hblock hfresh hno => ?_, ht.kept.short, fun key hkey hlive => ?_, rfl⟩
  · have hline : d.line = .poisoned := by
      unfold Decoder.phase at hover
      split at hover <;> first | assumption | cases hover
    rw [feedAll_eq, read_poisoned hline]
  · refine @byte_between d before after pane b ?_
    rw [← heq]
    exact hphase
  · have hnone : d.block = none := by
      rcases Option.eq_none_or_eq_some d.block with h | ⟨key, h⟩
      · exact h
      · have hwhere := ht.placed.1 (Option.isSome_iff_exists.mpr ⟨key, h⟩)
        rw [show (feedAll {} chunks).2.line = .payload pane none from hline] at hwhere
        rcases hwhere with h | h | h <;> cases h
    exact payload_line_cut hnone hline hpayload hcuts
  · rw [feedAll_eq]
    rw [bytesOf_eq] at hno
    exact block_silent ht hblock hfresh hno
  · obtain ⟨body, hb⟩ := ht.block key hkey hlive
    exact ⟨body, hb.opened, hb.maxBytes, hb.maxLines⟩

/-- The items of a whole stream, its end included. -/
def transcript (chunks : List (Bool × Bytes)) : List Decoded :=
  (feedAll {} chunks).1 ++ (feedAll {} chunks).2.finish.1

/-- A stream that ends inside a notification. -/
def cutOff : List (Bool × Bytes) := [(true, ascii "%begin 1 1 0\n%end 1 1 0\n%output %1 x")]

/-- A notification the stream cuts off has no end. -/
theorem not_every_byte_ended : ¬ ∀ chunks before pane b after, transcript chunks = before ++ .byte pane b :: after →
    ∃ inside later, after = inside ++ .end_ pane :: later := by
  intro h
  have hitems : transcript cutOff = [.start 1] ++ .byte 1 120 :: [.gap none .disconnected] := by decide +kernel
  obtain ⟨inside, later, heq⟩ := h cutOff _ _ _ _ hitems
  have hmem : Decoded.end_ 1 ∈ [Decoded.gap none .disconnected] := by rw [heq]; simp
  simp at hmem

end Decoder

end TmuxAgents
