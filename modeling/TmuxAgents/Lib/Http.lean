/-
The bytes of an HTTP/1.1 message: lines ended by CRLF, an empty one, and a body, whole or in chunks.

A message's bytes are no other message's (`Message.bytes_unique`), whatever comes behind them. A body in chunks is joined
as far as its chunks have arrived (`dechunk_take`).
-/
import TmuxAgents.Lib.Utf8
import Mathlib.Data.List.Basic
import Mathlib.Data.List.Infix

namespace Http

def cr : UInt8 := 13

def lf : UInt8 := 10

def sp : UInt8 := 32

def colon : UInt8 := 58

def crlf : List UInt8 := [cr, lf]

/-! ## Messages -/

/-- Lines, each ended, and an empty one. -/
def head (lines : List (List UInt8)) : List UInt8 := lines.flatMap (· ++ crlf) ++ crlf

/-- The elements with a separator between each and the next. -/
def separated (sep : UInt8) : List (List UInt8) → List UInt8
  | [] => []
  | [word] => word
  | word :: words => word ++ sep :: separated sep words

/-- A start line's words, the fields, and a body that is the rest. -/
structure Message where
  start : List (List UInt8)
  fields : List (List UInt8 × List UInt8)
  body : List UInt8
deriving DecidableEq

namespace Message

def fieldLine (field : List UInt8 × List UInt8) : List UInt8 := field.1 ++ colon :: sp :: field.2

def lines (message : Message) : List (List UInt8) := separated sp message.start :: message.fields.map fieldLine

def bytes (message : Message) : List UInt8 := head message.lines ++ message.body

/-- Three words in the start line, a name in front of each field's colon, and no line's end within a line. -/
structure WellFormed (message : Message) : Prop where
  three : message.start.length = 3
  words : ∀ word ∈ message.start, word ≠ [] ∧ sp ∉ word ∧ lf ∉ word
  fields : ∀ field ∈ message.fields, colon ∉ field.1 ∧ lf ∉ field.1 ∧ lf ∉ field.2

end Message

/-! ## Reading a message -/

/-- A separator that neither front has stands where it stands. -/
theorem front_unique {sep : UInt8} {front front' rest rest' : List UInt8} (h : sep ∉ front) (h' : sep ∉ front')
    (heq : front ++ sep :: rest = front' ++ sep :: rest') : front = front' ∧ rest = rest' := by
  induction front generalizing front' with
  | nil =>
    cases front' with
    | nil => exact ⟨rfl, (List.cons.inj heq).2⟩
    | cons c front' => exact absurd ((List.cons.inj heq).1 ▸ List.mem_cons_self) h'
  | cons c front ih =>
    cases front' with
    | nil => exact absurd ((List.cons.inj heq).1 ▸ List.mem_cons_self) h
    | cons d front' =>
      obtain ⟨rfl, hrest⟩ := List.cons.inj heq
      have htail : sep ∉ front := fun hmem => h (List.mem_cons_of_mem _ hmem)
      have htail' : sep ∉ front' := fun hmem => h' (List.mem_cons_of_mem _ hmem)
      obtain ⟨rfl, rfl⟩ := ih htail htail' hrest
      exact ⟨rfl, rfl⟩

theorem line_unique {line line' rest rest' : List UInt8} (h : lf ∉ line) (h' : lf ∉ line')
    (heq : line ++ crlf ++ rest = line' ++ crlf ++ rest') : line = line' ∧ rest = rest' := by
  have hline : lf ∉ line ++ [cr] := by simpa [lf, cr] using h
  have hline' : lf ∉ line' ++ [cr] := by simpa [lf, cr] using h'
  have hends : (line ++ [cr]) ++ lf :: rest = (line' ++ [cr]) ++ lf :: rest' := by simpa [crlf] using heq
  obtain ⟨hfront, hrest⟩ := front_unique hline hline' hends
  exact ⟨List.append_cancel_right hfront, hrest⟩

/-- A head ends at its first empty line. -/
theorem head_unique {lines lines' : List (List UInt8)} {rest rest' : List UInt8}
    (h : ∀ line ∈ lines, line ≠ [] ∧ lf ∉ line) (h' : ∀ line ∈ lines', line ≠ [] ∧ lf ∉ line)
    (heq : head lines ++ rest = head lines' ++ rest') : lines = lines' ∧ rest = rest' := by
  induction lines generalizing lines' with
  | nil =>
    cases lines' with
    | nil => exact ⟨rfl, List.append_cancel_left heq⟩
    | cons line' lines' =>
      obtain ⟨hne, hlf⟩ := h' line' List.mem_cons_self
      have hfirst : [] ++ crlf ++ rest = line' ++ crlf ++ (head lines' ++ rest') := by simpa [head] using heq
      exact absurd (line_unique List.not_mem_nil hlf hfirst).1.symm hne
  | cons line lines ih =>
    obtain ⟨hne, hlf⟩ := h line List.mem_cons_self
    cases lines' with
    | nil =>
      have hfirst : line ++ crlf ++ (head lines ++ rest) = [] ++ crlf ++ rest' := by simpa [head] using heq
      exact absurd (line_unique hlf List.not_mem_nil hfirst).1 hne
    | cons line' lines' =>
      obtain ⟨hne', hlf'⟩ := h' line' List.mem_cons_self
      have hfirst : line ++ crlf ++ (head lines ++ rest) = line' ++ crlf ++ (head lines' ++ rest') := by
        simpa [head] using heq
      obtain ⟨rfl, hmore⟩ := line_unique hlf hlf' hfirst
      have hlater := fun l hl => h l (List.mem_cons_of_mem _ hl)
      have hlater' := fun l hl => h' l (List.mem_cons_of_mem _ hl)
      obtain ⟨rfl, rfl⟩ := ih hlater hlater' hmore
      exact ⟨rfl, rfl⟩

theorem separated_unique {sep : UInt8} {words words' : List (List UInt8)} (hlen : words.length = words'.length)
    (h : ∀ word ∈ words, sep ∉ word) (h' : ∀ word ∈ words', sep ∉ word)
    (heq : separated sep words = separated sep words') : words = words' := by
  induction words generalizing words' with
  | nil => exact (List.length_eq_zero_iff.mp hlen.symm).symm
  | cons word words ih =>
    obtain _ | ⟨word', words'⟩ := words'
    · cases hlen
    cases words with
    | nil =>
      obtain rfl := List.length_eq_zero_iff.mp (Nat.succ.inj hlen).symm
      exact congrArg (fun w => [w]) heq
    | cons second words =>
      obtain _ | ⟨second', words'⟩ := words'
      · cases hlen
      obtain ⟨rfl, hrest⟩ := front_unique (h word List.mem_cons_self) (h' word' List.mem_cons_self) heq
      have hlater := fun w hw => h w (List.mem_cons_of_mem _ hw)
      have hlater' := fun w hw => h' w (List.mem_cons_of_mem _ hw)
      rw [ih (Nat.succ.inj hlen) hlater hlater' hrest]

namespace Message

theorem lf_not_mem_separated {words : List (List UInt8)} (h : ∀ word ∈ words, lf ∉ word) : lf ∉ separated sp words := by
  induction words with
  | nil => exact List.not_mem_nil
  | cons word words ih =>
    have hrest := ih fun w hw => h w (List.mem_cons_of_mem _ hw)
    cases words with
    | nil => exact h word List.mem_cons_self
    | cons second words =>
      rw [separated, List.mem_append, List.mem_cons]
      · rintro (hmem | hmem | hmem)
        · exact h word List.mem_cons_self hmem
        · cases hmem
        · exact hrest hmem
      · exact fun heq => List.cons_ne_nil _ _ heq

theorem WellFormed.lines {message : Message} (h : message.WellFormed) : ∀ line ∈ message.lines, line ≠ [] ∧ lf ∉ line := by
  intro line hline
  rcases List.mem_cons.mp hline with rfl | hline
  · cases hstart : message.start with
    | nil => cases hstart ▸ h.three
    | cons word words =>
      have hne : separated sp (word :: words) ≠ [] := by
        have hword := (h.words word (hstart ▸ List.mem_cons_self)).1
        cases words with
        | nil => exact hword
        | cons second words => exact List.append_ne_nil_of_left_ne_nil hword _
      exact ⟨hne, lf_not_mem_separated fun w hw => (h.words w (hstart ▸ hw)).2.2⟩
  · obtain ⟨field, hfield, rfl⟩ := List.mem_map.mp hline
    obtain ⟨-, hname, hvalue⟩ := h.fields field hfield
    refine ⟨List.append_ne_nil_of_right_ne_nil _ (List.cons_ne_nil _ _), ?_⟩
    simp only [fieldLine, List.mem_append, List.mem_cons, not_or]
    exact ⟨hname, by decide, by decide, hvalue⟩

theorem fieldLines_unique {fields fields' : List (List UInt8 × List UInt8)} (h : ∀ field ∈ fields, colon ∉ field.1)
    (h' : ∀ field ∈ fields', colon ∉ field.1) (heq : fields.map fieldLine = fields'.map fieldLine) : fields = fields' := by
  induction fields generalizing fields' with
  | nil => exact (List.map_eq_nil_iff.mp heq.symm).symm
  | cons field fields ih =>
    obtain _ | ⟨field', fields'⟩ := fields'
    · cases heq
    · obtain ⟨hline, hrest⟩ := List.cons.inj heq
      obtain ⟨hname, hvalue⟩ := front_unique (h field List.mem_cons_self) (h' field' List.mem_cons_self) hline
      rw [Prod.ext hname (List.cons.inj hvalue).2,
        ih (fun f hf => h f (List.mem_cons_of_mem _ hf)) (fun f hf => h' f (List.mem_cons_of_mem _ hf)) hrest]

/-- Bytes are one message's at the most. -/
theorem bytes_unique {message message' : Message} (h : message.WellFormed) (h' : message'.WellFormed)
    (heq : message.bytes = message'.bytes) : message = message' := by
  obtain ⟨hlines, hbody⟩ := head_unique h.lines h'.lines heq
  obtain ⟨hstart, hfields⟩ := List.cons.inj hlines
  obtain ⟨start, fields, body⟩ := message
  obtain ⟨start', fields', body'⟩ := message'
  have hlen : start.length = start'.length := h.three.trans h'.three.symm
  obtain rfl : start = start' :=
    separated_unique hlen (fun w hw => (h.words w hw).2.1) (fun w hw => (h'.words w hw).2.1) hstart
  obtain rfl : fields = fields' := fieldLines_unique (fun f hf => (h.fields f hf).1) (fun f hf => (h'.fields f hf).1) hfields
  obtain rfl : body = body' := hbody
  rfl

end Message

/-! ## Chunks -/

/-- Up to where the mark first stands, and what is behind it. -/
def cutAt (mark : List UInt8) : List UInt8 → Option (List UInt8 × List UInt8)
  | [] => none
  | b :: rest =>
    if mark <+: b :: rest then some ([], (b :: rest).drop mark.length)
    else (cutAt mark rest).map fun parts => (b :: parts.1, parts.2)

theorem cutAt_suffix {mark bytes line rest : List UInt8} (h : cutAt mark bytes = some (line, rest)) :
    bytes = line ++ mark ++ rest := by
  induction bytes generalizing line with
  | nil => cases h
  | cons b bytes ih =>
    rw [cutAt] at h
    split at h
    next hfront =>
      obtain ⟨rfl, rfl⟩ := Prod.mk.inj (Option.some.inj h)
      rw [List.nil_append]
      exact (List.prefix_iff_eq_append.mp hfront).symm
    next =>
      obtain ⟨parts, hparts, heq⟩ := Option.map_eq_some_iff.mp h
      obtain ⟨rfl, rfl⟩ := Prod.mk.inj heq
      rw [@ih parts.1 hparts]
      rfl

/-- A line is cut where a mark follows that begins with its end. -/
theorem cutAt_mark {line : List UInt8} (h : lf ∉ line) (more rest : List UInt8) :
    cutAt (crlf ++ more) (line ++ (crlf ++ more) ++ rest) = some (line, rest) := by
  induction line with
  | nil =>
    have hmark : crlf ++ more <+: cr :: lf :: (more ++ rest) := ⟨rest, rfl⟩
    have hdrop : ((crlf ++ more) ++ rest).drop (crlf ++ more).length = rest := List.drop_left
    have hbytes : [] ++ (crlf ++ more) ++ rest = cr :: lf :: (more ++ rest) := rfl
    rw [hbytes, cutAt, if_pos hmark]
    exact congrArg (fun r => some ([], r)) hdrop
  | cons b line ih =>
    rw [List.cons_append, List.cons_append, cutAt, if_neg, ih fun hmem => h (List.mem_cons_of_mem _ hmem)]
    · rfl
    · rintro ⟨after, hafter⟩
      obtain ⟨-, hafter⟩ := List.cons.inj hafter
      cases line with
      | nil => cases hafter
      | cons c line =>
        obtain ⟨rfl, -⟩ := List.cons.inj hafter
        exact h (List.mem_cons_of_mem _ List.mem_cons_self)

theorem cutAt_line {line : List UInt8} (h : lf ∉ line) (rest : List UInt8) :
    cutAt crlf (line ++ crlf ++ rest) = some (line, rest) := cutAt_mark h [] rest

/-- Lines with CRLF between each and the next. -/
def joined : List (List UInt8) → List UInt8
  | [] => []
  | [line] => line
  | line :: lines => line ++ crlf ++ joined lines

/-- The mark between a head and its body does not stand in a line, nor across its end but where an empty line follows. -/
theorem cutAt_headLine {line rest : List UInt8} (h : lf ∉ line) (hrest : ¬ crlf <+: rest) :
    cutAt (crlf ++ crlf) (line ++ crlf ++ rest) =
      (cutAt (crlf ++ crlf) rest).map fun parts => (line ++ crlf ++ parts.1, parts.2) := by
  induction line with
  | nil =>
    have hmark : ¬ crlf ++ crlf <+: cr :: lf :: rest := fun hp => hrest ((List.prefix_append_right_inj crlf).mp hp)
    have hlf : ¬ crlf ++ crlf <+: lf :: rest := by
      rintro ⟨after, hafter⟩
      cases hafter
    have hcrlf : ([] : List UInt8) ++ crlf ++ rest = cr :: lf :: rest := rfl
    rw [hcrlf, cutAt, if_neg hmark, cutAt, if_neg hlf, Option.map_map]
    rfl
  | cons b line ih =>
    rw [List.cons_append, List.cons_append, cutAt, if_neg, ih fun hmem => h (List.mem_cons_of_mem _ hmem), Option.map_map]
    · rfl
    · rintro ⟨after, hafter⟩
      obtain ⟨-, hafter⟩ := List.cons.inj hafter
      cases line with
      | nil => cases hafter
      | cons c line =>
        obtain ⟨rfl, -⟩ := List.cons.inj hafter
        exact h (List.mem_cons_of_mem _ List.mem_cons_self)

/-- A head is cut from its body. -/
theorem cutAt_head {lines : List (List UInt8)} (hne : lines ≠ []) (h : ∀ line ∈ lines, line ≠ [] ∧ lf ∉ line)
    (body : List UInt8) : cutAt (crlf ++ crlf) (head lines ++ body) = some (joined lines, body) := by
  have hnotcrlf : ∀ {line rest : List UInt8}, line ≠ [] → lf ∉ line → ¬ crlf <+: line ++ crlf ++ rest := by
    rintro line rest hline hlf ⟨after, hafter⟩
    cases line with
    | nil => exact hline rfl
    | cons b line =>
      obtain ⟨-, hafter⟩ := List.cons.inj hafter
      cases line with
      | nil => cases hafter
      | cons c line =>
        obtain ⟨rfl, -⟩ := List.cons.inj hafter
        exact hlf (List.mem_cons_of_mem _ List.mem_cons_self)
  induction lines with
  | nil => exact absurd rfl hne
  | cons line lines ih =>
    obtain ⟨hline, hlf⟩ := h line List.mem_cons_self
    cases lines with
    | nil =>
      have hone : head [line] ++ body = line ++ (crlf ++ crlf) ++ body := by simp [head]
      rw [hone, cutAt_mark hlf crlf body]
      rfl
    | cons second lines =>
      obtain ⟨hsecond, hsecondlf⟩ := h second (List.mem_cons_of_mem _ List.mem_cons_self)
      have hmore : head (line :: second :: lines) ++ body =
          line ++ crlf ++ (second ++ crlf ++ (head lines ++ body)) := by simp [head]
      have hrest : second ++ crlf ++ (head lines ++ body) = head (second :: lines) ++ body := by simp [head]
      rw [hmore, cutAt_headLine hlf (hnotcrlf hsecond hsecondlf), hrest,
        ih (List.cons_ne_nil _ _) fun l hl => h l (List.mem_cons_of_mem _ hl)]
      rfl

/-- There is no line's end. -/
theorem cutAt_none {bytes : List UInt8} (h : lf ∉ bytes) : cutAt crlf bytes = none := by
  cases hcut : cutAt crlf bytes with
  | none => rfl
  | some parts =>
    rw [cutAt_suffix hcut] at h
    exact absurd (by simp [crlf]) h

section

variable (sizeOf : List UInt8 → Option Nat)

/-- The chunks joined, up to one that has not arrived whole or whose line says no size. -/
def dechunk (body : List UInt8) : List UInt8 :=
  match _hcut : cutAt crlf body with
  | none => []
  | some (line, rest) =>
    match (sizeOf line).filter fun n => decide (0 < n) with
    | none => []
    | some size => if size ≤ rest.length then rest.take size ++ dechunk (rest.drop (size + 2)) else []
termination_by body.length
decreasing_by
  rw [cutAt_suffix _hcut]
  simp only [List.length_drop, List.length_append, crlf, List.length_cons]
  omega

end

/-- A chunk, as it is sent: its line, and it. -/
structure Chunk where
  line : List UInt8
  data : List UInt8

namespace Chunk

/-- The line says the chunk's size, which is not zero. -/
def Lawful (sizeOf : List UInt8 → Option Nat) (chunk : Chunk) : Prop :=
  lf ∉ chunk.line ∧ sizeOf chunk.line = some chunk.data.length ∧ chunk.data ≠ []

def bytes (chunk : Chunk) : List UInt8 := chunk.line ++ crlf ++ chunk.data ++ crlf

theorem length_bytes (chunk : Chunk) : chunk.bytes.length = chunk.line.length + 2 + chunk.data.length + 2 := by
  simp only [bytes, List.length_append]
  rfl

end Chunk

/-- Of the first bytes of some chunks, the data that is there whole. -/
def arrived : List Chunk → Nat → List UInt8
  | [], _ => []
  | chunk :: chunks, n =>
    if chunk.line.length + 2 + chunk.data.length ≤ n then chunk.data ++ arrived chunks (n - chunk.bytes.length) else []

/-- What was cut behind a line's end. -/
theorem take_line {line rest : List UInt8} {n : Nat} (h : line.length + 2 ≤ n) :
    (line ++ crlf ++ rest).take n = line ++ crlf ++ rest.take (n - (line.length + 2)) := by
  have hlength : (line ++ crlf).length = line.length + 2 := by simp [crlf]
  rw [List.take_append, List.take_of_length_le (by omega), hlength]

/-- What was cut within a line. -/
theorem cutAt_take {line rest : List UInt8} {n : Nat} (hline : lf ∉ line) (h : n < line.length + 2) :
    cutAt crlf ((line ++ crlf ++ rest).take n) = none := by
  refine cutAt_none fun hmem => ?_
  have hfront : (line ++ crlf ++ rest).take n <+: line ++ [cr] := by
    have hsplit : line ++ crlf ++ rest = (line ++ [cr]) ++ lf :: rest := by simp [crlf]
    have hle : n ≤ (line ++ [cr]).length := by
      rw [List.length_append, List.length_singleton]
      omega
    rw [hsplit, List.take_append_of_le_length hle]
    exact List.take_prefix _ _
  have hcr := hfront.subset hmem
  rw [List.mem_append, List.mem_singleton] at hcr
  exact hcr.elim hline (by decide)

section

variable {sizeOf : List UInt8 → Option Nat}

theorem dechunk_none {body : List UInt8} (h : cutAt crlf body = none) : dechunk sizeOf body = [] := by
  rw [dechunk]
  split
  · rfl
  next hcut =>
    rw [h] at hcut
    cases hcut

theorem dechunk_line {body line rest : List UInt8} (h : cutAt crlf body = some (line, rest)) :
    dechunk sizeOf body = ((sizeOf line).filter fun n => decide (0 < n)).elim [] fun size =>
      if size ≤ rest.length then rest.take size ++ dechunk sizeOf (rest.drop (size + 2)) else [] := by
  rw [dechunk]
  split
  next hcut =>
    rw [h] at hcut
    cases hcut
  next hcut =>
    rw [h] at hcut
    cases hcut
    split
    next hsize => rw [hsize]; rfl
    next hsize => rw [hsize]; rfl

/-- A line that says no size, or zero, and whatever is behind it. -/
def Ending (sizeOf : List UInt8 → Option Nat) (ending : List UInt8) : Prop :=
  ∃ line more, ending = line ++ crlf ++ more ∧ lf ∉ line ∧ (sizeOf line).filter (fun n => decide (0 < n)) = none

/-- Of a body in chunks that was cut anywhere, the chunks are joined that had arrived. -/
theorem dechunk_take {chunks : List Chunk} {ending : List UInt8} (h : ∀ chunk ∈ chunks, chunk.Lawful sizeOf)
    (hending : Ending sizeOf ending) (n : Nat) :
    dechunk sizeOf ((chunks.flatMap Chunk.bytes ++ ending).take n) = arrived chunks n := by
  induction chunks generalizing n with
  | nil =>
    obtain ⟨line, more, rfl, hline, hsize⟩ := hending
    rw [List.flatMap_nil, List.nil_append]
    by_cases hn : line.length + 2 ≤ n
    · rw [take_line hn, dechunk_line (cutAt_line hline _), hsize]
      rfl
    · exact dechunk_none (cutAt_take hline (Nat.lt_of_not_le hn))
  | cons chunk chunks ih =>
    obtain ⟨hline, hsize, hdata⟩ := h chunk List.mem_cons_self
    have hpos : (some chunk.data.length).filter (fun n => decide (0 < n)) = some chunk.data.length :=
      Option.filter_some_pos (decide_eq_true (List.length_pos_iff.mpr hdata))
    have hbytes : (chunk :: chunks).flatMap Chunk.bytes ++ ending =
        chunk.line ++ crlf ++ (chunk.data ++ (crlf ++ (chunks.flatMap Chunk.bytes ++ ending))) := by
      simp [Chunk.bytes]
    rw [hbytes, arrived]
    by_cases hn : chunk.line.length + 2 ≤ n
    · rw [take_line hn, dechunk_line (cutAt_line hline _), hsize, hpos]
      dsimp only [Option.elim]
      by_cases hwhole : chunk.line.length + 2 + chunk.data.length ≤ n
      · have htake : (chunk.data ++ (crlf ++ (chunks.flatMap Chunk.bytes ++ ending))).take (n - (chunk.line.length + 2)) =
            chunk.data ++ (crlf ++ (chunks.flatMap Chunk.bytes ++ ending)).take (n - (chunk.line.length + 2 + chunk.data.length)) := by
          rw [List.take_append, List.take_of_length_le (by omega), Nat.sub_sub]
        have hrest : ((crlf ++ (chunks.flatMap Chunk.bytes ++ ending)).take (n - (chunk.line.length + 2 + chunk.data.length))).drop 2 =
            (chunks.flatMap Chunk.bytes ++ ending).take (n - chunk.bytes.length) := by
          rw [List.drop_take, chunk.length_bytes, Nat.sub_sub]
          rfl
        rw [if_pos hwhole, htake, if_pos (by rw [List.length_append]; omega), List.take_left, List.drop_length_add_append, hrest,
          ih fun c hc => h c (List.mem_cons_of_mem _ hc)]
      · rw [if_neg hwhole, if_neg]
        rw [List.length_take]
        omega
    · rw [dechunk_none (cutAt_take hline (Nat.lt_of_not_le hn)), if_neg (by omega)]

end

end Http
