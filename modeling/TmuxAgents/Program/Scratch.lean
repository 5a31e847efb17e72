/-
The frame parser over its scratch (`program_status/parse.rs`).

The source decodes a text into a buffer that it reuses, keeps the text's length, and takes
the text out of the buffer when the frame has ended. Here the buffers are there, whatever
an earlier frame has left in them, and a slice out of bounds, an underflow or a failed
`expect` is an outcome. `parseFrameIn_eq`: none of them occurs, and the outcome is that of
`parseFrame`, which has no buffers.
-/
import TmuxAgents.Program.Parse

namespace TmuxAgents

/-- Fixed-size decode storage reused across reports, including overwritten duplicate text.
The extra message byte lets the decoder distinguish decoded-size overflow from bad base64. -/
structure DecodeScratch where
  msg : Vector UInt8 (maxMsgBytes + 1)
  title : Vector UInt8 maxTitleBytes

/-- A parse without an outcome: the frame is rejected, or the parser panics, or it hands
out a text that its type rules out. -/
inductive Halt
  | reject (reason : RejectReason)
  | panic
  | invalidText
deriving DecidableEq

/-- The engine's `decode_slice`: the buffer afterwards, and how many bytes of it were
written unless the value does not decode into it. -/
abbrev DecodeSlice :=
  (n : Nat) → (padding : Bool) → (value : Bytes) → Vector UInt8 n → Vector UInt8 n × Option Nat

/-! ## Slices -/

/-- `&bytes[..n]` -/
def sliceTo (bytes : Bytes) (n : Nat) : Except Halt Bytes :=
  if n ≤ bytes.length then .ok (bytes.take n) else .error .panic

/-- `&bytes[n..]` -/
def sliceFrom (bytes : Bytes) (n : Nat) : Except Halt Bytes :=
  if n ≤ bytes.length then .ok (bytes.drop n) else .error .panic

theorem sliceTo_of_le {bytes : Bytes} {n : Nat} (h : n ≤ bytes.length) : sliceTo bytes n = .ok (bytes.take n) :=
  if_pos h

theorem sliceFrom_of_le {bytes : Bytes} {n : Nat} (h : n ≤ bytes.length) :
    sliceFrom bytes n = .ok (bytes.drop n) :=
  if_pos h

/-! ## Values -/

/-- The text is checked in the buffer and stays there. -/
def decodeTextIn (decodeSlice : DecodeSlice) {n : Nat} (value : Bytes) (output : Vector UInt8 n) (field : TextField)
    (max : Nat) : Except Halt (Vector UInt8 n × Nat) :=
  match decodeSlice n (value.getLast? == some 0x3d) value output with
  | (_, none) => .error (.reject (.invalidBase64 field))
  | (output, some len) =>
    if len > max then .error (.reject (.decodedTextTooLong field))
    else do
      let written ← sliceTo output.toList len
      match String.fromUTF8? ⟨written.toArray⟩ with
      | none => .error (.reject (.invalidUtf8 field))
      | some text =>
        if text.toList.any isControl then .error (.reject (.controlText field)) else .ok (output, len)

/-- One digit more, until the number no longer fits a byte. -/
def progressDigit (n : Option Nat) (digit : UInt8) : Except Halt (Option Nat) :=
  match n with
  | none => .ok none
  | some n =>
    if n * 10 > 255 then .ok none
    else if digit < 0x30 then .error .panic
    else
      let n := n * 10 + (digit.toNat - 0x30)
      .ok (if n ≤ 255 then some n else none)

def progressValueIn (value : Bytes) : Except Halt (Option Progress) :=
  if !value.isEmpty && value.all isAsciiDigit then do
    let n ← value.foldlM progressDigit (some 0)
    return n.bind fun n => (Progress.new n).toOption
  else .ok none

/-! ## Pairs -/

/-- The locals of the parser. The texts are lengths of what the scratch holds, and `fields`
has none. -/
structure Locals where
  fields : Fields := {}
  msgLen : Option Nat := none
  titleLen : Option Nat := none
  scratch : DecodeScratch

def readPairIn (decodeSlice : DecodeSlice) (locals : Locals) (key value : Bytes) : Except Halt Locals :=
  if key.isEmpty || !key.all isAsciiLowercase || !value.all valueByte then .ok locals
  else if key = Key.state then .ok { locals with fields.state := some value }
  else if key = Key.kind then .ok { locals with fields.kind := blockedKind value }
  else if key = Key.progress then do
    let progress ← progressValueIn value
    return { locals with fields.progress := progress }
  else if key = Key.app then .ok { locals with fields.app := (AppId.parse value).toOption }
  else if key = Key.msg then do
    let (msg, len) ← decodeTextIn decodeSlice value locals.scratch.msg .message maxMsgBytes
    return { locals with scratch.msg := msg, msgLen := some len }
  else if key = Key.title then do
    let (title, len) ← decodeTextIn decodeSlice value locals.scratch.title .title maxTitleBytes
    return { locals with scratch.title := title, titleLen := some len }
  else .ok locals

def parsePairIn (decodeSlice : DecodeSlice) (locals : Locals) (pair : Bytes) : Except Halt Locals :=
  match pair.idxOf? 0x3d with
  | none => .ok locals
  | some equal => do
    let key := trim (← sliceTo pair equal)
    let value := trim (← sliceFrom pair (equal + 1))
    if key.length > maxKeyBytes then .error (.reject .keyTooLong)
    else do
      let fields ← (limitPair locals.fields key value).mapError .reject
      readPairIn decodeSlice { locals with fields } key value

/-! ## Frames -/

/-- A text out of its buffer. The source does not check again that it is a line within its
limit, which `decode_text` has found. -/
def expectText {n : Nat} (output : Vector UInt8 n) (max : Nat) (len : Nat) :
    Except Halt { text : SingleLineText // text.len ≤ max } := do
  let written ← sliceTo output.toList len
  match String.fromUTF8? ⟨written.toArray⟩ with
  | none => .error .panic
  | some str =>
    if h : (str.utf8ByteSize ≤ maxMsgBytes && !str.toList.any isControl) = true ∧ str.utf8ByteSize ≤ max then
      .ok ⟨⟨str, h.1⟩, h.2⟩
    else .error .invalidText

/-- The texts are taken out of the scratch for a record only. -/
def Locals.outcome (locals : Locals) : Except Halt ParseOutcome :=
  match locals.fields.outcome with
  | .command (.replace _) => do
    let msg ← locals.msgLen.mapM (expectText locals.scratch.msg maxMsgBytes)
    let title ← locals.titleLen.mapM (expectText locals.scratch.title maxTitleBytes)
    return { locals.fields with msg, title }.outcome
  | outcome => .ok outcome

/-- Parse exactly one complete OSC frame, into whatever scratch there is. -/
def parseFrameIn (decodeSlice : DecodeSlice) (scratch : DecodeScratch) (frame : Bytes) : Except Halt ParseOutcome :=
  if frame.length > maxFrameBytes then .error (.reject .frameTooLong)
  else
    match frameBody frame with
    | none => .error (.reject .invalidFrame)
    | some body =>
      if body.any fun byte => byte == esc || byte == bel then .error (.reject .invalidFrame)
      else if body = [0x3f] then .ok (.command .query)
      else do
        let locals ← (body.splitOn 0x3a).foldlM (parsePairIn decodeSlice) { scratch }
        locals.outcome

/-! ## What the engine does -/

/-- The bytes of a string. -/
def utf8 (text : String) : Bytes := text.toByteArray.data.toList

theorem fromUTF8?_eq_some {bytes : Bytes} {text : String} :
    String.fromUTF8? ⟨bytes.toArray⟩ = some text ↔ utf8 text = bytes := by
  unfold String.fromUTF8?
  constructor
  · intro h
    split at h
    · cases h
      rfl
    · cases h
  · rintro rfl
    rw [dif_pos (by simpa [utf8] using text.isValidUTF8)]
    rfl

theorem utf8_injective : Function.Injective utf8 := by
  intro a b h
  exact Option.some.inj ((fromUTF8?_eq_some.mpr h).symm.trans (fromUTF8?_eq_some.mpr rfl))

theorem length_utf8 (text : String) : (utf8 text).length = text.utf8ByteSize := rfl

/-- The engine writes what it decodes to the front of the buffer, and fails where it cannot
decode or the buffer is too small, which depends on the size of the buffer alone. -/
structure Base64.Writes [Base64] (decodeSlice : DecodeSlice) : Prop where
  len : ∀ n padding value output,
    (decodeSlice n padding value output).2 = (Base64.decode padding value n).map List.length
  written : ∀ n padding value output, ∀ decoded ∈ Base64.decode padding value n,
    decoded.length ≤ n ∧ (decodeSlice n padding value output).1.toList.take decoded.length = decoded

/-! ## One parser mirrors the other -/

/-- Two results: the same rejection, or values that agree. -/
inductive Mirrors {α β : Type*} (Agree : α → β → Prop) : Except RejectReason α → Except Halt β → Prop
  | reject (reason : RejectReason) : Mirrors Agree (.error reason) (.error (.reject reason))
  | ok {a : α} {b : β} (h : Agree a b) : Mirrors Agree (.ok a) (.ok b)

namespace Mirrors

variable {α β γ δ ε : Type} {Agree : α → β → Prop} {Agree' : γ → δ → Prop}

theorem bind {x : Except RejectReason α} {y : Except Halt β} {f : α → Except RejectReason γ}
    {g : β → Except Halt δ} (h : Mirrors Agree x y) (hfg : ∀ a b, Agree a b → Mirrors Agree' (f a) (g b)) :
    Mirrors Agree' (x >>= f) (y >>= g) := by
  cases h with
  | reject reason => exact .reject reason
  | ok h => exact hfg _ _ h

theorem foldlM {f : α → ε → Except RejectReason α} {g : β → ε → Except Halt β}
    (hfg : ∀ a b e, Agree a b → Mirrors Agree (f a e) (g b e)) (l : List ε) {a : α} {b : β} (h : Agree a b) :
    Mirrors Agree (l.foldlM f a) (l.foldlM g b) := by
  induction l generalizing a b with
  | nil => exact .ok h
  | cons e l ih =>
    rw [List.foldlM_cons, List.foldlM_cons]
    exact (hfg a b e h).bind fun a b h => ih h

theorem eq_mapError {x : Except RejectReason α} {y : Except Halt α} (h : Mirrors Eq x y) :
    y = x.mapError .reject := by
  cases h with
  | reject reason => rfl
  | ok h => rw [h]; rfl

end Mirrors

/-- A buffer holds a text: as many bytes of it as the length says are the text's. -/
structure Holds {n max : Nat} (text : Option { text : SingleLineText // text.len ≤ max })
    (output : Vector UInt8 n) (len : Option Nat) : Prop where
  len : len = text.map fun text => text.val.len
  bytes : ∀ t ∈ text, t.val.len ≤ n ∧ output.toList.take t.val.len = utf8 t.val.str

theorem Holds.none {n max : Nat} {output : Vector UInt8 n} :
    Holds (.none : Option { text : SingleLineText // text.len ≤ max }) output .none :=
  ⟨rfl, fun _ h => nomatch h⟩

theorem expectText_of_holds {n max : Nat} {text : { text : SingleLineText // text.len ≤ max }}
    {output : Vector UInt8 n} {len : Nat} (h : Holds (some text) output (some len)) :
    expectText output max len = .ok text := by
  obtain ⟨hfits, htake⟩ := h.bytes text rfl
  obtain rfl : len = text.val.len := Option.some.inj h.len
  unfold expectText
  rw [sliceTo_of_le (by simpa using hfits), htake]
  have hutf : String.fromUTF8? ⟨(utf8 text.val.str).toArray⟩ = some text.val.str := fromUTF8?_eq_some.mpr rfl
  simp only [bind, Except.bind, hutf]
  rw [dif_pos ⟨text.val.valid, text.property⟩]

theorem mapM_expectText {n max : Nat} {text : Option { text : SingleLineText // text.len ≤ max }}
    {output : Vector UInt8 n} {len : Option Nat} (h : Holds text output len) :
    len.mapM (expectText output max) = .ok text := by
  cases text with
  | none =>
    obtain rfl : len = none := h.len
    rfl
  | some text =>
    obtain rfl : len = some text.val.len := h.len
    simp only [Option.mapM_some, expectText_of_holds h]
    rfl

theorem progressDigit_eq {n : Option Nat} {digit : UInt8} (h : isAsciiDigit digit = true) :
    progressDigit n digit = .ok (n.bind fun n =>
      let n := n * 10 + (digit.toNat - 0x30)
      if n ≤ 255 then some n else none) := by
  have hdigit : ¬ digit < 0x30 := by
    rw [isAsciiDigit, Bool.and_eq_true, decide_eq_true_iff] at h
    exact UInt8.not_lt.mpr h.1
  cases n with
  | none => rfl
  | some n =>
    simp only [progressDigit, Option.bind_some, if_neg hdigit]
    split
    · rw [if_neg (by omega)]
    · rfl

theorem progressValueIn_eq (value : Bytes) : progressValueIn value = .ok (progressValue value) := by
  have hfold (digits : Bytes) (hdigits : ∀ digit ∈ digits, isAsciiDigit digit = true) (n : Option Nat) :
      digits.foldlM progressDigit n = .ok (n.bind fun n => digits.foldlM (fun n digit =>
        let n := n * 10 + (digit.toNat - 0x30)
        if n ≤ 255 then some n else none) n) := by
    induction digits generalizing n with
    | nil => cases n <;> rfl
    | cons digit digits ih =>
      rw [List.foldlM_cons, progressDigit_eq (hdigits digit List.mem_cons_self)]
      refine (ih (fun d hd => hdigits d (List.mem_cons_of_mem _ hd)) _).trans ?_
      rw [Option.bind_assoc]
      rfl
  unfold progressValueIn progressValue
  split
  · rename_i h
    rw [Bool.and_eq_true, List.all_eq_true] at h
    rw [hfold value h.2]
    rfl
  · rfl

/-! ## The parser never panics -/

/-- The locals agree with the fields: the same, but for the texts, which the buffers hold. -/
structure Locals.Agrees (locals : Locals) (read : Fields) : Prop where
  fields : locals.fields = { read with msg := none, title := none }
  msg : Holds read.msg locals.scratch.msg locals.msgLen
  title : Holds read.title locals.scratch.title locals.titleLen

theorem limitPair_mirrors {fields : Fields} {locals : Locals} (h : locals.Agrees fields) (key value : Bytes) :
    Mirrors (fun fields' own => { locals with fields := own }.Agrees fields') (limitPair fields key value)
      ((limitPair locals.fields key value).mapError .reject) := by
  have same : { locals with fields := locals.fields }.Agrees fields := h
  unfold limitPair
  split_ifs
  · exact .reject _
  · exact .reject _
  · exact .reject _
  · exact .reject _
  · exact .reject _
  · exact .reject _
  · cases RecordId.parse value with
    | ok parsed => exact .ok ⟨by rw [h.fields], h.msg, h.title⟩
    | error _ => exact .ok ⟨by rw [h.fields], h.msg, h.title⟩
  · exact .ok same

/-- The texts matter to a record only. -/
theorem outcome_withoutTexts (fields : Fields) :
    { fields with msg := none, title := none }.outcome = fields.outcome ∨
      ∃ record, { fields with msg := none, title := none }.outcome = .command (.replace record) := by
  unfold Fields.outcome
  by_cases hinvalid : fields.invalidId = true
  · exact .inl (by simp only [if_pos hinvalid])
  simp only [if_neg hinvalid]
  cases fields.state with
  | none => exact .inl rfl
  | some state =>
    have hstatus : { fields with state := some state, msg := none, title := none }.status state =
        fields.status state := rfl
    simp only [hstatus]
    by_cases hclear : state = [0x63, 0x6c, 0x65, 0x61, 0x72]
    · exact .inl (by simp only [if_pos hclear])
    · simp only [if_neg hclear]
      cases fields.status state with
      | none => exact .inl rfl
      | some status => exact .inr ⟨_, rfl⟩

theorem outcome_mirrors {fields : Fields} {locals : Locals} (h : locals.Agrees fields) :
    locals.outcome = .ok fields.outcome := by
  unfold Locals.outcome
  rw [mapM_expectText h.msg, mapM_expectText h.title, h.fields]
  rcases outcome_withoutTexts fields with hsame | ⟨record, hreplace⟩
  · rw [hsame]
    split
    · rfl
    · rfl
  · rw [hreplace]
    rfl

section

variable [Base64] {decodeSlice : DecodeSlice}

theorem decodeText_mirrors (hw : Base64.Writes decodeSlice) {n : Nat} (value : Bytes) (output : Vector UInt8 n)
    (field : TextField) {max : Nat} (hmax : max ≤ maxMsgBytes) :
    Mirrors (fun text (b : Vector UInt8 n × Nat) => Holds (some text) b.1 (some b.2))
      (decodeText value n field max hmax) (decodeTextIn decodeSlice value output field max) := by
  have hlen := hw.len n (value.getLast? == some 0x3d) value output
  have hwritten := hw.written n (value.getLast? == some 0x3d) value output
  unfold decodeText decodeTextIn
  generalize decodeSlice n (value.getLast? == some 0x3d) value output = slice at hlen hwritten ⊢
  obtain ⟨output', len⟩ := slice
  obtain rfl : len = _ := hlen
  cases hdec : Base64.decode (value.getLast? == some 0x3d) value n with
  | none => exact .reject _
  | some decoded =>
    obtain ⟨hfits, htake⟩ := hwritten decoded hdec
    simp only [Option.map_some]
    by_cases hmax' : decoded.length > max
    · rw [dif_pos hmax', if_pos hmax']
      exact .reject _
    rw [dif_neg hmax', if_neg hmax', sliceTo_of_le (by simpa using hfits)]
    simp only [htake]
    split
    · rename_i hutf
      simp only [bind, Except.bind, hutf]
      exact .reject _
    · rename_i text hutf
      simp only [bind, Except.bind, hutf]
      have hbytes := fromUTF8?_eq_some.mp hutf
      split
      · exact .reject _
      · have htext : text.utf8ByteSize = decoded.length := by rw [← hbytes, length_utf8]
        refine .ok ⟨congrArg some htext.symm, ?_⟩
        rintro t ⟨⟩
        rw [hbytes, SingleLineText.len, htext]
        exact ⟨hfits, htake⟩

theorem readPair_mirrors (hw : Base64.Writes decodeSlice) {fields : Fields} {locals : Locals}
    (h : locals.Agrees fields) (key value : Bytes) :
    Mirrors (fun fields' locals' => locals'.Agrees fields') (readPair fields key value)
      (readPairIn decodeSlice locals key value) := by
  unfold readPair readPairIn
  split_ifs
  · exact .ok h
  · exact .ok ⟨by rw [h.fields], h.msg, h.title⟩
  · exact .ok ⟨by rw [h.fields], h.msg, h.title⟩
  · rw [progressValueIn_eq]
    exact .ok ⟨by rw [h.fields], h.msg, h.title⟩
  · exact .ok ⟨by rw [h.fields], h.msg, h.title⟩
  · refine (decodeText_mirrors hw value _ _ _).bind fun text b htext => ?_
    exact .ok ⟨h.fields, htext, h.title⟩
  · refine (decodeText_mirrors hw value _ _ _).bind fun text b htext => ?_
    exact .ok ⟨h.fields, h.msg, htext⟩
  · exact .ok h

theorem parsePair_mirrors (hw : Base64.Writes decodeSlice) {fields : Fields} {locals : Locals}
    (h : locals.Agrees fields) (pair : Bytes) :
    Mirrors (fun fields' locals' => locals'.Agrees fields') (parsePair fields pair)
      (parsePairIn decodeSlice locals pair) := by
  unfold parsePair parsePairIn
  cases heq : pair.idxOf? 0x3d with
  | none => exact .ok h
  | some equal =>
    have hequal : equal < pair.length := by
      obtain ⟨hlt, -⟩ := List.findIdx?_eq_some_iff_getElem.mp heq
      exact hlt
    simp only [sliceTo_of_le (Nat.le_of_lt hequal), sliceFrom_of_le hequal]
    simp only [bind, Except.bind]
    split
    · exact .reject _
    · refine (limitPair_mirrors h _ _).bind fun fields' own hown => ?_
      exact readPair_mirrors hw hown _ _

/-- **No frame makes the parser panic, whatever its scratch holds.** The outcome is that of the
parser without buffers: nothing an earlier frame or an overwritten text has left shows. -/
theorem parseFrameIn_eq (hw : Base64.Writes decodeSlice) (scratch : DecodeScratch) (frame : Bytes) :
    parseFrameIn decodeSlice scratch frame = (parseFrame frame).mapError .reject := by
  unfold parseFrameIn parseFrame
  by_cases hlen : frame.length > maxFrameBytes
  · rw [if_pos hlen, if_pos hlen]
    rfl
  rw [if_neg hlen, if_neg hlen]
  cases frameBody frame with
  | none => rfl
  | some body =>
    simp only
    split
    · rfl
    split
    · rfl
    · have hstart : Locals.Agrees { scratch } {} := ⟨rfl, .none, .none⟩
      have hpairs := Mirrors.foldlM (fun fields locals pair h => parsePair_mirrors hw h pair) (body.splitOn 0x3a)
        hstart
      refine (hpairs.bind fun fields locals h => ?_).eq_mapError
      rw [outcome_mirrors h]
      exact .ok rfl

end

end TmuxAgents
