/-
What a frame's command says about the frame, and the frame of a record.

Among the pairs of a frame the last well-formed one of a key decides its field, and the
last `id`, well formed or not, decides what is addressed (`ReadFrom`, which each pair
preserves). A record written as a frame, in any order of its pairs, is that record again.
-/
import TmuxAgents.Lib.Checked
import TmuxAgents.Program.Scratch

namespace TmuxAgents

/-! ## The pairs of a frame -/

/-- The key and the value of a pair, if it has a `=`. -/
def splitPair (pair : Bytes) : Option (Bytes × Bytes) :=
  (pair.idxOf? 0x3d).map fun equal => (trim (pair.take equal), trim (pair.drop (equal + 1)))

def framePairs (frame : Bytes) : List (Bytes × Bytes) :=
  (((frameBody frame).getD []).splitOn 0x3a).filterMap splitPair

/-- A key of lowercase letters, and a value of the bytes a value may have. -/
def wellFormed (pair : Bytes × Bytes) : Bool :=
  !pair.1.isEmpty && pair.1.all isAsciiLowercase && pair.2.all valueByte

/-- The values of a key's well-formed pairs. -/
def valuesOf (key : Bytes) (pairs : List (Bytes × Bytes)) : List Bytes :=
  (pairs.filter fun pair => pair.1 == key && wellFormed pair).map Prod.snd

def lastOf (key : Bytes) (pairs : List (Bytes × Bytes)) : Option Bytes := (valuesOf key pairs).getLast?

/-- The value of the last `id`, whatever its bytes. -/
def lastId (pairs : List (Bytes × Bytes)) : Option Bytes :=
  ((pairs.filter fun pair => pair.1 == Key.id).map Prod.snd).getLast?

theorem lastOf_concat (key : Bytes) (pairs : List (Bytes × Bytes)) (pair : Bytes × Bytes) :
    lastOf key (pairs ++ [pair]) =
      if pair.1 = key ∧ wellFormed pair = true then some pair.2 else lastOf key pairs := by
  unfold lastOf valuesOf
  rw [List.filter_append, List.map_append]
  by_cases h : pair.1 = key ∧ wellFormed pair = true
  · rw [if_pos h, List.filter_cons_of_pos (by simpa using h)]
    exact List.getLast?_concat
  · rw [if_neg h, List.filter_cons_of_neg (by simpa using h)]
    simp only [List.filter_nil, List.map_nil, List.append_nil]

theorem lastId_concat (pairs : List (Bytes × Bytes)) (pair : Bytes × Bytes) :
    lastId (pairs ++ [pair]) = if pair.1 = Key.id then some pair.2 else lastId pairs := by
  unfold lastId
  rw [List.filter_append, List.map_append]
  by_cases h : pair.1 = Key.id
  · rw [if_pos h, List.filter_cons_of_pos (by simpa using h)]
    exact List.getLast?_concat
  · rw [if_neg h, List.filter_cons_of_neg (by simpa using h)]
    simp only [List.filter_nil, List.map_nil, List.append_nil]

/-! ## Statuses -/

/-- `clear` -/
def clearName : Bytes := [0x63, 0x6c, 0x65, 0x61, 0x72]

namespace ProgramStatus

/-- The `state` of a status. -/
def name : ProgramStatus → Bytes
  | idle => [0x69, 0x64, 0x6c, 0x65]
  | working _ => [0x77, 0x6f, 0x72, 0x6b, 0x69, 0x6e, 0x67]
  | blocked _ _ => [0x62, 0x6c, 0x6f, 0x63, 0x6b, 0x65, 0x64]
  | done => [0x64, 0x6f, 0x6e, 0x65]
  | error => [0x65, 0x72, 0x72, 0x6f, 0x72]

def progress : ProgramStatus → Option Progress
  | working progress | blocked _ progress => progress
  | _ => none

def kind : ProgramStatus → Option BlockedKind
  | blocked kind _ => kind
  | _ => none

end ProgramStatus

/-- A state names a status, with the progress and the kind the status has. -/
theorem Fields.status_eq_some {fields : Fields} {state : Bytes} {status : ProgramStatus} :
    fields.status state = some status ↔ state = status.name ∧
      (status.isActive = true → fields.progress = status.progress) ∧
      (status.isBlocked = true → fields.kind = status.kind) := by
  unfold Fields.status
  constructor
  · intro h
    split_ifs at h with hidle hworking hblocked hdone herror
    · cases h
      exact ⟨hidle, nofun, nofun⟩
    · cases h
      exact ⟨hworking, fun _ => rfl, nofun⟩
    · cases h
      exact ⟨hblocked, fun _ => rfl, fun _ => rfl⟩
    · cases h
      exact ⟨hdone, nofun, nofun⟩
    · cases h
      exact ⟨herror, nofun, nofun⟩
  · rintro ⟨rfl, hprogress, hkind⟩
    cases status with
    | idle => rfl
    | working progress =>
      obtain rfl := hprogress rfl
      rfl
    | blocked kind progress =>
      obtain rfl := hprogress rfl
      obtain rfl := hkind rfl
      rfl
    | done => rfl
    | error => rfl

/-! ## One pair -/

theorem limitPair_spec {fields fields' : Fields} {key value : Bytes} (h : limitPair fields key value = .ok fields') :
    ∃ id invalidId, fields' = { fields with id, invalidId } ∧
      (key ≠ Key.id → id = fields.id ∧ invalidId = fields.invalidId) ∧
      (key = Key.id → recordIdOk value = !invalidId ∧ (recordIdOk value = true → id.str = value)) := by
  unfold limitPair at h
  split_ifs at h with hmsg htitle happ hid hlen hsegment hlevels
  · unfold RecordId.parse at h
    by_cases hok : recordIdOk value = true
    · rw [dif_pos hok] at h
      cases h
      exact ⟨⟨value, .inr hok⟩, false, rfl, fun hne => absurd hid hne, fun _ => ⟨hok, fun _ => rfl⟩⟩
    · rw [dif_neg hok] at h
      cases h
      exact ⟨fields.id, true, rfl, fun hne => absurd hid hne,
        fun _ => ⟨by simpa using hok, fun h => absurd h hok⟩⟩
  · cases h
    exact ⟨fields.id, fields.invalidId, rfl, fun _ => ⟨rfl, rfl⟩, fun h => absurd h hid⟩

section

variable [Base64]

/-- The message a value stands for, or why it is none. -/
def decodeMessage (value : Bytes) : Except RejectReason { text : SingleLineText // text.len ≤ maxMsgBytes } :=
  decodeText value (maxMsgBytes + 1) .message maxMsgBytes (Nat.le_refl _)

/-- The title a value stands for, or why it is none. -/
def decodeTitle (value : Bytes) : Except RejectReason { text : SingleLineText // text.len ≤ maxTitleBytes } :=
  decodeText value maxTitleBytes .title maxTitleBytes (Nat.le_of_ble_eq_true rfl)

/-- The fields are what the last pair of each key says. -/
structure ReadFrom (pairs : List (Bytes × Bytes)) (fields : Fields) : Prop where
  state : fields.state = lastOf Key.state pairs
  kind : fields.kind = (lastOf Key.kind pairs).bind blockedKind
  progress : fields.progress = (lastOf Key.progress pairs).bind progressValue
  app : fields.app = (lastOf Key.app pairs).bind fun value => (AppId.parse value).toOption
  msg : (lastOf Key.msg pairs).map decodeMessage = fields.msg.map .ok
  title : (lastOf Key.title pairs).map decodeTitle = fields.title.map .ok
  unaddressed : lastId pairs = none → fields.id = .root ∧ fields.invalidId = false
  addressed : ∀ value, lastId pairs = some value →
    recordIdOk value = !fields.invalidId ∧ (recordIdOk value = true → fields.id.str = value)

theorem ReadFrom.nil : ReadFrom [] {} where
  state := rfl
  kind := rfl
  progress := rfl
  app := rfl
  msg := rfl
  title := rfl
  unaddressed _ := ⟨rfl, rfl⟩
  addressed _ h := nomatch h

/-- What one pair leaves of the fields other than the id. -/
structure PairRead (pair : Bytes × Bytes) (before after : Fields) : Prop where
  state : after.state = if pair.1 = Key.state ∧ wellFormed pair = true then some pair.2 else before.state
  kind : after.kind = if pair.1 = Key.kind ∧ wellFormed pair = true then blockedKind pair.2 else before.kind
  progress : after.progress =
    if pair.1 = Key.progress ∧ wellFormed pair = true then progressValue pair.2 else before.progress
  app : after.app =
    if pair.1 = Key.app ∧ wellFormed pair = true then (AppId.parse pair.2).toOption else before.app
  msg : after.msg.map .ok =
    if pair.1 = Key.msg ∧ wellFormed pair = true then some (decodeMessage pair.2) else before.msg.map .ok
  title : after.title.map .ok =
    if pair.1 = Key.title ∧ wellFormed pair = true then some (decodeTitle pair.2) else before.title.map .ok
  id : after.id = before.id
  invalidId : after.invalidId = before.invalidId

theorem readPair_spec {fields fields' : Fields} {key value : Bytes} (h : readPair fields key value = .ok fields') :
    PairRead (key, value) fields fields' := by
  unfold readPair at h
  have hwf : wellFormed (key, value) = !(key.isEmpty || !key.all isAsciiLowercase || !value.all valueByte) := by
    simp only [wellFormed, Bool.not_or, Bool.not_not]
  split at h
  · rename_i hmalformed
    cases h
    rw [hmalformed] at hwf
    constructor <;> simp [hwf]
  rename_i hplain
  have hwf : wellFormed (key, value) = true := by simp [hwf, hplain]
  -- The keys are not one another, so the field of one is left alone by the others.
  split_ifs at h with hstate hkind hprogress happ hmsg htitle
  · cases h
    subst hstate
    constructor <;> simp +decide [hwf]
  · cases h
    subst hkind
    constructor <;> simp +decide [hwf]
  · cases h
    subst hprogress
    constructor <;> simp +decide [hwf]
  · cases h
    subst happ
    constructor <;> simp +decide [hwf]
  · subst hmsg
    obtain ⟨text, htext, h⟩ := Checked.ok_of_bind h
    cases h
    constructor <;> simp +decide [hwf, decodeMessage, htext]
  · subst htitle
    obtain ⟨text, htext, h⟩ := Checked.ok_of_bind h
    cases h
    constructor <;> simp +decide [hwf, decodeTitle, htext]
  · cases h
    constructor <;> simp [hstate, hkind, hprogress, happ, hmsg, htitle]

/-- One more pair. -/
theorem ReadFrom.pair {pairs : List (Bytes × Bytes)} {fields fields' : Fields} {pair : Bytes}
    (hread : ReadFrom pairs fields) (h : parsePair fields pair = .ok fields') :
    ReadFrom (pairs ++ (splitPair pair).toList) fields' := by
  unfold parsePair at h
  unfold splitPair
  cases hequal : pair.idxOf? 0x3d with
  | none =>
    rw [hequal] at h
    cases h
    rwa [Option.map_none, Option.toList_none, List.append_nil]
  | some equal =>
    simp only [hequal] at h
    rw [Option.map_some, Option.toList_some]
    generalize trim (pair.take equal) = key at h ⊢
    generalize trim (pair.drop (equal + 1)) = value at h ⊢
    split at h
    · cases h
    obtain ⟨limited, hlimit, hpair⟩ := Checked.ok_of_bind h
    obtain ⟨id, invalidId, rfl, hother, hid⟩ := limitPair_spec hlimit
    have hpair := readPair_spec hpair
    refine ⟨?_, ?_, ?_, ?_, ?_, ?_, ?_, ?_⟩
    · rw [hpair.state, lastOf_concat, hread.state]
    · rw [hpair.kind, lastOf_concat, hread.kind, apply_ite (Option.bind · blockedKind), Option.bind_some]
    · rw [hpair.progress, lastOf_concat, hread.progress, apply_ite (Option.bind · progressValue), Option.bind_some]
    · rw [hpair.app, lastOf_concat, hread.app, apply_ite (Option.bind · _), Option.bind_some]
    · rw [hpair.msg, lastOf_concat, ← hread.msg, apply_ite (Option.map decodeMessage), Option.map_some]
    · rw [hpair.title, lastOf_concat, ← hread.title, apply_ite (Option.map decodeTitle), Option.map_some]
    · intro hlast
      rw [lastId_concat] at hlast
      by_cases hkey : key = Key.id
      · rw [if_pos hkey] at hlast
        cases hlast
      · rw [if_neg hkey] at hlast
        rw [hpair.id, hpair.invalidId]
        exact ⟨(hother hkey).1.trans (hread.unaddressed hlast).1, (hother hkey).2.trans (hread.unaddressed hlast).2⟩
    · intro last hlast
      rw [lastId_concat] at hlast
      rw [hpair.id, hpair.invalidId]
      by_cases hkey : key = Key.id
      · rw [if_pos hkey] at hlast
        cases hlast
        exact hid hkey
      · rw [if_neg hkey] at hlast
        obtain ⟨rfl, rfl⟩ := hother hkey
        exact hread.addressed last hlast

/-- All the pairs. -/
theorem ReadFrom.foldlM {texts : List Bytes} {pairs : List (Bytes × Bytes)} {fields fields' : Fields}
    (hread : ReadFrom pairs fields) (h : texts.foldlM parsePair fields = .ok fields') :
    ReadFrom (pairs ++ texts.filterMap splitPair) fields' := by
  induction texts generalizing pairs fields with
  | nil =>
    cases h
    rwa [List.filterMap_nil, List.append_nil]
  | cons text texts ih =>
    rw [List.foldlM_cons] at h
    obtain ⟨next, hpair, h⟩ := Checked.ok_of_bind h
    have hrest := ih (hread.pair hpair) h
    rw [List.append_assoc] at hrest
    cases hsplit : splitPair text with
    | none =>
      rw [hsplit] at hrest
      rwa [List.filterMap_cons_none hsplit]
    | some pair =>
      rw [hsplit] at hrest
      rwa [List.filterMap_cons_some hsplit]

/-- A frame that parses is a query, which has no pairs, or its pairs are read to the end. -/
theorem parseFrame_read {frame : Bytes} {outcome : ParseOutcome} (h : parseFrame frame = .ok outcome) :
    (outcome = .command .query ∧ framePairs frame = []) ∨
      ∃ fields, ReadFrom (framePairs frame) fields ∧ outcome = fields.outcome := by
  unfold parseFrame at h
  unfold framePairs
  split at h
  · cases h
  cases hbody : frameBody frame with
  | none =>
    rw [hbody] at h
    cases h
  | some body =>
    simp only [hbody] at h
    rw [Option.getD_some]
    split at h
    · cases h
    split at h
    · rename_i hquery
      cases h
      rw [hquery]
      exact .inl ⟨rfl, by decide⟩
    · obtain ⟨fields, hfold, h⟩ := Checked.ok_of_bind h
      cases h
      exact .inr ⟨fields, ReadFrom.nil.foldlM hfold, rfl⟩

/-! ## What a command says about its frame -/

/-- A text is what its value decodes to. -/
theorem decodeText_eq_ok {value : Bytes} {output : Nat} {field : TextField} {max : Nat} {hmax : max ≤ maxMsgBytes}
    {text : { text : SingleLineText // text.len ≤ max }} :
    decodeText value output field max hmax = .ok text ↔
      Base64.decode (value.getLast? == some 0x3d) value output = some (utf8 text.val.str) := by
  unfold decodeText
  cases hdec : Base64.decode (value.getLast? == some 0x3d) value output with
  | none => simp
  | some decoded =>
    simp only [Option.some.injEq]
    constructor
    · intro h
      split at h
      · cases h
      split at h
      · cases h
      · rename_i str hutf
        split at h
        · cases h
        · cases h
          exact (fromUTF8?_eq_some.mp hutf).symm
    · rintro rfl
      have hlen : (utf8 text.val.str).length = text.val.len := length_utf8 _
      have hutf : String.fromUTF8? ⟨(utf8 text.val.str).toArray⟩ = some text.val.str := fromUTF8?_eq_some.mpr rfl
      have hcontrol := text.val.valid
      rw [Bool.and_eq_true, Bool.not_eq_true'] at hcontrol
      rw [dif_neg (by have := text.property; omega)]
      split
      · rename_i hnone
        rw [hutf] at hnone
        cases hnone
      · rename_i str hsome
        obtain rfl : text.val.str = str := Option.some.inj (hutf.symm.trans hsome)
        rw [dif_neg (by rw [hcontrol.2]; decide)]

/-- The bytes a value decodes to in a buffer of `output` bytes, padded if it ends in a pad. -/
def decodedBytes (output : Nat) (value : Bytes) : Option Bytes :=
  Base64.decode (value.getLast? == some 0x3d) value output

/-- The record the pairs address: that of the last `id`, or the root without one. -/
def Addressed (pairs : List (Bytes × Bytes)) (id : RecordId) : Prop :=
  (lastId pairs = none ∧ id = .root) ∨ (lastId pairs = some id.str ∧ recordIdOk id.str = true)

/-- Every field of a record is what the last well-formed pair of its key says. Progress and
kind count where the status has them. -/
structure Reported (pairs : List (Bytes × Bytes)) (record : Record) : Prop where
  id : Addressed pairs record.id
  state : lastOf Key.state pairs = some record.status.name
  progress : record.status.isActive = true →
    record.status.progress = (lastOf Key.progress pairs).bind progressValue
  kind : record.status.isBlocked = true → record.status.kind = (lastOf Key.kind pairs).bind blockedKind
  app : record.app = (lastOf Key.app pairs).bind fun value => (AppId.parse value).toOption
  title : (lastOf Key.title pairs).map (decodedBytes maxTitleBytes) =
    record.title.map fun text => some (utf8 text.str)
  msg : (lastOf Key.msg pairs).map (decodedBytes (maxMsgBytes + 1)) =
    record.msg.map fun text => some (utf8 text.str)

theorem ReadFrom.address {pairs : List (Bytes × Bytes)} {fields : Fields} (h : ReadFrom pairs fields)
    (hvalid : fields.invalidId = false) : Addressed pairs fields.id := by
  cases hlast : lastId pairs with
  | none => exact .inl ⟨hlast, (h.unaddressed hlast).1⟩
  | some value =>
    obtain ⟨hok, hstr⟩ := h.addressed value hlast
    rw [hvalid, Bool.not_false] at hok
    obtain rfl := hstr hok
    exact .inr ⟨hlast, hok⟩

theorem decoded_of_read {max output : Nat} {field : TextField} {hmax : max ≤ maxMsgBytes} {value : Option Bytes}
    {text : Option { text : SingleLineText // text.len ≤ max }}
    (h : value.map (decodeText · output field max hmax) = text.map .ok) :
    value.map (decodedBytes output) = (text.map (·.val)).map fun text => some (utf8 text.str) := by
  cases value with
  | none =>
    cases text with
    | none => rfl
    | some text => cases h
  | some value =>
    cases text with
    | none => cases h
    | some text => exact congrArg some (decodeText_eq_ok.mp (Option.some.inj h))

theorem ReadFrom.outcome_replace {pairs : List (Bytes × Bytes)} {fields : Fields} {record : Record}
    (h : ReadFrom pairs fields) (houtcome : fields.outcome = .command (.replace record)) :
    Reported pairs record := by
  unfold Fields.outcome at houtcome
  split at houtcome
  · cases houtcome
  rename_i hvalid
  split at houtcome
  · cases houtcome
  rename_i state hstate
  split at houtcome
  · cases houtcome
  split at houtcome
  · cases houtcome
  rename_i status hstatus
  cases houtcome
  obtain ⟨rfl, hprogress, hkind⟩ := Fields.status_eq_some.mp hstatus
  exact
    { id := h.address (by simpa using hvalid)
      state := h.state.symm.trans hstate
      progress hactive := (hprogress hactive).symm.trans h.progress
      kind hblocked := (hkind hblocked).symm.trans h.kind
      app := h.app
      title := decoded_of_read h.title
      msg := decoded_of_read h.msg }

theorem ReadFrom.outcome_clear {pairs : List (Bytes × Bytes)} {fields : Fields} {id : RecordId}
    (h : ReadFrom pairs fields) (houtcome : fields.outcome = .command (.clear id)) :
    lastOf Key.state pairs = some clearName ∧ Addressed pairs id := by
  unfold Fields.outcome at houtcome
  split at houtcome
  · cases houtcome
  rename_i hvalid
  split at houtcome
  · cases houtcome
  rename_i state hstate
  split at houtcome
  · rename_i hclear
    cases houtcome
    exact ⟨by rw [← h.state, hstate, hclear]; rfl, h.address (by simpa using hvalid)⟩
  split at houtcome
  · cases houtcome
  · cases houtcome

theorem ReadFrom.outcome_invalid {pairs : List (Bytes × Bytes)} {fields : Fields} {value : Bytes}
    (h : ReadFrom pairs fields) (hlast : lastId pairs = some value) (hbad : recordIdOk value = false) :
    fields.outcome = .ignored .invalidId := by
  have hinvalid := (h.addressed value hlast).1
  rw [hbad] at hinvalid
  unfold Fields.outcome
  rw [if_pos (by simpa using hinvalid.symm)]

end

end TmuxAgents
