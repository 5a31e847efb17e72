/-
A record written as a frame, and read back.

The pairs may stand in any order, each text padded or not, and the frame may end in a bell
or in a string terminator: within the frame cap the parser gives the record.
-/
import TmuxAgents.Lib.Base64
import TmuxAgents.Lib.Codec
import TmuxAgents.Program.Frame

namespace TmuxAgents

/-! ## The frame of a record -/

inductive Terminator
  | bel
  | st
deriving DecidableEq

def Terminator.bytes : Terminator → Bytes
  | bel => [TmuxAgents.bel]
  | st => [esc, backslash]

def kindName : BlockedKind → Bytes
  | .permission => [0x70, 0x65, 0x72, 0x6d, 0x69, 0x73, 0x73, 0x69, 0x6f, 0x6e]
  | .question => [0x71, 0x75, 0x65, 0x73, 0x74, 0x69, 0x6f, 0x6e]
  | .auth => [0x61, 0x75, 0x74, 0x68]

def decimalBytes (n : Nat) : Bytes := (Nat.toDigits 10 n).map fun c => .ofNat c.toNat

/-- The pair of a field that has a value. -/
def fieldPair (key : Bytes) (value : Option Bytes) : List (Bytes × Bytes) := value.toList.map fun value => (key, value)

/-- The root has no `id`. -/
def recordPairs (encode : Bool → Bytes → Bytes) (padded : TextField → Bool) (record : Record) : List (Bytes × Bytes) :=
  fieldPair Key.state (some record.status.name) ++
    fieldPair Key.kind (record.status.kind.map kindName) ++
    fieldPair Key.progress (record.status.progress.map fun progress => decimalBytes progress.val) ++
    fieldPair Key.id (if record.id.isRoot then none else some record.id.str) ++
    fieldPair Key.app (record.app.map AppId.str) ++
    fieldPair Key.title (record.title.map fun text => encode (padded .title) (utf8 text.str)) ++
    fieldPair Key.msg (record.msg.map fun text => encode (padded .message) (utf8 text.str))

def pairBytes (pair : Bytes × Bytes) : Bytes := pair.1 ++ 0x3d :: pair.2

def encodeFrame (terminator : Terminator) (pairs : List (Bytes × Bytes)) : Bytes :=
  esc :: bracket :: framePrefix ++ [0x3a].intercalate (pairs.map pairBytes) ++ terminator.bytes

/-! ## Bytes of a pair -/

theorem valueByte_plain {byte : UInt8} (h : valueByte byte = true) :
    isAsciiWhitespace byte = false ∧ byte ≠ esc ∧ byte ≠ bel ∧ byte ≠ 0x3a := by
  have all : ∀ n : Fin 256, valueByte (.ofNat n) = true → isAsciiWhitespace (.ofNat n) = false ∧
      UInt8.ofNat n ≠ esc ∧ UInt8.ofNat n ≠ bel ∧ UInt8.ofNat n ≠ 0x3a := by decide +kernel
  have hbyte := all ⟨byte.toNat, byte.toNat_lt⟩
  simp only [UInt8.ofNat_toNat] at hbyte
  exact hbyte h

theorem valueByte_of_lowercase {byte : UInt8} (h : isAsciiLowercase byte = true) : valueByte byte = true := by
  simp [valueByte, isAsciiAlphanumeric, h]

theorem valueByte_of_identifierByte {byte : UInt8} (h : identifierByte byte = true) : valueByte byte = true := by
  simp only [identifierByte, Bool.or_eq_true] at h
  simp only [valueByte, Bool.or_eq_true]
  tauto

theorem lowercase_ne_equal {byte : UInt8} (h : isAsciiLowercase byte = true) : byte ≠ 0x3d := by
  rintro rfl
  revert h
  decide

theorem trim_of_plain {bytes : Bytes} (h : ∀ byte ∈ bytes, isAsciiWhitespace byte = false) : trim bytes = bytes := by
  unfold trim
  have hdrop : bytes.dropWhile isAsciiWhitespace = bytes := by
    cases bytes with
    | nil => rfl
    | cons byte bytes => rw [List.dropWhile_cons_of_neg (by simp [h byte List.mem_cons_self])]
  rw [hdrop, List.rdropWhile_eq_self_iff]
  intro hne
  rw [h _ (List.getLast_mem hne)]
  exact Bool.false_ne_true

theorem wellFormed_iff {pair : Bytes × Bytes} : wellFormed pair = true ↔
    pair.1 ≠ [] ∧ (∀ byte ∈ pair.1, isAsciiLowercase byte = true) ∧ ∀ byte ∈ pair.2, valueByte byte = true := by
  simp only [wellFormed, Bool.and_eq_true, Bool.not_eq_true', List.isEmpty_eq_false_iff, List.all_eq_true, and_assoc]

theorem mem_pairBytes {pair : Bytes × Bytes} (h : wellFormed pair = true) {byte : UInt8} (hbyte : byte ∈ pairBytes pair) :
    valueByte byte = true := by
  obtain ⟨-, hkey, hvalue⟩ := wellFormed_iff.mp h
  rw [pairBytes, List.mem_append, List.mem_cons] at hbyte
  rcases hbyte with hbyte | rfl | hbyte
  · exact valueByte_of_lowercase (hkey byte hbyte)
  · decide
  · exact hvalue byte hbyte

theorem idxOf?_append_cons {key rest : Bytes} {byte : UInt8} (h : byte ∉ key) :
    (key ++ byte :: rest).idxOf? byte = some key.length := by
  induction key with
  | nil => rw [List.nil_append, List.idxOf?_cons, if_pos (by simp), List.length_nil]
  | cons first key ih =>
    rw [List.mem_cons, not_or] at h
    rw [List.cons_append, List.idxOf?_cons, if_neg (by simpa using Ne.symm h.1), ih h.2]
    rfl

theorem splitPair_pairBytes {pair : Bytes × Bytes} (h : wellFormed pair = true) :
    splitPair (pairBytes pair) = some pair := by
  obtain ⟨-, hkey, hvalue⟩ := wellFormed_iff.mp h
  have hequal : (pairBytes pair).idxOf? 0x3d = some pair.1.length :=
    idxOf?_append_cons fun hmem => lowercase_ne_equal (hkey _ hmem) rfl
  have htake : (pairBytes pair).take pair.1.length = pair.1 := List.take_left
  have hdrop : (pairBytes pair).drop (pair.1.length + 1) = pair.2 := by
    rw [pairBytes, List.append_cons]
    exact List.drop_left' (List.length_append ..)
  rw [splitPair, hequal, Option.map_some, htake, hdrop,
    trim_of_plain fun byte hbyte => (valueByte_plain (valueByte_of_lowercase (hkey byte hbyte))).1,
    trim_of_plain fun byte hbyte => (valueByte_plain (hvalue byte hbyte)).1]

theorem frameBody_encodeFrame (terminator : Terminator) (body : Bytes) :
    frameBody (esc :: bracket :: framePrefix ++ body ++ terminator.bytes) = some body := by
  unfold frameBody
  have hstart : (esc :: bracket :: framePrefix ++ body ++ terminator.bytes).dropPrefix? (esc :: bracket :: framePrefix) =
      some (body ++ terminator.bytes) :=
    List.dropPrefix?_eq_some_iff.mpr ⟨_, List.append_assoc .., beq_self_eq_true _⟩
  rw [hstart]
  simp only [Option.bind_eq_bind, Option.bind_some, Option.orElse_eq_orElse, Option.orElse_eq_or]
  cases terminator with
  | st =>
    have hend : (body ++ Terminator.st.bytes).dropSuffix? [esc, backslash] = some body :=
      List.dropSuffix?_eq_some_iff.mpr ⟨_, rfl, by decide⟩
    rw [hend, Option.some_or]
  | bel =>
    have hnone : (body ++ Terminator.bel.bytes).dropSuffix? [esc, backslash] = none := by
      rw [Option.eq_none_iff_forall_ne_some]
      intro rest hrest
      obtain ⟨suffix, happend, hsuffix⟩ := List.dropSuffix?_eq_some_iff.mp hrest
      rw [beq_iff_eq.mp hsuffix] at happend
      have hlast := congrArg List.getLast? happend
      simp [Terminator.bytes] at hlast
      revert hlast
      decide
    have hend : (body ++ Terminator.bel.bytes).dropSuffix? [bel] = some body :=
      List.dropSuffix?_eq_some_iff.mpr ⟨_, rfl, by decide⟩
    rw [hnone, hend, Option.none_or]

theorem mem_body {pairs : List (Bytes × Bytes)} (h : ∀ pair ∈ pairs, wellFormed pair = true) {byte : UInt8}
    (hbyte : byte ∈ [0x3a].intercalate (pairs.map pairBytes)) : byte = 0x3a ∨ valueByte byte = true := by
  rcases Codec.mem_intercalate hbyte with hsep | ⟨text, htext, hmem⟩
  · exact .inl hsep
  · obtain ⟨pair, hpair, rfl⟩ := List.mem_map.mp htext
    exact .inr (mem_pairBytes (h pair hpair) hmem)

/-! ## Values of a record -/

theorem mem_fieldPair {key : Bytes} {value : Option Bytes} {pair : Bytes × Bytes} (h : pair ∈ fieldPair key value) :
    pair.1 = key ∧ value = some pair.2 := by
  simp only [fieldPair, List.mem_map, Option.mem_toList] at h
  obtain ⟨v, hv, rfl⟩ := h
  exact ⟨rfl, hv⟩

theorem valueByte_of_recordIdOk {value : Bytes} (h : recordIdOk value = true) :
    ∀ byte ∈ value, valueByte byte = true := by
  intro byte hbyte
  simp only [recordIdOk, Bool.and_eq_true, List.all_eq_true] at h
  have hjoin : [slash].intercalate (value.splitOn slash) = value := List.intercalate_splitOn slash
  rw [← hjoin] at hbyte
  rcases Codec.mem_intercalate hbyte with rfl | ⟨segment, hsegment, hmem⟩
  · decide
  · exact valueByte_of_identifierByte ((h.1.2 segment hsegment).2 byte hmem)

/-- The digits of a progress are digits, and read as it. -/
theorem decimalBytes_progress (progress : Progress) :
    (∀ byte ∈ decimalBytes progress.val, valueByte byte = true) ∧
      progressValue (decimalBytes progress.val) = some progress := by
  have all : ∀ n : Fin 101, (decimalBytes n).all valueByte = true ∧
      (progressValue (decimalBytes n)).map (·.val) = some n.val := by decide +kernel
  obtain ⟨hbytes, hvalue⟩ := all ⟨progress.val, Nat.lt_succ_of_le progress.le⟩
  obtain ⟨read, hread, hval⟩ := Option.map_eq_some_iff.mp hvalue
  refine ⟨by simpa using hbytes, hread.trans ?_⟩
  cases read
  cases progress
  exact congrArg some (by simpa using hval)

theorem blockedKind_kindName (kind : BlockedKind) : blockedKind (kindName kind) = some kind := by
  cases kind <;> rfl

theorem name_valueByte (status : ProgramStatus) : status.name.all valueByte = true := by
  cases status <;> rfl

theorem name_ne_clear (status : ProgramStatus) : status.name ≠ clearName := by
  cases status with
  | idle => exact (by decide)
  | working _ => exact (by decide : ProgramStatus.name (.working none) ≠ clearName)
  | blocked _ _ => exact (by decide : ProgramStatus.name (.blocked none none) ≠ clearName)
  | done => exact (by decide)
  | error => exact (by decide)

theorem kindName_valueByte (kind : BlockedKind) : (kindName kind).all valueByte = true := by
  cases kind <;> rfl

/-! ## The values by their keys -/

theorem fieldPair_values (key key' : Bytes) (value : Option Bytes) :
    ((fieldPair key' value).filter fun pair => pair.1 == key).map Prod.snd =
      if key' = key then value.toList else [] := by
  cases value with
  | none => simp [fieldPair]
  | some value =>
    by_cases h : key' = key
    · simp [fieldPair, h]
    · simp [fieldPair, h]

/-- One value at most in any order is the last. -/
theorem values_of_perm {pairs pairs' : List (Bytes × Bytes)} (h : pairs.Perm pairs') {key : Bytes} {value : Option Bytes}
    (hvalues : (pairs'.filter fun pair => pair.1 == key).map Prod.snd = value.toList) :
    (pairs.filter fun pair => pair.1 == key).map Prod.snd = value.toList := by
  have hperm := (h.filter fun pair => pair.1 == key).map Prod.snd
  rw [hvalues] at hperm
  cases value with
  | none => exact hperm.eq_nil
  | some value => exact List.perm_singleton.mp hperm

theorem lastId_of_perm {pairs pairs' : List (Bytes × Bytes)} (h : pairs.Perm pairs') {value : Option Bytes}
    (hvalues : (pairs'.filter fun pair => pair.1 == Key.id).map Prod.snd = value.toList) : lastId pairs = value := by
  rw [lastId, values_of_perm h hvalues]
  cases value <;> rfl

theorem lastOf_of_perm {pairs pairs' : List (Bytes × Bytes)} (h : pairs.Perm pairs')
    (hwf : ∀ pair ∈ pairs, wellFormed pair = true) {key : Bytes} {value : Option Bytes}
    (hvalues : (pairs'.filter fun pair => pair.1 == key).map Prod.snd = value.toList) : lastOf key pairs = value := by
  have hall : pairs.filter (fun pair => pair.1 == key && wellFormed pair) = pairs.filter fun pair => pair.1 == key :=
    List.filter_congr fun pair hpair => by rw [hwf pair hpair, Bool.and_true]
  rw [lastOf, valuesOf, hall, values_of_perm h hvalues]
  cases value <;> rfl

/-! ## A pair the parser takes -/

section

variable [Base64]

/-- A well-formed pair within the limits, with a text that decodes and an id that parses. -/
structure Accepted (pair : Bytes × Bytes) : Prop where
  wellFormed : wellFormed pair = true
  key : pair.1.length ≤ maxKeyBytes
  app : pair.1 = Key.app → pair.2.length ≤ maxAppBytes
  id : pair.1 = Key.id → recordIdOk pair.2 = true
  msg : pair.1 = Key.msg → pair.2.length ≤ maxMsgEncodedBytes ∧ ∃ text, decodeMessage pair.2 = .ok text
  title : pair.1 = Key.title → pair.2.length ≤ maxTitleEncodedBytes ∧ ∃ text, decodeTitle pair.2 = .ok text

theorem Accepted.limitPair {pair : Bytes × Bytes} (h : Accepted pair) (fields : Fields) :
    ∃ fields', limitPair fields pair.1 pair.2 = .ok fields' := by
  unfold TmuxAgents.limitPair
  split_ifs with hmsg htitle happ hid hlen hsegment hlevels
  · rw [Bool.and_eq_true, decide_eq_true_iff, decide_eq_true_iff] at hmsg
    exact absurd (h.msg hmsg.1).1 (Nat.not_le_of_gt hmsg.2)
  · rw [Bool.and_eq_true, decide_eq_true_iff, decide_eq_true_iff] at htitle
    exact absurd (h.title htitle.1).1 (Nat.not_le_of_gt htitle.2)
  · rw [Bool.and_eq_true, decide_eq_true_iff, decide_eq_true_iff] at happ
    exact absurd (h.app happ.1) (Nat.not_le_of_gt happ.2)
  · have hok := h.id hid
    simp only [recordIdOk, Bool.and_eq_true, decide_eq_true_iff] at hok
    omega
  · have hok := h.id hid
    simp only [recordIdOk, Bool.and_eq_true, List.all_eq_true, decide_eq_true_iff] at hok
    obtain ⟨segment, hmem, hlong⟩ := List.any_eq_true.mp hsegment
    exact absurd (hok.1.2 segment hmem).1.2 (Nat.not_le_of_gt (by simpa using hlong))
  · have hok := h.id hid
    simp only [recordIdOk, Bool.and_eq_true, decide_eq_true_iff] at hok
    omega
  · rw [RecordId.parse, dif_pos (h.id hid)]
    exact ⟨_, rfl⟩
  · exact ⟨_, rfl⟩

theorem Accepted.readPair {pair : Bytes × Bytes} (h : Accepted pair) (fields : Fields) :
    ∃ fields', readPair fields pair.1 pair.2 = .ok fields' := by
  unfold TmuxAgents.readPair
  split_ifs with hmalformed hstate hkind hprogress happ hmsg htitle
  · exact ⟨_, rfl⟩
  · exact ⟨_, rfl⟩
  · exact ⟨_, rfl⟩
  · exact ⟨_, rfl⟩
  · exact ⟨_, rfl⟩
  · obtain ⟨-, text, htext⟩ := h.msg hmsg
    rw [decodeMessage] at htext
    rw [htext]
    exact ⟨_, rfl⟩
  · obtain ⟨-, text, htext⟩ := h.title htitle
    rw [decodeTitle] at htext
    rw [htext]
    exact ⟨_, rfl⟩
  · exact ⟨_, rfl⟩

theorem Accepted.parsePair {pair : Bytes × Bytes} (h : Accepted pair) (fields : Fields) :
    ∃ fields', parsePair fields (pairBytes pair) = .ok fields' := by
  have hsplit := splitPair_pairBytes h.wellFormed
  unfold splitPair at hsplit
  unfold TmuxAgents.parsePair
  cases hequal : (pairBytes pair).idxOf? 0x3d with
  | none =>
    rw [hequal] at hsplit
    cases hsplit
  | some equal =>
    rw [hequal, Option.map_some, Option.some.injEq] at hsplit
    obtain ⟨hkey, hvalue⟩ := Prod.ext_iff.mp hsplit
    simp only at hkey hvalue ⊢
    rw [hkey, hvalue, if_neg (Nat.not_lt.mpr h.key)]
    obtain ⟨limited, hlimit⟩ := h.limitPair fields
    obtain ⟨fields', hread⟩ := h.readPair limited
    rw [hlimit]
    exact ⟨fields', hread⟩

theorem exists_foldlM_of_accepted {pairs : List (Bytes × Bytes)} (h : ∀ pair ∈ pairs, Accepted pair) (fields : Fields) :
    ∃ fields', (pairs.map pairBytes).foldlM TmuxAgents.parsePair fields = .ok fields' := by
  induction pairs generalizing fields with
  | nil => exact ⟨fields, rfl⟩
  | cons pair pairs ih =>
    obtain ⟨next, hnext⟩ := (h pair List.mem_cons_self).parsePair fields
    obtain ⟨fields', hrest⟩ := ih (fun p hp => h p (List.mem_cons_of_mem _ hp)) next
    rw [List.map_cons, List.foldlM_cons, hnext]
    exact ⟨fields', hrest⟩

/-! ## A frame the parser takes -/

/-- A frame of accepted pairs is read, and they are its pairs. -/
theorem parseFrame_encodeFrame {terminator : Terminator} {pairs : List (Bytes × Bytes)} (hne : pairs ≠ [])
    (h : ∀ pair ∈ pairs, Accepted pair) (hlen : (encodeFrame terminator pairs).length ≤ maxFrameBytes) :
    ∃ fields, ReadFrom pairs fields ∧ parseFrame (encodeFrame terminator pairs) = .ok fields.outcome := by
  have hwf : ∀ pair ∈ pairs, wellFormed pair = true := fun pair hpair => (h pair hpair).wellFormed
  have hsplit : ([0x3a].intercalate (pairs.map pairBytes)).splitOn 0x3a = pairs.map pairBytes := by
    refine List.splitOn_intercalate 0x3a ?_ (by simpa using hne)
    intro text htext hmem
    obtain ⟨pair, hpair, rfl⟩ := List.mem_map.mp htext
    exact (valueByte_plain (mem_pairBytes (hwf pair hpair) hmem)).2.2.2 rfl
  have hclean : ([0x3a].intercalate (pairs.map pairBytes)).any (fun byte => byte == esc || byte == bel) = false := by
    rw [List.any_eq_false]
    intro byte hbyte
    rcases mem_body hwf hbyte with rfl | hplain
    · decide
    · obtain ⟨-, hesc, hbel, -⟩ := valueByte_plain hplain
      simp [hesc, hbel]
  have hquery : [0x3a].intercalate (pairs.map pairBytes) ≠ [0x3f] := by
    intro heq
    have hbad : (0x3f : UInt8) = 0x3a ∨ valueByte 0x3f = true := mem_body hwf (by rw [heq]; exact List.mem_cons_self)
    revert hbad
    decide
  obtain ⟨fields, hfold⟩ := exists_foldlM_of_accepted h {}
  refine ⟨fields, ?_, ?_⟩
  · have hread := ReadFrom.nil.foldlM hfold
    rw [List.nil_append, List.filterMap_map] at hread
    have hpairs : pairs.filterMap (splitPair ∘ pairBytes) = pairs.filterMap some :=
      List.filterMap_congr fun pair hpair => splitPair_pairBytes (hwf pair hpair)
    rwa [hpairs, List.filterMap_some] at hread
  · unfold parseFrame
    rw [if_neg (Nat.not_lt.mpr hlen)]
    unfold encodeFrame
    rw [frameBody_encodeFrame]
    simp only [hclean, hsplit, Bool.false_eq_true, if_false, if_neg hquery]
    rw [hfold]
    rfl

/-! ## The pairs of a record -/

/-- What the parser relies on of base64: what is encoded, padded or not, is within its length
and of the standard alphabet, decodes in the mode that its last byte calls for, and is not
padded where it ends in no pad. -/
structure Base64.Reads (encode : Bool → Bytes → Bytes) : Prop where
  decode : ∀ padded bytes output, bytes.length ≤ output →
    Base64.decode padded (encode padded bytes) output = some bytes
  length : ∀ padded bytes, (encode padded bytes).length ≤ 4 * ((bytes.length + 2) / 3)
  alphabet : ∀ padded bytes, ∀ byte ∈ encode padded bytes, valueByte byte = true
  unpadded : ∀ bytes, 0x3d ∉ encode false bytes
  padded : ∀ bytes, (encode true bytes).getLast? ≠ some 0x3d → encode true bytes = encode false bytes

variable {encode : Bool → Bytes → Bytes}

/-- The engine the parser takes is one that reads the text. -/
theorem Base64.Reads.decodedBytes (h : Base64.Reads encode) (padded : Bool) {bytes : Bytes} {output : Nat}
    (hlen : bytes.length ≤ output) : decodedBytes output (encode padded bytes) = some bytes := by
  unfold TmuxAgents.decodedBytes
  have hplain : ((encode false bytes).getLast? == some 0x3d) = false := by
    rw [beq_eq_false_iff_ne]
    intro hlast
    exact h.unpadded bytes (List.mem_of_getLast? hlast)
  cases padded with
  | false => rw [hplain, h.decode false bytes output hlen]
  | true =>
    by_cases hlast : (encode true bytes).getLast? = some 0x3d
    · rw [hlast, beq_self_eq_true, h.decode true bytes output hlen]
    · rw [h.padded bytes hlast, hplain, h.decode false bytes output hlen]

theorem Base64.Reads.decodeText (h : Base64.Reads encode) (padded : Bool) {max output : Nat} {field : TextField}
    {hmax : max ≤ maxMsgBytes} (hout : max ≤ output) (text : { text : SingleLineText // text.len ≤ max }) :
    decodeText (encode padded (utf8 text.val.str)) output field max hmax = .ok text :=
  decodeText_eq_ok.mpr (h.decodedBytes padded (text.property.trans hout))

theorem accepted_of_key {key value : Bytes}
    (hlower : (!key.isEmpty && key.all isAsciiLowercase && key.length ≤ maxKeyBytes) = true)
    (hvalue : ∀ byte ∈ value, valueByte byte = true) (happ : key = Key.app → value.length ≤ maxAppBytes)
    (hid : key = Key.id → recordIdOk value = true)
    (hmsg : key = Key.msg → value.length ≤ maxMsgEncodedBytes ∧ ∃ text, decodeMessage value = .ok text)
    (htitle : key = Key.title → value.length ≤ maxTitleEncodedBytes ∧ ∃ text, decodeTitle value = .ok text) :
    Accepted (key, value) := by
  simp only [Bool.and_eq_true, Bool.not_eq_true', List.isEmpty_eq_false_iff, List.all_eq_true,
    decide_eq_true_iff] at hlower
  exact ⟨wellFormed_iff.mpr ⟨hlower.1.1, hlower.1.2, hvalue⟩, hlower.2, happ, hid, hmsg, htitle⟩

theorem recordPairs_accepted (h : Base64.Reads encode) (padded : TextField → Bool) (record : Record) :
    ∀ pair ∈ recordPairs encode padded record, Accepted pair := by
  rintro ⟨key, value⟩ hpair
  simp only [recordPairs, List.mem_append] at hpair
  rcases hpair with (((((hpair | hpair) | hpair) | hpair) | hpair) | hpair) | hpair
  · obtain ⟨rfl, hvalue⟩ := mem_fieldPair hpair
    cases hvalue
    exact accepted_of_key (by decide) (List.all_eq_true.mp (name_valueByte _)) (fun hkey => absurd hkey (by decide))
      (fun hkey => absurd hkey (by decide)) (fun hkey => absurd hkey (by decide)) fun hkey => absurd hkey (by decide)
  · obtain ⟨rfl, hvalue⟩ := mem_fieldPair hpair
    obtain ⟨kind, -, rfl⟩ := Option.map_eq_some_iff.mp hvalue
    exact accepted_of_key (by decide) (List.all_eq_true.mp (kindName_valueByte _))
      (fun hkey => absurd hkey (by decide)) (fun hkey => absurd hkey (by decide))
      (fun hkey => absurd hkey (by decide)) fun hkey => absurd hkey (by decide)
  · obtain ⟨rfl, hvalue⟩ := mem_fieldPair hpair
    obtain ⟨progress, -, rfl⟩ := Option.map_eq_some_iff.mp hvalue
    exact accepted_of_key (by decide) (decimalBytes_progress progress).1 (fun hkey => absurd hkey (by decide))
      (fun hkey => absurd hkey (by decide)) (fun hkey => absurd hkey (by decide)) fun hkey => absurd hkey (by decide)
  · obtain ⟨rfl, hvalue⟩ := mem_fieldPair hpair
    obtain ⟨hroot, hvalue⟩ := Option.ite_none_left_eq_some.mp hvalue
    cases hvalue
    have hok := record.id.valid.resolve_left (by simpa [RecordId.isRoot] using hroot)
    exact accepted_of_key (by decide) (valueByte_of_recordIdOk hok) (fun hkey => absurd hkey (by decide))
      (fun _ => hok) (fun hkey => absurd hkey (by decide)) fun hkey => absurd hkey (by decide)
  · obtain ⟨rfl, hvalue⟩ := mem_fieldPair hpair
    obtain ⟨app, -, rfl⟩ := Option.map_eq_some_iff.mp hvalue
    have hvalid := app.valid
    simp only [Bool.and_eq_true, decide_eq_true_iff, List.all_eq_true] at hvalid
    exact accepted_of_key (by decide) (fun byte hbyte => valueByte_of_identifierByte (hvalid.2 byte hbyte))
      (fun _ => hvalid.1.2) (fun hkey => absurd hkey (by decide)) (fun hkey => absurd hkey (by decide))
      fun hkey => absurd hkey (by decide)
  · obtain ⟨rfl, hvalue⟩ := mem_fieldPair hpair
    obtain ⟨text, htext, rfl⟩ := Option.map_eq_some_iff.mp hvalue
    have hlen : (utf8 text.str).length ≤ 192 := record.titleLe text htext
    have hencoded := h.length (padded .title) (utf8 text.str)
    refine accepted_of_key (by decide) (h.alphabet _ _) (fun hkey => absurd hkey (by decide))
      (fun hkey => absurd hkey (by decide)) (fun hkey => absurd hkey (by decide)) fun _ => ⟨?_, ?_⟩
    · have hcap : maxTitleEncodedBytes = 256 := rfl
      omega
    · exact ⟨_, h.decodeText (padded .title) (Nat.le_refl _) ⟨text, record.titleLe text htext⟩⟩
  · obtain ⟨rfl, hvalue⟩ := mem_fieldPair hpair
    obtain ⟨text, -, rfl⟩ := Option.map_eq_some_iff.mp hvalue
    have hvalid := text.valid
    simp only [Bool.and_eq_true, decide_eq_true_iff] at hvalid
    have hlen : (utf8 text.str).length ≤ 2048 := hvalid.1
    have hencoded := h.length (padded .message) (utf8 text.str)
    refine accepted_of_key (by decide) (h.alphabet _ _) (fun hkey => absurd hkey (by decide))
      (fun hkey => absurd hkey (by decide)) (fun _ => ⟨?_, ?_⟩) fun hkey => absurd hkey (by decide)
    · have hcap : maxMsgEncodedBytes = 2732 := rfl
      omega
    · exact ⟨_, h.decodeText (padded .message) (Nat.le_succ _) ⟨text, hvalid.1⟩⟩

/-- A text that decodes to its own bytes is read as itself. -/
theorem text_of_decoded {max output : Nat} {field : TextField} {hmax : max ≤ maxMsgBytes} {value : Option Bytes}
    {read : Option { text : SingleLineText // text.len ≤ max }} {text : Option SingleLineText}
    (hread : value.map (decodeText · output field max hmax) = read.map .ok)
    (htext : value.map (decodedBytes output) = text.map fun text => some (utf8 text.str)) :
    read.map (·.val) = text := by
  have hboth := (decoded_of_read hread).symm.trans htext
  refine Option.map_injective (f := fun text : SingleLineText => some (utf8 text.str)) (fun a b hab => ?_) hboth
  have hstr : a.str = b.str := utf8_injective (Option.some.inj hab)
  cases a
  cases b
  rwa [SingleLineText.mk.injEq]

/-- **A record's frame is the record**, in any order of its pairs. -/
theorem parseFrame_record (h : Base64.Reads encode) {padded : TextField → Bool} {record : Record}
    {pairs : List (Bytes × Bytes)} (hperm : pairs.Perm (recordPairs encode padded record)) {terminator : Terminator}
    (hlen : (encodeFrame terminator pairs).length ≤ maxFrameBytes) :
    parseFrame (encodeFrame terminator pairs) = .ok (.command (.replace record)) := by
  have haccepted : ∀ pair ∈ pairs, Accepted pair := fun pair hpair =>
    recordPairs_accepted h padded record pair (hperm.mem_iff.mp hpair)
  have hwf : ∀ pair ∈ pairs, wellFormed pair = true := fun pair hpair => (haccepted pair hpair).wellFormed
  have hstate : lastOf Key.state pairs = some record.status.name :=
    lastOf_of_perm hperm hwf (by simp +decide [recordPairs, fieldPair_values])
  have hkind : lastOf Key.kind pairs = record.status.kind.map kindName :=
    lastOf_of_perm hperm hwf (by simp +decide [recordPairs, fieldPair_values])
  have hprogress : lastOf Key.progress pairs = record.status.progress.map fun progress => decimalBytes progress.val :=
    lastOf_of_perm hperm hwf (by simp +decide [recordPairs, fieldPair_values])
  have happ : lastOf Key.app pairs = record.app.map AppId.str :=
    lastOf_of_perm hperm hwf (by simp +decide [recordPairs, fieldPair_values])
  have htitle : lastOf Key.title pairs = record.title.map fun text => encode (padded .title) (utf8 text.str) :=
    lastOf_of_perm hperm hwf (by simp +decide [recordPairs, fieldPair_values])
  have hmsg : lastOf Key.msg pairs = record.msg.map fun text => encode (padded .message) (utf8 text.str) :=
    lastOf_of_perm hperm hwf (by simp +decide [recordPairs, fieldPair_values])
  have hid : lastId pairs = if record.id.isRoot then none else some record.id.str :=
    lastId_of_perm hperm (by simp +decide [recordPairs, fieldPair_values])
  have hne : pairs ≠ [] := by
    rintro rfl
    cases hstate
  obtain ⟨fields, hread, hparse⟩ := parseFrame_encodeFrame hne haccepted hlen
  obtain ⟨hvalid, hfieldId⟩ : fields.invalidId = false ∧ fields.id = record.id := by
    by_cases hroot : record.id.isRoot = true
    · rw [if_pos hroot] at hid
      obtain ⟨hfieldId, hvalid⟩ := hread.unaddressed hid
      exact ⟨hvalid, hfieldId.trans (RecordId.ext (List.isEmpty_iff.mp hroot).symm)⟩
    · rw [if_neg hroot] at hid
      have hok := record.id.valid.resolve_left (by simpa [RecordId.isRoot] using hroot)
      obtain ⟨hinvalid, hstr⟩ := hread.addressed _ hid
      exact ⟨by simpa [hok] using hinvalid, RecordId.ext (hstr hok)⟩
  have hstatus : fields.status record.status.name = some record.status := by
    refine Fields.status_eq_some.mpr ⟨rfl, fun _ => ?_, fun _ => ?_⟩
    · rw [hread.progress, hprogress]
      cases record.status.progress with
      | none => rfl
      | some progress => exact (decimalBytes_progress progress).2
    · rw [hread.kind, hkind]
      cases record.status.kind with
      | none => rfl
      | some kind => exact blockedKind_kindName kind
  have hfieldApp : fields.app = record.app := by
    rw [hread.app, happ]
    cases record.app with
    | none => rfl
    | some app =>
      rw [Option.map_some, Option.bind_some, AppId.parse, dif_pos app.valid]
      rfl
  have hfieldTitle : fields.title.map (·.val) = record.title := by
    refine text_of_decoded hread.title ?_
    rw [htitle, Option.map_map]
    refine Option.map_congr fun text htext => ?_
    exact h.decodedBytes (padded .title) (record.titleLe text htext)
  have hfieldMsg : fields.msg.map (·.val) = record.msg := by
    refine text_of_decoded hread.msg ?_
    rw [hmsg, Option.map_map]
    refine Option.map_congr fun text _ => ?_
    have hvalid := text.valid
    rw [Bool.and_eq_true, decide_eq_true_iff] at hvalid
    exact h.decodedBytes (padded .message) (hvalid.1.trans (Nat.le_succ _))
  have houtcome : fields.outcome = .command (.replace record) := by
    unfold Fields.outcome
    rw [if_neg (by simp [hvalid]), hread.state, hstate]
    simp only
    have hclear : ¬record.status.name = [0x63, 0x6c, 0x65, 0x61, 0x72] := name_ne_clear _
    rw [if_neg hclear, hstatus]
    simp only [ParseOutcome.command.injEq, ProgramCommand.replace.injEq]
    cases record
    rw [Record.mk.injEq]
    exact ⟨hfieldId, rfl, hfieldApp, hfieldTitle, hfieldMsg⟩
  rw [hparse, houtcome]

end

/-! ## The parser -/

/-- The limits of a record's values, each of which its type carries. -/
structure Record.WithinLimits (record : Record) : Prop where
  id : record.id = .root ∨ recordIdOk record.id.str = true
  app : ∀ app ∈ record.app, app.str ≠ [] ∧ app.str.length ≤ maxAppBytes ∧ ∀ byte ∈ app.str, identifierByte byte = true
  progress : ∀ progress ∈ record.status.progress, progress.val ≤ 100
  title : ∀ text ∈ record.title, text.len ≤ maxTitleBytes ∧ ∀ c ∈ text.str.toList, isControl c = false
  msg : ∀ text ∈ record.msg, text.len ≤ maxMsgBytes ∧ ∀ c ∈ text.str.toList, isControl c = false

theorem SingleLineText.isControl_eq_false (text : SingleLineText) :
    text.len ≤ maxMsgBytes ∧ ∀ c ∈ text.str.toList, isControl c = false := by
  have hvalid := text.valid
  simp only [Bool.and_eq_true, decide_eq_true_iff, Bool.not_eq_true', List.any_eq_false, Bool.not_eq_true] at hvalid
  exact hvalid

theorem Record.withinLimits (record : Record) : record.WithinLimits where
  id := by
    rcases record.id.valid with h | h
    · exact .inl (RecordId.ext h)
    · exact .inr h
  app app _ := by
    have hvalid := app.valid
    simp only [Bool.and_eq_true, Bool.not_eq_true', List.isEmpty_eq_false_iff, decide_eq_true_iff,
      List.all_eq_true] at hvalid
    exact ⟨hvalid.1.1, hvalid.1.2, hvalid.2⟩
  progress progress _ := progress.le
  title text htext := ⟨record.titleLe text htext, text.isControl_eq_false.2⟩
  msg text _ := text.isControl_eq_false

/-- **The frame parser is sound, over whatever scratch.** No frame makes it panic. A record it
returns is within the limits and is what the last pairs of the frame say, and so is what it
clears; where the last `id` is no id it returns no command. The frame of a record, within the
cap, is that record. -/
theorem parse_frame_sound [Base64] {encode : Bool → Bytes → Bytes} {decodeSlice : DecodeSlice}
    (hw : Base64.Writes decodeSlice) (hr : Base64.Reads encode) (scratch : DecodeScratch) :
    (∀ frame, parseFrameIn decodeSlice scratch frame ≠ .error .panic ∧
      parseFrameIn decodeSlice scratch frame ≠ .error .invalidText) ∧
    (∀ frame record, parseFrameIn decodeSlice scratch frame = .ok (.command (.replace record)) →
      record.WithinLimits ∧ Reported (framePairs frame) record) ∧
    (∀ frame id, parseFrameIn decodeSlice scratch frame = .ok (.command (.clear id)) →
      lastOf Key.state (framePairs frame) = some clearName ∧ Addressed (framePairs frame) id) ∧
    (∀ frame value, lastId (framePairs frame) = some value → recordIdOk value = false →
      ∀ command, parseFrameIn decodeSlice scratch frame ≠ .ok (.command command)) ∧
    ∀ (record : Record) (padded : TextField → Bool) (terminator : Terminator) (pairs : List (Bytes × Bytes)),
      pairs.Perm (recordPairs encode padded record) → (encodeFrame terminator pairs).length ≤ maxFrameBytes →
        parseFrameIn decodeSlice scratch (encodeFrame terminator pairs) = .ok (.command (.replace record)) := by
  have hread {frame : Bytes} {outcome : ParseOutcome} (h : parseFrameIn decodeSlice scratch frame = .ok outcome) :
      (outcome = .command .query ∧ framePairs frame = []) ∨
        ∃ fields, ReadFrom (framePairs frame) fields ∧ outcome = fields.outcome := by
    rw [parseFrameIn_eq hw] at h
    cases hparse : parseFrame frame with
    | error reason =>
      rw [hparse] at h
      cases h
    | ok own =>
      rw [hparse] at h
      cases h
      exact parseFrame_read hparse
  refine ⟨fun frame => ?_, fun frame record h => ?_, fun frame id h => ?_, fun frame value hlast hbad command h => ?_,
    fun record padded terminator pairs hperm hlen => ?_⟩
  · rw [parseFrameIn_eq hw]
    cases parseFrame frame with
    | error reason => exact ⟨nofun, nofun⟩
    | ok outcome => exact ⟨nofun, nofun⟩
  · refine ⟨record.withinLimits, ?_⟩
    rcases hread h with ⟨hquery, -⟩ | ⟨fields, hfields, houtcome⟩
    · cases hquery
    · exact hfields.outcome_replace houtcome.symm
  · rcases hread h with ⟨hquery, -⟩ | ⟨fields, hfields, houtcome⟩
    · cases hquery
    · exact hfields.outcome_clear houtcome.symm
  · rcases hread h with ⟨-, hnone⟩ | ⟨fields, hfields, houtcome⟩
    · rw [hnone] at hlast
      cases hlast
    · rw [hfields.outcome_invalid hlast hbad] at houtcome
      cases houtcome
  · rw [parseFrameIn_eq hw, parseFrame_record hr hperm hlen]
    rfl

/-! ## The standard engine -/

/-- Base64 of the standard alphabet, into a buffer that the decoded bytes fit. -/
@[reducible] def standardBase64 : Base64 where
  decode padding value output := (Rfc4648.decode padding value).filter fun decoded => decoded.length ≤ output

/-- The buffer with the bytes at its front. -/
def overwrite {n : Nat} (output : Vector UInt8 n) (bytes : Bytes) (h : bytes.length ≤ n) : Vector UInt8 n :=
  ⟨(bytes ++ output.toList.drop bytes.length).toArray, by simp; omega⟩

def standardDecodeSlice : DecodeSlice := fun n padding value output =>
  match Rfc4648.decode padding value with
  | none => (output, none)
  | some decoded =>
    if h : decoded.length ≤ n then (overwrite output decoded h, some decoded.length) else (output, none)

theorem standardBase64_decode (padding : Bool) (value : Bytes) (n : Nat) : @Base64.decode standardBase64 padding value n =
    (Rfc4648.decode padding value).filter fun decoded => decoded.length ≤ n :=
  rfl

theorem standardDecodeSlice_cases (n : Nat) (padding : Bool) (value : Bytes) (output : Vector UInt8 n) :
    (∃ decoded, ∃ h : decoded.length ≤ n, @Base64.decode standardBase64 padding value n = some decoded ∧
      standardDecodeSlice n padding value output = (overwrite output decoded h, some decoded.length)) ∨
    (@Base64.decode standardBase64 padding value n = none ∧
      standardDecodeSlice n padding value output = (output, none)) := by
  unfold standardDecodeSlice
  rw [standardBase64_decode]
  cases Rfc4648.decode padding value with
  | none => exact .inr ⟨rfl, rfl⟩
  | some decoded =>
    by_cases h : decoded.length ≤ n
    · exact .inl ⟨decoded, h, by simp [h], dif_pos h⟩
    · exact .inr ⟨by simpa using h, dif_neg h⟩

theorem standardBase64_writes : @Base64.Writes standardBase64 standardDecodeSlice := by
  refine @Base64.Writes.mk standardBase64 _ ?_ ?_
  · intro n padding value output
    rcases standardDecodeSlice_cases n padding value output with ⟨decoded, hfits, hdecode, hslice⟩ | ⟨hdecode, hslice⟩
    · rw [hdecode, hslice, Option.map_some]
    · rw [hdecode, hslice, Option.map_none]
  · intro n padding value output decoded hdecoded
    rcases standardDecodeSlice_cases n padding value output with ⟨own, hfits, hdecode, hslice⟩ | ⟨hdecode, -⟩
    · obtain rfl : own = decoded := Option.some.inj (hdecode.symm.trans hdecoded)
      rw [hslice]
      exact ⟨hfits, by simp [overwrite]⟩
    · cases hdecode.symm.trans hdecoded

theorem valueByte_symbol (n : Nat) : valueByte (Rfc4648.symbol n) = true :=
  Rfc4648.symbol_forall (P := (valueByte · = true)) (by decide +kernel) n

theorem standardBase64_reads : @Base64.Reads standardBase64 Rfc4648.encode := by
  refine @Base64.Reads.mk standardBase64 _ ?_ ?_ ?_ ?_ ?_
  · intro padded bytes output hlen
    rw [standardBase64_decode, Rfc4648.decode_encode]
    simp [hlen]
  · exact Rfc4648.length_encode_le
  · intro padded bytes byte hbyte
    rcases Rfc4648.mem_encode hbyte with ⟨n, rfl⟩ | rfl
    · exact valueByte_symbol n
    · decide
  · exact Rfc4648.pad_notMem_encodeBare
  · intro bytes
    exact Rfc4648.encode_of_getLast_ne

/-- A record with every field, padded and not, from a scratch of zeroes. -/
theorem parse_frame_sound_report :
    let record : Record := {
      id := ⟨[0x61, slash, 0x62], .inr (by decide)⟩
      status := .working (some ⟨42, by decide⟩)
      app := none
      title := some ⟨"hi", by decide⟩
      msg := some ⟨"ok", by decide⟩
      titleLe := by decide }
    let padded : TextField → Bool := fun field => field == .title
    let frame := encodeFrame .st (recordPairs Rfc4648.encode padded record)
    parseFrameIn standardDecodeSlice ⟨.replicate _ 0, .replicate _ 0⟩ frame = .ok (.command (.replace record)) :=
  (@parse_frame_sound standardBase64 _ _ standardBase64_writes standardBase64_reads
    ⟨.replicate _ 0, .replicate _ 0⟩).2.2.2.2 _ _ _ _ (.refl _) (by decide)

end TmuxAgents
