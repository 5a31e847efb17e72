/-
What the frame decoder answers: what it completes is what was encoded
(`parseInbound_event`), and no verdict but `needMore` depends on what arrives later
(`parseInbound_stable`). A prefix of an encoding needs more by these two alone.
-/
import Mathlib.Data.List.Infix
import TmuxAgents.Ipc.Frame

namespace TmuxAgents.Ipc

open Incremental

/-! ## Bytes -/

theorem fromUtf8_asBytes (s : String) : fromUtf8 (asBytes s) = some s := by
  have hvalid : (⟨(asBytes s).toArray⟩ : ByteArray).IsValidUTF8 := s.isValidUTF8
  rw [fromUtf8, String.fromUTF8?, dif_pos hvalid]
  rfl

theorem asBytes_of_fromUtf8 {bytes : Bytes} {s : String} (h : fromUtf8 bytes = some s) : asBytes s = bytes := by
  unfold fromUtf8 String.fromUTF8? at h
  split at h
  · cases h
    rfl
  · cases h

theorem length_toLeBytes (n : Nat) : (toLeBytes n).length = 4 := rfl

theorem fromLeBytes_toLeBytes {n : Nat} (h : n < 2 ^ 32) :
    fromLeBytes (UInt8.ofNat n) (UInt8.ofNat (n / 2 ^ 8)) (UInt8.ofNat (n / 2 ^ 16)) (UInt8.ofNat (n / 2 ^ 24)) = n := by
  simp only [fromLeBytes, UInt8.toNat_ofNat']
  omega

theorem toLeBytes_fromLeBytes (b₀ b₁ b₂ b₃ : UInt8) : toLeBytes (fromLeBytes b₀ b₁ b₂ b₃) = [b₀, b₁, b₂, b₃] := by
  have h₀ := b₀.toNat_lt
  have h₁ := b₁.toNat_lt
  have h₂ := b₂.toNat_lt
  have h₃ := b₃.toNat_lt
  simp only [toLeBytes, List.cons.injEq, ← UInt8.toNat_inj, UInt8.toNat_ofNat', fromLeBytes, and_true]
  omega

theorem slice_middle (before body after : Bytes) :
    slice (before ++ body ++ after) before.length (before.length + body.length) = some body := by
  have hbounds : before.length ≤ before.length + body.length ∧
      before.length + body.length ≤ (before ++ body ++ after).length := by
    simp only [List.length_append]
    omega
  rw [slice, if_pos hbounds, List.append_assoc, List.drop_left, Nat.add_sub_cancel_left, List.take_left]

/-! ## One field -/

/-- The shape of a buffer that holds a length at an offset. -/
theorem exists_header {buf : Bytes} {at_ : Nat} (h : at_ + 4 ≤ buf.length) : ∃ before b₀ b₁ b₂ b₃ rest,
    buf = before ++ [b₀, b₁, b₂, b₃] ++ rest ∧ before.length = at_ := by
  have hdrop : 4 ≤ (buf.drop at_).length := by
    rw [List.length_drop]
    omega
  match hcut : buf.drop at_, hdrop with
  | b₀ :: b₁ :: b₂ :: b₃ :: rest, _ =>
    refine ⟨buf.take at_, b₀, b₁, b₂, b₃, rest, ?_, by rw [List.length_take]; omega⟩
    rw [List.append_assoc, List.cons_append, List.cons_append, List.cons_append, List.cons_append, List.nil_append,
      ← hcut, List.take_append_drop]

/-- The field a header of this length announces, in what follows the header. -/
def fieldAfter (rest : Bytes) (bodyAt len max : Nat) : FieldStep :=
  if max < len then .invalid
  else if rest.length < len then .needMore
  else
    match fromUtf8 (rest.take len) with
    | some s => .field s (bodyAt + len)
    | none => .invalid

/-- **A field**, read past a header: no index is out of bounds. -/
theorem takeField_header (before rest : Bytes) (b₀ b₁ b₂ b₃ : UInt8) (max : Nat) :
    takeField (before ++ [b₀, b₁, b₂, b₃] ++ rest) before.length max =
      some (fieldAfter rest (before.length + 4) (fromLeBytes b₀ b₁ b₂ b₃) max) := by
  have hlength : (before ++ [b₀, b₁, b₂, b₃] ++ rest).length = before.length + 4 + rest.length := by
    simp only [List.length_append, List.length_cons, List.length_nil]
  have hheader : ¬before.length + 4 + rest.length < before.length + 4 := by omega
  have h₀ : (before ++ [b₀, b₁, b₂, b₃] ++ rest)[before.length]? = some b₀ := by simp
  have h₁ : (before ++ [b₀, b₁, b₂, b₃] ++ rest)[before.length + 1]? = some b₁ := by simp
  have h₂ : (before ++ [b₀, b₁, b₂, b₃] ++ rest)[before.length + 2]? = some b₂ := by simp
  have h₃ : (before ++ [b₀, b₁, b₂, b₃] ++ rest)[before.length + 3]? = some b₃ := by simp
  simp only [takeField, hlength, if_neg hheader, h₀, h₁, h₂, h₃, Option.bind_eq_bind, Option.bind_some, fieldAfter]
  generalize fromLeBytes b₀ b₁ b₂ b₃ = len
  by_cases hcap : max < len
  · rw [if_pos hcap, if_pos hcap]
    rfl
  rw [if_neg hcap, if_neg hcap]
  by_cases hshort : rest.length < len
  · rw [if_pos (by omega), if_pos hshort]
    rfl
  rw [if_neg (by omega), if_neg hshort]
  have hslice := slice_middle (before ++ [b₀, b₁, b₂, b₃]) (rest.take len) (rest.drop len)
  rw [List.append_assoc _ (rest.take len), List.take_append_drop, List.length_append, List.length_take,
    Nat.min_eq_left (Nat.not_lt.mp hshort)] at hslice
  rw [show before.length + 4 = before.length + [b₀, b₁, b₂, b₃].length from rfl, hslice, Option.bind_some]
  cases fromUtf8 (rest.take len) with
  | none => rfl
  | some s => rfl

theorem takeField_short {buf : Bytes} {at_ : Nat} (h : buf.length < at_ + 4) (max : Nat) :
    takeField buf at_ max = some .needMore := if_pos h

/-- A field is read, needs more or is refused; nothing is out of bounds. -/
theorem takeField_isSome (buf : Bytes) (at_ max : Nat) : (takeField buf at_ max).isSome = true := by
  by_cases h : buf.length < at_ + 4
  · rw [takeField_short h]
    rfl
  · obtain ⟨before, b₀, b₁, b₂, b₃, rest, rfl, rfl⟩ := exists_header (Nat.not_lt.mp h)
    rw [takeField_header]
    rfl

/-- More input changes no field that was read, and no refusal. -/
theorem takeField_append {buf : Bytes} {at_ max : Nat} {step : FieldStep} (h : takeField buf at_ max = some step)
    (hne : step ≠ .needMore) (more : Bytes) : takeField (buf ++ more) at_ max = some step := by
  by_cases hshort : buf.length < at_ + 4
  · rw [takeField_short hshort] at h
    exact absurd (Option.some.inj h).symm hne
  obtain ⟨before, b₀, b₁, b₂, b₃, rest, rfl, rfl⟩ := exists_header (Nat.not_lt.mp hshort)
  rw [takeField_header, Option.some.injEq] at h
  rw [List.append_assoc, takeField_header, ← h, Option.some.injEq]
  unfold fieldAfter at h ⊢
  split at h
  · rename_i hcap
    rw [if_pos hcap, if_pos hcap]
  rename_i hcap
  split at h
  · exact absurd h.symm hne
  · rename_i hlen
    have hlong : ¬(rest ++ more).length < fromLeBytes b₀ b₁ b₂ b₃ := by
      rw [List.length_append]
      omega
    rw [if_neg hcap, if_neg hcap, if_neg hlen, if_neg hlong, List.take_append_of_le_length (Nat.not_lt.mp hlen)]

theorem length_encodeField (s : String) : (encodeField s).length = 4 + (asBytes s).length := by
  rw [encodeField, List.length_append, length_toLeBytes]

/-- **A field that is read is one that was encoded**, right there and within its cap. -/
theorem takeField_field {buf : Bytes} {at_ max next : Nat} {s : String}
    (h : takeField buf at_ max = some (.field s next)) :
    (asBytes s).length ≤ max ∧ ∃ before rest, buf = before ++ encodeField s ++ rest ∧ before.length = at_ ∧
      (before ++ encodeField s).length = next := by
  by_cases hshort : buf.length < at_ + 4
  · rw [takeField_short hshort] at h
    cases h
  obtain ⟨before, b₀, b₁, b₂, b₃, rest, rfl, rfl⟩ := exists_header (Nat.not_lt.mp hshort)
  rw [takeField_header, Option.some.injEq] at h
  unfold fieldAfter at h
  split at h
  · cases h
  rename_i hcap
  split at h
  · cases h
  rename_i hlen
  split at h
  · rename_i s' hs
    cases h
    have hbody := asBytes_of_fromUtf8 hs
    have hlength : (asBytes s).length = fromLeBytes b₀ b₁ b₂ b₃ := by
      rw [hbody, List.length_take, Nat.min_eq_left (Nat.not_lt.mp hlen)]
    have hfield : encodeField s = [b₀, b₁, b₂, b₃] ++ rest.take (fromLeBytes b₀ b₁ b₂ b₃) := by
      rw [encodeField, hlength, toLeBytes_fromLeBytes, hbody]
    refine ⟨hlength ▸ Nat.not_lt.mp hcap, before, rest.drop (fromLeBytes b₀ b₁ b₂ b₃), ?_, rfl, ?_⟩
    · rw [hfield, List.append_assoc, List.append_assoc, List.append_assoc, List.take_append_drop]
    · rw [List.length_append, length_encodeField, hlength]
      omega
  · cases h

/-- **An encoded field is read**, if it is within a cap of 32 bits. -/
theorem takeField_encoded {max : Nat} (hmax : max < 2 ^ 32) {s : String} (h : (asBytes s).length ≤ max)
    (before rest : Bytes) : takeField (before ++ encodeField s ++ rest) before.length max =
      some (.field s (before ++ encodeField s).length) := by
  have hfield : before ++ encodeField s ++ rest = before ++ toLeBytes (asBytes s).length ++ (asBytes s ++ rest) := by
    simp only [encodeField, List.append_assoc]
  have hnext : (before ++ encodeField s).length = before.length + 4 + (asBytes s).length := by
    rw [List.length_append, length_encodeField]
    omega
  rw [hfield, toLeBytes, takeField_header, fromLeBytes_toLeBytes (by omega), hnext, Option.some.injEq, fieldAfter,
    if_neg (by omega), if_neg (by rw [List.length_append]; omega), List.take_left, fromUtf8_asBytes]

/-! ## Fields -/

theorem takeFields_isSome (buf : Bytes) (caps : List Nat) (at_ : Nat) (fields : List String) :
    (takeFields buf at_ caps fields).isSome = true := by
  induction caps generalizing at_ fields with
  | nil => rfl
  | cons max caps ih =>
    obtain ⟨step, hstep⟩ := Option.isSome_iff_exists.mp (takeField_isSome buf at_ max)
    rw [takeFields, hstep]
    cases step with
    | field s next => exact ih next _
    | needMore | invalid => rfl

theorem takeFields_append {buf : Bytes} {caps : List Nat} {at_ : Nat} {fields : List String} {step : FieldsStep}
    (h : takeFields buf at_ caps fields = some step) (hne : step ≠ .needMore) (more : Bytes) :
    takeFields (buf ++ more) at_ caps fields = some step := by
  induction caps generalizing at_ fields with
  | nil => exact h
  | cons max caps ih =>
    obtain ⟨found, hfound⟩ := Option.isSome_iff_exists.mp (takeField_isSome buf at_ max)
    rw [takeFields, hfound] at h
    rw [takeFields]
    cases found with
    | field s next =>
      rw [takeField_append hfound (by simp)]
      exact ih h
    | needMore => exact absurd (Option.some.inj h).symm hne
    | invalid =>
      rw [takeField_append hfound (by simp)]
      exact h

/-- The fields that are read follow the offset, each encoded and within its cap. -/
theorem takeFields_fields {buf : Bytes} {caps : List Nat} {at_ : Nat} {fields found : List String}
    (h : takeFields buf at_ caps fields = some (.fields found)) (hat : at_ ≤ buf.length) :
    ∃ new before rest, found = fields ++ new ∧ List.Forall₂ (fun s max => (asBytes s).length ≤ max) new caps ∧
      buf = before ++ (new.map encodeField).flatten ++ rest ∧ before.length = at_ := by
  induction caps generalizing at_ fields with
  | nil =>
    cases h
    refine ⟨[], buf.take at_, buf.drop at_, by simp, .nil, by simp, ?_⟩
    rw [List.length_take, Nat.min_eq_left hat]
  | cons max caps ih =>
    obtain ⟨step, hstep⟩ := Option.isSome_iff_exists.mp (takeField_isSome buf at_ max)
    rw [takeFields, hstep] at h
    cases step with
    | field s next =>
      obtain ⟨hcap, before, rest, hbuf, hbefore, hnext⟩ := takeField_field hstep
      have hle : next ≤ buf.length := by
        simp only [hbuf, ← hnext, List.length_append]
        omega
      obtain ⟨new, before', rest', rfl, hcaps, hbuf', hbefore'⟩ := ih h hle
      -- The next field starts where this one ends.
      have hcut : before' = before ++ encodeField s := by
        have heq : before' ++ ((new.map encodeField).flatten ++ rest') = before ++ encodeField s ++ rest := by
          rw [← List.append_assoc, ← hbuf', hbuf]
        exact (List.append_inj heq (hbefore'.trans hnext.symm)).1
      refine ⟨s :: new, before, rest', by simp, .cons hcap hcaps, ?_, hbefore⟩
      rw [hbuf', hcut, List.map_cons, List.flatten_cons, List.append_assoc before]
    | needMore | invalid => cases h

theorem takeFields_encoded {caps : List Nat} (hmax : ∀ max ∈ caps, max < 2 ^ 32) {new : List String}
    (h : List.Forall₂ (fun s max => (asBytes s).length ≤ max) new caps) (before rest : Bytes) (fields : List String) :
    takeFields (before ++ (new.map encodeField).flatten ++ rest) before.length caps fields =
      some (.fields (fields ++ new)) := by
  induction h generalizing before fields with
  | nil => rw [takeFields, List.append_nil]
  | @cons s max new caps hcap _ ih =>
    have hfield := takeField_encoded (hmax max List.mem_cons_self) hcap before ((new.map encodeField).flatten ++ rest)
    have hrest := ih (fun max hmem => hmax max (List.mem_cons_of_mem _ hmem)) (before ++ encodeField s) (fields ++ [s])
    have hbuf : before ++ ((s :: new).map encodeField).flatten ++ rest =
        before ++ encodeField s ++ ((new.map encodeField).flatten ++ rest) := by
      simp only [List.map_cons, List.flatten_cons, List.append_assoc]
    rw [hbuf, takeFields, hfield]
    simp only [List.append_assoc] at hrest ⊢
    exact hrest

/-! ## Frames -/

/-- A byte among the first four is in no magic at its place. -/
theorem diverges_iff {buf : Bytes} :
    ((buf.take 4).zipIdx.any fun (b, i) => !magics.any fun m => m[i]? == some b) = true ↔
      ∃ b i, i < 4 ∧ buf[i]? = some b ∧ (magics.any fun m => m[i]? == some b) = false := by
  simp only [List.any_eq_true (l := (buf.take 4).zipIdx), Prod.exists, List.mem_zipIdx_iff_getElem?, List.getElem?_take,
    Bool.not_eq_true', Option.ite_none_right_eq_some]
  constructor
  · rintro ⟨b, i, ⟨hi, hb⟩, hnone⟩
    exact ⟨b, i, hi, hb, hnone⟩
  · rintro ⟨b, i, hi, hb, hnone⟩
    exact ⟨b, i, ⟨hi, hb⟩, hnone⟩

theorem magicKind_append {buf : Bytes} (h : magicKind buf ≠ .needMore) (more : Bytes) :
    magicKind (buf ++ more) = magicKind buf := by
  by_cases hdiverges : ((buf.take 4).zipIdx.any fun (b, i) => !magics.any fun m => m[i]? == some b) = true
  · obtain ⟨b, i, hi, hb, hnone⟩ := diverges_iff.mp hdiverges
    have hlong : (buf ++ more)[i]? = some b := by
      rw [List.getElem?_append_left (List.getElem?_eq_some_iff.mp hb).1, hb]
    unfold magicKind
    rw [if_pos hdiverges, if_pos (diverges_iff.mpr ⟨b, i, hi, hlong, hnone⟩)]
  · have hlen : ¬buf.length < 4 := fun hlen => h (by unfold magicKind; rw [if_neg hdiverges, if_pos hlen])
    have htake : (buf ++ more).take 4 = buf.take 4 := List.take_append_of_le_length (Nat.not_lt.mp hlen)
    have hlong : ¬(buf ++ more).length < 4 := by
      rw [List.length_append]
      omega
    unfold magicKind
    rw [htake, if_neg hlen, if_neg hlong]

theorem take_of_event {buf : Bytes} (h : magicKind buf = .event) : ∃ rest, buf = magic ++ rest := by
  unfold magicKind at h
  split at h
  · cases h
  split at h
  · cases h
  split at h
  · rename_i hmagic
    exact ⟨buf.drop 4, by rw [← hmagic, List.take_append_drop]⟩
  split at h
  · cases h
  split at h <;> cases h

/-- Fields within the caps of a frame are four. -/
theorem four_fields {new : List String} (h : List.Forall₂ (fun s max => (asBytes s).length ≤ max) new fieldCaps) :
    ∃ pane agent kind payload, new = [pane, agent, kind, payload] ∧ Fits pane agent kind payload := by
  obtain _ | ⟨hpane, _ | ⟨hagent, _ | ⟨hkind, _ | ⟨hpayload, _ | _⟩⟩⟩⟩ := h
  exact ⟨_, _, _, _, rfl, hpane, hagent, hkind, hpayload⟩

theorem parseInbound_isSome (buf : Bytes) : (parseInbound buf).isSome = true := by
  unfold parseInbound
  cases h : magicKind buf with
  | event =>
    obtain ⟨rest, rfl⟩ := take_of_event h
    obtain ⟨step, hstep⟩ := Option.isSome_iff_exists.mp (takeFields_isSome (magic ++ rest) fieldCaps 4 [])
    simp only [hstep, Option.bind_eq_bind, Option.bind_some]
    cases step with
    | needMore | invalid => rfl
    | fields found =>
      obtain ⟨new, before, after, rfl, hcaps, -⟩ := takeFields_fields hstep (by simp [magic])
      obtain ⟨pane, agent, kind, payload, rfl, -⟩ := four_fields hcaps
      rfl
  | needMore | invalid | subscribe | history => rfl

/-- **No verdict but `needMore` depends on what arrives later.** -/
theorem parseInbound_stable : Stable parseInbound := by
  intro buf status h hne more
  have hmagic : magicKind buf ≠ .needMore := by
    intro hmore
    rw [parseInbound, hmore] at h
    exact hne (Option.some.inj h).symm
  unfold parseInbound at h ⊢
  rw [magicKind_append hmagic]
  cases hk : magicKind buf with
  | needMore => exact absurd hk hmagic
  | invalid | subscribe | history =>
    rw [hk] at h
    exact h
  | event =>
    rw [hk] at h
    simp only [Option.bind_eq_bind, Option.bind_eq_some_iff] at h ⊢
    obtain ⟨step, hstep, h⟩ := h
    refine ⟨step, takeFields_append hstep (fun hmore => ?_) more, h⟩
    subst hmore
    exact hne (Option.some.inj h).symm

theorem magicKind_encoded (rest : Bytes) : magicKind (magic ++ rest) = .event := by
  have hmagic : magicKind magic = .event := by decide
  have hne : magicKind magic ≠ .needMore := by decide
  rw [magicKind_append hne, hmagic]

/-- **A frame is complete exactly where an encoding within the caps arrived**, whatever follows. -/
theorem parseInbound_event {buf : Bytes} {frame : Frame} :
    parseInbound buf = some (.complete (.event frame)) ↔
      Fits frame.pane frame.agent frame.kind frame.payload ∧
        ∃ rest, buf = encodeFrame frame.pane frame.agent frame.kind frame.payload ++ rest := by
  constructor
  · intro h
    unfold parseInbound at h
    split at h
    · cases h
    · cases h
    · cases h
    · cases h
    rename_i hmagic
    obtain ⟨tail, rfl⟩ := take_of_event hmagic
    simp only [Option.bind_eq_bind, Option.bind_eq_some_iff] at h
    obtain ⟨step, hstep, h⟩ := h
    cases step with
    | needMore | invalid => cases h
    | fields found =>
      obtain ⟨new, before, rest, rfl, hcaps, hbuf, hbefore⟩ := takeFields_fields hstep (by simp [magic])
      obtain ⟨pane, agent, kind, payload, rfl, hfits⟩ := four_fields hcaps
      cases h
      refine ⟨hfits, rest, ?_⟩
      have hcut : magic = before := by
        rw [List.append_assoc] at hbuf
        exact (List.append_inj hbuf hbefore.symm).1
      rw [hbuf, ← hcut]
      rfl
  · rintro ⟨⟨hpane, hagent, hkind, hpayload⟩, rest, rfl⟩
    have hsmall : ∀ max ∈ fieldCaps, max < 2 ^ 32 := by decide
    have hfields := takeFields_encoded hsmall
      (.cons hpane (.cons hagent (.cons hkind (.cons hpayload .nil)))) magic rest []
    have hkind' : magicKind (encodeFrame frame.pane frame.agent frame.kind frame.payload ++ rest) = .event := by
      rw [encodeFrame, List.append_assoc]
      exact magicKind_encoded _
    unfold parseInbound
    rw [hkind']
    simp only [encodeFrame, show (4 : Nat) = magic.length from rfl, hfields, Option.bind_eq_bind, Option.bind_some]
    rfl

/-! ## Frames on their way -/

namespace Frame

def fields (frame : Frame) : List String := [frame.pane, frame.agent, frame.kind, frame.payload]

def encode (frame : Frame) : Bytes := encodeFrame frame.pane frame.agent frame.kind frame.payload

/-- The lengths of the fields are not cut where they are sent. -/
def Sendable (frame : Frame) : Prop := ∀ field ∈ frame.fields, (asBytes field).length < 2 ^ 32

theorem encode_fields (frame : Frame) : frame.encode = magic ++ (frame.fields.map encodeField).flatten := rfl

theorem fields_injective : Function.Injective fields := by
  rintro ⟨pane, agent, kind, payload⟩ ⟨pane', agent', kind', payload'⟩ h
  simpa [fields] using h

end Frame

theorem toLeBytes_inj {m n : Nat} (hm : m < 2 ^ 32) (hn : n < 2 ^ 32) (h : toLeBytes m = toLeBytes n) : m = n := by
  rw [← fromLeBytes_toLeBytes hm, ← fromLeBytes_toLeBytes hn]
  unfold toLeBytes at h
  simp only [List.cons.injEq] at h
  rw [h.1, h.2.1, h.2.2.1, h.2.2.2.1]

theorem encodeField_inj {a b : String} {x y : Bytes} (ha : (asBytes a).length < 2 ^ 32) (hb : (asBytes b).length < 2 ^ 32)
    (h : encodeField a ++ x = encodeField b ++ y) : a = b ∧ x = y := by
  rw [encodeField, encodeField, List.append_assoc, List.append_assoc] at h
  obtain ⟨hlength, hrest⟩ := List.append_inj h rfl
  obtain ⟨hbody, hmore⟩ := List.append_inj hrest (toLeBytes_inj ha hb hlength)
  refine ⟨?_, hmore⟩
  have hread := congrArg fromUtf8 hbody
  rw [fromUtf8_asBytes, fromUtf8_asBytes] at hread
  exact Option.some.inj hread

theorem encodeFields_inj {as bs : List String} {x y : Bytes} (hlength : as.length = bs.length)
    (ha : ∀ a ∈ as, (asBytes a).length < 2 ^ 32) (hb : ∀ b ∈ bs, (asBytes b).length < 2 ^ 32)
    (h : (as.map encodeField).flatten ++ x = (bs.map encodeField).flatten ++ y) : as = bs ∧ x = y := by
  induction as generalizing bs with
  | nil =>
    cases bs with
    | nil => exact ⟨rfl, h⟩
    | cons b bs => cases hlength
  | cons a as ih =>
    cases bs with
    | nil => cases hlength
    | cons b bs =>
      simp only [List.map_cons, List.flatten_cons, List.append_assoc] at h
      obtain ⟨rfl, hrest⟩ := encodeField_inj (ha a List.mem_cons_self) (hb b List.mem_cons_self) h
      obtain ⟨rfl, hmore⟩ := ih (Nat.succ.inj hlength) (fun a hmem => ha a (List.mem_cons_of_mem _ hmem))
        (fun b hmem => hb b (List.mem_cons_of_mem _ hmem)) hrest
      exact ⟨rfl, hmore⟩

theorem Frame.sendable_of_fits {frame : Frame} (h : Fits frame.pane frame.agent frame.kind frame.payload) :
    frame.Sendable := by
  obtain ⟨hpane, hagent, hkind, hpayload⟩ := h
  have hsmall : maxSmall < 2 ^ 32 := by decide
  have hlarge : maxPayload < 2 ^ 32 := by decide
  intro field hfield
  simp only [Frame.fields, List.mem_cons, List.not_mem_nil, or_false] at hfield
  rcases hfield with rfl | rfl | rfl | rfl
  · exact Nat.lt_of_le_of_lt hpane hsmall
  · exact Nat.lt_of_le_of_lt hagent hsmall
  · exact Nat.lt_of_le_of_lt hkind hsmall
  · exact Nat.lt_of_le_of_lt hpayload hlarge

/-- What begins as an event is no other frame. -/
theorem parseInbound_magic {rest : Bytes} {inbound : Inbound} (h : parseInbound (magic ++ rest) = some (.complete inbound)) :
    ∃ frame, inbound = .event frame := by
  unfold parseInbound at h
  rw [magicKind_encoded] at h
  simp only [Option.bind_eq_bind, Option.bind_eq_some_iff] at h
  obtain ⟨step, -, h⟩ := h
  split at h
  · cases h
  · cases h
  · cases h
    exact ⟨_, rfl⟩
  · cases h

/-- **What is dispatched of an event's frame is that event**, and only once all of it has arrived. -/
theorem dispatched_event {event : Frame} {buf : Bytes} {inbound : Inbound} (hbuf : buf <+: event.encode)
    (h : parseInbound buf = some (.complete inbound)) :
    ∃ frame, inbound = .event frame ∧ Fits frame.pane frame.agent frame.kind frame.payload ∧
      (event.Sendable → frame = event ∧ buf = event.encode) := by
  obtain ⟨more, hmore⟩ := hbuf
  have hwhole : parseInbound event.encode = some (.complete inbound) := by
    rw [← hmore]
    exact parseInbound_stable buf _ h (by simp) more
  obtain ⟨frame, rfl⟩ := parseInbound_magic hwhole
  obtain ⟨hfits, rest, hread⟩ := parseInbound_event.mp h
  refine ⟨frame, rfl, hfits, fun hsendable => ?_⟩
  have hsplit : (frame.fields.map encodeField).flatten ++ (rest ++ more) = (event.fields.map encodeField).flatten ++ [] := by
    rw [hread] at hmore
    change frame.encode ++ rest ++ more = event.encode at hmore
    rw [Frame.encode_fields, Frame.encode_fields, List.append_assoc, List.append_assoc] at hmore
    rw [List.append_nil]
    exact List.append_cancel_left hmore
  obtain ⟨hfields, hnil⟩ := encodeFields_inj (show frame.fields.length = event.fields.length from rfl)
    (Frame.sendable_of_fits hfits) hsendable hsplit
  obtain ⟨rfl, rfl⟩ := List.append_eq_nil_iff.mp hnil
  exact ⟨Frame.fields_injective hfields, (List.append_nil buf).symm.trans hmore⟩

/-! ## The wire protocol -/

/-- **The wire protocol.** What is encoded within the caps is decoded, and every strict prefix of
it needs more. A verdict that is not `needMore` stands whatever follows, so both readers answer
as if all the input had been parsed at once, however it was cut. No index is out of bounds. -/
theorem wire_protocol :
    (∀ pane agent kind payload, Fits pane agent kind payload →
      parseInbound (encodeFrame pane agent kind payload) = some (.complete (.event { pane, agent, kind, payload })) ∧
        ∀ buf, buf <+: encodeFrame pane agent kind payload → buf ≠ encodeFrame pane agent kind payload →
          parseInbound buf = some .needMore) ∧
    Stable parseInbound ∧
    (∀ chunks, readInbound chunks = (parseInbound chunks.flatten).map ParseStatus.frame?) ∧
    (∀ isOpen chunks, pendingAdvances isOpen chunks = advance parseInbound isOpen chunks.flatten) ∧
    (∀ buf at_ max, (takeField buf at_ max).isSome = true) ∧ ∀ buf, (parseInbound buf).isSome = true := by
  refine ⟨fun pane agent kind payload hfits => ?_, parseInbound_stable,
    fun chunks => readAll_eq parseInbound_stable parseInbound_isSome chunks [],
    fun isOpen chunks => advanceAll_eq parseInbound_stable parseInbound_isSome isOpen chunks [],
    takeField_isSome, parseInbound_isSome⟩
  have hwhole : parseInbound (encodeFrame pane agent kind payload) =
      some (.complete (.event { pane, agent, kind, payload })) :=
    parseInbound_event.mpr ⟨hfits, [], (List.append_nil _).symm⟩
  refine ⟨hwhole, fun buf hprefix hne => ?_⟩
  obtain ⟨more, hmore⟩ := hprefix
  obtain ⟨status, hstatus⟩ := Option.isSome_iff_exists.mp (parseInbound_isSome buf)
  rw [← hmore] at hwhole
  rcases parseInbound_stable.prefix hstatus hwhole with rfl | rfl
  · exact hstatus
  · -- Were it complete already, it would hold the whole encoding.
    obtain ⟨-, rest, hbuf⟩ := parseInbound_event.mp hstatus
    have hlength := congrArg List.length hmore
    simp only [hbuf, List.length_append] at hlength
    have hnil : rest = [] := List.eq_nil_of_length_eq_zero (by omega)
    rw [hnil, List.append_nil] at hbuf
    exact absurd hbuf hne

end TmuxAgents.Ipc
