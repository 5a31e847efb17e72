/-
A ledger line read back.

`members` is a line as the members it holds, in their order; the writer and the
parser are each compared with it. A parser that has accepted a line accepts none
of its continuations, which is why no part of a line is a line.
-/
import TmuxAgents.Dispatch.SlotText
import TmuxAgents.Persist.Codecs

namespace TmuxAgents

namespace SlotText

open Act (JsonWriter)
open Act.JsonWriter (escape jsonString)
open Slots (Entry Receipt)

/-! ## A line's members -/

/-- A scalar as it is written. -/
def Value.text : Value → Text
  | .str s => jsonString s
  | .num n => Text.integer n
  | .null => "null".toList

def Value.ofOption : Option String → Value
  | some s => .str s.toList
  | none => .null

/-- The members of a record, in the order they are written. -/
def members (entry : Entry) : List (Text × Value) :=
  [("slot".toList, .str entry.slot.toList), ("pane".toList, .str entry.pane.toList),
    ("action".toList, .str entry.action.toList), ("device".toList, .ofOption entry.device),
    ("at_ms".toList, .num (Int.bmod entry.atMs (2 ^ 64))), ("pid".toList, .num entry.pid)] ++
  match entry.receipt with
  | some receipt =>
    [("outcome".toList, .str receipt.outcome.toList), ("reason".toList, .ofOption receipt.reason),
      ("exit_code".toList, .num receipt.exitCode)]
  | none => [("outcome".toList, .null), ("reason".toList, .null), ("exit_code".toList, .null)]

def memberText (member : Text × Value) : Text := jsonString member.1 ++ ':' :: member.2.text

/-- A member as the writer writes it. -/
def putMember (w : JsonWriter) (member : Text × Value) : JsonWriter :=
  match member.2 with
  | .str s => w.string member.1 s
  | .num n => w.number member.1 n
  | .null => w.null member.1

theorem putMember_eq (buf : Text) (due : Bool) (member : Text × Value) :
    putMember { buf, needsComma := [due] } member =
      { buf := buf ++ (if due then [','] else []) ++ memberText member, needsComma := [true] } := by
  obtain ⟨key, v⟩ := member
  cases v <;> cases due <;>
    simp [putMember, JsonWriter.string, JsonWriter.number, JsonWriter.null, JsonWriter.key, JsonWriter.sep, JsonWriter.push,
      JsonWriter.mark, memberText, Value.text]

theorem foldl_putMember (buf : Text) (more : List (Text × Value)) :
    more.foldl putMember { buf, needsComma := [true] } =
      { buf := buf ++ more.flatMap fun member => ',' :: memberText member, needsComma := [true] } := by
  induction more generalizing buf with
  | nil => simp
  | cons member more ih => rw [List.foldl_cons, putMember_eq, ih]; simp

theorem optString_eq (w : JsonWriter) (key : Text) (s : Option String) :
    w.optString key s = putMember w (key, .ofOption s) := by cases s <;> rfl

theorem renderEntry_putMember (entry : Entry) :
    renderEntry entry = ((members entry).foldl putMember JsonWriter.new.beginObject).endObject.finish := by
  obtain ⟨slot, pane, action, device, atMs, pid, receipt⟩ := entry
  cases receipt with
  | none => simp only [renderEntry, optString_eq]; rfl
  | some receipt => simp only [renderEntry, optString_eq]; rfl

/-- The text of members, the first without a comma. -/
def membersText : List (Text × Value) → Text
  | [] => []
  | member :: more => memberText member ++ more.flatMap fun member => ',' :: memberText member

theorem renderEntry_eq (entry : Entry) : renderEntry entry = '\x7b' :: (membersText (members entry) ++ ['\x7d']) := by
  have hmembers : ∃ first more, members entry = first :: more := ⟨_, _, rfl⟩
  obtain ⟨first, more, hmembers⟩ := hmembers
  rw [renderEntry_putMember, hmembers]
  have hnew : JsonWriter.new.beginObject = { buf := ['\x7b'], needsComma := [false] } := rfl
  rw [hnew, List.foldl_cons, putMember_eq, foldl_putMember]
  simp [JsonWriter.endObject, JsonWriter.finish, JsonWriter.push, membersText]

/-! ## Strings -/

/-- An escaped character is read as itself. -/
theorem stringBody_escape (c : Char) (rest : Text) :
    Parser.stringBody (escape c ++ rest) = (Parser.stringBody rest).map fun read => (c :: read.1, read.2) := by
  unfold escape
  split
  next h => subst h; rfl
  split
  next h => subst h; rfl
  split
  next h => subst h; rfl
  split
  next h => subst h; rfl
  split
  next h => subst h; rfl
  split
  next hquote hslash _ _ _ hlow =>
    have hbyte : (UInt8.ofNat c.toNat).toNat = c.toNat := by
      rw [UInt8.toNat_ofNat']
      omega
    have hhigh := Text.hexDigit_digitChar (c.toNat / 16) (by omega)
    have hlast := Text.hexDigit_digitChar (c.toNat % 16) (by omega)
    have hzero : Text.hexDigit '0' = some 0 := rfl
    have hcode : c.toNat / 16 * 16 + c.toNat % 16 = c.toNat := by omega
    have hvalid : c.toNat.isValidChar := c.valid
    have hhex : (Parser.fromHex ['0', '0', Nat.digitChar (c.toNat / 16), Nat.digitChar (c.toNat % 16)]).bind
        Parser.fromU32 = some c := by
      simp [Parser.fromHex, hzero, hhigh, hlast, Parser.fromU32, hcode, hvalid]
    simp only [hexByte, hbyte]
    exact congrArg (fun code => Option.bind code _) hhex
  next hquote hslash _ _ _ _ =>
    rw [List.singleton_append, Parser.stringBody.eq_def]
    split <;> simp_all

theorem stringBody_flatMap (text rest : Text) :
    Parser.stringBody (text.flatMap escape ++ '"' :: rest) = some (text, rest) := by
  induction text with
  | nil => rfl
  | cons c text ih => rw [List.flatMap_cons, List.append_assoc, stringBody_escape, ih]; rfl

theorem string_jsonString (text rest : Text) : Parser.string (jsonString text ++ rest) = some (text, rest) := by
  have hbody := stringBody_flatMap text rest
  simp only [Parser.string, jsonString, List.cons_append, List.append_assoc, Parser.eat, if_true, Option.bind_some]
  exact hbody

/-! ## Values -/

/-- What comes behind a value: a comma or the closing brace. -/
def Follows (rest : Text) : Prop := ∃ more, rest = ',' :: more ∨ rest = '\x7d' :: more

/-- The value fits its machine type. -/
def Value.Fits : Value → Prop
  | .num n => -2 ^ 63 ≤ n ∧ n < 2 ^ 63
  | _ => True

theorem Follows.takeDigits {rest : Text} (h : Follows rest) {digits : Text} (hdigits : ∀ c ∈ digits, c.isDigit = true) :
    (digits ++ rest).takeWhile Char.isDigit = digits ∧ (digits ++ rest).dropWhile Char.isDigit = rest := by
  rw [List.takeWhile_append_of_pos hdigits, List.dropWhile_append_of_pos hdigits]
  obtain ⟨more, rfl | rfl⟩ := h <;> exact ⟨by simp, by simp⟩

theorem decimal_digits (n : Nat) : ∀ c ∈ Text.decimal n, c.isDigit = true := fun _ hc => Text.isDigit_of_mem_decimal hc

theorem number_integer {n : Int} (hlow : -2 ^ 63 ≤ n) (hhigh : n < 2 ^ 63) {rest : Text} (hrest : Follows rest) :
    Parser.number (Text.integer n ++ rest) = some (.num n, rest) := by
  cases n with
  | ofNat n =>
    obtain ⟨htake, hdrop⟩ := hrest.takeDigits (decimal_digits n)
    have hne : (Text.decimal n).isEmpty = false := List.isEmpty_eq_false_iff.mpr (Text.decimal_ne_nil n)
    have hminus : ∀ src, Text.decimal n ++ rest ≠ '-' :: src := by
      intro src heq
      obtain ⟨c, digits, hdecimal⟩ := List.exists_cons_of_ne_nil (Text.decimal_ne_nil n)
      rw [hdecimal, List.cons_append, List.cons.injEq] at heq
      exact Text.not_mem_decimal (c := '-') (by decide) n (by rw [hdecimal, heq.1]; exact List.mem_cons_self)
    have hparse : Parser.parseI64 (Text.decimal n) = some (Int.ofNat n) := by
      have hplain : ∀ digits, Text.decimal n ≠ '-' :: digits := by
        intro digits heq
        exact hminus (digits ++ rest) (by rw [heq]; rfl)
      have hlt : n < 2 ^ 63 := Int.ofNat_lt.mp hhigh
      rw [Parser.parseI64.eq_def]
      split
      next digits heq => exact absurd heq (hplain digits)
      next => rw [Text.parseUnsigned_decimal hlt]; rfl
    rw [Text.integer, Parser.number.eq_def]
    split
    next src heq => exact absurd heq (hminus src)
    next => rw [htake, hdrop, hne, hparse]; rfl
  | negSucc n =>
    obtain ⟨htake, hdrop⟩ := hrest.takeDigits (decimal_digits (n + 1))
    have hne : (Text.decimal (n + 1)).isEmpty = false := List.isEmpty_eq_false_iff.mpr (Text.decimal_ne_nil _)
    have hall : (Text.decimal (n + 1)).all Char.isDigit = true := List.all_eq_true.mpr (decimal_digits _)
    have hle : n + 1 ≤ 2 ^ 63 := by omega
    have hparse : Parser.parseI64 ('-' :: Text.decimal (n + 1)) = some (Int.negSucc n) := by
      simp only [Parser.parseI64, hne, hall, Text.ofDigitChars_decimal, Bool.not_true, Bool.or_self, Bool.false_eq_true,
        if_false, if_pos hle]
      rfl
    rw [Text.integer, List.cons_append, Parser.number, htake, hdrop, hparse]
    rfl

theorem integer_head (n : Int) : ∃ c rest, Text.integer n = c :: rest ∧ (c = '-' ∨ c.isDigit = true) := by
  cases n with
  | ofNat n =>
    obtain ⟨c, digits, hdecimal⟩ := List.exists_cons_of_ne_nil (Text.decimal_ne_nil n)
    refine ⟨c, digits, hdecimal, .inr (decimal_digits n c ?_)⟩
    rw [hdecimal]
    exact List.mem_cons_self
  | negSucc n => exact ⟨'-', _, rfl, .inl rfl⟩

/-- A value that is followed as values are is read back. -/
theorem value_text {v : Value} (hfits : v.Fits) {rest : Text} (hrest : Follows rest) :
    Parser.value (v.text ++ rest) = some (v, rest) := by
  cases v with
  | str s =>
    have hstring := string_jsonString s rest
    have hhead : jsonString s ++ rest = '"' :: ((s.flatMap escape ++ ['"']) ++ rest) := rfl
    rw [hhead] at hstring
    rw [Value.text, hhead]
    simp only [Parser.value, if_true, hstring, Option.map_some]
  | num n =>
    have hnumber := number_integer hfits.1 hfits.2 hrest
    obtain ⟨c, more, hinteger, hc⟩ := integer_head n
    have hquote : c ≠ '"' := by
      rintro rfl
      rcases hc with hc | hc <;> exact absurd hc (by decide)
    have hn : c ≠ 'n' := by
      rintro rfl
      rcases hc with hc | hc <;> exact absurd hc (by decide)
    rw [hinteger, List.cons_append] at hnumber
    rw [Value.text, hinteger]
    simp only [List.cons_append, Parser.value, if_neg hquote, if_neg hn]
    exact hnumber
  | null =>
    have hprefix : "null".toList <+: "null".toList ++ rest := List.prefix_append _ _
    have hhead : "null".toList ++ rest = 'n' :: ("ull".toList ++ rest) := rfl
    have hne : 'n' ≠ '"' := by decide
    rw [Value.text]
    rw [hhead] at hprefix ⊢
    simp only [Parser.value, if_neg hne, if_true, if_pos hprefix]
    rfl

/-- The blanks of a text that does not start with one. -/
theorem spaces_cons {c : Char} (hc : Parser.isBlank c = false) (rest : Text) : Parser.spaces (c :: rest) = c :: rest := by
  simp [Parser.spaces, hc]

theorem Follows.spaces {rest : Text} (h : Follows rest) : Parser.spaces rest = rest := by
  obtain ⟨more, rfl | rfl⟩ := h
  · exact spaces_cons rfl more
  · exact spaces_cons rfl more

theorem spaces_value (v : Value) (rest : Text) : Parser.spaces (v.text ++ rest) = v.text ++ rest := by
  cases v with
  | str s => exact spaces_cons rfl _
  | null => exact spaces_cons rfl _
  | num n =>
    obtain ⟨c, more, hinteger, hc⟩ := integer_head n
    rw [Value.text, hinteger]
    refine spaces_cons ?_ _
    rw [Bool.eq_false_iff]
    intro hblank
    simp only [Parser.isBlank, Bool.or_eq_true, beq_iff_eq] at hblank
    rcases hblank with rfl | rfl <;> rcases hc with hc | hc <;> exact absurd hc (by decide)

/-! ## Members -/

theorem readMember_text (m : Members) {member : Text × Value} (hfits : member.2.Fits) {rest : Text}
    (hrest : Follows rest) :
    readMember m (memberText member ++ rest) = (m.assign member.1 member.2).map fun m => (m, rest) := by
  have hkey : Parser.string (Parser.spaces (memberText member ++ rest)) =
      some (member.1, ':' :: (member.2.text ++ rest)) := by
    have hstring := string_jsonString member.1 (':' :: (member.2.text ++ rest))
    have hspaces : Parser.spaces (memberText member ++ rest) = memberText member ++ rest := spaces_cons rfl _
    rw [hspaces, memberText, List.append_assoc, List.cons_append, hstring]
  have hcolon : Parser.eat ':' (Parser.spaces (':' :: (member.2.text ++ rest))) = some (member.2.text ++ rest) := by
    rw [spaces_cons rfl]
    rfl
  have hvalue := value_text hfits hrest
  rw [← spaces_value member.2 rest] at hvalue
  simp only [readMember, hkey, hcolon, hvalue, Option.bind_eq_bind, Option.bind_some, hrest.spaces]
  cases m.assign member.1 member.2 <;> rfl

theorem follows_comma (rest : Text) : Follows (',' :: rest) := ⟨rest, .inl rfl⟩
theorem follows_brace (rest : Text) : Follows ('\x7d' :: rest) := ⟨rest, .inr rfl⟩

theorem readMembers_none {m : Members} {src : Text} (h : readMember m src = none) : readMembers m src = none := by
  rw [readMembers.eq_def]
  split
  next => rfl
  next heq => rw [h] at heq; cases heq

theorem readMembers_comma {m m' : Members} {src rest : Text} (h : readMember m src = some (m', ',' :: rest)) :
    readMembers m src = readMembers m' rest := by
  rw [readMembers.eq_def]
  split
  next heq => rw [h] at heq; cases heq
  next heq =>
    rw [h] at heq
    cases heq
    rfl

theorem readMembers_brace {m m' : Members} {src rest : Text} (h : readMember m src = some (m', '\x7d' :: rest)) :
    readMembers m src = some (m', rest) := by
  rw [readMembers.eq_def]
  split
  next heq => rw [h] at heq; cases heq
  next heq =>
    rw [h] at heq
    cases heq
    rfl

/-- The members are assigned one after another. -/
theorem readMembers_text (m : Members) {first : Text × Value} {more : List (Text × Value)}
    (hfits : ∀ member ∈ first :: more, member.2.Fits) (rest : Text) :
    readMembers m (membersText (first :: more) ++ '\x7d' :: rest) =
      ((first :: more).foldlM (fun (m : Members) member => m.assign member.1 member.2) m).map fun m => (m, rest) := by
  induction more generalizing m first with
  | nil =>
    have hmember := readMember_text m (hfits first List.mem_cons_self) (follows_brace rest)
    have htext : membersText [first] = memberText first := by simp [membersText]
    rw [htext, List.foldlM_cons]
    cases hassign : m.assign first.1 first.2 with
    | none =>
      rw [hassign] at hmember
      rw [readMembers_none hmember]
      rfl
    | some m' =>
      rw [hassign] at hmember
      rw [readMembers_brace hmember]
      rfl
  | cons second more ih =>
    have hmember := readMember_text m (hfits first List.mem_cons_self)
      (follows_comma (membersText (second :: more) ++ '\x7d' :: rest))
    have htext : membersText (first :: second :: more) ++ '\x7d' :: rest =
        memberText first ++ ',' :: (membersText (second :: more) ++ '\x7d' :: rest) := by simp [membersText]
    rw [htext, List.foldlM_cons]
    cases hassign : m.assign first.1 first.2 with
    | none =>
      rw [hassign] at hmember
      rw [readMembers_none hmember]
      rfl
    | some m' =>
      rw [hassign] at hmember
      rw [readMembers_comma hmember, ih m' fun member hm => hfits member (List.mem_cons_of_mem _ hm)]
      rfl

/-! ## Whole lines -/

/-- The fields hold what their machine types can hold. -/
structure Typed (entry : Entry) : Prop where
  atMs : entry.atMs < 2 ^ 64
  pid : -2 ^ 31 ≤ entry.pid ∧ entry.pid < 2 ^ 31
  exitCode : ∀ receipt, entry.receipt = some receipt → -2 ^ 31 ≤ receipt.exitCode ∧ receipt.exitCode < 2 ^ 31

theorem fits_ofOption (s : Option String) : (Value.ofOption s).Fits := by cases s <;> trivial

theorem Typed.fits {entry : Entry} (h : Typed entry) : ∀ member ∈ members entry, member.2.Fits := by
  have hbmod : -2 ^ 63 ≤ Int.bmod entry.atMs (2 ^ 64) ∧ Int.bmod entry.atMs (2 ^ 64) < 2 ^ 63 := by
    have hle := @Int.le_bmod entry.atMs (2 ^ 64) (by decide)
    have hlt := @Int.bmod_lt entry.atMs (2 ^ 64) (by decide)
    omega
  have hpid : -2 ^ 63 ≤ entry.pid ∧ entry.pid < 2 ^ 63 := by
    have := h.pid
    omega
  obtain ⟨slot, pane, action, device, atMs, pid, receipt⟩ := entry
  cases receipt with
  | none =>
    simp only [members, List.cons_append, List.nil_append, List.forall_mem_cons, List.not_mem_nil]
    exact ⟨trivial, trivial, trivial, fits_ofOption _, hbmod, hpid, trivial, trivial, trivial, by simp⟩
  | some receipt =>
    have hcode : -2 ^ 63 ≤ receipt.exitCode ∧ receipt.exitCode < 2 ^ 63 := by
      have := h.exitCode receipt rfl
      omega
    simp only [members, List.cons_append, List.nil_append, List.forall_mem_cons, List.not_mem_nil]
    exact ⟨trivial, trivial, trivial, fits_ofOption _, hbmod, hpid, trivial, fits_ofOption _, hcode, by simp⟩

theorem toU64_bmod {n : Nat} (h : n < 2 ^ 64) :
    toU64 (Int.bmod n (2 ^ 64)) = if n < 2 ^ 63 then some n else none := by
  have hmod : (n : Int) % (2 ^ 64 : Nat) = n := by omega
  rw [Int.bmod_def, hmod]
  by_cases hn : n < 2 ^ 63
  · have hlow : (n : Int) < ((2 ^ 64 : Nat) + 1) / 2 := by omega
    have hpos : (0 : Int) ≤ n := by omega
    rw [if_pos hlow, if_pos hn, toU64, if_pos hpos, Int.toNat_natCast]
  · have hhigh : ¬ (n : Int) < ((2 ^ 64 : Nat) + 1) / 2 := by omega
    have hneg : ¬ (0 : Int) ≤ n - (2 ^ 64 : Nat) := by omega
    rw [if_neg hhigh, if_neg hn, toU64, if_neg hneg]

theorem toI32_eq {n : Int} (h : -2 ^ 31 ≤ n ∧ n < 2 ^ 31) : toI32 n = some n := if_pos h

theorem intoOptString_ofOption (s : Option String) :
    (Value.ofOption s).intoOptString = some (s.map String.toList) := by cases s <;> rfl

/-- What a record's members come to. -/
def Members.ofEntry (entry : Entry) : Members :=
  { slot := some entry.slot.toList
    pane := some entry.pane.toList
    action := some entry.action.toList
    device := entry.device.map String.toList
    atMs := some entry.atMs
    pid := some entry.pid
    outcome := entry.receipt.map fun receipt => receipt.outcome.toList
    reason := entry.receipt.bind fun receipt => receipt.reason.map String.toList
    exitCode := entry.receipt.map fun receipt => receipt.exitCode }

section Assign

variable (m : Members) (v : Value)

theorem assign_slot : m.assign "slot".toList v = v.intoString.map fun s => { m with slot := some s } := by
  simp [Members.assign]

theorem assign_pane : m.assign "pane".toList v = v.intoString.map fun s => { m with pane := some s } := by
  simp [Members.assign]

theorem assign_action : m.assign "action".toList v = v.intoString.map fun s => { m with action := some s } := by
  simp [Members.assign]

theorem assign_device : m.assign "device".toList v = v.intoOptString.map fun s => { m with device := s } := by
  simp [Members.assign]

theorem assign_atMs :
    m.assign "at_ms".toList v = (v.intoNumber.bind toU64).map fun n => { m with atMs := some n } := by
  simp [Members.assign]

theorem assign_pid : m.assign "pid".toList v = (v.intoNumber.bind toI32).map fun n => { m with pid := some n } := by
  simp [Members.assign]

theorem assign_outcome : m.assign "outcome".toList v = v.intoOptString.map fun s => { m with outcome := s } := by
  simp [Members.assign]

theorem assign_reason : m.assign "reason".toList v = v.intoOptString.map fun s => { m with reason := s } := by
  simp [Members.assign]

theorem assign_exitCode : m.assign "exit_code".toList v = v.intoOptNumber.map fun n => { m with exitCode := n } := by
  simp [Members.assign]

/-- The members that every record has. -/
theorem assign_claim (slot pane action : String) (device : Option String) (at_ pid : Int) :
    [("slot".toList, Value.str slot.toList), ("pane".toList, .str pane.toList), ("action".toList, .str action.toList),
      ("device".toList, .ofOption device), ("at_ms".toList, .num at_), ("pid".toList, .num pid)].foldlM
        (fun (m : Members) member => m.assign member.1 member.2) {} =
      (toU64 at_).bind fun atMs => (toI32 pid).map fun pid =>
        { slot := some slot.toList
          pane := some pane.toList
          action := some action.toList
          device := device.map String.toList
          atMs := some atMs
          pid := some pid } := by
  simp only [List.foldlM_cons, List.foldlM_nil, assign_slot, assign_pane, assign_action, assign_device, assign_atMs,
    assign_pid, Value.intoString, intoOptString_ofOption, Value.intoNumber, Option.map_some, Option.bind_eq_bind,
    Option.bind_some, Option.pure_def]
  cases toU64 at_ with
  | none => rfl
  | some atMs => cases toI32 pid <;> rfl

end Assign

theorem assign_members {entry : Entry} (h : Typed entry) :
    (members entry).foldlM (fun (m : Members) member => m.assign member.1 member.2) {} =
      if entry.atMs < 2 ^ 63 then some (Members.ofEntry entry) else none := by
  have hatMs := toU64_bmod h.atMs
  have hpid := toI32_eq h.pid
  obtain ⟨slot, pane, action, device, atMs, pid, receipt⟩ := entry
  simp only at hatMs hpid ⊢
  rw [members, List.foldlM_append, assign_claim, hatMs, hpid]
  by_cases hn : atMs < 2 ^ 63
  · rw [if_pos hn, if_pos hn, Option.bind_some, Option.map_some, Option.bind_eq_bind, Option.bind_some]
    cases receipt with
    | none =>
      simp only [List.foldlM_cons, List.foldlM_nil, assign_outcome, assign_reason, assign_exitCode, Value.intoOptString,
        Value.intoOptNumber, Option.map_some, Option.bind_eq_bind, Option.bind_some, Option.pure_def]
      rfl
    | some receipt =>
      obtain ⟨outcome, reason, exitCode⟩ := receipt
      have hreason := intoOptString_ofOption reason
      have houtcome : (Value.str outcome.toList).intoOptString = some (some outcome.toList) := rfl
      simp only [List.foldlM_cons, List.foldlM_nil, assign_outcome, assign_reason, assign_exitCode, hreason, houtcome,
        Value.intoOptNumber, Option.map_some, Option.bind_eq_bind, Option.bind_some, Option.pure_def]
      rfl
  · rw [if_neg hn, if_neg hn]
    rfl

theorem entry_ofEntry {entry : Entry} (h : Typed entry) : (Members.ofEntry entry).entry = some entry := by
  obtain ⟨slot, pane, action, device, atMs, pid, receipt⟩ := entry
  cases receipt with
  | none => simp [Members.entry, Members.receipt, Members.ofEntry, Option.map_map, Function.comp_def]
  | some receipt =>
    have hcode := toI32_eq (h.exitCode receipt rfl)
    simp [Members.entry, Members.receipt, Members.ofEntry, Option.map_map, Function.comp_def, hcode]

/-- **A record's line is read as the record**, and as a torn line where the time does not fit an `i64`. -/
theorem parseEntry_renderEntry {entry : Entry} (h : Typed entry) :
    parseEntry (renderEntry entry) = Slots.parseEntry (.record entry) := by
  obtain ⟨first, more, hmembers⟩ : ∃ first more, members entry = first :: more := ⟨_, _, rfl⟩
  have hfits := h.fits
  have hassign := assign_members h
  rw [hmembers] at hfits hassign
  have hread := readMembers_text {} hfits []
  rw [hassign] at hread
  have hquote : membersText (first :: more) ++ ['\x7d'] =
      '"' :: (membersText (first :: more) ++ ['\x7d']).tail := rfl
  have hspaces : Parser.spaces (membersText (first :: more) ++ ['\x7d']) = membersText (first :: more) ++ ['\x7d'] := by
    rw [hquote]
    exact spaces_cons rfl _
  have hbrace : Parser.eat '\x7d' (membersText (first :: more) ++ ['\x7d']) = none := by
    rw [hquote]
    rfl
  have hopen : Parser.eat '\x7b' ('\x7b' :: (membersText (first :: more) ++ ['\x7d'])) =
      some (membersText (first :: more) ++ ['\x7d']) := rfl
  have hobject : readObject (membersText (first :: more) ++ ['\x7d']) =
      readMembers {} (membersText (first :: more) ++ ['\x7d']) := by rw [readObject, hbrace]
  rw [renderEntry_eq, hmembers, parseEntry, spaces_cons rfl, hopen, Option.bind_some, hspaces, hobject, hread,
    Slots.parseEntry]
  split
  · exact entry_ofEntry h
  · rfl

/-! ## Continued lines -/

section Continued

variable {src rest : Text}

theorem spaces_append (h : Parser.spaces src ≠ []) (more : Text) :
    Parser.spaces (src ++ more) = Parser.spaces src ++ more := by
  rw [Parser.spaces, List.dropWhile_append, if_neg]
  · rfl
  · rw [List.isEmpty_iff]
    exact h

theorem eat_append {c : Char} (h : Parser.eat c src = some rest) (more : Text) :
    Parser.eat c (src ++ more) = some (rest ++ more) := by
  rw [Parser.eq_of_eat h]
  simp [Parser.eat]

theorem stringBody_append {s : Text} (h : Parser.stringBody src = some (s, rest)) (more : Text) :
    Parser.stringBody (src ++ more) = some (s, rest ++ more) := by
  fun_induction Parser.stringBody src generalizing s rest with
  | case1 => cases h
  | case2 src =>
    cases h
    rfl
  | case3 a b c d src ih =>
    obtain ⟨x, hx, h⟩ := Option.bind_eq_some_iff.mp h
    obtain ⟨⟨s', rest'⟩, hread, heq⟩ := Option.map_eq_some_iff.mp h
    cases heq
    simp only [List.cons_append, Parser.stringBody, hx, Option.bind_some, ih hread, Option.map_some]
  | case4 e src hu ih =>
    obtain ⟨x, hx, h⟩ := Option.bind_eq_some_iff.mp h
    obtain ⟨⟨s', rest'⟩, hread, heq⟩ := Option.map_eq_some_iff.mp h
    cases heq
    have he : e ≠ 'u' := by
      rintro rfl
      cases hx
    rw [List.cons_append, List.cons_append, Parser.stringBody.eq_def]
    simp [hx, ih hread, he]
  | case5 => cases h
  | case6 x src hquote _ hescape hlast ih =>
    obtain ⟨⟨s', rest'⟩, hread, heq⟩ := Option.map_eq_some_iff.mp h
    cases heq
    have hslash : x ≠ '\\' := by
      rintro rfl
      cases src with
      | nil => exact hlast rfl rfl
      | cons e src => exact hescape e src rfl rfl
    rw [List.cons_append, Parser.stringBody.eq_def]
    split <;> simp_all

theorem string_append {s : Text} (h : Parser.string src = some (s, rest)) (more : Text) :
    Parser.string (src ++ more) = some (s, rest ++ more) := by
  obtain ⟨inside, heat, hbody⟩ := Option.bind_eq_some_iff.mp h
  rw [Parser.string, eat_append heat, Option.bind_some, stringBody_append hbody]

/-- Digits that something stands behind. -/
theorem digits_append (h : src.dropWhile Char.isDigit ≠ []) (more : Text) :
    (src ++ more).takeWhile Char.isDigit = src.takeWhile Char.isDigit ∧
      (src ++ more).dropWhile Char.isDigit = src.dropWhile Char.isDigit ++ more := by
  rw [List.takeWhile_append, List.dropWhile_append, if_neg, if_neg]
  · exact ⟨rfl, rfl⟩
  · rwa [List.isEmpty_iff]
  · intro hlength
    have hsplit := congrArg List.length (@List.takeWhile_append_dropWhile _ Char.isDigit src)
    rw [List.length_append, hlength] at hsplit
    exact h (List.length_eq_zero_iff.mp (by omega))

theorem number_append {v : Value} (h : Parser.number src = some (v, rest)) (hrest : rest ≠ []) (more : Text) :
    Parser.number (src ++ more) = some (v, rest ++ more) := by
  rw [Parser.number.eq_def] at h
  split at h
  next src =>
    obtain ⟨n, hn, heq⟩ := Option.map_eq_some_iff.mp h
    cases heq
    obtain ⟨htake, hdrop⟩ := digits_append hrest more
    rw [List.cons_append, Parser.number, htake, hdrop, hn]
    rfl
  next hminus =>
    split at h
    next => cases h
    next hne =>
      obtain ⟨n, hn, heq⟩ := Option.map_eq_some_iff.mp h
      cases heq
      obtain ⟨htake, hdrop⟩ := digits_append hrest more
      rw [Parser.number.eq_def]
      split
      next src' heq =>
        cases src with
        | nil => exact absurd rfl hne
        | cons c src =>
          cases heq
          exact absurd rfl (hminus src)
      next => rw [htake, hdrop, if_neg hne, hn]; rfl

theorem value_append {v : Value} (h : Parser.value src = some (v, rest)) (hrest : rest ≠ []) (more : Text) :
    Parser.value (src ++ more) = some (v, rest ++ more) := by
  cases src with
  | nil => cases h
  | cons c src =>
    rw [Parser.value] at h
    rw [List.cons_append, Parser.value]
    split at h
    next hquote =>
      obtain ⟨⟨s, rest'⟩, hread, heq⟩ := Option.map_eq_some_iff.mp h
      cases heq
      rw [if_pos hquote, ← List.cons_append, string_append hread]
      rfl
    next hquote =>
      rw [if_neg hquote]
      split at h
      next hn =>
        split at h
        next hnull =>
          cases h
          have hlength : 4 ≤ (c :: src).length := hnull.length_le
          rw [if_pos hn, ← List.cons_append, if_pos (hnull.trans (List.prefix_append _ _)),
            List.drop_append_of_le_length hlength]
        next => cases h
      next hn =>
        rw [if_neg hn]
        exact number_append h hrest more

theorem readMember_append {m m' : Members} (h : readMember m src = some (m', rest)) (hrest : rest ≠ []) (more : Text) :
    readMember m (src ++ more) = some (m', rest ++ more) := by
  obtain ⟨key, afterKey, afterColon, v, afterValue, hkey, hcolon, hvalue, hassign, rfl⟩ := readMember_eq_some.mp h
  have h₁ : Parser.spaces src ≠ [] := by
    intro hnil
    rw [hnil] at hkey
    cases hkey
  have h₂ : Parser.spaces afterKey ≠ [] := by
    intro hnil
    rw [hnil] at hcolon
    cases hcolon
  have h₃ : Parser.spaces afterColon ≠ [] := by
    intro hnil
    rw [hnil] at hvalue
    cases hvalue
  have h₄ : afterValue ≠ [] := by
    rintro rfl
    exact hrest rfl
  refine readMember_eq_some.mpr ⟨key, afterKey ++ more, afterColon ++ more, v, afterValue ++ more, ?_, ?_, ?_, hassign, ?_⟩
  · rw [spaces_append h₁, string_append hkey]
  · rw [spaces_append h₂, eat_append hcolon]
  · rw [spaces_append h₃, value_append hvalue h₄]
  · exact spaces_append hrest more

/-- What a loop that ended has read first. -/
theorem readMembers_eq_some {m : Members} {read : Members × Text} (h : readMembers m src = some read) :
    ∃ m' rest, (readMember m src = some (m', ',' :: rest) ∧ readMembers m' rest = some read) ∨
      (readMember m src = some (m', '\x7d' :: rest) ∧ read = (m', rest)) := by
  cases hmember : readMember m src with
  | none =>
    rw [readMembers_none hmember] at h
    cases h
  | some first =>
    obtain ⟨m', rest⟩ := first
    rw [readMembers.eq_def] at h
    split at h
    next heq => cases h
    next heq =>
      rw [hmember] at heq
      cases heq
      split at h
      · exact ⟨_, _, .inl ⟨rfl, h⟩⟩
      · exact ⟨_, _, .inr ⟨rfl, (Option.some.inj h).symm⟩⟩
      · cases h

theorem readMembers_append {m m' : Members} {src rest : Text} (h : readMembers m src = some (m', rest)) (more : Text) :
    readMembers m (src ++ more) = some (m', rest ++ more) := by
  obtain ⟨m₁, rest₁, ⟨hmember, hmore⟩ | ⟨hmember, heq⟩⟩ := readMembers_eq_some h
  · have happend := readMember_append hmember (List.cons_ne_nil _ _) more
    have hlt : rest₁.length < src.length := Nat.lt_trans (Nat.lt_succ_self _) (length_readMember hmember)
    rw [readMembers_comma happend]
    exact readMembers_append hmore more
  · cases heq
    exact readMembers_brace (readMember_append hmember (List.cons_ne_nil _ _) more)
termination_by src.length

theorem readObject_nil : readObject [] = none := readMembers_none rfl

theorem readObject_append {m : Members} (h : readObject src = some (m, rest)) (more : Text) :
    readObject (src ++ more) = some (m, rest ++ more) := by
  rw [readObject] at h ⊢
  cases src with
  | nil =>
    have hnil := readObject_nil
    rw [readObject, h] at hnil
    cases hnil
  | cons c src =>
    rw [List.cons_append, Parser.eat] at *
    split at h
    next inner heat =>
      cases h
      split at heat
      next hc =>
        cases heat
        simp only [if_pos hc]
      next => cases heat
    next heat =>
      split at heat
      next => cases heat
      next hc =>
        simp only [if_neg hc]
        exact readMembers_append h more

/-- **A line that is a record is none once more than blanks stand behind it.** -/
theorem parseEntry_append {line : Text} {entry : Entry} (h : parseEntry line = some entry) {more : Text}
    (hmore : Parser.spaces more ≠ []) : parseEntry (line ++ more) = none := by
  obtain ⟨src, hopen, h⟩ := Option.bind_eq_some_iff.mp h
  obtain ⟨⟨m, rest⟩, hread, h⟩ := Option.bind_eq_some_iff.mp h
  have hline : Parser.spaces line ≠ [] := by
    intro hnil
    rw [hnil] at hopen
    cases hopen
  have hsrc : Parser.spaces src ≠ [] := by
    intro hnil
    rw [hnil, readObject_nil] at hread
    cases hread
  have hblank : (rest.dropWhile Parser.isBlank).isEmpty = true := by
    simp only at h
    split at h
    next hempty => exact hempty
    next => cases h
  have htail : ¬ (Parser.spaces (rest ++ more)).isEmpty = true := by
    rw [Parser.spaces, List.dropWhile_append, if_pos hblank, List.isEmpty_iff]
    exact hmore
  rw [parseEntry, spaces_append hline, eat_append hopen, Option.bind_some, spaces_append hsrc, readObject_append hread,
    Option.bind_some, if_neg htail]

end Continued

/-! ## Lines of a file -/

theorem newline_not_mem_escape (c : Char) : '\n' ∉ escape c := by
  have hhex : ∀ n < 16, '\n' ≠ Nat.digitChar n := by decide
  unfold escape
  split
  next => decide
  split
  next => decide
  split
  next => decide
  split
  next => decide
  split
  next => decide
  split
  next hlow =>
    have hbyte : (UInt8.ofNat c.toNat).toNat = c.toNat := by
      rw [UInt8.toNat_ofNat']
      omega
    rw [List.mem_append, not_or, hexByte, hbyte, List.mem_pair, not_or]
    exact ⟨by decide, hhex _ (by omega), hhex _ (by omega)⟩
  next hnewline _ _ _ =>
    rw [List.mem_singleton]
    exact fun h => hnewline h.symm

theorem newline_not_mem_jsonString (text : Text) : '\n' ∉ jsonString text := by
  simp only [jsonString, List.mem_cons, List.mem_append, List.mem_flatMap, List.not_mem_nil, or_false, not_or,
    not_exists, not_and]
  exact ⟨by decide, fun c _ => newline_not_mem_escape c, by decide⟩

theorem newline_not_mem_text (v : Value) : '\n' ∉ v.text := by
  cases v with
  | str s => exact newline_not_mem_jsonString s
  | null => decide
  | num n =>
    cases n with
    | ofNat n => exact Text.not_mem_decimal (by decide) n
    | negSucc n =>
      rw [Value.text, Text.integer, List.mem_cons, not_or]
      exact ⟨by decide, Text.not_mem_decimal (by decide) _⟩

theorem newline_not_mem_memberText (member : Text × Value) : '\n' ∉ memberText member := by
  rw [memberText, List.mem_append, List.mem_cons, not_or, not_or]
  exact ⟨newline_not_mem_jsonString _, by decide, newline_not_mem_text _⟩

theorem newline_not_mem_renderEntry (entry : Entry) : '\n' ∉ renderEntry entry := by
  obtain ⟨first, more, hmembers⟩ : ∃ first more, members entry = first :: more := ⟨_, _, rfl⟩
  rw [renderEntry_eq, hmembers, membersText]
  simp only [List.mem_cons, List.mem_append, List.mem_flatMap, List.not_mem_nil, or_false, not_or, not_exists, not_and]
  exact ⟨by decide, ⟨newline_not_mem_memberText first,
    fun member _ => ⟨by decide, newline_not_mem_memberText member⟩⟩, by decide⟩

theorem stripLine_line {front : Text} (hlast : front.getLast? ≠ some '\r') : stripLine (front ++ ['\n']) = front := by
  rw [stripLine, List.reverse_append, List.reverse_singleton, List.singleton_append]
  rcases List.eq_nil_or_concat front with rfl | ⟨before, c, rfl⟩
  · rfl
  · have hc : c ≠ '\r' := by
      rintro rfl
      exact hlast (by simp)
    simp [hc]

theorem stripLine_unfinished {tail : Text} (htail : '\n' ∉ tail) : stripLine tail = tail := by
  rw [stripLine]
  rcases List.eq_nil_or_concat tail with rfl | ⟨before, c, rfl⟩
  · rfl
  · have hc : c ≠ '\n' := by
      rintro rfl
      exact htail (by simp)
    simp [hc]

/-- A whole line of a file is read without its end. -/
theorem lines_line {front : Text} (hfront : '\n' ∉ front) (hlast : front.getLast? ≠ some '\r') (rest : Text) :
    lines (front ++ '\n' :: rest) = front :: lines rest := by
  have hwhole : Lines.Whole '\n' (front ++ ['\n']) := .inr ⟨front, rfl⟩
  have hcut : front ++ '\n' :: rest = (front ++ ['\n']) ++ rest := by simp
  rw [lines, hcut, Lines.splitInclusive_append hwhole, Lines.splitInclusive_line hfront, List.map_append, List.map_singleton,
    stripLine_line hlast]
  rfl

/-- An unfinished last line is read as it is. -/
theorem lines_unfinished {tail : Text} (htail : '\n' ∉ tail) (hne : tail ≠ []) : lines tail = [tail] := by
  rw [lines, Lines.splitInclusive_unfinished htail hne, List.map_singleton, stripLine_unfinished htail]

/-! ## Whole files -/

/-- A record the writer can be given and the reader can hold. -/
def Storable (entry : Entry) : Prop := Typed entry ∧ entry.atMs < 2 ^ 63

theorem Storable.parse {entry : Entry} (h : Storable entry) : parseEntry (renderEntry entry) = some entry := by
  rw [parseEntry_renderEntry h.1, Slots.parseEntry, if_pos h.2]

/-- A line that starts as records do is not blank. -/
theorem classify_brace (rest : Text) :
    classify ('\x7b' :: rest) =
      match parseEntry ('\x7b' :: rest) with
      | some entry => .record entry
      | none => .garbled := by
  have hblank : ¬ ('\x7b' :: rest).all isWhitespace = true := by simp [isWhitespace]
  rw [classify]
  exact if_neg hblank

theorem Storable.classify {entry : Entry} (h : Storable entry) : classify (renderEntry entry) = .record entry := by
  have hparse := h.parse
  rw [renderEntry_eq] at hparse ⊢
  rw [classify_brace, hparse]

theorem renderEntry_last (entry : Entry) : (renderEntry entry).getLast? = some '\x7d' := by
  rw [renderEntry_eq, ← List.cons_append]
  exact List.getLast?_concat

theorem lines_body {entries : List Entry} (rest : Text) :
    lines (body entries ++ rest) = entries.map renderEntry ++ lines rest := by
  induction entries with
  | nil => rfl
  | cons entry entries ih =>
    have hcut : body (entry :: entries) ++ rest = renderEntry entry ++ '\n' :: (body entries ++ rest) := by simp [body]
    have hlast : (renderEntry entry).getLast? ≠ some '\r' := by
      rw [renderEntry_last]
      decide
    rw [hcut, lines_line (newline_not_mem_renderEntry entry) hlast, ih]
    rfl

/-- What stands behind the records of a file is read where it stands. -/
theorem readLines_records {entries : List Entry} (h : ∀ entry ∈ entries, Storable entry) (n : Nat)
    (rest : List Slots.Line) :
    Slots.readLines n ((entries.map renderEntry).map classify ++ rest) =
      (Slots.readLines (n + entries.length) rest).map (entries ++ ·) := by
  induction entries generalizing n with
  | nil => cases hrest : Slots.readLines n rest <;> simp [hrest, Except.map]
  | cons entry entries ih =>
    have hentry := h entry List.mem_cons_self
    have hrest := ih (fun e he => h e (List.mem_cons_of_mem _ he)) (n + 1)
    have hlength : n + 1 + entries.length = n + (entries.length + 1) := by omega
    rw [List.map_cons, List.map_cons, List.cons_append, hentry.classify, Slots.readLines, Slots.parseEntry,
      if_pos hentry.2, hrest, List.length_cons, hlength]
    · cases Slots.readLines (n + (entries.length + 1)) rest <;> rfl
    · exact Slots.Line.noConfusion

/-- **The ledger's text is read back exactly, and a torn tail is always found.** A record's line holds no newline, is
read back as the record, and no part of it is a record; a file of records is read as the records, and with part of a
record behind them as torn there. -/
theorem ledger_text {entries : List Entry} (h : ∀ entry ∈ entries, Storable entry) :
    read (body entries) = .ok entries ∧
    ∀ entry, Storable entry →
      '\n' ∉ renderEntry entry ∧ parseEntry (renderEntry entry) = some entry ∧
      ∀ before after, before ++ after = renderEntry entry → before ≠ [] → after ≠ [] →
        parseEntry before = none ∧ read (body entries ++ before) = .error (entries.length + 1) := by
  have hread (rest : Text) : read (body entries ++ rest) =
      (Slots.readLines (1 + entries.length) ((lines rest).map classify)).map (entries ++ ·) := by
    rw [read, lines_body, List.map_append, readLines_records h]
  refine ⟨?_, ?_⟩
  · have hall := hread []
    rw [List.append_nil] at hall
    rw [hall]
    simp [lines, Lines.splitInclusive, Slots.readLines, Except.map]
  · intro entry hentry
    refine ⟨newline_not_mem_renderEntry entry, hentry.parse, ?_⟩
    intro before after hcut hbefore hafter
    have hline : '\n' ∉ before := fun hmem =>
      newline_not_mem_renderEntry entry (hcut ▸ List.mem_append_left _ hmem)
    -- What is cut off ends in the closing brace, which no accepted line goes on with.
    have hspaces : Parser.spaces after ≠ [] := by
      intro hnil
      have hlast := renderEntry_last entry
      rw [← hcut, List.getLast?_append_of_ne_nil _ hafter] at hlast
      have hblank := List.dropWhile_eq_nil_iff.mp hnil _ (List.mem_of_getLast? hlast)
      exact absurd hblank (by decide)
    have hnone : parseEntry before = none := by
      cases hparse : parseEntry before with
      | none => rfl
      | some other =>
        have happend := parseEntry_append hparse hspaces
        rw [hcut, hentry.parse] at happend
        cases happend
    refine ⟨hnone, ?_⟩
    obtain ⟨c, rest, rfl⟩ := List.exists_cons_of_ne_nil hbefore
    have hc : c = '\x7b' := by
      rw [renderEntry_eq, List.cons_append] at hcut
      exact (List.cons.inj hcut).1
    subst hc
    rw [hread, lines_unfinished hline (List.cons_ne_nil _ _), List.map_singleton, classify_brace, hnone, Nat.add_comm]
    rfl

/-- A record whose strings hold what lines are made of. -/
def awkward : Entry where
  slot := "s\"\\\x7d,\n"
  pane := "%1"
  action := "send"
  device := none
  atMs := 7
  pid := 42
  receipt := some { outcome := "sent", reason := some "\x01é", exitCode := -1 }

theorem ledger_text_awkward :
    read (body [awkward]) = .ok [awkward] ∧ parseEntry (renderEntry awkward) = some awkward := by
  have hawkward : Storable awkward := by
    refine ⟨⟨by decide, by decide, ?_⟩, by decide⟩
    rintro receipt ⟨⟩
    decide
  obtain ⟨hread, hentry⟩ := @ledger_text [awkward] fun entry hmem => List.mem_singleton.mp hmem ▸ hawkward
  exact ⟨hread, (hentry awkward hawkward).2.1⟩

end SlotText

end TmuxAgents
