/-
A field read from the raw text against the member of the payload's object.

The reader is right where the first place the raw text has the quoted name at is the member's
own name, and a string behind it needs no escape the reader does not know.
-/
import TmuxAgents.Dispatch.SlotText
import TmuxAgents.Lib.Assoc
import TmuxAgents.Payload.Field

namespace TmuxAgents.Payload

open Act (JsonWriter)
open Json (Ws Body StringText Nests Member Ahead Behind)

abbrev Members := List (Text × Json)

/-! ## Behind the colon -/

theorem isWhitespace_of_isWs {c : Char} (h : Json.isWs c = true) : isWhitespace c = true := by
  simp only [Json.isWs, Bool.or_eq_true, beq_iff_eq] at h
  rcases h with ((rfl | rfl) | rfl) | rfl <;> rfl

theorem isWhitespace_of_opens {c : Char} (h : Json.opens c = true) : isWhitespace c = false := by
  rw [Json.opens, Bool.or_eq_true] at h
  rcases h with h | h
  · revert h
    simp only [String.reduceToList, List.contains_eq_mem, List.mem_cons, List.not_mem_nil, or_false, decide_eq_true_eq]
    rintro (rfl | rfl | rfl | rfl | rfl | rfl | rfl) <;> rfl
  · simp only [Char.isDigit, ge_iff_le, Bool.and_eq_true, decide_eq_true_eq, UInt32.le_iff_toNat_le] at h
    have hlow : 48 ≤ c.toNat := h.1
    have hhigh : c.toNat ≤ 57 := h.2
    simp [isWhitespace]
    omega

theorem trimStart_gap {gap : Text} (h : Ws gap) {c : Char} (hc : isWhitespace c = false) (rest : Text) :
    trimStart (gap ++ c :: rest) = c :: rest :=
  trimStart_eq_cons.mpr ⟨gap, rfl, fun b hb => isWhitespace_of_isWs (h b hb), hc⟩

theorem afterField_first {front field gap after rest : Text} {c : Char}
    (hfirst : ∀ b a, front ++ quoted field = b ++ (quoted field ++ a) → b = front) (hgap : Ws gap) (hafter : Ws after)
    (hc : isWhitespace c = false) :
    afterField (front ++ (quoted field ++ (gap ++ ':' :: (after ++ c :: rest)))) field = some (c :: rest) := by
  rw [afterField, Text.splitOnce_first hfirst]
  simp only [trimStart_gap hgap (by decide : isWhitespace ':' = false), trimStart_gap hafter hc]

/-! ## The place of a member -/

/-- Where the payload has a member: the first so named, and its name the first place the raw text has the
quoted name at. -/
structure Place (payload : Text) (members : Members) (field : Text) where
  levels : Nat
  lead : Text
  before : Text
  gap : Text
  after : Text
  value : Text
  more : Text
  trail : Text
  front : Members
  json : Json
  back : Members
  text : payload = (lead ++ '\x7b' :: before) ++ (quoted field ++ (gap ++ ':' :: (after ++ (value ++ (more ++ '\x7d' :: trail)))))
  ws_lead : Ws lead
  ahead : Ahead (Member (Nests levels)) before front
  name : StringText (quoted field) field
  ws_gap : Ws gap
  ws_after : Ws after
  nests : Nests levels value json
  behind : Behind (Member (Nests levels)) more back
  ws_trail : Ws trail
  members_eq : members = front ++ (field, json) :: back
  new : ∀ m ∈ front, m.1 ≠ field
  first : ∀ b a, payload = b ++ (quoted field ++ a) → (lead ++ '\x7b' :: before).length ≤ b.length

/-- The quoted name is nowhere in the raw text and no member has it, or it stands first at the member's own name. -/
def Anchored (payload : Text) (members : Members) (field : Text) : Prop :=
  (¬ quoted field <:+: payload ∧ ∀ m ∈ members, m.1 ≠ field) ∨ Nonempty (Place payload members field)

namespace Place

variable {payload field : Text} {members : Members} (p : Place payload members field)

/-- What stands behind the value. -/
def tail : Text := p.more ++ '\x7d' :: p.trail

theorem get? : Assoc.get? members field = some p.json := by
  have hget : Assoc.get? (p.front ++ (field, p.json) :: p.back) field = some p.json := by
    rw [Assoc.get?_append_of_none (Assoc.get?_eq_none.mpr p.new), Assoc.get?, if_pos rfl]
  exact (congrArg (Assoc.get? · field) p.members_eq).trans hget

theorem first_eq {b a : Text} (h : (p.lead ++ '\x7b' :: p.before) ++ quoted field = b ++ (quoted field ++ a)) :
    b = p.lead ++ '\x7b' :: p.before := by
  have hle : (p.lead ++ '\x7b' :: p.before).length ≤ b.length := by
    refine p.first b (a ++ (p.gap ++ ':' :: (p.after ++ (p.value ++ (p.more ++ '\x7d' :: p.trail))))) (p.text.trans ?_)
    rw [← List.append_assoc, h]
    simp only [List.append_assoc]
  have hlength := congrArg List.length h
  simp only [List.length_append] at hle hlength
  refine (List.append_inj_left h ?_).symm
  simp only [List.length_append]
  omega

theorem afterField : afterField payload field = some (p.value ++ p.tail) := by
  obtain ⟨c, rest, hvalue, hc⟩ := p.nests.head
  have hfirst := @afterField_first (p.lead ++ '\x7b' :: p.before) field p.gap p.after (rest ++ p.tail) c
    (fun b a h => p.first_eq h) p.ws_gap p.ws_after (isWhitespace_of_opens hc)
  have htext := p.text
  rw [hvalue, List.cons_append] at htext
  rw [hvalue, List.cons_append]
  exact (congrArg (Payload.afterField · field) htext).trans hfirst

theorem document : Json.Document (p.levels + 1) payload (.obj members) := by
  have hmember : Member (Nests p.levels) (quoted field ++ (p.gap ++ ':' :: (p.after ++ p.value))) (field, p.json) :=
    ⟨_, _, _, _, rfl, p.name, p.ws_gap, p.ws_after, p.nests⟩
  have hlist := p.ahead.separated hmember p.behind
  rw [← p.members_eq] at hlist
  refine ⟨p.lead, _, p.trail, ?_, p.ws_lead, ⟨_, rfl, .inr hlist⟩, p.ws_trail⟩
  refine p.text.trans ?_
  simp only [List.append_assoc, List.cons_append, List.nil_append]

end Place

theorem nests_quoted {text : Text} (h : ∀ c ∈ text, Json.isPlain c = true) {levels : Nat} :
    Nests levels (quoted text) (.str text) := Json.nests_str.mpr (Json.stringText_plain h)

theorem member_quoted {name : Text} (h : ∀ c ∈ name, Json.isPlain c = true) {levels : Nat} {value : Text} {v : Json}
    (hv : Nests levels value v) : Member (Nests levels) (quoted name ++ ':' :: value) (name, v) :=
  ⟨quoted name, [], [], value, rfl, Json.stringText_plain h, Json.ws_nil, Json.ws_nil, hv⟩

/-- The member an object's text starts with. -/
def Place.atHead {name : Text} (h : ∀ c ∈ name, Json.isPlain c = true) {levels : Nat} {value more : Text} {v : Json}
    {back : Members} (hv : Nests levels value v) (hmore : Behind (Member (Nests levels)) more back) :
    Place ('\x7b' :: (quoted name ++ ':' :: (value ++ (more ++ ['\x7d'])))) ((name, v) :: back) name where
  levels := levels
  lead := []
  before := []
  gap := []
  after := []
  value := value
  more := more
  trail := []
  front := []
  json := v
  back := back
  text := rfl
  ws_lead := Json.ws_nil
  ahead := .inl ⟨rfl, Json.ws_nil⟩
  name := Json.stringText_plain h
  ws_gap := Json.ws_nil
  ws_after := Json.ws_nil
  nests := hv
  behind := hmore
  ws_trail := Json.ws_nil
  members_eq := rfl
  new := by simp
  first := by
    intro b a heq
    cases b with
    | nil => cases heq
    | cons c b => exact Nat.succ_le_succ (Nat.zero_le _)

theorem nests_object {name : Text} (h : ∀ c ∈ name, Json.isPlain c = true) {levels : Nat} {value more : Text} {v : Json}
    {back : Members} (hv : Nests levels value v) (hmore : Behind (Member (Nests levels)) more back) :
    Nests (levels + 1) ('\x7b' :: (quoted name ++ ':' :: (value ++ (more ++ ['\x7d'])))) (.obj ((name, v) :: back)) := by
  have hahead : Ahead (Member (Nests levels)) [] [] := .inl ⟨rfl, Json.ws_nil⟩
  refine ⟨_, ?_, .inr (hahead.separated (member_quoted h hv) hmore)⟩
  simp only [List.append_assoc, List.cons_append, List.nil_append]

theorem afterField_absent {payload field : Text} (h : ¬ quoted field <:+: payload) : afterField payload field = none := by
  rw [afterField, Text.splitOnce_eq_none h]

/-! ## Strings read by hand -/

/-- A body, as the reader takes it. -/
def byHand : Text → Text
  | [] => []
  | ['\\'] => []
  | '\\' :: letter :: rest => unescape letter :: byHand rest
  | c :: rest => c :: byHand rest

/-- Up to the closing quote, no escape the reader does not know. -/
def simpleEscapes : Text → Bool
  | [] => true
  | ['\\'] => true
  | '\\' :: letter :: rest => !"bfru".toList.contains letter && simpleEscapes rest
  | '"' :: _ => true
  | _ :: rest => simpleEscapes rest

theorem readString_cons {c : Char} (hslash : c ≠ '\\') (hquote : c ≠ '"') (out rest : Text) :
    readString out (c :: rest) = readString (out ++ [c]) rest := by
  conv_lhs => unfold readString
  split <;> simp_all

theorem byHand_cons {c : Char} (hslash : c ≠ '\\') (rest : Text) : byHand (c :: rest) = c :: byHand rest := by
  conv_lhs => unfold byHand
  split <;> simp_all

theorem simpleEscapes_cons {c : Char} (hslash : c ≠ '\\') (hquote : c ≠ '"') (rest : Text) :
    simpleEscapes (c :: rest) = simpleEscapes rest := by
  conv_lhs => unfold simpleEscapes
  split <;> simp_all

theorem isPlain_ne {c : Char} (h : Json.isPlain c = true) : c ≠ '\\' ∧ c ≠ '"' := by
  simp only [Json.isPlain, ne_eq, decide_not, Bool.and_eq_true, Bool.not_eq_true', decide_eq_false_iff_not] at h
  exact ⟨h.1.2, h.1.1⟩

/-- Hex digits are read as they stand. -/
theorem hex_plain {n code : Nat} {digits : Text} (h : Json.hexValue n digits = some code) :
    ∀ c ∈ digits, c ≠ '\\' ∧ c ≠ '"' := by
  induction digits generalizing n with
  | nil => simp
  | cons d digits ih =>
    rw [Json.hexValue] at h
    split at h
    · cases h
    next value hd =>
      intro c hc
      rcases List.mem_cons.mp hc with rfl | hc
      · constructor <;> rintro rfl <;> cases hd
      · exact ih h c hc

section

variable {run : Text} (h : ∀ c ∈ run, c ≠ '\\' ∧ c ≠ '"')

include h

theorem readString_run (out rest : Text) : readString out (run ++ rest) = readString (out ++ run) rest := by
  induction run generalizing out with
  | nil => simp
  | cons c run ih =>
    have hc := h c List.mem_cons_self
    rw [List.cons_append, readString_cons hc.1 hc.2, ih fun d hd => h d (List.mem_cons_of_mem _ hd), List.append_assoc]
    rfl

theorem byHand_run (rest : Text) : byHand (run ++ rest) = run ++ byHand rest := by
  induction run with
  | nil => rfl
  | cons c run ih =>
    rw [List.cons_append, byHand_cons (h c List.mem_cons_self).1, ih fun d hd => h d (List.mem_cons_of_mem _ hd)]
    rfl

end

theorem readString_body {body : Text} {pieces : List Json.Piece} (h : Body body pieces) (out rest : Text) :
    readString out (body ++ '"' :: rest) = some (out ++ byHand body) := by
  induction h generalizing out with
  | nil => simp [readString, byHand]
  | plain hc _ ih =>
    have hne := isPlain_ne hc
    rw [List.cons_append, readString_cons hne.1 hne.2, ih, byHand_cons hne.1, List.append_assoc]
    rfl
  | @short letter c text pieces _ _ ih =>
    have hread : readString out ('\\' :: letter :: (text ++ '"' :: rest)) =
        readString (out ++ [unescape letter]) (text ++ '"' :: rest) := rfl
    have hhand : byHand ('\\' :: letter :: text) = unescape letter :: byHand text := rfl
    rw [List.cons_append, List.cons_append, hread, ih, hhand, List.append_assoc]
    rfl
  | @unit digits text code pieces _ hvalue _ ih =>
    have hread : readString out ('\\' :: 'u' :: (digits ++ (text ++ '"' :: rest))) =
        readString (out ++ ['u']) (digits ++ (text ++ '"' :: rest)) := rfl
    have hhand : byHand ('\\' :: 'u' :: (digits ++ text)) = 'u' :: byHand (digits ++ text) := rfl
    have hplain := hex_plain hvalue
    rw [List.cons_append, List.cons_append, List.append_assoc, hread, readString_run hplain, ih, hhand, byHand_run hplain]
    simp only [List.append_assoc, List.cons_append, List.nil_append]

theorem length_decode_le {body : Text} {pieces : List Json.Piece} (h : Body body pieces) :
    (Json.decode pieces).length ≤ (byHand body).length := by
  induction h with
  | nil => exact Nat.le_refl _
  | plain hc _ ih =>
    rw [byHand_cons (isPlain_ne hc).1]
    exact Nat.succ_le_succ ih
  | short _ _ ih => exact Nat.succ_le_succ ih
  | @unit digits text code pieces _ hvalue _ ih =>
    have hhand : byHand ('\\' :: 'u' :: (digits ++ text)) = 'u' :: byHand (digits ++ text) := rfl
    have hdecode := Json.length_decode_unit code pieces
    rw [hhand, byHand_run (hex_plain hvalue)]
    simp only [List.length_cons, List.length_append]
    omega

theorem unescape_iff {letter c : Char} (h : Json.shortEscape letter = some c) :
    unescape letter = c ↔ "bfru".toList.contains letter = false := by
  unfold Json.shortEscape at h
  split at h
  next hl => cases hl; cases h; decide
  split at h
  next hl => cases hl; cases h; decide
  split at h
  next hl => cases hl; cases h; decide
  split at h
  next hl => cases hl; cases h; decide
  split at h
  next hl => cases hl; cases h; decide
  split at h
  next hl => cases hl; cases h; decide
  split at h
  next hl => cases hl; cases h; decide
  split at h
  next hl => cases hl; cases h; decide
  cases h

/-- What is read by hand is what the string denotes just where its escapes are known. -/
theorem byHand_eq_decode {body : Text} {pieces : List Json.Piece} (h : Body body pieces) (rest : Text) :
    byHand body = Json.decode pieces ↔ simpleEscapes (body ++ '"' :: rest) = true := by
  induction h with
  | nil => exact ⟨fun _ => rfl, fun _ => rfl⟩
  | plain hc _ ih =>
    have hne := isPlain_ne hc
    rw [byHand_cons hne.1, Json.decode, List.cons_append, simpleEscapes_cons hne.1 hne.2, ← ih]
    simp only [List.cons.injEq, true_and]
  | @short letter c text pieces hletter _ ih =>
    have hsimple : simpleEscapes ('\\' :: letter :: (text ++ '"' :: rest)) =
        (!"bfru".toList.contains letter && simpleEscapes (text ++ '"' :: rest)) := rfl
    have hhand : byHand ('\\' :: letter :: text) = unescape letter :: byHand text := rfl
    rw [hhand, Json.decode, List.cons_append, List.cons_append, hsimple, Bool.and_eq_true, ← ih, Bool.not_eq_true',
      ← unescape_iff hletter]
    simp only [List.cons.injEq]
  | @unit digits text code pieces hdigits hvalue hrest ih =>
    have hsimple : simpleEscapes ('\\' :: 'u' :: (digits ++ text) ++ '"' :: rest) = false := rfl
    have hhand : byHand ('\\' :: 'u' :: (digits ++ text)) = 'u' :: byHand (digits ++ text) := rfl
    rw [hsimple]
    refine iff_of_false (fun heq => ?_) Bool.false_ne_true
    have hlength := congrArg List.length heq
    have hdecode := Json.length_decode_unit code pieces
    have hle := length_decode_le hrest
    rw [hhand, byHand_run (hex_plain hvalue)] at hlength
    simp only [List.length_cons, List.length_append] at hlength
    omega

/-! ## A string field -/

/-- The first member so named, where it is a string. -/
def stringMember (members : Members) (field : Text) : Option Text :=
  match Assoc.get? members field with
  | some (.str s) => some s
  | _ => none

/-- A string behind the quoted name needs no escape but those the reader knows. -/
def SimplySpelled (payload field : Text) : Prop :=
  ∀ rest, afterField payload field = some ('"' :: rest) → simpleEscapes rest = true

theorem stringField_of_not_quote {payload field : Text} (h : ∀ rest, afterField payload field ≠ some ('"' :: rest)) :
    jsonStringField payload field = none ∧ SimplySpelled payload field := by
  refine ⟨?_, fun rest hrest => absurd hrest (h rest)⟩
  rw [jsonStringField]
  split
  next rest hrest => exact absurd hrest (h rest)
  next => rfl

theorem Place.stringField_str {payload field s : Text} {members : Members} (p : Place payload members field)
    (hjson : p.json = .str s) : jsonStringField payload field = some s ↔ SimplySpelled payload field := by
  have hafter := p.afterField
  have hnests := p.nests
  rw [hjson] at hnests
  obtain ⟨body, pieces, hvalue, hbody, rfl⟩ := Json.nests_str.mp hnests
  have htail : p.value ++ p.tail = '"' :: (body ++ '"' :: p.tail) := by simp [hvalue]
  rw [htail] at hafter
  have hfield : jsonStringField payload field = some (byHand body) := by
    rw [jsonStringField, hafter]
    exact readString_body hbody [] p.tail
  rw [hfield, Option.some.injEq, byHand_eq_decode hbody p.tail]
  constructor
  · intro hsimple rest heq
    rw [hafter] at heq
    cases heq
    exact hsimple
  · intro hsimple
    exact hsimple _ hafter

theorem Place.stringField {payload field : Text} {members : Members} (p : Place payload members field) :
    jsonStringField payload field = stringMember members field ↔ SimplySpelled payload field := by
  have hget := p.get?
  by_cases hstr : ∃ s, p.json = .str s
  · obtain ⟨s, hjson⟩ := hstr
    rw [stringMember, hget, hjson]
    exact p.stringField_str hjson
  · obtain ⟨hnone, hspelled⟩ := @stringField_of_not_quote payload field (by
      intro rest hrest
      rw [p.afterField, Option.some.injEq] at hrest
      obtain ⟨c, more, hvalue, -⟩ := p.nests.head
      rw [hvalue, List.cons_append, List.cons.injEq] at hrest
      have hnests := p.nests
      rw [hvalue, hrest.1] at hnests
      exact hstr hnests.of_quote)
    refine iff_of_true ?_ hspelled
    rw [hnone, stringMember, hget]
    split
    next s heq => exact absurd ⟨s, Option.some.inj heq⟩ hstr
    next => rfl

theorem anchored_stringField {payload field : Text} {members : Members} (h : Anchored payload members field) :
    jsonStringField payload field = stringMember members field ↔ SimplySpelled payload field := by
  rcases h with ⟨hname, hmembers⟩ | ⟨⟨p⟩⟩
  · have hafter := afterField_absent hname
    obtain ⟨hnone, hspelled⟩ := @stringField_of_not_quote payload field (by rw [hafter]; rintro rest heq; cases heq)
    refine iff_of_true ?_ hspelled
    rw [hnone, stringMember, Assoc.get?_eq_none.mpr hmembers]
  · exact p.stringField

/-! ## What the writer wrote -/

/-- An object of one string, as the writer writes it. -/
def written (field text : Text) : Text := ((JsonWriter.new.beginObject.string field text).endObject).finish

/-- The reader knows the character's escape, or it needs none. -/
def Known (c : Char) : Prop := 0x20 ≤ c.toNat ∨ c = '\n' ∨ c = '\t'

instance (c : Char) : Decidable (Known c) := inferInstanceAs (Decidable (_ ∨ _))

/-- An escaped character, as the reader takes it. -/
def misread (c : Char) : Text :=
  if Known c then [c]
  else if c = '\r' then ['r']
  else 'u' :: '0' :: '0' :: hexByte (.ofNat c.toNat)

theorem hexByte_plain (b : UInt8) : ∀ c ∈ hexByte b, c ≠ '\\' ∧ c ≠ '"' := by
  have hdigit : ∀ n < 16, Nat.digitChar n ≠ '\\' ∧ Nat.digitChar n ≠ '"' := by decide
  have hlt := b.toNat_lt
  intro c hc
  simp only [hexByte, List.mem_cons, List.not_mem_nil, or_false] at hc
  rcases hc with rfl | rfl
  · exact hdigit _ (by omega)
  · exact hdigit _ (by omega)

theorem readString_escape (out : Text) (c : Char) (rest : Text) :
    readString out (JsonWriter.escape c ++ rest) = readString (out ++ misread c) rest := by
  unfold JsonWriter.escape
  split
  next h => subst h; rfl
  split
  next h => subst h; rfl
  split
  next h => subst h; rfl
  split
  next h => subst h; rfl
  split
  next h => subst h; rfl
  split
  next hnewline hreturn htab hlow =>
    have hknown : ¬ Known c := by
      rintro (hge | rfl | rfl)
      · omega
      · exact hnewline rfl
      · exact htab rfl
    have hread : readString out ("\\u00".toList ++ hexByte (.ofNat c.toNat) ++ rest) =
        readString (out ++ ['u']) ('0' :: '0' :: hexByte (.ofNat c.toNat) ++ rest) := rfl
    have hplain : ∀ d ∈ '0' :: '0' :: hexByte (.ofNat c.toNat), d ≠ '\\' ∧ d ≠ '"' := by
      intro d hd
      simp only [List.mem_cons] at hd
      rcases hd with rfl | rfl | hd
      · decide
      · decide
      · exact hexByte_plain _ d hd
    rw [hread, readString_run hplain, misread, if_neg hknown, if_neg hreturn, List.append_assoc]
    rfl
  next hquote hslash _ _ _ hlow =>
    rw [List.singleton_append, readString_cons hslash hquote, misread, if_pos (.inl (by omega))]

theorem readString_flatMap (out text rest : Text) :
    readString out (text.flatMap JsonWriter.escape ++ '"' :: rest) = some (out ++ text.flatMap misread) := by
  induction text generalizing out with
  | nil => simp [readString]
  | cons c text ih => rw [List.flatMap_cons, List.append_assoc, readString_escape, ih, List.flatMap_cons, List.append_assoc]

theorem flatMap_misread (text : Text) : text.flatMap misread = text ↔ ∀ c ∈ text, Known c := by
  have hpos (c : Char) : 1 ≤ (misread c).length := by
    unfold misread
    split
    · exact Nat.le_refl _
    · split <;> simp
  have hle (text : Text) : text.length ≤ (text.flatMap misread).length := by
    induction text with
    | nil => exact Nat.le_refl _
    | cons c text ih =>
      have hc := hpos c
      simp only [List.flatMap_cons, List.length_append, List.length_cons]
      omega
  induction text with
  | nil => simp
  | cons c text ih =>
    rw [List.flatMap_cons, List.forall_mem_cons]
    by_cases hknown : Known c
    · simp [misread, hknown, ih]
    · refine iff_of_false (fun heq => ?_) fun h => hknown h.1
      rw [misread, if_neg hknown] at heq
      split at heq
      next hreturn =>
        rw [hreturn] at heq
        cases heq
      next =>
        have hlength := congrArg List.length heq
        have htext := hle text
        simp only [List.length_append, List.length_cons] at hlength
        omega

theorem escape_plain {c : Char} (h : Json.isPlain c = true) : JsonWriter.escape c = [c] := by
  have hne := isPlain_ne h
  have hlow : ¬ c.toNat < 0x20 := by
    simp only [Json.isPlain, Bool.and_eq_true, Bool.not_eq_true', decide_eq_false_iff_not] at h
    exact h.2
  have hctrl (d : Char) (hd : d.toNat < 0x20) : c ≠ d := by
    rintro rfl
    exact hlow hd
  rw [JsonWriter.escape, if_neg hne.2, if_neg hne.1, if_neg (hctrl '\n' (by decide)), if_neg (hctrl '\r' (by decide)),
    if_neg (hctrl '\t' (by decide)), if_neg hlow]

theorem written_eq {field : Text} (h : ∀ c ∈ field, Json.isPlain c = true) (text : Text) :
    written field text =
      ['\x7b'] ++ (quoted field ++ ([] ++ ':' :: ([] ++ '"' :: (text.flatMap JsonWriter.escape ++ '"' :: ['\x7d'])))) := by
  have hfield : field.flatMap JsonWriter.escape = field := by
    induction field with
    | nil => rfl
    | cons c field ih =>
      rw [List.flatMap_cons, escape_plain (h c List.mem_cons_self), ih fun d hd => h d (List.mem_cons_of_mem _ hd)]
      rfl
  simp [written, JsonWriter.new, JsonWriter.beginObject, JsonWriter.string, JsonWriter.key, JsonWriter.mark, JsonWriter.sep,
    JsonWriter.push, JsonWriter.endObject, JsonWriter.finish, JsonWriter.jsonString, quoted, hfield]

theorem written_stringField {field : Text} (h : ∀ c ∈ field, Json.isPlain c = true) (text : Text) :
    jsonStringField (written field text) field = some (text.flatMap misread) := by
  have hfirst : ∀ b a, ['\x7b'] ++ quoted field = b ++ (quoted field ++ a) → b = ['\x7b'] := by
    intro b a heq
    have hlength := congrArg List.length heq
    simp only [List.length_append, List.length_singleton] at hlength
    cases b with
    | nil => cases heq
    | cons c b =>
      rw [List.length_cons] at hlength
      obtain rfl := List.length_eq_zero_iff.mp (by omega : b.length = 0)
      rw [(List.cons.inj heq).1]
  rw [written_eq h, jsonStringField, afterField_first hfirst Json.ws_nil Json.ws_nil (by decide)]
  exact readString_flatMap [] text _

/-! ## Extraction -/

/-- **A hook payload's string field is read right just where nothing shadows it and its escapes are known.** Where the
quoted name stands nowhere in the raw text and no member has it, or stands first at the name of the first member that
has it, the reader answers with that member's string exactly if the string is spelled without `\b`, `\f`, `\r` and
`\u`. And it reads back what the writer wrote exactly if that holds no control character but a newline or a tab. -/
theorem string_field_exact (levels : Nat) (payload : Text) (members : List (Text × Json)) (field text : Text) :
    (Json.Document levels payload (.obj members) → Anchored payload members field →
        (jsonStringField payload field = stringMember members field ↔ SimplySpelled payload field)) ∧
      ((∀ c ∈ field, Json.isPlain c = true) →
        (jsonStringField (written field text) field = some text ↔ ∀ c ∈ text, Known c)) := by
  refine ⟨fun _ hanchored => anchored_stringField hanchored, fun hfield => ?_⟩
  rw [written_stringField hfield, Option.some.injEq, flatMap_misread]

/-- A payload of one string. -/
theorem string_field_exact_alone :
    jsonStringField ('\x7b' :: (quoted ['f'] ++ ':' :: (quoted ['x'] ++ ['\x7d']))) ['f'] = some ['x'] ∧
      jsonStringField (written ['f'] ['a', '\n']) ['f'] = some ['a', '\n'] := by
  have hplace := @Place.atHead ['f'] (by decide) 0 (quoted ['x']) [] (.str ['x']) [] (nests_quoted (by decide))
    (.inl ⟨rfl, Json.ws_nil⟩)
  have hsimple : SimplySpelled ('\x7b' :: (quoted ['f'] ++ ':' :: (quoted ['x'] ++ ['\x7d']))) ['f'] := by
    intro rest heq
    have hafter : afterField ('\x7b' :: (quoted ['f'] ++ ':' :: (quoted ['x'] ++ ['\x7d']))) ['f'] =
        some (quoted ['x'] ++ ['\x7d']) := by decide
    rw [hafter] at heq
    cases heq
    rfl
  exact ⟨((string_field_exact _ _ _ _ []).1 hplace.document (.inr ⟨hplace⟩)).mpr hsimple,
    ((string_field_exact 0 [] [] ['f'] ['a', '\n']).2 (by decide)).mpr (by decide)⟩

/-- A nested member shadows the one at the top. -/
theorem nested_member_shadows :
    ¬ ∀ levels payload members field, Json.Document levels payload (.obj members) →
        jsonStringField payload field = stringMember members field := by
  intro h
  have hinner : Nests 1 ('\x7b' :: (quoted ['f'] ++ ':' :: (quoted ['x'] ++ ['\x7d']))) (.obj [(['f'], .str ['x'])]) :=
    @nests_object ['f'] (by decide) 0 _ [] _ _ (nests_quoted (by decide)) (.inl ⟨rfl, Json.ws_nil⟩)
  have hmore : Behind (Member (Nests 1)) (',' :: (quoted ['f'] ++ ':' :: quoted ['y'])) [(['f'], .str ['y'])] :=
    .inr ⟨[], _, rfl, Json.ws_nil, .one (Json.padded_self (member_quoted (by decide) (nests_quoted (by decide))))⟩
  have hdocument := Json.padded_self (@nests_object ['a'] (by decide) _ _ _ _ _ hinner hmore)
  have hshadowed := h 2 _ _ ['f'] hdocument
  revert hshadowed
  decide

end TmuxAgents.Payload
