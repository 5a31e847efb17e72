/-
The minted id over a payload's object: the walk never cuts a character and always ends, it
finds the entries of the tool input whatever stands between their tokens, and so two
payloads that say the same get one id.
-/
import TmuxAgents.Lib.JsonBrackets
import TmuxAgents.Payload.CallId
import TmuxAgents.Payload.FieldFacts

namespace TmuxAgents.Payload

open Json (Ws Quoted Balanced Shape Body Nests Member Elements)

/-! ## The walk ends -/

theorem readJsonString_split {i n : Nat} {out key text : Text} (h : readJsonString i out text = some (key, n)) :
    ∃ a b, text = a ++ b ∧ n = i + Text.len a := by
  fun_induction readJsonString i out text with
  | case1 => cases h
  | case2 => cases h
  | case3 i out letter rest ih =>
    obtain ⟨a, b, rfl, rfl⟩ := ih h
    refine ⟨'\\' :: letter :: a, b, rfl, ?_⟩
    rw [Text.len_cons, Text.len_cons]
    omega
  | case4 i out rest =>
    cases h
    exact ⟨['"'], rest, rfl, rfl⟩
  | case5 i out c rest _ _ _ ih =>
    obtain ⟨a, b, rfl, rfl⟩ := ih h
    refine ⟨c :: a, b, rfl, ?_⟩
    rw [Text.len_cons]
    omega

theorem inStringStep_closes {escaped : Bool} {c : Char} (h : (inStringStep escaped c).1 = false) : c = '"' := by
  unfold inStringStep at h
  split at h
  · cases h
  split at h
  · cases h
  split at h
  next hc => exact hc
  next => cases h

theorem jsonValueLen_split (i depth : Nat) (inString escaped : Bool) (text : Text) :
    ∃ a b, text = a ++ b ∧ jsonValueLen i depth inString escaped text = i + Text.len a := by
  induction text generalizing i depth inString escaped with
  | nil => exact ⟨[], [], rfl, rfl⟩
  | cons c rest ih =>
    have hnext (d : Nat) (s e : Bool) :
        ∃ a b, c :: rest = a ++ b ∧ jsonValueLen (i + c.utf8Size) d s e rest = i + Text.len a := by
      obtain ⟨a, b, hrest, hlen⟩ := ih (i + c.utf8Size) d s e
      refine ⟨c :: a, b, by rw [hrest, List.cons_append], ?_⟩
      rw [hlen, Text.len_cons, Nat.add_assoc]
    have hhere : ∃ a b, c :: rest = a ++ b ∧ i = i + Text.len a := ⟨[], c :: rest, rfl, rfl⟩
    have hlast : ∃ a b, c :: rest = a ++ b ∧ i + c.utf8Size = i + Text.len a :=
      ⟨[c], rest, rfl, by rw [Text.len_cons, Text.len_nil, Nat.add_zero]⟩
    rw [jsonValueLen]
    split
    · split
      next hstop =>
        obtain rfl := inStringStep_closes hstop.1
        exact hlast
      next => exact hnext _ _ _
    split
    · exact hnext _ _ _
    split
    · exact hnext _ _ _
    split
    · split
      · exact hhere
      split
      · exact hlast
      · exact hnext _ _ _
    split
    · exact hhere
    · exact hnext _ _ _

theorem length_trimStart_le (text : Text) : (trimStart text).length ≤ text.length :=
  (List.dropWhile_suffix (l := text) _).length_le

theorem length_skipComma_le (text : Text) : (skipComma text).length ≤ text.length := by
  unfold skipComma
  split
  · exact Nat.le_succ _
  · exact Nat.le_refl _

/-- No entry is cut inside a character, and what is left behind it is no longer than what was there. -/
theorem walkEntry_total (afterQuote : Text) :
    walkEntry afterQuote = some none ∨
      ∃ entry rest, walkEntry afterQuote = some (some (entry, rest)) ∧ rest.length ≤ afterQuote.length := by
  rw [walkEntry]
  split
  · exact .inl rfl
  next key used hkey =>
    obtain ⟨a, tail, rfl, rfl⟩ := readJsonString_split hkey
    rw [Nat.zero_add, Text.splitAtByte_append]
    simp only
    split
    next value hcolon =>
      obtain ⟨text, rest, hvalue, hlen⟩ := jsonValueLen_split 0 0 false false (trimStart value)
      rw [hlen, Nat.zero_add, hvalue, Text.splitAtByte_append]
      refine .inr ⟨_, _, rfl, ?_⟩
      have h₁ := length_trimStart_le tail
      have h₂ := length_trimStart_le value
      have h₃ := length_trimStart_le (skipComma (trimStart rest))
      have h₄ := length_skipComma_le (trimStart rest)
      have h₅ := length_trimStart_le rest
      rw [hcolon, List.length_cons] at h₁
      rw [hvalue, List.length_append] at h₂
      rw [List.length_append]
      omega
    next => exact .inl rfl

theorem walk_total {fuel : Nat} (entries : Entries) {rest : Text} (h : rest.length < fuel) :
    ∃ found, walk fuel entries rest = some found := by
  induction fuel generalizing entries rest with
  | zero => cases h
  | succ fuel ih =>
    rw [walk.eq_def]
    split
    next heq => cases heq
    next afterQuote heq =>
      cases heq
      rcases walkEntry_total afterQuote with hend | ⟨entry, rest, hentry, hlength⟩
      · exact ⟨_, by rw [hend]⟩
      · rw [List.length_cons] at h
        rw [hentry]
        exact ih _ (by omega)
    next => exact ⟨_, rfl⟩

theorem canonicalObject_total (obj : Text) : ∃ text, canonicalObject obj = some text := by
  obtain ⟨⟨entries, rest⟩, hwalk⟩ := walk_total [] (Nat.lt_succ_self (trimEnd (trimStart (stripBraces obj))).length)
  refine ⟨if rest.isEmpty then joinEntries entries else obj, ?_⟩
  rw [canonicalObject, hwalk]

/-! ## A value's end -/

@[simp] theorem utf8Size_quote : '"'.utf8Size = 1 := rfl

/-- What is read by hand, character by character. -/
theorem readJsonString_quoted {body : Text} (h : Quoted body) (i : Nat) (out rest : Text) :
    readJsonString i out (body ++ '"' :: rest) = some (out ++ byHand body, i + Text.len body + 1) := by
  induction h generalizing i out with
  | nil => simp [readJsonString, byHand]
  | @plain c text hquote hslash _ ih =>
    have hstep : readJsonString i out (c :: (text ++ '"' :: rest)) =
        readJsonString (i + c.utf8Size) (out ++ [c]) (text ++ '"' :: rest) := by
      conv_lhs => unfold readJsonString
      split <;> simp_all
    rw [List.cons_append, hstep, ih, byHand_cons hslash, Text.len_cons]
    simp [Nat.add_assoc]
  | @escaped c text _ ih =>
    have hstep : readJsonString i out ('\\' :: c :: (text ++ '"' :: rest)) =
        readJsonString (i + '\\'.utf8Size + c.utf8Size) (out ++ [unescape c]) (text ++ '"' :: rest) := rfl
    have hhand : byHand ('\\' :: c :: text) = unescape c :: byHand text := rfl
    rw [List.cons_append, List.cons_append, hstep, ih, hhand, Text.len_cons, Text.len_cons]
    simp [Nat.add_assoc]

theorem jsonValueLen_string {body : Text} (h : Quoted body) (i depth : Nat) (rest : Text) :
    jsonValueLen i depth true false (body ++ '"' :: rest) =
      if depth = 0 then i + Text.len body + 1 else jsonValueLen (i + Text.len body + 1) depth false false rest := by
  induction h generalizing i with
  | nil => simp [jsonValueLen, inStringStep]
  | @plain c text hquote hslash _ ih =>
    rw [List.cons_append, jsonValueLen]
    simp [inStringStep, hquote, hslash, ih, Text.len_cons, Nat.add_assoc]
  | @escaped c text _ ih =>
    rw [List.cons_append, List.cons_append, jsonValueLen]
    simp [inStringStep, jsonValueLen, ih, Text.len_cons, Nat.add_assoc]

theorem jsonValueLen_balanced {text : Text} (h : Balanced text) (i : Nat) {depth : Nat} (hdepth : 0 < depth) (rest : Text) :
    jsonValueLen i depth false false (text ++ rest) = jsonValueLen (i + Text.len text) depth false false rest := by
  induction h generalizing i depth rest with
  | nil => rfl
  | @char c text hquote hbracket _ ih =>
    simp only [Json.isBracket, Bool.or_eq_false_iff, beq_eq_false_iff_ne] at hbracket
    rw [List.cons_append, jsonValueLen]
    simp [hquote, hbracket, Nat.ne_of_gt hdepth, ih _ hdepth, Text.len_cons, Nat.add_assoc]
  | @string body text hbody _ ih =>
    have hshape : '"' :: (body ++ '"' :: text) ++ rest = '"' :: (body ++ '"' :: (text ++ rest)) := by simp
    rw [hshape, jsonValueLen]
    simp [jsonValueLen_string hbody, Nat.ne_of_gt hdepth, ih _ hdepth, Text.len_cons, Text.len_append, Nat.add_assoc]
  | @braces inner text _ _ ihinner ih =>
    have hshape : '\x7b' :: (inner ++ '\x7d' :: text) ++ rest = '\x7b' :: (inner ++ '\x7d' :: (text ++ rest)) := by simp
    rw [hshape, jsonValueLen]
    simp [ihinner _ (Nat.succ_pos depth), jsonValueLen, Nat.ne_of_gt hdepth, ih _ hdepth, Text.len_cons, Text.len_append,
      Nat.add_assoc]
  | @brackets inner text _ _ ihinner ih =>
    have hshape : '[' :: (inner ++ ']' :: text) ++ rest = '[' :: (inner ++ ']' :: (text ++ rest)) := by simp
    rw [hshape, jsonValueLen]
    simp [ihinner _ (Nat.succ_pos depth), jsonValueLen, Nat.ne_of_gt hdepth, ih _ hdepth, Text.len_cons, Text.len_append,
      Nat.add_assoc]

theorem jsonValueLen_bare {text : Text} (h : Json.Bare text) (i : Nat) (rest : Text) :
    jsonValueLen i 0 false false (text ++ rest) = jsonValueLen (i + Text.len text) 0 false false rest := by
  induction text generalizing i with
  | nil => rfl
  | cons c text ih =>
    obtain ⟨hquote, hbracket, hcomma⟩ := h c List.mem_cons_self
    simp only [Json.isBracket, Bool.or_eq_false_iff, beq_eq_false_iff_ne] at hbracket
    rw [List.cons_append, jsonValueLen]
    simp [hquote, hbracket, hcomma, ih fun d hd => h d (List.mem_cons_of_mem _ hd), Text.len_cons, Nat.add_assoc]

/-- The value, with whitespace behind it or not, is what the walk cuts off. -/
theorem splitAtByte_value {value : Text} (h : Shape value) {gap more : Text} (hgap : Ws gap)
    (hmore : more = [] ∨ ∃ rest, more = ',' :: rest) :
    ∃ cut left, gap = cut ++ left ∧
      Text.splitAtByte (value ++ (gap ++ more)) (jsonValueLen 0 0 false false (value ++ (gap ++ more))) =
        some (value ++ cut, left ++ more) := by
  have hnone (hlen : jsonValueLen 0 0 false false (value ++ (gap ++ more)) = Text.len value) :
      ∃ cut left, gap = cut ++ left ∧
        Text.splitAtByte (value ++ (gap ++ more)) (jsonValueLen 0 0 false false (value ++ (gap ++ more))) =
          some (value ++ cut, left ++ more) := by
    refine ⟨[], gap, rfl, ?_⟩
    rw [hlen, Text.splitAtByte_append, List.append_nil]
  cases h with
  | bare hbare =>
    refine ⟨gap, [], (List.append_nil gap).symm, ?_⟩
    have hend : ∀ i, jsonValueLen i 0 false false more = i := by
      intro i
      rcases hmore with rfl | ⟨rest, rfl⟩
      · rfl
      · simp [jsonValueLen]
    have hlen : jsonValueLen 0 0 false false (value ++ (gap ++ more)) = Text.len (value ++ gap) := by
      rw [jsonValueLen_bare hbare, jsonValueLen_bare fun c hc => Json.isWs_bare (hgap c hc), hend, Text.len_append,
        Nat.zero_add]
    rw [hlen, ← List.append_assoc, Text.splitAtByte_append]
    rfl
  | @string body hbody =>
    refine hnone ?_
    have hshape : '"' :: (body ++ ['"']) ++ (gap ++ more) = '"' :: (body ++ '"' :: (gap ++ more)) := by simp
    rw [hshape, jsonValueLen]
    simp [jsonValueLen_string hbody, Text.len_cons, Text.len_append, Nat.add_assoc]
  | @braces inner hinner =>
    refine hnone ?_
    have hshape : '\x7b' :: (inner ++ ['\x7d']) ++ (gap ++ more) = '\x7b' :: (inner ++ '\x7d' :: (gap ++ more)) := by simp
    rw [hshape, jsonValueLen]
    simp [jsonValueLen_balanced hinner _ (Nat.succ_pos 0), jsonValueLen, Text.len_cons, Text.len_append, Nat.add_assoc]
  | @brackets inner hinner =>
    refine hnone ?_
    have hshape : '[' :: (inner ++ [']']) ++ (gap ++ more) = '[' :: (inner ++ ']' :: (gap ++ more)) := by simp
    rw [hshape, jsonValueLen]
    simp [jsonValueLen_balanced hinner _ (Nat.succ_pos 0), jsonValueLen, Text.len_cons, Text.len_append, Nat.add_assoc]

/-! ## An object's end -/

theorem scanObject_string {body : Text} (h : Quoted body) (depth : Nat) (rest : Text) :
    scanObject depth true false (body ++ '"' :: rest) = (scanObject depth false false rest).map fun t => body ++ '"' :: t := by
  induction h with
  | nil => simp [scanObject, inStringStep]
  | plain hquote hslash _ ih =>
    rw [List.cons_append, scanObject]
    simp [inStringStep, hquote, hslash, ih, Function.comp_def]
  | escaped _ ih =>
    rw [List.cons_append, List.cons_append, scanObject]
    simp [inStringStep, scanObject, ih, Function.comp_def]

theorem scanObject_balanced {text : Text} (h : Balanced text) {depth : Nat} (hdepth : 0 < depth) (rest : Text) :
    scanObject depth false false (text ++ rest) = (scanObject depth false false rest).map (text ++ ·) := by
  induction h generalizing depth rest with
  | nil => simp
  | @char c text hquote hbracket _ ih =>
    simp only [Json.isBracket, Bool.or_eq_false_iff, beq_eq_false_iff_ne] at hbracket
    rw [List.cons_append, scanObject]
    simp [hquote, hbracket, ih hdepth, Function.comp_def]
  | @string body text hbody _ ih =>
    have hshape : '"' :: (body ++ '"' :: text) ++ rest = '"' :: (body ++ '"' :: (text ++ rest)) := by simp
    rw [hshape, scanObject]
    simp [scanObject_string hbody, ih hdepth, Function.comp_def]
  | @braces inner text _ _ ihinner ih =>
    have hshape : '\x7b' :: (inner ++ '\x7d' :: text) ++ rest = '\x7b' :: (inner ++ '\x7d' :: (text ++ rest)) := by simp
    rw [hshape, scanObject]
    simp [ihinner (Nat.succ_pos depth), scanObject, Nat.ne_of_gt hdepth, ih hdepth, Function.comp_def]
  | @brackets inner text _ _ ihinner ih =>
    have hshape : '[' :: (inner ++ ']' :: text) ++ rest = '[' :: (inner ++ ']' :: (text ++ rest)) := by simp
    rw [hshape, scanObject]
    simp [ihinner hdepth, scanObject, ih hdepth, Function.comp_def]

theorem scanObject_object {inner : Text} (h : Balanced inner) (rest : Text) :
    scanObject 0 false false ('\x7b' :: (inner ++ '\x7d' :: rest)) = some ('\x7b' :: (inner ++ ['\x7d'])) := by
  rw [scanObject]
  simp [scanObject_balanced h (Nat.succ_pos 0), scanObject]

/-! ## The entries -/

/-- A value's own text. -/
def Verbatim (levels : Nat) (text value : Text) : Prop := text = value ∧ ∃ v, Nests levels text v

/-- An entry with its value's text, its name spelled with escapes the reader knows. -/
def Entry (levels : Nat) (text : Text) (entry : Text × Text) : Prop :=
  Member (Verbatim levels) text entry ∧ ∀ rest, text = '"' :: rest → simpleEscapes rest = true

theorem Entry.balanced {levels : Nat} (text : Text) (entry : Text × Text) (h : Entry levels text entry) : Balanced text :=
  h.1.balanced fun _ _ hvalue => by
    obtain ⟨-, v, hv⟩ := hvalue
    exact hv.shape.balanced

theorem isWhitespace_of_closes {c : Char} (h : Json.closes c = true) : isWhitespace c = false := by
  rw [Json.closes, Bool.or_eq_true] at h
  rcases h with h | h
  · revert h
    simp only [String.reduceToList, List.contains_eq_mem, List.mem_cons, List.not_mem_nil, or_false, decide_eq_true_eq]
    rintro (rfl | rfl | rfl | rfl | rfl) <;> rfl
  · exact isWhitespace_of_opens (by simp [Json.opens, h])

theorem Entry.starts {levels : Nat} (text : Text) (entry : Text × Text) (h : Entry levels text entry) :
    ∃ c more, text = c :: more ∧ c = '"' := by
  obtain ⟨⟨name, gap, after, value, rfl, hname, -⟩, -⟩ := h
  obtain ⟨more, rfl⟩ := hname.head
  exact ⟨'"', _, rfl, rfl⟩

theorem Entry.ends {levels : Nat} (text : Text) (entry : Text × Text) (h : Entry levels text entry) :
    ∃ front c, text = front ++ [c] ∧ isWhitespace c = false := by
  obtain ⟨⟨name, gap, after, value, rfl, -, -, -, -, v, hv⟩, -⟩ := h
  obtain ⟨front, c, rfl, hc⟩ := hv.last
  exact ⟨name ++ (gap ++ ':' :: (after ++ front)), c, by simp, isWhitespace_of_closes hc⟩

theorem trimEnd_gap {gap : Text} (h : Ws gap) {front : Text} {c : Char} (hc : isWhitespace c = false) :
    trimEnd (front ++ [c] ++ gap) = front ++ [c] := by
  have hgap : ∀ d ∈ gap.reverse, isWhitespace d = true := fun d hd => isWhitespace_of_isWs (h d (List.mem_reverse.mp hd))
  rw [trimEnd, List.reverse_append, List.reverse_append, List.reverse_singleton, List.dropWhile_append_of_pos hgap,
    List.singleton_append, List.dropWhile_cons_of_neg (by simp [hc]), List.reverse_cons, List.reverse_reverse]

theorem trimStart_more {left more : Text} (hleft : Ws left) (hmore : more = [] ∨ ∃ rest, more = ',' :: rest) :
    trimStart (left ++ more) = more := by
  rcases hmore with rfl | ⟨rest, rfl⟩
  · rw [List.append_nil, trimStart_eq_nil]
    exact fun c hc => isWhitespace_of_isWs (hleft c hc)
  · exact trimStart_gap hleft (by decide) rest

/-- One entry is found, whatever stands between its tokens. -/
theorem walkEntry_entry {levels : Nat} {text : Text} {entry : Text × Text} (h : Entry levels text entry) {gap more : Text}
    (hgap : Ws gap) (hmore : more = [] ∨ ∃ rest, more = ',' :: rest) :
    ∃ afterQuote, text ++ (gap ++ more) = '"' :: afterQuote ∧
      walkEntry afterQuote = some (some (entry, trimStart (skipComma more))) := by
  obtain ⟨⟨name, colonGap, after, value, rfl, hname, hcolonGap, hafter, hvalue, v, hv⟩, hsimple⟩ := h
  obtain ⟨key, text⟩ := entry
  obtain ⟨body, pieces, rfl, hbody, hdecode⟩ := hname
  simp only at hvalue hdecode
  subst hvalue
  refine ⟨body ++ '"' :: (colonGap ++ ':' :: (after ++ (value ++ (gap ++ more)))), by simp, ?_⟩
  have hkey : byHand body = key := by
    rw [← hdecode, byHand_eq_decode hbody (colonGap ++ ':' :: (after ++ value))]
    exact hsimple _ (by simp)
  have hread := readJsonString_quoted hbody.quoted 0 [] (colonGap ++ ':' :: (after ++ (value ++ (gap ++ more))))
  have hcut : Text.splitAtByte (body ++ '"' :: (colonGap ++ ':' :: (after ++ (value ++ (gap ++ more)))))
      (0 + Text.len body + 1) =
        some (body ++ ['"'], colonGap ++ ':' :: (after ++ (value ++ (gap ++ more)))) := by
    have hlen : 0 + Text.len body + 1 = Text.len (body ++ ['"']) := by simp [Text.len_append, Text.len_cons]
    have happ := Text.splitAtByte_append (body ++ ['"']) (colonGap ++ ':' :: (after ++ (value ++ (gap ++ more))))
    rw [hlen, ← happ]
    simp
  have hcolon := trimStart_gap hcolonGap (by decide : isWhitespace ':' = false) (after ++ (value ++ (gap ++ more)))
  have hstart : trimStart (after ++ (value ++ (gap ++ more))) = value ++ (gap ++ more) := by
    obtain ⟨c, rest, rfl, hc⟩ := hv.head
    exact trimStart_gap hafter (isWhitespace_of_opens hc) _
  obtain ⟨cut, left, hsplit, hvalueCut⟩ := splitAtByte_value hv.shape hgap hmore
  have hcutWs : Ws cut := fun c hc => hgap c (by rw [hsplit]; exact List.mem_append_left _ hc)
  have hleftWs : Ws left := fun c hc => hgap c (by rw [hsplit]; exact List.mem_append_right _ hc)
  have htrim : trimEnd (value ++ cut) = value := by
    obtain ⟨front, c, rfl, hc⟩ := hv.last
    exact trimEnd_gap hcutWs (isWhitespace_of_closes hc)
  rw [walkEntry, hread]
  simp only [hcut, hcolon, hstart, hvalueCut, htrim, trimStart_more hleftWs hmore, hkey, List.nil_append]

theorem walk_separated {levels : Nat} {body : Text} {entries : Entries} (h : Json.Separated (Entry levels) body entries) {fuel : Nat}
    (hfuel : entries.length < fuel) (found : Entries) : walk fuel found (trimStart body) = some (found ++ entries, []) := by
  have hstart : ∀ {before core after more : Text} {entry : Text × Text}, Ws before → Entry levels core entry →
      trimStart (before ++ (core ++ (after ++ more))) = core ++ (after ++ more) := by
    intro before core after more entry hbefore hentry
    obtain ⟨c, rest, rfl, rfl⟩ := Entry.starts core entry hentry
    exact trimStart_gap hbefore (by decide) _
  induction h generalizing fuel found with
  | @one text entry hone =>
    obtain ⟨before, core, after, rfl, hbefore, hentry, hafter⟩ := hone
    obtain ⟨fuel, rfl⟩ : ∃ n, fuel = n + 2 := ⟨fuel - 2, by simp at hfuel; omega⟩
    obtain ⟨afterQuote, hquote, hwalk⟩ := walkEntry_entry hentry hafter (.inl rfl)
    have hshape : before ++ (core ++ after) = before ++ (core ++ (after ++ [])) := by simp
    rw [hshape, hstart hbefore hentry, hquote, walk, hwalk]
    rfl
  | @more text rest entry entries hone _ ih =>
    obtain ⟨before, core, after, rfl, hbefore, hentry, hafter⟩ := hone
    rw [List.length_cons] at hfuel
    obtain ⟨fuel, rfl⟩ : ∃ n, fuel = n + 1 := ⟨fuel - 1, by omega⟩
    obtain ⟨afterQuote, hquote, hwalk⟩ := walkEntry_entry hentry hafter (.inr ⟨rest, rfl⟩)
    have hshape : before ++ (core ++ after) ++ ',' :: rest = before ++ (core ++ (after ++ ',' :: rest)) := by simp
    rw [hshape, hstart hbefore hentry, hquote, walk, hwalk]
    simp only [skipComma]
    rw [ih (by omega), List.append_assoc]
    rfl

theorem canonicalObject_entries {levels : Nat} {body : Text} {entries : Entries} (h : Elements (Entry levels) body entries) :
    canonicalObject ('\x7b' :: (body ++ ['\x7d'])) = some (joinEntries entries) := by
  have hbraces : stripBraces ('\x7b' :: (body ++ ['\x7d'])) = body := by
    rw [stripBraces, Text.stripSuffix_append]
    rfl
  rw [canonicalObject, hbraces]
  rcases h with ⟨rfl, hws⟩ | hlist
  · have hnil : trimStart body = [] := trimStart_eq_nil.mpr fun c hc => isWhitespace_of_isWs (hws c hc)
    rw [hnil]
    rfl
  · obtain ⟨lead, inner, trail, rfl, hlead, htrail, hinner, ⟨c, more, hcons, rfl⟩, front, d, hlast, hd⟩ :=
      hlist.trim Entry.starts Entry.ends
    have hstart : trimStart (lead ++ (inner ++ trail)) = inner ++ trail := by
      rw [hcons]
      exact trimStart_gap hlead (by decide) _
    have hself : trimStart inner = inner := by
      rw [hcons]
      exact trimStart_gap Json.ws_nil (by decide) _
    have htrim : trimEnd (inner ++ trail) = inner := by
      rw [hlast]
      exact trimEnd_gap htrail hd
    have hlength := hinner.length_le fun text entry hentry => by
      obtain ⟨e, rest, rfl, -⟩ := Entry.starts text entry hentry
      exact List.cons_ne_nil _ _
    have hwalk := walk_separated hinner (Nat.lt_succ_of_le hlength) []
    rw [hself, List.nil_append] at hwalk
    rw [hstart, htrim]
    simp only [hwalk]
    rfl

abbrev entryLe (a b : Text × Text) : Prop := toLex a ≤ toLex b

instance : Std.Total entryLe := ⟨fun a b => le_total (toLex a) (toLex b)⟩

instance : IsTrans (Text × Text) entryLe := ⟨fun _ _ _ => le_trans⟩

instance : Std.Antisymm entryLe := ⟨fun _ _ hab hba => toLex.injective (le_antisymm hab hba)⟩

theorem joinEntries_perm {entries entries' : Entries} (h : entries.Perm entries') : joinEntries entries = joinEntries entries' := by
  have hsort : sortEntries entries = sortEntries entries' := by
    have hperm : (sortEntries entries).Perm (sortEntries entries') :=
      ((List.perm_insertionSort _ entries).trans h).trans (List.perm_insertionSort _ entries').symm
    exact hperm.eq_of_pairwise' (List.pairwise_insertionSort entryLe entries) (List.pairwise_insertionSort entryLe entries')
  rw [joinEntries, joinEntries, hsort]

/-! ## The id -/

/-- The payload's session, prompt and input are read where they are written. -/
structure Legible (payload : Text) (members : Members) (entries : Entries) : Prop where
  session : Anchored payload members "session_id".toList
  session_spelled : SimplySpelled payload "session_id".toList
  prompt : Anchored payload members "prompt_id".toList
  prompt_spelled : SimplySpelled payload "prompt_id".toList
  input : ∃ (place : Place payload members "tool_input".toList) (levels : Nat) (body : Text),
    place.value = '\x7b' :: (body ++ ['\x7d']) ∧ Elements (Entry levels) body entries

theorem Legible.input_eq {payload : Text} {members : Members} {entries : Entries} (h : Legible payload members entries) :
    ∃ obj, jsonObjectField payload "tool_input".toList = some obj ∧ canonicalObject obj = some (joinEntries entries) := by
  obtain ⟨place, levels, body, hvalue, hbody⟩ := h.input
  refine ⟨place.value, ?_, by rw [hvalue, canonicalObject_entries hbody]⟩
  have hafter := place.afterField
  have htext : place.value ++ place.tail = '\x7b' :: (body ++ '\x7d' :: place.tail) := by simp [hvalue]
  rw [htext] at hafter
  rw [jsonObjectField, hafter]
  simp only
  rw [scanObject_object (hbody.balanced Entry.balanced), hvalue]

/-- The id of a session, a prompt, a tool and an input's entries. -/
def callIdOf (session prompt : Option Text) (tool : Text) (entries : Entries) : Text :=
  hex16 (fnv (Text.bytes ([Char.ofNat 0x1f].intercalate [session.getD [], prompt.getD [], tool, joinEntries entries])))

theorem Legible.mintCallId {payload : Text} {members : Members} {entries : Entries} (h : Legible payload members entries)
    (tool : Text) :
    mintCallId payload tool = some (callIdOf (stringMember members "session_id".toList)
      (stringMember members "prompt_id".toList) tool entries) := by
  obtain ⟨obj, hobj, hcanonical⟩ := h.input_eq
  rw [Payload.mintCallId, hobj]
  simp only [hcanonical, Option.map_some]
  rw [(anchored_stringField h.session).mpr h.session_spelled, (anchored_stringField h.prompt).mpr h.prompt_spelled]
  rfl

/-! ## Payloads of two members -/

/-- An object of two members. -/
def pair (name₁ value₁ name₂ value₂ : Text) : Text :=
  '\x7b' :: (quoted name₁ ++ ':' :: (value₁ ++ (',' :: (quoted name₂ ++ ':' :: value₂) ++ ['\x7d'])))

theorem behind_quoted {name : Text} (h : ∀ c ∈ name, Json.isPlain c = true) {levels : Nat} {value : Text} {v : Json}
    (hv : Nests levels value v) :
    Json.Behind (Member (Nests levels)) (',' :: (quoted name ++ ':' :: value)) [(name, v)] :=
  .inr ⟨[], _, rfl, Json.ws_nil, .one (Json.padded_self (member_quoted h hv))⟩

section

variable {name₁ name₂ : Text} (h₁ : ∀ c ∈ name₁, Json.isPlain c = true) (h₂ : ∀ c ∈ name₂, Json.isPlain c = true)
  {levels : Nat} {value₁ value₂ : Text} {v₁ v₂ : Json} (hv₁ : Nests levels value₁ v₁) (hv₂ : Nests levels value₂ v₂)

include h₁ h₂ hv₁ hv₂

theorem nests_pair : Nests (levels + 1) (pair name₁ value₁ name₂ value₂) (.obj [(name₁, v₁), (name₂, v₂)]) :=
  nests_object h₁ hv₁ (behind_quoted h₂ hv₂)

theorem place_head : ∃ p : Place (pair name₁ value₁ name₂ value₂) [(name₁, v₁), (name₂, v₂)] name₁, p.value = value₁ :=
  ⟨Place.atHead h₁ hv₁ (behind_quoted h₂ hv₂), rfl⟩

theorem place_last (hne : name₁ ≠ name₂)
    (hfirst : ∀ b a, pair name₁ value₁ name₂ value₂ = b ++ (quoted name₂ ++ a) →
      ('\x7b' :: (quoted name₁ ++ ':' :: value₁ ++ [','])).length ≤ b.length) :
    ∃ p : Place (pair name₁ value₁ name₂ value₂) [(name₁, v₁), (name₂, v₂)] name₂, p.value = value₂ :=
  ⟨{ levels := levels
     lead := []
     before := quoted name₁ ++ ':' :: value₁ ++ [',']
     gap := []
     after := []
     value := value₂
     more := []
     trail := []
     front := [(name₁, v₁)]
     json := v₂
     back := []
     text := by simp [pair]
     ws_lead := Json.ws_nil
     ahead := .inr ⟨_, [], rfl, .one (Json.padded_self (member_quoted h₁ hv₁)), Json.ws_nil⟩
     name := Json.stringText_plain h₂
     ws_gap := Json.ws_nil
     ws_after := Json.ws_nil
     nests := hv₂
     behind := .inl ⟨rfl, Json.ws_nil⟩
     ws_trail := Json.ws_nil
     members_eq := rfl
     new := by simpa using hne
     first := hfirst }, rfl⟩

end

theorem place_first {payload name : Text} {n : Nat} (h : ∀ k < n, ¬ name <+: payload.drop k) :
    ∀ b a, payload = b ++ (name ++ a) → n ≤ b.length := by
  intro b a heq
  by_contra hlt
  exact h b.length (by omega) ⟨a, by rw [heq, List.drop_left]⟩

theorem entry_quoted {name value : Text} (hname : ∀ c ∈ name, Json.isPlain c = true)
    (hsimple : simpleEscapes (name ++ '"' :: ':' :: value) = true) {levels : Nat} {v : Json} (hv : Nests levels value v) :
    Entry levels (quoted name ++ ':' :: value) (name, value) := by
  refine ⟨⟨quoted name, [], [], value, rfl, Json.stringText_plain hname, Json.ws_nil, Json.ws_nil, rfl, v, hv⟩, ?_⟩
  intro rest heq
  have hrest : name ++ '"' :: ':' :: value = rest := by simpa [quoted] using heq
  rw [← hrest, hsimple]

def letterEntry (name value : Char) : Text × Text := ([name], quoted [value])

theorem entry_letter {name value : Char} (hname : Json.isPlain name = true) (hvalue : Json.isPlain value = true) :
    Json.Padded (Entry 0) (quoted [name] ++ ':' :: quoted [value]) (letterEntry name value) := by
  have hne := isPlain_ne hname
  refine Json.padded_self (entry_quoted (v := .str [value]) (by simpa using hname) ?_ (nests_quoted (by simpa using hvalue)))
  rw [List.singleton_append, simpleEscapes_cons hne.1 hne.2]
  rfl

/-- Two letters and their values stand as the payload's input. -/
theorem legible_pair {payload : Text} {members : Members} (place : Place payload members "tool_input".toList)
    {a x b y : Char} (hvalue : place.value = pair [a] (quoted [x]) [b] (quoted [y])) (ha : Json.isPlain a = true)
    (hx : Json.isPlain x = true) (hb : Json.isPlain b = true) (hy : Json.isPlain y = true) :
    ∃ (place : Place payload members "tool_input".toList) (levels : Nat) (body : Text),
      place.value = '\x7b' :: (body ++ ['\x7d']) ∧
        Elements (Entry levels) body [letterEntry a x, letterEntry b y] := by
  refine ⟨place, 0, quoted [a] ++ ':' :: quoted [x] ++ ',' :: (quoted [b] ++ ':' :: quoted [y]), ?_,
    .inr (.more (entry_letter ha hx) (.one (entry_letter hb hy)))⟩
  rw [hvalue, pair]
  simp

/-- A payload with the session in front of the input. -/
def sessionFirst : Text :=
  pair "session_id".toList (quoted ['s']) "tool_input".toList (pair ['a'] (quoted ['x']) ['b'] (quoted ['y']))

/-- The same call: the input in front, and its entries the other way round. -/
def inputFirst : Text :=
  pair "tool_input".toList (pair ['b'] (quoted ['y']) ['a'] (quoted ['x'])) "session_id".toList (quoted ['s'])

theorem input_nests {a x b y : Char} (h : ∀ c ∈ [a, x, b, y], Json.isPlain c = true) :
    Nests 1 (pair [a] (quoted [x]) [b] (quoted [y])) (.obj [([a], .str [x]), ([b], .str [y])]) := by
  simp only [List.mem_cons, List.not_mem_nil, or_false, forall_eq_or_imp, forall_eq] at h
  obtain ⟨ha, hx, hb, hy⟩ := h
  exact nests_pair (by simpa using ha) (by simpa using hb) (nests_quoted (by simpa using hx)) (nests_quoted (by simpa using hy))

theorem session_nests : Nests 1 (quoted ['s']) (.str ['s']) := nests_quoted (by decide)

/-- The first session or prompt the text has is a plain string, or there is none. -/
theorem spelled_of_decide {payload field : Text}
    (h : (match afterField payload field with | some ('"' :: rest) => simpleEscapes rest | _ => true) = true) :
    SimplySpelled payload field := by
  intro rest heq
  rw [heq] at h
  exact h

theorem sessionFirst_legible : Legible sessionFirst
    [("session_id".toList, .str ['s']), ("tool_input".toList, .obj [(['a'], .str ['x']), (['b'], .str ['y'])])]
    [letterEntry 'a' 'x', letterEntry 'b' 'y'] := by
  have hinput := @input_nests 'a' 'x' 'b' 'y' (by decide)
  obtain ⟨session, -⟩ := @place_head "session_id".toList "tool_input".toList (by decide) (by decide) _ _ _ _ _ session_nests hinput
  obtain ⟨input, hvalue⟩ := @place_last "session_id".toList "tool_input".toList (by decide) (by decide) _ _ _ _ _ session_nests
    hinput (by decide) (place_first (by decide +kernel))
  exact ⟨.inr ⟨session⟩, spelled_of_decide (by decide +kernel), .inl ⟨by decide +kernel, by decide⟩,
    spelled_of_decide (by decide +kernel), legible_pair input hvalue (by decide) (by decide) (by decide) (by decide)⟩

theorem inputFirst_legible : Legible inputFirst
    [("tool_input".toList, .obj [(['b'], .str ['y']), (['a'], .str ['x'])]), ("session_id".toList, .str ['s'])]
    [letterEntry 'b' 'y', letterEntry 'a' 'x'] := by
  have hinput := @input_nests 'b' 'y' 'a' 'x' (by decide)
  obtain ⟨input, hvalue⟩ := @place_head "tool_input".toList "session_id".toList (by decide) (by decide) _ _ _ _ _ hinput session_nests
  obtain ⟨session, -⟩ := @place_last "tool_input".toList "session_id".toList (by decide) (by decide) _ _ _ _ _ hinput session_nests
    (by decide) (place_first (by decide +kernel))
  exact ⟨.inr ⟨session⟩, spelled_of_decide (by decide +kernel), .inl ⟨by decide +kernel, by decide⟩,
    spelled_of_decide (by decide +kernel), legible_pair input hvalue (by decide) (by decide) (by decide) (by decide)⟩

/-! ## The id stays -/

/-- **A call keeps its id when its payload is written anew.** The walk over a tool input never cuts a character and
always ends. And two payloads whose `session_id`, `prompt_id` and `tool_input` stand where the reader looks for them, with
escapes it knows, get one id where the session and the prompt agree and the inputs have the same entries in any order. -/
theorem call_id_stable (tool payload payload' : Text) (members members' : List (Text × Json))
    (entries entries' : Entries) :
    (∀ obj, ∃ text, canonicalObject obj = some text) ∧
      (Legible payload members entries → Legible payload' members' entries' →
        (∀ field ∈ ["session_id".toList, "prompt_id".toList], Assoc.get? members field = Assoc.get? members' field) →
        entries.Perm entries' → ∃ id, mintCallId payload tool = some id ∧ mintCallId payload' tool = some id) := by
  refine ⟨canonicalObject_total, fun h h' hfields hperm => ?_⟩
  have hmember : ∀ field ∈ ["session_id".toList, "prompt_id".toList],
      stringMember members field = stringMember members' field := by
    intro field hfield
    rw [stringMember, stringMember, hfields field hfield]
  refine ⟨_, h.mintCallId tool, ?_⟩
  rw [h'.mintCallId, callIdOf, callIdOf, hmember _ (by simp), hmember _ (by simp), joinEntries_perm hperm]

/-- Members and entries the other way round. -/
theorem call_id_stable_reordered :
    ∃ id, mintCallId sessionFirst "Bash".toList = some id ∧ mintCallId inputFirst "Bash".toList = some id := by
  refine (call_id_stable _ _ _ _ _ _ _).2 sessionFirst_legible inputFirst_legible ?_ (.swap _ _ [])
  intro field hfield
  simp only [List.mem_cons, List.not_mem_nil, or_false] at hfield
  rcases hfield with rfl | rfl
  · simp [Assoc.get?]
  · simp [Assoc.get?]

/-- The input's own `session_id` is taken for the session where it stands in front. -/
theorem input_shadows_session :
    ¬ ∀ (tool text₁ text₂ : Text) (levels : Nat) (m₁ m₂ : Text × Json), Member (Nests levels) text₁ m₁ →
        Member (Nests levels) text₂ m₂ → m₁.1 ≠ m₂.1 →
        mintCallId ('\x7b' :: (text₁ ++ ',' :: (text₂ ++ ['\x7d']))) tool =
          mintCallId ('\x7b' :: (text₂ ++ ',' :: (text₁ ++ ['\x7d']))) tool := by
  intro h
  have hsession : Member (Nests 1) _ ("session_id".toList, Json.str ['s']) := member_quoted (by decide) session_nests
  have hinner : Nests 1 ('\x7b' :: (quoted "session_id".toList ++ ':' :: (quoted ['x'] ++ ([] ++ ['\x7d']))))
      (.obj [("session_id".toList, .str ['x'])]) :=
    nests_object (by decide) (nests_quoted (by decide)) (.inl ⟨rfl, Json.ws_nil⟩)
  have hinput : Member (Nests 1) _ ("tool_input".toList, Json.obj [("session_id".toList, .str ['x'])]) :=
    member_quoted (by decide) hinner
  have hsame := h "Bash".toList _ _ 1 _ _ hsession hinput (by decide)
  revert hsame
  decide +kernel

end TmuxAgents.Payload
