/-
The printer and the parser of the installer's JSON agree: what is parsed nests no deeper
than the parser goes and its numbers are tokens, and every such value is read back from
its pretty text.
-/
import TmuxAgents.Install.JsonValue

namespace TmuxAgents.Install

/-! ## Values that can be read -/

/-- A character the parser takes a number to start with. -/
def StartsNumber (c : Char) : Prop := c = '-' ∨ c.isDigit = true

/-- A number's text, as the parser takes it. -/
def NumberToken (token : Text) : Prop :=
  (∃ c rest, token = c :: rest ∧ StartsNumber c) ∧ ∀ c ∈ token, isNumberChar c = true

theorem StartsNumber.ne {c d : Char} (h : StartsNumber c) (hd : d ≠ '-' ∧ d.isDigit = false) : c ≠ d := by
  rintro rfl
  rcases h with rfl | h
  · exact hd.1 rfl
  · rw [hd.2] at h
    cases h

/-- The value nests no deeper than so many levels, and its numbers are tokens. -/
def Fits : Nat → Value → Prop
  | 0, _ => False
  | _ + 1, .null => True
  | _ + 1, .bool _ => True
  | _ + 1, .num token => NumberToken token
  | _ + 1, .str _ => True
  | levels + 1, .arr items => ∀ v ∈ items, Fits levels v
  | levels + 1, .obj members => ∀ m ∈ members, Fits levels m.2

theorem Fits.mono {levels more : Nat} {v : Value} (h : Fits levels v) (hle : levels ≤ more) : Fits more v := by
  induction levels generalizing more v with
  | zero => cases h
  | succ levels ih =>
    obtain ⟨more, rfl⟩ : ∃ n, more = n + 1 := ⟨more - 1, by omega⟩
    cases v with
    | null => trivial
    | bool b => trivial
    | num token => exact h
    | str text => trivial
    | arr items => exact fun v hv => ih (h v hv) (by omega)
    | obj members => exact fun m hm => ih (h m hm) (by omega)

section Parsed

variable {value : Text → Parsed Value} {levels : Nat}

theorem membersLoop_fits (hvalue : ∀ text v rest, value text = .ok (v, rest) → Fits levels v) {fuel : Nat} {out : Members}
    {text rest : Text} {v : Value} (hout : ∀ m ∈ out, Fits levels m.2)
    (h : membersLoop value fuel out text = .ok (v, rest)) : Fits (levels + 1) v := by
  induction fuel generalizing out text with
  | zero => cases h
  | succ fuel ih =>
    rw [membersLoop] at h
    split at h
    next =>
      split at h
      · cases h
      next key afterKey _ =>
        split at h
        next =>
          split at h
          · cases h
          next val afterValue hval =>
            have hnext : ∀ m ∈ out ++ [(key, val)], Fits levels m.2 := by
              intro m hm
              rcases List.mem_append.mp hm with hm | hm
              · exact hout m hm
              · rw [List.mem_singleton.mp hm]
                exact hvalue _ _ _ hval
            split at h
            · exact ih hnext h
            · cases h
              exact hnext
            · cases h
        · cases h
    · cases h

theorem object_fits (hvalue : ∀ text v rest, value text = .ok (v, rest) → Fits levels v) {text rest : Text} {v : Value}
    (h : object value text = .ok (v, rest)) : Fits (levels + 1) v := by
  rw [object] at h
  split at h
  · cases h
    intro m hm
    cases hm
  · exact membersLoop_fits hvalue (fun m hm => by cases hm) h

theorem itemsLoop_fits (hvalue : ∀ text v rest, value text = .ok (v, rest) → Fits levels v) {fuel : Nat}
    {out : List Value} {text rest : Text} {v : Value} (hout : ∀ v ∈ out, Fits levels v)
    (h : itemsLoop value fuel out text = .ok (v, rest)) : Fits (levels + 1) v := by
  induction fuel generalizing out text with
  | zero => cases h
  | succ fuel ih =>
    rw [itemsLoop] at h
    split at h
    · cases h
    next val afterValue hval =>
      have hnext : ∀ v ∈ out ++ [val], Fits levels v := by
        intro v hv
        rcases List.mem_append.mp hv with hv | hv
        · exact hout v hv
        · rw [List.mem_singleton.mp hv]
          exact hvalue _ _ _ hval
      split at h
      · exact ih hnext h
      · cases h
        exact hnext
      · cases h

theorem array_fits (hvalue : ∀ text v rest, value text = .ok (v, rest) → Fits levels v) {text rest : Text} {v : Value}
    (h : array value text = .ok (v, rest)) : Fits (levels + 1) v := by
  rw [array] at h
  split at h
  · cases h
    intro v hv
    cases hv
  · exact itemsLoop_fits hvalue (fun v hv => by cases hv) h

theorem number_fits {c : Char} (hc : StartsNumber c) {text rest : Text} {v : Value}
    (h : number (c :: text) = .ok (v, rest)) : Fits (levels + 1) v := by
  cases h
  have hnumber : isNumberChar c = true := by
    rcases hc with rfl | hc
    · rfl
    · simp [isNumberChar, hc]
  refine ⟨⟨c, text.takeWhile isNumberChar, ?_, hc⟩, ?_⟩
  · rw [List.takeWhile_cons, if_pos hnumber]
  · intro d hd
    exact List.all_eq_true.mp List.all_takeWhile d hd

end Parsed

/-- **What is parsed fits.** -/
theorem value_fits {levels : Nat} {text rest : Text} {v : Value} (h : value levels text = .ok (v, rest)) :
    Fits levels v := by
  induction levels generalizing text rest v with
  | zero => cases h
  | succ levels ih =>
    have hvalue : ∀ text v rest, value levels text = .ok (v, rest) → Fits levels v := fun _ _ _ h => ih h
    rw [value.eq_def] at h
    simp only at h
    split at h
    · cases h
    next c text =>
      split at h
      · exact object_fits hvalue h
      · split at h
        · exact array_fits hvalue h
        · split at h
          · split at h
            · cases h
            · cases h
              trivial
          · split at h
            · rw [boolean] at h
              split at h
              · cases h
                trivial
              · split at h
                · cases h
                  trivial
                · cases h
            · split at h
              · rw [null] at h
                split at h
                · cases h
                  trivial
                · cases h
              · split at h
                next hc => exact number_fits hc h
                next => cases h

theorem parse_fits {text : Text} {v : Value} (h : parse text = .ok v) : Fits maxDepth v := by
  rw [parse] at h
  split at h
  · cases h
  next v' rest hvalue =>
    split at h
    · cases h
      exact value_fits hvalue
    · cases h

/-! ## Reading what was printed -/

/-- What stands behind a value does not go on as a number. -/
def Stops (rest : Text) : Prop := ∀ c more, rest = c :: more → isNumberChar c = false

theorem stops_cons {c : Char} (h : isNumberChar c = false) (rest : Text) : Stops (c :: rest) := by
  intro d more heq
  cases heq
  exact h

theorem skipWs_cons {c : Char} (h : isWs c = false) (rest : Text) : skipWs (c :: rest) = c :: rest := by
  simp [skipWs, h]

/-- The break before an item is skipped. -/
theorem skipWs_break (indent : Nat) {text : Text} (h : skipWs text = text) :
    skipWs ('\n' :: (pad indent ++ text)) = text := by
  have hpad : ∀ c ∈ pad indent, isWs c = true := by
    intro c hc
    rw [pad, List.mem_flatten] at hc
    obtain ⟨unit, hunit, hc⟩ := hc
    rw [(List.mem_replicate.mp hunit).2] at hc
    rcases List.mem_pair.mp hc with rfl | rfl <;> rfl
  rw [skipWs, List.dropWhile_cons_of_pos (by rfl), List.dropWhile_append_of_pos hpad]
  exact h

/-- An escaped character is read as itself. -/
theorem stringLoop_escape (fuel : Nat) (out : Text) (c : Char) (rest : Text) :
    stringLoop (fuel + 1) out (escape c ++ rest) = stringLoop fuel (out ++ [c]) rest := by
  unfold escape
  split
  next h => subst h; rfl
  split
  next h => subst h; rfl
  split
  next h => subst h; rfl
  split
  next h => subst h; rfl
  split
  next h => subst h; rfl
  split
  next hlow =>
    have hhigh := Text.hexDigit_digitChar (c.toNat / 16) (by omega)
    have hlast := Text.hexDigit_digitChar (c.toNat % 16) (by omega)
    have hzero : Text.hexDigit '0' = some 0 := rfl
    have hcode : c.toNat / 16 * 16 + c.toNat % 16 = c.toNat := by omega
    have hvalid : c.toNat.isValidChar := c.valid
    have hunit : unicodeEscape ('0' :: '0' :: Nat.digitChar (c.toNat / 16) :: Nat.digitChar (c.toNat % 16) :: rest) =
        .ok (c, rest) := by
      have hsurrogate : ¬ (0xD800 ≤ c.toNat ∧ c.toNat ≤ 0xDBFF) := by omega
      have hlower : ¬ (0xDC00 ≤ c.toNat ∧ c.toNat ≤ 0xDFFF) := by omega
      simp [unicodeEscape, readHex, hzero, hhigh, hlast, hcode, hsurrogate, hlower, scalar, hvalid]
    have hslash : '\\' ≠ '"' := by decide
    simp only [List.cons_append, List.nil_append, stringLoop, if_neg hslash, if_true, hunit]
  next hquote hslash _ _ _ _ =>
    simp only [List.singleton_append, stringLoop, if_neg hquote, if_neg hslash]

theorem stringLoop_flatMap {fuel : Nat} {text : Text} (hfuel : text.length < fuel) (out rest : Text) :
    stringLoop fuel out (text.flatMap escape ++ '"' :: rest) = .ok (out ++ text, rest) := by
  induction text generalizing fuel out with
  | nil =>
    obtain ⟨fuel, rfl⟩ : ∃ n, fuel = n + 1 := ⟨fuel - 1, by simp at hfuel; omega⟩
    simp [stringLoop]
  | cons c text ih =>
    rw [List.length_cons] at hfuel
    obtain ⟨fuel, rfl⟩ : ∃ n, fuel = n + 1 := ⟨fuel - 1, by omega⟩
    rw [List.flatMap_cons, List.append_assoc, stringLoop_escape, ih (by omega)]
    simp

theorem length_le_flatMap_escape (text : Text) : text.length ≤ (text.flatMap escape).length := by
  induction text with
  | nil => exact Nat.le_refl _
  | cons c text ih =>
    have hone : 1 ≤ (escape c).length := by
      unfold escape
      split
      · simp
      · repeat' split
        all_goals simp
    rw [List.flatMap_cons, List.length_append, List.length_cons]
    omega

/-- A printed string, behind its opening quote. -/
theorem string_writeString (text rest : Text) : string (text.flatMap escape ++ '"' :: rest) = .ok (text, rest) := by
  have hlength := length_le_flatMap_escape text
  rw [string, stringLoop_flatMap (by rw [List.length_append]; omega)]
  rfl

theorem number_token {token : Text} (h : NumberToken token) {rest : Text} (hrest : Stops rest) :
    number (token ++ rest) = .ok (.num token, rest) := by
  rw [number, List.takeWhile_append_of_pos h.2, List.dropWhile_append_of_pos h.2]
  cases rest with
  | nil => simp
  | cons c rest =>
    have hc := hrest c rest rfl
    simp [hc]

theorem takeLit_append (lit rest : Text) : takeLit lit (lit ++ rest) = some rest := by
  rw [takeLit, if_pos (List.prefix_append _ _), List.drop_left]

/-- How a value's text starts. -/
theorem writeValue_head {levels : Nat} {v : Value} (h : Fits levels v) (indent : Nat) :
    ∃ c more, writeValue indent v = c :: more ∧ isWs c = false ∧ c ≠ ']' := by
  cases levels with
  | zero => cases h
  | succ levels =>
    cases v with
    | null => exact ⟨'n', _, rfl, rfl, by decide⟩
    | bool b =>
      cases b with
      | true => exact ⟨'t', _, rfl, rfl, by decide⟩
      | false => exact ⟨'f', _, rfl, rfl, by decide⟩
    | str text => exact ⟨'"', _, rfl, rfl, by decide⟩
    | num token =>
      obtain ⟨⟨c, more, rfl, hc⟩, -⟩ := h
      refine ⟨c, more, rfl, ?_, ?_⟩
      · simp [isWs, hc.ne]
      · exact hc.ne (by decide)
    | arr items =>
      rw [writeValue]
      split
      · exact ⟨'[', _, rfl, rfl, by decide⟩
      · exact ⟨'[', _, rfl, rfl, by decide⟩
    | obj members =>
      rw [writeValue]
      split
      · exact ⟨'\x7b', _, rfl, rfl, by decide⟩
      · exact ⟨'\x7b', _, rfl, rfl, by decide⟩

theorem skipWs_writeValue {levels : Nat} {v : Value} (h : Fits levels v) (indent : Nat) (rest : Text) :
    skipWs (writeValue indent v ++ rest) = writeValue indent v ++ rest := by
  obtain ⟨c, more, heq, hc, -⟩ := writeValue_head h indent
  rw [heq]
  exact skipWs_cons hc _

theorem skipWs_skipWs (text : Text) : skipWs (skipWs text) = skipWs text := by
  induction text with
  | nil => rfl
  | cons c text ih =>
    cases hc : isWs c with
    | true =>
      have hskip : skipWs (c :: text) = skipWs text := List.dropWhile_cons_of_pos hc
      rw [hskip, ih]
    | false => rw [skipWs_cons hc, skipWs_cons hc]

section Printed

variable {value : Text → Parsed Value} {levels : Nat}

/-- The parser reads back every value that fits so many levels. -/
def Reads (levels : Nat) (value : Text → Parsed Value) : Prop :=
  ∀ v, Fits levels v → ∀ indent rest, Stops rest → value (writeValue indent v ++ rest) = .ok (v, rest)

theorem stops_comma (rest : Text) : Stops (',' :: rest) := stops_cons rfl rest
theorem stops_newline (rest : Text) : Stops ('\n' :: rest) := stops_cons rfl rest

theorem itemsLoop_write (hvalue : Reads levels value) {fuel : Nat} {v : Value} {items : List Value}
    (hfuel : items.length < fuel) (hfits : ∀ w ∈ v :: items, Fits levels w) (out : List Value) (indent : Nat) (rest : Text) :
    itemsLoop value fuel out
        ('\n' :: (pad (indent + 1) ++ (writeValue (indent + 1) v ++
          (writeItems (indent + 1) false items ++ '\n' :: (pad indent ++ ']' :: rest))))) =
      .ok (.arr (out ++ v :: items), rest) := by
  induction items generalizing fuel v out with
  | nil =>
    obtain ⟨fuel, rfl⟩ : ∃ n, fuel = n + 1 := ⟨fuel - 1, by simp at hfuel; omega⟩
    have hv := hfits v List.mem_cons_self
    rw [writeItems, List.nil_append, itemsLoop, skipWs_break _ (skipWs_writeValue hv _ _),
      hvalue v hv _ _ (stops_newline _)]
    simp only
    rw [skipWs_break indent (skipWs_cons rfl rest)]
    rfl
  | cons w items ih =>
    rw [List.length_cons] at hfuel
    obtain ⟨fuel, rfl⟩ : ∃ n, fuel = n + 1 := ⟨fuel - 1, by omega⟩
    have hv := hfits v List.mem_cons_self
    have htail : writeItems (indent + 1) false (w :: items) ++ '\n' :: (pad indent ++ ']' :: rest) =
        ',' :: '\n' :: (pad (indent + 1) ++ (writeValue (indent + 1) w ++
          (writeItems (indent + 1) false items ++ '\n' :: (pad indent ++ ']' :: rest)))) := by
      simp [writeItems]
    rw [itemsLoop, htail, skipWs_break _ (skipWs_writeValue hv _ _), hvalue v hv _ _ (stops_comma _)]
    simp only
    rw [skipWs_cons rfl]
    have hrest := @ih fuel w (by omega) (fun x hx => hfits x (List.mem_cons_of_mem _ hx)) (out ++ [v])
    simp only [hrest, List.append_assoc, List.singleton_append]

/-- Behind a member: the next one, or the brace. -/
def afterMember (value : Text → Parsed Value) (fuel : Nat) (out : Members) : Text → Parsed Value
  | ',' :: rest => membersLoop value fuel out rest
  | '\x7d' :: rest => .ok (.obj out, rest)
  | rest => .error (.objectEnd rest.head?)

/-- One member, and what its line ends with. -/
theorem membersLoop_member (hvalue : Reads levels value) (fuel : Nat) {m : Text × Value} (hm : Fits levels m.2)
    (out : Members) (indent : Nat) {after : Text} (hafter : Stops after) :
    membersLoop value (fuel + 1) out
        ('\n' :: (pad indent ++ (writeString m.1 ++ ':' :: ' ' :: (writeValue indent m.2 ++ after)))) =
      afterMember value fuel (out ++ [m]) (skipWs after) := by
  have hkey : writeString m.1 ++ ':' :: ' ' :: (writeValue indent m.2 ++ after) =
      '"' :: (m.1.flatMap escape ++ '"' :: ':' :: ' ' :: (writeValue indent m.2 ++ after)) := by simp [writeString]
  have hbreak := skipWs_break indent (skipWs_cons rfl (m.1.flatMap escape ++ '"' :: ':' :: ' ' ::
    (writeValue indent m.2 ++ after)) : skipWs ('"' :: _) = _)
  have hcolon : skipWs (':' :: ' ' :: (writeValue indent m.2 ++ after)) = ':' :: ' ' :: (writeValue indent m.2 ++ after) :=
    skipWs_cons rfl _
  have hblank : skipWs (' ' :: (writeValue indent m.2 ++ after)) = writeValue indent m.2 ++ after := by
    rw [skipWs, List.dropWhile_cons_of_pos (by rfl)]
    exact skipWs_writeValue hm indent after
  rw [membersLoop, hkey, hbreak]
  simp only [string_writeString, hcolon, hblank, hvalue m.2 hm indent after hafter]
  rfl

theorem membersLoop_write (hvalue : Reads levels value) {fuel : Nat} {m : Text × Value} {members : Members}
    (hfuel : members.length < fuel) (hfits : ∀ n ∈ m :: members, Fits levels n.2) (out : Members) (indent : Nat)
    (rest : Text) :
    membersLoop value fuel out
        ('\n' :: (pad (indent + 1) ++ (writeString m.1 ++ ':' :: ' ' :: (writeValue (indent + 1) m.2 ++
          (writeMembers (indent + 1) false members ++ '\n' :: (pad indent ++ '\x7d' :: rest)))))) =
      .ok (.obj (out ++ m :: members), rest) := by
  have hm := hfits m List.mem_cons_self
  induction members generalizing fuel m out with
  | nil =>
    obtain ⟨fuel, rfl⟩ : ∃ n, fuel = n + 1 := ⟨fuel - 1, by simp at hfuel; omega⟩
    rw [writeMembers, List.nil_append, membersLoop_member hvalue fuel hm out _ (stops_newline _),
      skipWs_break indent (skipWs_cons rfl rest)]
    rfl
  | cons n members ih =>
    rw [List.length_cons] at hfuel
    obtain ⟨fuel, rfl⟩ : ∃ n, fuel = n + 1 := ⟨fuel - 1, by omega⟩
    have htail : writeMembers (indent + 1) false (n :: members) ++ '\n' :: (pad indent ++ '\x7d' :: rest) =
        ',' :: '\n' :: (pad (indent + 1) ++ (writeString n.1 ++ ':' :: ' ' :: (writeValue (indent + 1) n.2 ++
          (writeMembers (indent + 1) false members ++ '\n' :: (pad indent ++ '\x7d' :: rest))))) := by
      simp [writeMembers]
    rw [htail, membersLoop_member hvalue fuel hm out _ (stops_comma _), skipWs_cons rfl, afterMember]
    rw [ih (by omega) (fun x hx => hfits x (List.mem_cons_of_mem _ hx)) (out ++ [m])
      (hfits n (List.mem_cons_of_mem _ List.mem_cons_self)), List.append_assoc, List.singleton_append]

theorem length_writeItems (indent : Nat) (first : Bool) (items : List Value) :
    items.length ≤ (writeItems indent first items).length := by
  induction items generalizing first with
  | nil => exact Nat.zero_le _
  | cons v items ih =>
    have hrest := ih false
    rw [writeItems]
    simp only [List.length_append, List.length_cons]
    omega

theorem length_writeMembers (indent : Nat) (first : Bool) (members : Members) :
    members.length ≤ (writeMembers indent first members).length := by
  induction members generalizing first with
  | nil => exact Nat.zero_le _
  | cons m members ih =>
    obtain ⟨k, v⟩ := m
    have hrest := ih false
    rw [writeMembers]
    simp only [List.length_append, List.length_cons]
    omega

/-- The loops skip blanks first. -/
theorem itemsLoop_skipWs (fuel : Nat) (out : List Value) (text : Text) :
    itemsLoop value fuel out (skipWs text) = itemsLoop value fuel out text := by
  cases fuel with
  | zero => rfl
  | succ fuel => rw [itemsLoop, itemsLoop, skipWs_skipWs]

theorem membersLoop_skipWs (fuel : Nat) (out : Members) (text : Text) :
    membersLoop value fuel out (skipWs text) = membersLoop value fuel out text := by
  cases fuel with
  | zero => rfl
  | succ fuel => rw [membersLoop, membersLoop, skipWs_skipWs]

theorem array_nonempty {text more : Text} {c : Char} (h : skipWs text = c :: more) (hc : c ≠ ']') :
    array value text = itemsLoop value (more.length + 2) [] text := by
  rw [← itemsLoop_skipWs, array, h]
  split
  next heq =>
    cases heq
    exact absurd rfl hc
  next => rfl

theorem object_nonempty {text more : Text} {c : Char} (h : skipWs text = c :: more) (hc : c ≠ '\x7d') :
    object value text = membersLoop value (more.length + 2) [] text := by
  rw [← membersLoop_skipWs, object, h]
  split
  next heq =>
    cases heq
    exact absurd rfl hc
  next => rfl

theorem array_write (hvalue : Reads levels value) {items : List Value} (hfits : ∀ v ∈ items, Fits levels v)
    (indent : Nat) (rest : Text) :
    ∃ more, writeValue indent (.arr items) ++ rest = '[' :: more ∧ array value more = .ok (.arr items, rest) := by
  cases items with
  | nil => exact ⟨_, rfl, rfl⟩
  | cons v items =>
    refine ⟨'\n' :: (pad (indent + 1) ++ (writeValue (indent + 1) v ++
      (writeItems (indent + 1) false items ++ '\n' :: (pad indent ++ ']' :: rest)))), ?_, ?_⟩
    · simp [writeValue, writeItems]
    · have hskip := skipWs_break (indent + 1) (skipWs_writeValue (hfits v List.mem_cons_self) (indent + 1)
        (writeItems (indent + 1) false items ++ '\n' :: (pad indent ++ ']' :: rest)))
      have hlength := length_writeItems (indent + 1) false items
      obtain ⟨c, more, hhead, -, hc⟩ := writeValue_head (hfits v List.mem_cons_self) (indent + 1)
      have hcons : writeValue (indent + 1) v ++
            (writeItems (indent + 1) false items ++ '\n' :: (pad indent ++ ']' :: rest)) =
          c :: (more ++ (writeItems (indent + 1) false items ++ '\n' :: (pad indent ++ ']' :: rest))) := by
        rw [hhead]
        rfl
      rw [array_nonempty (hskip.trans hcons) hc]
      refine itemsLoop_write hvalue ?_ hfits [] indent rest
      simp only [List.length_append]
      omega

theorem object_write (hvalue : Reads levels value) {members : Members} (hfits : ∀ m ∈ members, Fits levels m.2)
    (indent : Nat) (rest : Text) :
    ∃ more, writeValue indent (.obj members) ++ rest = '\x7b' :: more ∧
      object value more = .ok (.obj members, rest) := by
  cases members with
  | nil => exact ⟨_, rfl, rfl⟩
  | cons m members =>
    refine ⟨'\n' :: (pad (indent + 1) ++ (writeString m.1 ++ ':' :: ' ' :: (writeValue (indent + 1) m.2 ++
      (writeMembers (indent + 1) false members ++ '\n' :: (pad indent ++ '\x7d' :: rest))))), ?_, ?_⟩
    · obtain ⟨key, v⟩ := m
      simp [writeValue, writeMembers]
    · have hlength := length_writeMembers (indent + 1) false members
      have hhead (more : Text) : writeString m.1 ++ more = '"' :: (m.1.flatMap escape ++ '"' :: more) := by
        simp [writeString]
      have hskip (more : Text) : skipWs ('\n' :: (pad (indent + 1) ++ (writeString m.1 ++ more))) =
          '"' :: (m.1.flatMap escape ++ '"' :: more) := by
        rw [hhead]
        exact skipWs_break _ (skipWs_cons rfl _)
      rw [object_nonempty (hskip _) (by decide)]
      refine membersLoop_write hvalue ?_ hfits [] indent rest
      simp only [List.length_append, List.length_cons]
      omega

end Printed

/-- **A value that fits is read back from its text**, whatever stands behind it but a number's characters. -/
theorem value_write (levels : Nat) : Reads levels (value levels) := by
  induction levels with
  | zero =>
    intro v h
    cases h
  | succ levels ih =>
    intro v h indent rest hrest
    cases v with
    | null =>
      have hnull : value (levels + 1) ("null".toList ++ rest) = null ("null".toList ++ rest) := rfl
      rw [writeValue, hnull, null, takeLit_append]
    | bool b =>
      cases b with
      | true =>
        have htrue : value (levels + 1) ("true".toList ++ rest) = boolean ("true".toList ++ rest) := rfl
        have hwrite : writeValue indent (.bool true) = "true".toList := rfl
        rw [hwrite, htrue, boolean, takeLit_append]
      | false =>
        have hfalse : value (levels + 1) ("false".toList ++ rest) = boolean ("false".toList ++ rest) := rfl
        have hnot : takeLit "true".toList ("false".toList ++ rest) = none := rfl
        have hwrite : writeValue indent (.bool false) = "false".toList := rfl
        rw [hwrite, hfalse, boolean, hnot, takeLit_append]
    | num token =>
      have hnumber := number_token h hrest
      obtain ⟨⟨c, more, rfl, hc⟩, -⟩ := h
      have hbrace : c ≠ '\x7b' := hc.ne (by decide)
      have hbracket : c ≠ '[' := hc.ne (by decide)
      have hquote : c ≠ '"' := hc.ne (by decide)
      have hbool : ¬ (c = 't' ∨ c = 'f') := not_or.mpr ⟨hc.ne (by decide), hc.ne (by decide)⟩
      have hnull : c ≠ 'n' := hc.ne (by decide)
      have hvalue : value (levels + 1) (c :: more ++ rest) = number (c :: more ++ rest) := by
        rw [List.cons_append, value]
        simp only [if_neg hbrace, if_neg hbracket, if_neg hquote, if_neg hbool, if_neg hnull, if_pos (show c = '-' ∨ _ from hc)]
      rw [writeValue, hvalue, hnumber]
    | str text =>
      have hwrite : writeValue indent (.str text) ++ rest = '"' :: (text.flatMap escape ++ '"' :: rest) := by
        simp [writeValue, writeString]
      have hquote : '"' ≠ '\x7b' ∧ '"' ≠ '[' := by decide
      rw [hwrite, value]
      simp only [if_neg hquote.1, if_neg hquote.2, if_true, string_writeString]
    | arr items =>
      obtain ⟨more, hmore, harray⟩ := array_write ih h indent rest
      rw [hmore, value]
      exact harray
    | obj members =>
      obtain ⟨more, hmore, hobject⟩ := object_write ih h indent rest
      rw [hmore, value]
      exact hobject

/-- **Parsing inverts printing.** -/
theorem parse_toPretty {v : Value} (h : Fits maxDepth v) : parse (toPretty v) = .ok v := by
  have hread := value_write maxDepth v h 0 ['\n'] (stops_newline [])
  rw [parse, toPretty, skipWs_writeValue h, hread]
  rfl

end TmuxAgents.Install
