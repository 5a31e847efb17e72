/-
The transcript's parser accepts its grammar and nothing else, and reads back what the
printer writes.
-/
import Mathlib.Data.List.DropRight
import TmuxAgents.Transcript.JsonNumbers

namespace TmuxAgents.Transcript

open Text (byte bytes)

namespace Parser

/-- The reader takes what the grammar derives where a value may end, and nothing but that. -/
structure Reads {α : Type} (G : Text → α → Prop) (read : Bytes → Read α) : Prop where
  outcome : ∀ text, Outcome (fun taken _ a => G taken a) text (read (bytes text))
  append : ∀ taken a left, G taken a → Stops left → read (bytes (taken ++ left)) = .ok (a, bytes left)

/-- What the grammar derives starts with a character that is neither whitespace nor a closing one. -/
def Starts {α : Type} (G : Text → α → Prop) : Prop :=
  ∀ taken a, G taken a → ∃ c more, taken = c :: more ∧ Json.isWs c = false ∧ c ≠ ']' ∧ c ≠ '\x7d'

theorem Starts.ws_core {α : Type} {G : Text → α → Prop} (h : Starts G) {taken : Text} {a : α} (ha : G taken a) (left : Text) :
    ws (bytes (taken ++ left)) = bytes (taken ++ left) := by
  obtain ⟨c, more, rfl, hc, -⟩ := h taken a ha
  exact ws_cons hc _

/-! ## Elements -/

/-- A bracket that closes what is read. -/
def Closing (close : Char) : Prop := close = ']' ∨ close = '\x7d'

theorem Closing.ascii {close : Char} (h : Closing close) : close.toNat < 128 := by
  rcases h with rfl | rfl
  · decide
  · decide

theorem Closing.isWs {close : Char} (h : Closing close) : Json.isWs close = false := by
  rcases h with rfl | rfl
  · rfl
  · rfl

theorem stops_gap {gap : Text} (hgap : Json.Ws gap) {c : Char} (hc : c = ',' ∨ Closing c) (left : Text) :
    Stops (gap ++ c :: left) := by
  intro d more heq
  cases gap with
  | nil =>
    rw [← (List.cons.inj heq).1]
    exact .inr hc
  | cons e gap =>
    rw [← (List.cons.inj heq).1]
    exact .inl (hgap e List.mem_cons_self)

theorem Starts.ne {α : Type} {G : Text → α → Prop} (h : Starts G) {close : Char} (hclose : Closing close) {taken : Text}
    {a : α} (ha : G taken a) (left more : Text) : taken ++ left ≠ close :: more := by
  obtain ⟨c, rest, rfl, -, hbracket, hbrace⟩ := h taken a ha
  intro heq
  rw [List.cons_append, List.cons.injEq] at heq
  rcases hclose with rfl | rfl
  · exact hbracket heq.1
  · exact hbrace heq.1

section

variable {α : Type} {G : Text → α → Prop} {elem : Bytes → Read α} {close : Char} {fault : Fault}

theorem elementsLoop_outcome (h : Reads G elem) (hclose : Closing close) (hfault : fault ≠ .invalidUtf8) (fuel : Nat)
    (items : List α) (text : Text) :
    Outcome (fun taken _ as => ∃ body more, taken = body ++ [close] ∧ Json.Separated G body more ∧ as = items ++ more) text
      (elementsLoop elem close fault fuel items (bytes text)) := by
  induction fuel generalizing items text with
  | zero => exact hfault
  | succ fuel ih =>
    rw [elementsLoop]
    obtain ⟨before, t₁, rfl, hbefore, hws⟩ := exists_ws text
    rw [hws]
    have helem := h.outcome t₁
    split
    next e he =>
      rw [he] at helem
      exact helem
    next a b hok =>
      rw [hok] at helem
      obtain ⟨core, t₂, rfl, rfl, ha⟩ := helem
      split
      next b hcomma =>
        obtain ⟨after, t₃, rfl, hafter, rfl⟩ := eat_ws (by decide) hcomma
        have hpadded : Json.Padded G (before ++ (core ++ after)) a := ⟨before, core, after, rfl, hbefore, ha, hafter⟩
        have hstep : Outcome (fun taken _ as => ∃ body more, taken = body ++ [close] ∧ Json.Separated G body more ∧
            as = items ++ more) ((before ++ (core ++ after) ++ [',']) ++ t₃)
            (elementsLoop elem close fault fuel (items ++ [a]) (bytes t₃)) := by
          refine (ih (items ++ [a]) t₃).after _ ?_
          rintro taken left as - ⟨body, more, rfl, hbody, rfl⟩
          refine ⟨(before ++ (core ++ after)) ++ ',' :: body, a :: more, ?_, .more hpadded hbody, ?_⟩
          · simp only [List.append_assoc, List.cons_append, List.nil_append]
          · rw [List.append_assoc, List.singleton_append]
        simpa only [List.append_assoc, List.singleton_append] using hstep
      next =>
        split
        next b hend =>
          obtain ⟨after, left, rfl, hafter, rfl⟩ := eat_ws hclose.ascii hend
          refine ⟨(before ++ (core ++ after)) ++ [close], left, ?_, rfl, _, [a], rfl,
            .one ⟨before, core, after, rfl, hbefore, ha, hafter⟩, rfl⟩
          simp only [List.append_assoc, List.singleton_append]
        next => exact hfault

theorem elementsLoop_append (h : Reads G elem) (hstarts : Starts G) (hclose : Closing close) {fuel : Nat} {body : Text}
    {more : List α} (hbody : Json.Separated G body more) (hfuel : more.length ≤ fuel) (items : List α) (left : Text) :
    elementsLoop elem close fault fuel items (bytes (body ++ close :: left)) = .ok (items ++ more, bytes left) := by
  induction hbody generalizing fuel items with
  | @one text a hpadded =>
    obtain ⟨before, core, after, rfl, hbefore, ha, hafter⟩ := hpadded
    obtain ⟨fuel, rfl⟩ : ∃ n, fuel = n + 1 := ⟨fuel - 1, by rw [List.length_singleton] at hfuel; omega⟩
    have hcomma : eat ',' (ws (bytes (after ++ close :: left))) = none := by
      rw [ws_append hafter, ws_cons hclose.isWs]
      refine eat_none (by decide) fun rest heq => ?_
      rcases hclose with rfl | rfl
      · cases heq
      · cases heq
    rw [List.append_assoc, List.append_assoc, elementsLoop, ws_append hbefore, hstarts.ws_core ha,
      h.append _ _ _ ha (stops_gap hafter (.inr hclose) left)]
    simp only
    rw [hcomma, eat_gap hclose.ascii hclose.isWs hafter]
  | @more text rest a as hpadded _ ih =>
    obtain ⟨before, core, after, rfl, hbefore, ha, hafter⟩ := hpadded
    obtain ⟨fuel, rfl⟩ : ∃ n, fuel = n + 1 := ⟨fuel - 1, by rw [List.length_cons] at hfuel; omega⟩
    have hshape : before ++ (core ++ after) ++ ',' :: rest ++ close :: left =
        before ++ (core ++ (after ++ ',' :: (rest ++ close :: left))) := by
      simp only [List.append_assoc, List.cons_append]
    rw [hshape, elementsLoop, ws_append hbefore, hstarts.ws_core ha, h.append _ _ _ ha (stops_gap hafter (.inl rfl) _)]
    simp only
    rw [eat_gap (by decide) rfl hafter]
    simp only
    rw [ih (by rw [List.length_cons] at hfuel; omega), List.append_assoc, List.singleton_append]

theorem elementsLoop_ws (fuel : Nat) (items : List α) (text : Text) :
    elementsLoop elem close fault (fuel + 1) items (ws (bytes text)) =
      elementsLoop elem close fault (fuel + 1) items (bytes text) := by
  have hws : ws (ws (bytes text)) = ws (bytes text) := by
    rw [ws_bytes, ws_bytes, List.dropWhile_idempotent]
  rw [elementsLoop, elementsLoop, hws]

theorem separated_length {body : Text} {more : List α} (h : Json.Separated G body more) : more.length ≤ body.length + 1 := by
  induction h with
  | one _ => exact Nat.le_add_left _ _
  | more _ _ ih =>
    rw [List.length_cons, List.length_append, List.length_cons]
    omega

/-- What stands between the brackets starts with no closing one. -/
theorem Starts.eat_none (h : Starts G) (hclose : Closing close) {body : Text} {more : List α}
    (hbody : Json.Separated G body more) (left : Text) : eat close (ws (bytes (body ++ left))) = none := by
  have hpadded : ∀ {text : Text} {a : α}, Json.Padded G text a → ∀ left, eat close (ws (bytes (text ++ left))) = none := by
    rintro text a ⟨before, core, after, rfl, hbefore, ha, -⟩ left
    rw [List.append_assoc, ws_append hbefore, List.append_assoc, h.ws_core ha]
    exact Parser.eat_none hclose.ascii fun more => h.ne hclose ha _ more
  cases hbody with
  | one hone => exact hpadded hone left
  | more hone _ =>
    rw [List.append_assoc]
    exact hpadded hone _

theorem elements_outcome (h : Reads G elem) (hclose : Closing close) (hfault : fault ≠ .invalidUtf8) {c : Char}
    (hc : c.toNat < 128) (text : Text) :
    Outcome (fun taken _ as => ∃ body, taken = c :: (body ++ [close]) ∧ Json.Elements G body as) (c :: text)
      (elements elem close fault (bytes (c :: text))) := by
  rw [elements, Text.bytes_ascii hc, List.drop_one, List.tail_cons]
  split
  next b hend =>
    obtain ⟨gap, left, rfl, hgap, rfl⟩ := eat_ws hclose.ascii hend
    refine ⟨c :: (gap ++ [close]), left, ?_, rfl, gap, rfl, .inl ⟨rfl, hgap⟩⟩
    simp only [List.cons_append, List.append_assoc, List.nil_append]
  next =>
    obtain ⟨gap, left, rfl, hgap, hws⟩ := exists_ws text
    rw [hws]
    refine (elementsLoop_outcome h hclose hfault _ [] left).after (c :: gap) ?_
    rintro taken left as - ⟨body, more, rfl, hbody, rfl⟩
    refine ⟨gap ++ body, ?_, .inr ?_⟩
    · simp only [List.cons_append, List.append_assoc]
    · exact hbody.gap hgap

theorem elements_append (h : Reads G elem) (hstarts : Starts G) (hclose : Closing close) {c : Char} (hc : c.toNat < 128)
    {body : Text} {as : List α} (hbody : Json.Elements G body as) (left : Text) :
    elements elem close fault (bytes (c :: (body ++ [close]) ++ left)) = .ok (as, bytes left) := by
  have hshape : c :: (body ++ [close]) ++ left = c :: (body ++ close :: left) := by
    simp only [List.cons_append, List.append_assoc, List.nil_append]
  rw [hshape, elements, Text.bytes_ascii hc, List.drop_one, List.tail_cons]
  rcases hbody with ⟨rfl, hgap⟩ | hbody
  · rw [eat_gap hclose.ascii hclose.isWs hgap]
  · have hfuel : as.length ≤ (bytes (body ++ close :: left)).length + 1 := by
      have hlength := separated_length hbody
      have hbytes := Text.length_le_bytes (body ++ close :: left)
      rw [List.length_append] at hbytes
      omega
    rw [hstarts.eat_none hclose hbody, List.length_cons]
    simp only
    rw [elementsLoop_ws, elementsLoop_append h hstarts hclose hbody hfuel, List.nil_append]

end

/-! ## Values -/

theorem member_starts {G : Text → Value → Prop} : Starts (Json.Member G) := by
  rintro taken m ⟨name, gap, after, value, rfl, hname, -⟩
  obtain ⟨more, rfl⟩ := hname.head
  exact ⟨'"', _, rfl, rfl, by decide, by decide⟩

theorem pair_reads {G : Text → Value → Prop} {value : Bytes → Read Value} (h : Reads G value) (hstarts : Starts G) :
    Reads (Json.Member G) (pair value) where
  outcome text := by
    rw [pair]
    have hkey := string_outcome text
    split
    next e he =>
      rw [he] at hkey
      exact hkey
    next key b hok =>
      rw [hok] at hkey
      obtain ⟨name, t₁, rfl, rfl, hname⟩ := hkey
      split
      · exact Fault.noConfusion
      next b hcolon =>
        obtain ⟨gap, t₂, rfl, hgap, rfl⟩ := eat_ws (by decide) hcolon
        obtain ⟨after, t₃, rfl, hafter, hws⟩ := exists_ws t₂
        rw [hws]
        have hvalue := h.outcome t₃
        split
        next e he =>
          rw [he] at hvalue
          exact hvalue
        next v b hok =>
          rw [hok] at hvalue
          obtain ⟨taken, left, rfl, rfl, hv⟩ := hvalue
          refine ⟨name ++ (gap ++ ':' :: (after ++ taken)), left, ?_, rfl, name, gap, after, taken, rfl, hname, hgap,
            hafter, hv⟩
          simp only [List.append_assoc, List.cons_append]
  append := by
    rintro taken m left ⟨name, gap, after, value, rfl, hname, hgap, hafter, hv⟩ hleft
    have hshape : name ++ (gap ++ ':' :: (after ++ value)) ++ left = name ++ (gap ++ ':' :: (after ++ (value ++ left))) := by
      simp only [List.append_assoc, List.cons_append]
    rw [hshape, pair, string_append hname]
    simp only
    rw [eat_gap (by decide) rfl hgap]
    simp only
    rw [ws_append hafter, hstarts.ws_core hv, h.append _ _ _ hv hleft]

theorem digit_ne {c d : Char} (hc : c.isDigit = true) (hd : d.isDigit = false) : c ≠ d := by
  rintro rfl
  simp [hd] at hc

theorem nests_starts (levels : Nat) : Starts (Json.Nests levels) := by
  intro taken v h
  obtain ⟨c, more, rfl, hc⟩ := h.head
  have hne (d : Char) (hd : Json.opens d = false) : c ≠ d := by
    rintro rfl
    simp [hd] at hc
  refine ⟨c, more, rfl, ?_, hne _ rfl, hne _ rfl⟩
  simp [Json.isWs, hne ' ' rfl, hne '\t' rfl, hne '\n' rfl, hne '\r' rfl]

/-- What the parser has for the values one level deeper. -/
def InnerReads : Nat → Option (Bytes → Read Value) → Prop
  | 0, inner => inner = none
  | levels + 1, inner => ∃ value, inner = some value ∧ Reads (Json.Nests levels) value

section

variable {levels : Nat} {inner : Option (Bytes → Read Value)} (h : InnerReads levels inner)

include h

theorem object_outcome (text : Text) :
    Outcome (fun taken _ v => Json.Nests levels taken v) ('\x7b' :: text) (object inner (bytes ('\x7b' :: text))) := by
  cases levels with
  | zero =>
    cases h
    exact Fault.noConfusion
  | succ levels =>
    obtain ⟨value, rfl, hvalue⟩ := h
    have helements := @elements_outcome _ _ _ _ .objectEnd (pair_reads hvalue (nests_starts levels)) (.inr rfl) Fault.noConfusion
      '\x7b' (by decide) text
    rw [object]
    split
    next e he =>
      rw [he] at helements
      exact helements
    next pairs b hok =>
      rw [hok] at helements
      obtain ⟨taken, left, htext, rfl, body, rfl, hbody⟩ := helements
      exact ⟨_, left, htext, rfl, body, rfl, hbody⟩

theorem array_outcome (text : Text) :
    Outcome (fun taken _ v => Json.Nests levels taken v) ('[' :: text) (array inner (bytes ('[' :: text))) := by
  cases levels with
  | zero =>
    cases h
    exact Fault.noConfusion
  | succ levels =>
    obtain ⟨value, rfl, hvalue⟩ := h
    have helements := @elements_outcome _ _ _ _ .arrayEnd hvalue (.inl rfl) Fault.noConfusion '[' (by decide) text
    rw [array]
    split
    next e he =>
      rw [he] at helements
      exact helements
    next items b hok =>
      rw [hok] at helements
      obtain ⟨taken, left, htext, rfl, body, rfl, hbody⟩ := helements
      exact ⟨_, left, htext, rfl, body, rfl, hbody⟩

theorem object_append {taken : Text} {members : List (Text × Value)} (hv : Json.Nests levels taken (.obj members)) (left : Text) :
    object inner (bytes (taken ++ left)) = .ok (.obj members, bytes left) := by
  cases levels with
  | zero => exact hv.elim
  | succ levels =>
    obtain ⟨value, rfl, hvalue⟩ := h
    obtain ⟨body, rfl, hbody⟩ := hv
    rw [object, elements_append (pair_reads hvalue (nests_starts levels)) member_starts (.inr rfl) (by decide) hbody]

theorem array_append {taken : Text} {items : List Value} (hv : Json.Nests levels taken (.arr items)) (left : Text) :
    array inner (bytes (taken ++ left)) = .ok (.arr items, bytes left) := by
  cases levels with
  | zero => exact hv.elim
  | succ levels =>
    obtain ⟨value, rfl, hvalue⟩ := h
    obtain ⟨body, rfl, hbody⟩ := hv
    rw [array, elements_append hvalue (nests_starts levels) (.inl rfl) (by decide) hbody]

end

theorem lit_append (text left : Text) : lit text (bytes (text ++ left)) = some (bytes left) := by
  rw [lit, Text.bytes_append, if_pos (List.prefix_append _ _), List.drop_left]

/-- A word is ASCII, so what it starts is a text. -/
theorem lit_some {text : Text} (htext : ∀ c ∈ text, c.toNat < 128) {all : Text} {b : Bytes}
    (h : lit text (bytes all) = some b) : ∃ left, all = text ++ left ∧ b = bytes left := by
  induction text generalizing all with
  | nil =>
    rw [lit, Text.bytes_nil, if_pos List.nil_prefix] at h
    exact ⟨all, rfl, (Option.some.inj h).symm⟩
  | cons c text ih =>
    have hc := htext c List.mem_cons_self
    rw [lit, Text.bytes_ascii hc] at h
    split at h
    next hprefix =>
      obtain ⟨rest, hrest⟩ := hprefix
      obtain ⟨more, rfl, hmore⟩ := Text.bytes_eq_cons hc hrest.symm
      have hlit : lit text (bytes more) = some b := by
        rw [lit, if_pos ⟨rest, hmore⟩]
        rw [Text.bytes_ascii hc] at h
        exact h
      obtain ⟨left, rfl, rfl⟩ := ih (fun d hd => htext d (List.mem_cons_of_mem _ hd)) hlit
      exact ⟨left, rfl, rfl⟩
    next => cases h

theorem word_outcome (text : Text) (htext : ∀ c ∈ text, c.toNat < 128) (v : Value) (all : Text) :
    Outcome (fun taken _ w => taken = text ∧ w = v) all (word text v (bytes all)) := by
  rw [word]
  split
  next b hlit =>
    obtain ⟨left, rfl, rfl⟩ := lit_some htext hlit
    exact ⟨text, left, rfl, rfl, rfl, rfl⟩
  next => exact Fault.noConfusion

theorem word_append (text left : Text) (v : Value) : word text v (bytes (text ++ left)) = .ok (v, bytes left) := by
  rw [word, lit_append]

/-- The first character says what is read. -/
theorem dispatch_cons (inner : Option (Bytes → Read Value)) (c : Char) (text : Text) :
    dispatch inner (bytes (c :: text)) =
      if c = '\x7b' then object inner (bytes (c :: text))
      else if c = '[' then array inner (bytes (c :: text))
      else if c = '"' then (string (bytes (c :: text))).map fun read => (.str read.1, read.2)
      else if c = 'n' then word "null".toList .null (bytes (c :: text))
      else if c = 't' then word "true".toList (.bool true) (bytes (c :: text))
      else if c = 'f' then word "false".toList (.bool false) (bytes (c :: text))
      else if c = '-' ∨ c.isDigit = true then number (bytes (c :: text))
      else err (bytes (c :: text)) .value := by
  obtain ⟨b, rest, hbytes⟩ := Text.exists_bytes_cons c text
  have hhead {d : Char} (hd : d.toNat < 128) : (b = byte d) = (c = d) := propext (Text.head_byte hd hbytes)
  have hdigit : isDigit b = c.isDigit := agrees_digit.head hbytes
  rw [hbytes, dispatch]
  simp only [hhead (by decide : '\x7b'.toNat < 128), hhead (by decide : '['.toNat < 128), hhead (by decide : '"'.toNat < 128),
    hhead (by decide : 'n'.toNat < 128), hhead (by decide : 't'.toNat < 128), hhead (by decide : 'f'.toNat < 128),
    hhead (by decide : '-'.toNat < 128), hdigit]
  cases string (b :: rest) with
  | error e => rfl
  | ok read => rfl

theorem dispatch_reads {levels : Nat} {inner : Option (Bytes → Read Value)} (h : InnerReads levels inner) :
    Reads (Json.Nests levels) (dispatch inner) where
  outcome text := by
    cases text with
    | nil => exact Fault.noConfusion
    | cons c text =>
      rw [dispatch_cons]
      split
      next hc =>
        subst hc
        exact object_outcome h text
      split
      next hc =>
        subst hc
        exact array_outcome h text
      split
      next =>
        have hstring := string_outcome (c :: text)
        cases hread : string (bytes (c :: text)) with
        | error e =>
          rw [hread] at hstring
          exact hstring
        | ok read =>
          obtain ⟨s, b⟩ := read
          rw [hread] at hstring
          obtain ⟨taken, left, htext, rfl, hs⟩ := hstring
          exact ⟨taken, left, htext, rfl, Json.nests_str.mpr hs⟩
      split
      next =>
        refine (word_outcome "null".toList (by decide) .null (c :: text)).after [] ?_
        rintro taken left v - ⟨rfl, rfl⟩
        exact Json.nests_null.mpr rfl
      split
      next =>
        refine (word_outcome "true".toList (by decide) (.bool true) (c :: text)).after [] ?_
        rintro taken left v - ⟨rfl, rfl⟩
        exact Json.nests_bool.mpr rfl
      split
      next =>
        refine (word_outcome "false".toList (by decide) (.bool false) (c :: text)).after [] ?_
        rintro taken left v - ⟨rfl, rfl⟩
        exact Json.nests_bool.mpr rfl
      split
      next =>
        refine (number_outcome (c :: text)).after [] ?_
        rintro taken left v - ⟨hnumber, rfl⟩
        exact Json.nests_num.mpr ⟨rfl, hnumber⟩
      next => exact Fault.noConfusion
  append := by
    intro taken v left hv hleft
    cases v with
    | null =>
      have hword := word_append "null".toList left .null
      rw [Json.nests_null.mp hv]
      exact (dispatch_cons inner 'n' ("ull".toList ++ left)).trans hword
    | bool b =>
      cases b with
      | true =>
        have hword := word_append "true".toList left (.bool true)
        rw [Json.nests_bool.mp hv]
        exact (dispatch_cons inner 't' ("rue".toList ++ left)).trans hword
      | false =>
        have hword := word_append "false".toList left (.bool false)
        rw [Json.nests_bool.mp hv]
        exact (dispatch_cons inner 'f' ("alse".toList ++ left)).trans hword
    | num literal =>
      obtain ⟨rfl, hnumber⟩ := Json.nests_num.mp hv
      have hread := number_append hnumber hleft
      obtain ⟨c, more, rfl, hc⟩ := hnumber.head
      have hne (d : Char) (hd : d.isDigit = false) (hminus : d ≠ '-') : c ≠ d := by
        rcases hc with rfl | hc
        · exact hminus.symm
        · exact digit_ne hc hd
      rw [List.cons_append] at hread ⊢
      rw [dispatch_cons, if_neg (hne _ rfl (by decide)), if_neg (hne _ rfl (by decide)), if_neg (hne _ rfl (by decide)),
        if_neg (hne _ rfl (by decide)), if_neg (hne _ rfl (by decide)), if_neg (hne _ rfl (by decide)), if_pos hc, hread]
    | str s =>
      have hread := string_append (Json.nests_str.mp hv) left
      obtain ⟨more, rfl⟩ := (Json.nests_str.mp hv).head
      rw [List.cons_append] at hread ⊢
      rw [dispatch_cons, hread]
      rfl
    | arr items =>
      have hread := array_append h hv left
      obtain ⟨more, rfl⟩ := hv.arr_head
      exact (dispatch_cons inner '[' (more ++ left)).trans hread
    | obj members =>
      have hread := object_append h hv left
      obtain ⟨more, rfl⟩ := hv.obj_head
      exact (dispatch_cons inner '\x7b' (more ++ left)).trans hread

theorem value_reads (levels : Nat) : Reads (Json.Nests levels) (value levels) := by
  induction levels with
  | zero => exact dispatch_reads rfl
  | succ levels ih => exact dispatch_reads ⟨value levels, rfl, ih⟩

end Parser

/-! ## Documents -/

theorem parse_ok {src : Text} {v : Value} : parse src = .ok v ↔ Json.Document maxDepth src v := by
  have hreads := Parser.value_reads maxDepth
  constructor
  · intro h
    rw [parse] at h
    obtain ⟨before, t₁, rfl, hbefore, hws⟩ := Parser.exists_ws src
    have hvalue := hreads.outcome t₁
    simp only [hws] at h
    split at h
    · cases h
    next w b hok =>
      rw [hok] at hvalue
      obtain ⟨core, after, rfl, rfl, hv⟩ := hvalue
      split at h
      next hend =>
        cases h
        refine ⟨before, core, after, rfl, hbefore, hv, ?_⟩
        rw [Parser.ws_bytes, Text.bytes_eq_nil, List.dropWhile_eq_nil_iff] at hend
        exact hend
      next => cases h
  · rintro ⟨before, core, after, rfl, hbefore, hv, hafter⟩
    have hstops : Parser.Stops after := by
      intro c more heq
      exact .inl (hafter c (by rw [heq]; exact List.mem_cons_self))
    have hend : Parser.ws (bytes after) = [] := by
      rw [Parser.ws_bytes, List.dropWhile_eq_nil_iff.mpr hafter]
      rfl
    rw [parse, Parser.ws_append hbefore, (Parser.nests_starts maxDepth).ws_core hv, hreads.append _ _ _ hv hstops]
    simp only
    rw [if_pos hend]

/-- No text is refused for a character that was cut. -/
theorem parse_error {src : Text} {e : ParseError} (h : parse src = .error e) : e.fault ≠ .invalidUtf8 := by
  rw [parse] at h
  obtain ⟨before, t₁, rfl, hbefore, hws⟩ := Parser.exists_ws src
  have hvalue := (Parser.value_reads maxDepth).outcome t₁
  simp only [hws] at h
  split at h
  next left fault hbad =>
    cases h
    rw [hbad] at hvalue
    exact hvalue
  next w b hok =>
    split at h
    · cases h
    · cases h
      exact Fault.noConfusion

/-! ## What is printed -/

namespace Value

/-- A printed character spells itself. -/
theorem writeChar_body (c : Char) {text : Text} {pieces : List Json.Piece} (h : Json.Body text pieces) :
    ∃ pieces', Json.Body (writeChar c ++ text) pieces' ∧ Json.decode pieces' = c :: Json.decode pieces := by
  unfold writeChar
  split
  next hc => exact ⟨_, .short rfl h, by rw [hc]; rfl⟩
  split
  next hc => exact ⟨_, .short rfl h, by rw [hc]; rfl⟩
  split
  next hc => exact ⟨_, .short rfl h, by rw [hc]; rfl⟩
  split
  next hc => exact ⟨_, .short rfl h, by rw [hc]; rfl⟩
  split
  next hc => exact ⟨_, .short rfl h, by rw [hc]; rfl⟩
  split
  next hlow =>
    have hdigits : Json.hexValue 0 ['0', '0', Nat.digitChar (c.toNat / 16), Nat.digitChar (c.toNat % 16)] = some c.toNat := by
      have hzero : Text.hexDigit '0' = some 0 := rfl
      simp only [Json.hexValue, hzero, Text.hexDigit_digitChar (c.toNat / 16) (by omega),
        Text.hexDigit_digitChar (c.toNat % 16) (by omega), Option.some.injEq]
      omega
    have hscalar : Json.scalar c.toNat = c := by
      have hvalid : c.toNat.isValidChar := c.valid
      rw [Json.scalar, if_pos hvalid, Char.ofNat_toNat]
    have hhigh : Json.isHigh c.toNat = false := by
      rw [Json.isHigh, decide_eq_false (by omega)]
      rfl
    have hunit := Json.Body.unit rfl hdigits h
    refine ⟨.unit c.toNat :: pieces, hunit, ?_⟩
    rw [Json.decode_low hhigh, hscalar]
  next hquote hslash _ _ _ hlow =>
    have hplain : Json.isPlain c = true := by simp [Json.isPlain, hquote, hslash, hlow]
    exact ⟨_, .plain hplain h, rfl⟩

theorem writeString_text (s : Text) : Json.StringText (writeString s) s := by
  have hbody : ∃ pieces, Json.Body (s.flatMap writeChar) pieces ∧ Json.decode pieces = s := by
    induction s with
    | nil => exact ⟨[], .nil, rfl⟩
    | cons c s ih =>
      obtain ⟨pieces, hbody, hdecode⟩ := ih
      obtain ⟨pieces', hbody', hdecode'⟩ := writeChar_body c hbody
      exact ⟨pieces', hbody', by rw [hdecode', hdecode]⟩
  obtain ⟨pieces, hbody, hdecode⟩ := hbody
  exact ⟨_, pieces, rfl, hbody, hdecode⟩

theorem writeItems_separated {levels : Nat} (ih : ∀ v, Json.Within levels v → Json.Nests levels (writeCompact v) v)
    {v : Value} {items : List Value} (h : ∀ w ∈ v :: items, Json.Within levels w) :
    Json.Separated (Json.Nests levels) (writeItems true (v :: items)) (v :: items) := by
  have hfirst := Json.padded_self (ih v (h v List.mem_cons_self))
  induction items generalizing v with
  | nil =>
    rw [writeItems, writeItems, List.append_nil]
    exact .one hfirst
  | cons w items hrest =>
    have hitems : ∀ x ∈ w :: items, Json.Within levels x := fun x hx => h x (List.mem_cons_of_mem _ hx)
    exact .more hfirst (hrest hitems (Json.padded_self (ih w (hitems w List.mem_cons_self))))

theorem writePair_member {levels : Nat} {m : Text × Value} (h : Json.Nests levels (writeCompact m.2) m.2) :
    Json.Padded (Json.Member (Json.Nests levels)) (writeString m.1 ++ ':' :: writeCompact m.2) m :=
  Json.padded_self ⟨writeString m.1, [], [], writeCompact m.2, rfl, writeString_text m.1, Json.ws_nil, Json.ws_nil, h⟩

theorem writePairs_separated {levels : Nat} (ih : ∀ v, Json.Within levels v → Json.Nests levels (writeCompact v) v)
    {m : Text × Value} {pairs : List (Text × Value)} (h : ∀ n ∈ m :: pairs, Json.Within levels n.2) :
    Json.Separated (Json.Member (Json.Nests levels)) (writePairs true (m :: pairs)) (m :: pairs) := by
  have hfirst := writePair_member (ih m.2 (h m List.mem_cons_self))
  induction pairs generalizing m with
  | nil =>
    have htext : writePairs true [m] = writeString m.1 ++ ':' :: writeCompact m.2 := by simp [writePairs]
    rw [htext]
    exact .one hfirst
  | cons n pairs hrest =>
    have hpairs : ∀ x ∈ n :: pairs, Json.Within levels x.2 := fun x hx => h x (List.mem_cons_of_mem _ hx)
    have htext : writePairs true (m :: n :: pairs) =
        (writeString m.1 ++ ':' :: writeCompact m.2) ++ ',' :: writePairs true (n :: pairs) := by simp [writePairs]
    rw [htext]
    exact .more hfirst (hrest hpairs (writePair_member (ih n.2 (hpairs n List.mem_cons_self))))

theorem toCompact_nests {levels : Nat} {v : Value} (h : Json.Within levels v) : Json.Nests levels (writeCompact v) v := by
  have hscalars : ∀ {levels : Nat} {v : Value}, Json.Within levels v → (∀ items, v ≠ .arr items) → (∀ pairs, v ≠ .obj pairs) →
      Json.Nests levels (writeCompact v) v := by
    intro levels v h harr hobj
    cases v with
    | null => exact Json.nests_null.mpr (by rw [writeCompact])
    | bool b => exact Json.nests_bool.mpr (by rw [writeCompact])
    | num raw => exact Json.nests_num.mpr ⟨by rw [writeCompact], Json.within_num.mp h⟩
    | str s => exact Json.nests_str.mpr (by rw [writeCompact]; exact writeString_text s)
    | arr items => exact absurd rfl (harr items)
    | obj pairs => exact absurd rfl (hobj pairs)
  induction levels generalizing v with
  | zero => exact hscalars h (fun _ heq => by cases heq; exact h) fun _ heq => by cases heq; exact h
  | succ levels ih =>
    cases v with
    | arr items =>
      refine ⟨writeItems true items, by rw [writeCompact], ?_⟩
      cases items with
      | nil => exact .inl ⟨rfl, Json.ws_nil⟩
      | cons v items => exact .inr (writeItems_separated (fun _ => ih) h)
    | obj pairs =>
      refine ⟨writePairs true pairs, by rw [writeCompact], ?_⟩
      cases pairs with
      | nil => exact .inl ⟨rfl, Json.ws_nil⟩
      | cons m pairs => exact .inr (writePairs_separated (fun _ => ih) h)
    | null => exact hscalars h (fun _ heq => by cases heq) fun _ heq => by cases heq
    | bool b => exact hscalars h (fun _ heq => by cases heq) fun _ heq => by cases heq
    | num raw => exact hscalars h (fun _ heq => by cases heq) fun _ heq => by cases heq
    | str s => exact hscalars h (fun _ heq => by cases heq) fun _ heq => by cases heq

end Value

/-- **The parser accepts exactly its grammar.** A text is parsed to a value just where it is one JSON text within
the depth limit and denotes that value; every value within the limit is read back from its compact text; and
no text is refused for a character the parser cut. -/
theorem parse_exact :
    (∀ src v, parse src = .ok v ↔ Json.Document maxDepth src v) ∧
      (∀ v, Json.Within maxDepth v → parse (Value.toCompact v) = .ok v) ∧
      ∀ src e, parse src = .error e → e.fault ≠ .invalidUtf8 := by
  refine ⟨fun src v => parse_ok, fun v h => ?_, fun src e h => parse_error h⟩
  exact parse_ok.mpr (Json.padded_self (Value.toCompact_nests h))

/-- A nested value printed and read back, and a text that ends early. -/
theorem parse_exact_nested :
    parse (Value.toCompact (.obj [("k".toList, .arr [.num "-0.5".toList])])) =
        .ok (.obj [("k".toList, .arr [.num "-0.5".toList])]) ∧
      parse "[1".toList = .error ⟨2, .arrayEnd⟩ ∧ Fault.arrayEnd ≠ .invalidUtf8 := by
  have hnumber : Json.Number "-0.5".toList :=
    ⟨['-'], ['0'], ['.', '5'], [], rfl, .inr rfl, .inl rfl, .inr ⟨['5'], rfl, by decide, by decide⟩, .inl rfl⟩
  have hwithin : Json.Within maxDepth (.obj [("k".toList, .arr [.num "-0.5".toList])]) := by
    intro m hm
    rw [List.mem_singleton.mp hm]
    intro v hv
    rw [List.mem_singleton.mp hv]
    exact hnumber
  have herror : parse "[1".toList = .error ⟨2, .arrayEnd⟩ := rfl
  exact ⟨parse_exact.2.1 _ hwithin, herror, parse_exact.2.2 _ _ herror⟩

/- A lone high surrogate, then a pair. -/
example : Json.decode [.unit 0xd83d, .unit 0xd83d, .unit 0xde00] = "\ufffd😀".toList := by decide

end TmuxAgents.Transcript
