/-
The parser's numbers against the grammar: what is taken is a number, and a number is taken
whole wherever what follows it cannot go on as one.
-/
import TmuxAgents.Transcript.JsonFacts

namespace TmuxAgents.Transcript.Parser

open Text (byte bytes)

/-! ## What may follow -/

/-- The text does not start with such a character. -/
def NoHead (P : Char → Prop) (left : Text) : Prop := ∀ c more, left = c :: more → ¬ P c

theorem noHead_cons {P : Char → Prop} {c : Char} (h : ¬ P c) (more : Text) : NoHead P (c :: more) := by
  rintro d rest heq
  rw [← (List.cons.inj heq).1]
  exact h

theorem noHead_append {P : Char → Prop} {front left : Text} (hfront : NoHead P front) (hleft : NoHead P left) :
    NoHead P (front ++ left) := by
  cases front with
  | nil => exact hleft
  | cons c front => exact noHead_cons (hfront c front rfl) _

abbrev NoDigit : Text → Prop := NoHead fun c => c.isDigit = true

/-- What a number takes, past its digits. -/
def InNumber (c : Char) : Prop := c.isDigit = true ∨ c = '.' ∨ c = 'e' ∨ c = 'E'

/-- The text can stand behind a value. -/
def Stops (left : Text) : Prop := ∀ c more, left = c :: more → Json.isWs c = true ∨ c = ',' ∨ c = ']' ∨ c = '\x7d'

theorem Stops.noHead {left : Text} (h : Stops left) : NoHead InNumber left := by
  intro c more heq hnumber
  rcases h c more heq with hws | rfl | rfl | rfl
  · rw [Json.isWs, Bool.or_eq_true, Bool.or_eq_true, Bool.or_eq_true, beq_iff_eq, beq_iff_eq, beq_iff_eq, beq_iff_eq] at hws
    rcases hws with ((rfl | rfl) | rfl) | rfl
    · revert hnumber
      simp [InNumber]
    · revert hnumber
      simp [InNumber]
    · revert hnumber
      simp [InNumber]
    · revert hnumber
      simp [InNumber]
  · revert hnumber
    simp [InNumber]
  · revert hnumber
    simp [InNumber]
  · revert hnumber
    simp [InNumber]

theorem NoHead.mono {P Q : Char → Prop} {left : Text} (h : NoHead P left) (hPQ : ∀ c, Q c → P c) : NoHead Q left :=
  fun c more heq hq => h c more heq (hPQ c hq)

/-! ## Digits -/

theorem digit_ascii {c : Char} (h : c.isDigit = true) : c.toNat < 128 := by
  simp only [Char.isDigit, ge_iff_le, Bool.and_eq_true, decide_eq_true_eq, UInt32.le_iff_toNat_le] at h
  exact Nat.lt_of_le_of_lt h.2 (by decide)

theorem digits_bytes (text : Text) :
    digits (bytes text) =
      if text.takeWhile Char.isDigit = [] then none else some (bytes (text.dropWhile Char.isDigit)) := by
  have hbytes : bytes text = bytes (text.takeWhile Char.isDigit) ++ bytes (text.dropWhile Char.isDigit) := by
    rw [← Text.bytes_append, List.takeWhile_append_dropWhile]
  rw [digits, Text.dropWhile_bytes agrees_digit]
  split
  next hshort =>
    rw [if_neg]
    intro hnil
    rw [hbytes, hnil, Text.bytes_nil, List.nil_append] at hshort
    exact Nat.lt_irrefl _ hshort
  next hshort =>
    rw [if_pos]
    apply Text.bytes_eq_nil.mp
    apply List.length_eq_zero_iff.mp
    rw [hbytes, List.length_append] at hshort
    omega

theorem digits_some {text : Text} {b : Bytes} (h : digits (bytes text) = some b) :
    ∃ ds left, text = ds ++ left ∧ Json.Digits ds ∧ b = bytes left := by
  rw [digits_bytes] at h
  split at h
  · cases h
  next hne =>
    cases h
    exact ⟨_, _, List.takeWhile_append_dropWhile.symm,
      ⟨hne, fun c hc => List.all_eq_true.mp List.all_takeWhile c hc⟩, rfl⟩

theorem digits_append {ds : Text} (h : Json.Digits ds) {left : Text} (hleft : NoDigit left) :
    digits (bytes (ds ++ left)) = some (bytes left) := by
  have htake : left.takeWhile Char.isDigit = [] := by
    cases left with
    | nil => rfl
    | cons c more => exact List.takeWhile_cons_of_neg (hleft c more rfl)
  have hdrop : left.dropWhile Char.isDigit = left := by
    cases left with
    | nil => rfl
    | cons c more => exact List.dropWhile_cons_of_neg (hleft c more rfl)
  rw [digits_bytes, List.takeWhile_append_of_pos h.2, List.dropWhile_append_of_pos h.2, htake, hdrop, List.append_nil,
    if_neg h.1]

theorem head_digit {text : Text} : (bytes text).head?.any isDigit = text.head?.any Char.isDigit := by
  cases text with
  | nil => rfl
  | cons c text =>
    obtain ⟨b, rest, hbytes⟩ := Text.exists_bytes_cons c text
    rw [hbytes]
    exact agrees_digit.head hbytes

/-! ## The parts of a number -/

theorem integer_outcome (text : Text) : Outcome (fun taken _ _ => Json.Integer taken) text (integer (bytes text)) := by
  rw [integer]
  split
  next rest hzero =>
    obtain ⟨more, rfl, rfl⟩ := eat_some (by decide) hzero
    split
    · exact Fault.noConfusion
    · exact ⟨['0'], more, rfl, rfl, .inl rfl⟩
  next hzero =>
    split
    next rest hdigits =>
      obtain ⟨ds, left, rfl, hds, rfl⟩ := digits_some hdigits
      refine ⟨ds, left, rfl, rfl, .inr ⟨hds, fun hhead => ?_⟩⟩
      obtain ⟨c, more, rfl, -⟩ := hds.head
      rw [List.head?_cons, Option.some.injEq] at hhead
      rw [hhead, List.cons_append, eat_cons (by decide)] at hzero
      cases hzero
    · exact Fault.noConfusion

theorem fraction_outcome (text : Text) : Outcome (fun taken _ _ => Json.Fraction taken) text (fraction (bytes text)) := by
  rw [fraction]
  split
  · exact ⟨[], text, rfl, rfl, .inl rfl⟩
  next rest hdot =>
    obtain ⟨more, rfl, rfl⟩ := eat_some (by decide) hdot
    split
    next rest hdigits =>
      obtain ⟨ds, left, rfl, hds, rfl⟩ := digits_some hdigits
      exact ⟨'.' :: ds, left, rfl, rfl, .inr ⟨ds, rfl, hds⟩⟩
    · exact Fault.noConfusion

theorem eatExponent_some {text : Text} {b : Bytes} (h : eatExponent (bytes text) = some b) :
    ∃ e more, text = e :: more ∧ (e = 'e' ∨ e = 'E') ∧ b = bytes more := by
  rcases Option.or_eq_some_iff.mp h with hlower | ⟨-, hupper⟩
  · obtain ⟨more, rfl, rfl⟩ := eat_some (by decide) hlower
    exact ⟨'e', more, rfl, .inl rfl, rfl⟩
  · obtain ⟨more, rfl, rfl⟩ := eat_some (by decide) hupper
    exact ⟨'E', more, rfl, .inr rfl, rfl⟩

theorem exists_sign (text : Text) :
    ∃ sign left, text = sign ++ left ∧ (sign = [] ∨ sign = ['+'] ∨ sign = ['-']) ∧ skipSign (bytes text) = bytes left := by
  rw [skipSign]
  cases hplus : eat '+' (bytes text) with
  | some b =>
    obtain ⟨more, rfl, rfl⟩ := eat_some (by decide) hplus
    exact ⟨['+'], more, rfl, .inr (.inl rfl), rfl⟩
  | none =>
    cases hminus : eat '-' (bytes text) with
    | some b =>
      obtain ⟨more, rfl, rfl⟩ := eat_some (by decide) hminus
      exact ⟨['-'], more, rfl, .inr (.inr rfl), rfl⟩
    | none => exact ⟨[], text, rfl, .inl rfl, rfl⟩

theorem exponent_outcome (text : Text) : Outcome (fun taken _ _ => Json.Exponent taken) text (exponent (bytes text)) := by
  rw [exponent]
  split
  · exact ⟨[], text, rfl, rfl, .inl rfl⟩
  next rest hexp =>
    obtain ⟨e, more, rfl, he, rfl⟩ := eatExponent_some hexp
    obtain ⟨sign, left, rfl, hsign, hskip⟩ := exists_sign more
    rw [hskip]
    split
    next rest hdigits =>
      obtain ⟨ds, left, rfl, hds, rfl⟩ := digits_some hdigits
      refine ⟨e :: (sign ++ ds), left, ?_, rfl, .inr ⟨e, sign, ds, rfl, he, hsign, hds⟩⟩
      rw [List.cons_append, List.append_assoc]
    · exact Fault.noConfusion

theorem exists_minus (text : Text) :
    ∃ minus left, text = minus ++ left ∧ (minus = [] ∨ minus = ['-']) ∧
      (eat '-' (bytes text)).getD (bytes text) = bytes left := by
  cases hminus : eat '-' (bytes text) with
  | some b =>
    obtain ⟨more, rfl, rfl⟩ := eat_some (by decide) hminus
    exact ⟨['-'], more, rfl, .inr rfl, rfl⟩
  | none => exact ⟨[], text, rfl, .inl rfl, rfl⟩

/-! ## Numbers -/

theorem number_ascii {text : Text} (h : Json.Number text) : ∀ c ∈ text, c.toNat < 128 := by
  obtain ⟨minus, int, frac, exp, rfl, hminus, hint, hfrac, hexp⟩ := h
  have hdigits : ∀ ds, Json.Digits ds → ∀ c ∈ ds, c.toNat < 128 := fun ds hds c hc => digit_ascii (hds.2 c hc)
  intro c hc
  rcases List.mem_append.mp hc with hc | hc
  · rcases hminus with rfl | rfl
    · cases hc
    · rw [List.mem_singleton.mp hc]
      decide
  rcases List.mem_append.mp hc with hc | hc
  · rcases hint with rfl | ⟨hds, -⟩
    · rw [List.mem_singleton.mp hc]
      decide
    · exact hdigits int hds c hc
  rcases List.mem_append.mp hc with hc | hc
  · rcases hfrac with rfl | ⟨ds, rfl, hds⟩
    · cases hc
    · rcases List.mem_cons.mp hc with rfl | hc
      · decide
      · exact hdigits ds hds c hc
  · rcases hexp with rfl | ⟨e, sign, ds, rfl, he, hsign, hds⟩
    · cases hc
    · rcases List.mem_cons.mp hc with rfl | hc
      · rcases he with rfl | rfl
        · decide
        · decide
      · rcases List.mem_append.mp hc with hc | hc
        · rcases hsign with rfl | rfl | rfl
          · cases hc
          · rw [List.mem_singleton.mp hc]
            decide
          · rw [List.mem_singleton.mp hc]
            decide
        · exact hdigits ds hds c hc

theorem lossy_bytes {text : Text} (h : ∀ c ∈ text, c.toNat < 128) : lossy (bytes text) = text := by
  induction text with
  | nil => rfl
  | cons c text ih =>
    have hascii := h c List.mem_cons_self
    have hrest : List.map (fun b : UInt8 => Char.ofNat b.toNat) (bytes text) = text :=
      ih fun d hd => h d (List.mem_cons_of_mem _ hd)
    rw [lossy, Text.bytes_ascii hascii, List.map_cons, hrest, Text.byte_toNat hascii, Char.ofNat_toNat]

/-- The literal is what was taken. -/
theorem literal_bytes {taken : Text} (h : Json.Number taken) (left : Text) :
    lossy ((bytes (taken ++ left)).take ((bytes (taken ++ left)).length - (bytes left).length)) = taken := by
  have hlength : (bytes taken ++ bytes left).length - (bytes left).length = (bytes taken).length := by
    rw [List.length_append]
    omega
  rw [Text.bytes_append, hlength, List.take_left' rfl, lossy_bytes (number_ascii h)]

theorem number_outcome (text : Text) :
    Outcome (fun taken _ v => Json.Number taken ∧ v = .num taken) text (number (bytes text)) := by
  rw [number]
  obtain ⟨minus, t₁, htext, hminus, hskip⟩ := exists_minus text
  rw [hskip]
  have hint := integer_outcome t₁
  split
  next e he =>
    rw [he] at hint
    exact hint
  next b hok =>
    rw [hok] at hint
    obtain ⟨int, t₂, rfl, rfl, hint⟩ := hint
    have hfrac := fraction_outcome t₂
    split
    next e he =>
      rw [he] at hfrac
      exact hfrac
    next b hok =>
      rw [hok] at hfrac
      obtain ⟨frac, t₃, rfl, rfl, hfrac⟩ := hfrac
      have hexp := exponent_outcome t₃
      split
      next e he =>
        rw [he] at hexp
        exact hexp
      next b hok =>
        rw [hok] at hexp
        obtain ⟨exp, left, rfl, rfl, hexp⟩ := hexp
        have hnumber : Json.Number (minus ++ (int ++ (frac ++ exp))) :=
          ⟨minus, int, frac, exp, rfl, hminus, hint, hfrac, hexp⟩
        have hsplit : text = (minus ++ (int ++ (frac ++ exp))) ++ left := by
          rw [htext]
          simp only [List.append_assoc]
        refine ⟨_, left, hsplit, rfl, hnumber, ?_⟩
        rw [hsplit, literal_bytes hnumber]

theorem integer_append {text : Text} (h : Json.Integer text) {left : Text} (hleft : NoDigit left) :
    integer (bytes (text ++ left)) = .ok ((), bytes left) := by
  rw [integer]
  rcases h with rfl | ⟨hdigits, hzero⟩
  · rw [List.singleton_append, eat_cons (by decide)]
    simp only
    rw [head_digit, if_neg]
    cases left with
    | nil => exact Bool.false_ne_true
    | cons c more => exact hleft c more rfl
  · rw [eat_none (by decide), digits_append hdigits hleft]
    intro more heq
    obtain ⟨c, rest, rfl, -⟩ := hdigits.head
    rw [(List.cons.inj heq).1] at hzero
    exact hzero rfl

theorem fraction_append {text : Text} (h : Json.Fraction text) {left : Text} (hleft : NoDigit left)
    (hdot : NoHead (· = '.') left) : fraction (bytes (text ++ left)) = .ok ((), bytes left) := by
  rw [fraction]
  rcases h with rfl | ⟨ds, rfl, hds⟩
  · rw [List.nil_append, eat_none (by decide) fun more heq => hdot _ _ heq rfl]
  · rw [List.cons_append, eat_cons (by decide)]
    simp only
    rw [digits_append hds hleft]

theorem skipSign_append {sign ds : Text} (hsign : sign = [] ∨ sign = ['+'] ∨ sign = ['-']) (hds : Json.Digits ds)
    (left : Text) : skipSign (bytes (sign ++ (ds ++ left))) = bytes (ds ++ left) := by
  rw [skipSign]
  rcases hsign with rfl | rfl | rfl
  · obtain ⟨c, more, rfl, hc⟩ := hds.head
    rw [List.nil_append, eat_none (by decide), eat_none (by decide)]
    · rfl
    · intro rest heq
      rw [List.cons_append, List.cons.injEq] at heq
      rw [heq.1] at hc
      cases hc
    · intro rest heq
      rw [List.cons_append, List.cons.injEq] at heq
      rw [heq.1] at hc
      cases hc
  · rw [List.singleton_append, eat_cons (by decide)]
    rfl
  · have hplus : eat '+' (bytes ('-' :: (ds ++ left))) = none := eat_none (by decide) fun rest heq => by cases heq
    rw [List.singleton_append, hplus, eat_cons (by decide)]
    rfl

theorem exponent_append {text : Text} (h : Json.Exponent text) {left : Text} (hleft : NoHead InNumber left) :
    exponent (bytes (text ++ left)) = .ok ((), bytes left) := by
  rw [exponent, eatExponent]
  rcases h with rfl | ⟨e, sign, ds, rfl, he, hsign, hds⟩
  · rw [List.nil_append, eat_none (by decide) fun more heq => hleft _ _ heq (.inr (.inr (.inl rfl))),
      eat_none (by decide) fun more heq => hleft _ _ heq (.inr (.inr (.inr rfl)))]
    rfl
  · have heat : (eat 'e' (bytes (e :: (sign ++ ds) ++ left))).or (eat 'E' (bytes (e :: (sign ++ ds) ++ left))) =
        some (bytes (sign ++ (ds ++ left))) := by
      rw [List.cons_append, List.append_assoc]
      rcases he with rfl | rfl
      · rw [eat_cons (by decide)]
        rfl
      · have hlower : eat 'e' (bytes ('E' :: (sign ++ (ds ++ left)))) = none :=
          eat_none (by decide) fun more heq => by cases heq
        rw [hlower, eat_cons (by decide)]
        rfl
    rw [heat]
    simp only
    rw [skipSign_append hsign hds, digits_append hds (hleft.mono fun c hc => .inl hc)]

theorem number_append {text : Text} (h : Json.Number text) {left : Text} (hleft : Stops left) :
    number (bytes (text ++ left)) = .ok (.num text, bytes left) := by
  have hliteral := literal_bytes h left
  obtain ⟨minus, int, frac, exp, rfl, hminus, hint, hfrac, hexp⟩ := h
  have hstop := hleft.noHead
  have hexpDigit : NoDigit (exp ++ left) := by
    refine noHead_append ?_ (hstop.mono fun c hc => .inl hc)
    rcases hexp with rfl | ⟨e, sign, ds, rfl, rfl | rfl, -⟩
    · rintro c more heq
      cases heq
    · exact noHead_cons (by decide) _
    · exact noHead_cons (by decide) _
  have hexpDot : NoHead (· = '.') (exp ++ left) := by
    refine noHead_append ?_ (hstop.mono fun c hc => .inr (.inl hc))
    rcases hexp with rfl | ⟨e, sign, ds, rfl, rfl | rfl, -⟩
    · rintro c more heq
      cases heq
    · exact noHead_cons (by decide) _
    · exact noHead_cons (by decide) _
  have hfracDigit : NoDigit (frac ++ (exp ++ left)) := by
    refine noHead_append ?_ hexpDigit
    rcases hfrac with rfl | ⟨ds, rfl, -⟩
    · rintro c more heq
      cases heq
    · exact noHead_cons (by decide) _
  have hsplit : minus ++ (int ++ (frac ++ exp)) ++ left = minus ++ (int ++ (frac ++ (exp ++ left))) := by
    simp only [List.append_assoc]
  have hskip : (eat '-' (bytes (minus ++ (int ++ (frac ++ (exp ++ left)))))).getD
      (bytes (minus ++ (int ++ (frac ++ (exp ++ left))))) = bytes (int ++ (frac ++ (exp ++ left))) := by
    rcases hminus with rfl | rfl
    · rw [List.nil_append, eat_none (by decide)]
      · rfl
      · intro more heq
        obtain ⟨c, rest, rfl, hc⟩ := hint.head
        rw [(List.cons.inj heq).1] at hc
        cases hc
    · rw [List.singleton_append, eat_cons (by decide)]
      rfl
  rw [hsplit] at hliteral ⊢
  rw [number, hskip, integer_append hint hfracDigit]
  simp only
  rw [fraction_append hfrac hexpDigit hexpDot]
  simp only
  rw [exponent_append hexp hstop]
  simp only
  rw [hliteral]

end TmuxAgents.Transcript.Parser
