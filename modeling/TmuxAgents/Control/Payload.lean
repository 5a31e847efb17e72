/-
An output notification read back. tmux writes each byte of a payload as itself or
as an octal escape, as it likes; whatever it chose, the decoder hands on the bytes
themselves, between the start and the end of their pane.
-/
import TmuxAgents.Control.DecoderFacts
import TmuxAgents.Lib.Text
import TmuxAgents.Program.Encode

namespace TmuxAgents

namespace Decoder

/-! ## Encodings -/

/-- The three octal digits of a byte. -/
def octalDigits (b : UInt8) : Bytes := [48 + b / 64, 48 + b / 8 % 8, 48 + b % 8]

/-- The texts tmux may write for a payload. -/
inductive Encodes : Bytes → Bytes → Prop
  | nil : Encodes [] []
  | plain {b : UInt8} {payload text : Bytes} (hnewline : b ≠ newline) (hslash : b ≠ backslash)
    (rest : Encodes payload text) : Encodes (b :: payload) (b :: text)
  | escaped {b : UInt8} {payload text : Bytes} (rest : Encodes payload text) :
    Encodes (b :: payload) (backslash :: (octalDigits b ++ text))

theorem octalByte_digits (b : UInt8) : octalByte (48 + b / 64) (48 + b / 8 % 8) (48 + b % 8) = some b := by
  have hb := b.toNat_lt
  have hx : (48 + b / 64).toNat = 48 + b.toNat / 64 := by
    simp [UInt8.toNat_add, UInt8.toNat_div]
    omega
  have hy : (48 + b / 8 % 8).toNat = 48 + b.toNat / 8 % 8 := by
    simp [UInt8.toNat_add, UInt8.toNat_div, UInt8.toNat_mod]
    omega
  have hz : (48 + b % 8).toNat = 48 + b.toNat % 8 := by
    simp [UInt8.toNat_add, UInt8.toNat_mod]
    omega
  simp only [octalByte, isOctalDigit, hx, hy, hz]
  rw [if_pos (by simp; omega)]
  congr 1
  apply UInt8.toNat_inj.mp
  rw [UInt8.toNat_ofNat']
  omega

theorem unescape_plain {b : UInt8} (hb : b ≠ backslash) (text : Bytes) :
    unescape (b :: text) = (b :: (unescape text).1, (unescape text).2) := by
  rw [unescape.eq_def]
  simp only [if_neg hb]

theorem unescape_escape {x y z value : UInt8} (h : octalByte x y z = some value) (text : Bytes) :
    unescape (backslash :: x :: y :: z :: text) = (value :: (unescape text).1, (unescape text).2) := by
  rw [unescape.eq_def]
  simp only [if_true, h]

theorem newline_not_mem_octalDigits (b : UInt8) : newline ∉ octalDigits b := by
  obtain ⟨⟨hx, -⟩, hy, hz, -⟩ := octalByte_some (octalByte_digits b)
  simp only [octalDigits, List.mem_cons, List.not_mem_nil, or_false, not_or]
  exact ⟨(octal_ne_newline hx).symm, (octal_ne_newline hy).symm, (octal_ne_newline hz).symm⟩

/-- An encoding stands for its payload, and stays on its line. -/
theorem Encodes.unescape {payload text : Bytes} (h : Encodes payload text) :
    unescape text = (payload, false) ∧ newline ∉ text := by
  induction h with
  | nil => exact ⟨rfl, List.not_mem_nil⟩
  | plain hnewline hslash _ ih =>
    refine ⟨by rw [unescape_plain hslash, ih.1], ?_⟩
    rw [List.mem_cons, not_or]
    exact ⟨hnewline.symm, ih.2⟩
  | @escaped b payload text _ ih =>
    refine ⟨(unescape_escape (octalByte_digits b) text).trans (by rw [ih.1]), ?_⟩
    rw [List.mem_cons, List.mem_append, not_or, not_or]
    exact ⟨by decide, newline_not_mem_octalDigits b, ih.2⟩

/-! ## Headers -/

/-- Words as a header holds them, each with the space behind it. -/
def sentence (ws : List Bytes) : Bytes := ws.flatMap (· ++ [space])

/-- A word of a header. -/
def IsWord (w : Bytes) : Prop := space ∉ w ∧ newline ∉ w

/-- The headers that open a payload of the pane. Fields may stand between the age and the colon. -/
inductive OutputHeader (pane : PaneId) : List Bytes → Prop
  | output : OutputHeader pane [ascii "%output", 37 :: decimalBytes pane]
  | extended {age : Nat} (hage : age < 2 ^ 64) {fields : List Bytes}
    (hfields : ∀ field ∈ fields, IsWord field ∧ field ≠ ascii ":") :
    OutputHeader pane (ascii "%extended-output" :: (37 :: decimalBytes pane) :: decimalBytes age :: fields ++ [ascii ":"])

theorem sentence_append (before after : List Bytes) : sentence (before ++ after) = sentence before ++ sentence after :=
  List.flatMap_append

theorem sentence_concat (ws : List Bytes) (w : Bytes) : sentence (ws ++ [w]) = sentence ws ++ w ++ [space] := by
  simp [sentence]

theorem words_sentence {ws : List Bytes} (h : ∀ w ∈ ws, IsWord w) (w : Bytes) (hw : IsWord w) :
    words (sentence ws ++ w) = ws ++ [w] := by
  have hsplit {v : Bytes} (hv : IsWord v) : ∀ b ∈ v, (b == space) = false := by
    intro b hb
    rw [beq_eq_false_iff_ne]
    rintro rfl
    exact hv.1 hb
  induction ws with
  | nil => exact List.splitOnP_eq_singleton (hsplit hw)
  | cons v ws ih =>
    have hrest := ih fun w hw => h w (List.mem_cons_of_mem _ hw)
    have hfirst := List.splitOnP_append_cons_of_forall_mem (hsplit (h v List.mem_cons_self)) space
      (beq_self_eq_true space) (sentence ws ++ w)
    have heq : sentence (v :: ws) ++ w = v ++ space :: (sentence ws ++ w) := by simp [sentence]
    rw [words, heq]
    exact hfirst.trans (congrArg (v :: ·) hrest)

/-- The pane whose payload these words open. -/
def opening : List Bytes → Option PaneId
  | name :: id :: rest =>
    if name = ascii "%output" then (decodePane id).bind fun pane => if rest.isEmpty then some pane else none
    else if name = ascii "%extended-output" then
      (decodePane id).bind fun pane =>
        match rest with
        | age :: rest => if (decodeNumber age).isSome && rest.getLast? == some (ascii ":") then some pane else none
        | [] => none
    else none
  | _ => none

theorem startPayload_eq_opening {d : Decoder} {ws : List Bytes} (h : words d.header.dropLast = ws) :
    d.startPayload = (opening ws).map d.openPayload := by
  unfold startPayload opening
  rw [h]
  rcases ws with _ | ⟨name, _ | ⟨id, rest⟩⟩
  · rfl
  · rfl
  · simp only
    split
    · cases decodePane id with
      | none => rfl
      | some pane =>
        simp only [Option.bind_some]
        split <;> rfl
    · split
      · cases decodePane id with
        | none => rfl
        | some pane =>
          simp only [Option.bind_some]
          cases rest with
          | nil => rfl
          | cons age rest =>
            simp only
            split <;> rfl
      · rfl

/-! ## Numbers -/

theorem digitsValue_decimal (n : Nat) : digitsValue (decimalBytes n) = n := by
  have hvalue (chars : List Char) (h : ∀ c ∈ chars, c.isDigit = true) (acc : Nat) :
      (chars.map fun c => UInt8.ofNat c.toNat).foldl (fun n byte => 10 * n + (byte.toNat - 48)) acc =
        Nat.ofDigitChars 10 chars acc := by
    induction chars generalizing acc with
    | nil => rfl
    | cons c chars ih =>
      have hc : (UInt8.ofNat c.toNat).toNat = c.toNat := by
        have hdigit := h c List.mem_cons_self
        simp only [Char.isDigit, Bool.and_eq_true, decide_eq_true_eq] at hdigit
        have hle : c.toNat ≤ 57 := hdigit.2
        rw [UInt8.toNat_ofNat']
        omega
      rw [List.map_cons, List.foldl_cons, hc, ih fun c hc => h c (List.mem_cons_of_mem _ hc)]
      rfl
  have hdigits := hvalue (Text.decimal n) (fun c hc => Text.isDigit_of_mem_decimal hc) 0
  exact hdigits.trans (Text.ofDigitChars_decimal n)

theorem decimalBytes_all (n : Nat) : (decimalBytes n).all isAsciiDigit = true := by
  rw [List.all_eq_true]
  intro b hb
  obtain ⟨c, hc, rfl⟩ := List.mem_map.mp hb
  have hdigit : c.isDigit = true := Text.isDigit_of_mem_decimal hc
  simp only [Char.isDigit, Bool.and_eq_true, decide_eq_true_eq] at hdigit
  have hlow : 48 ≤ c.toNat := hdigit.1
  have hhigh : c.toNat ≤ 57 := hdigit.2
  have hnat : (UInt8.ofNat c.toNat).toNat = c.toNat := by
    rw [UInt8.toNat_ofNat']
    omega
  simp only [isAsciiDigit, Bool.and_eq_true, decide_eq_true_eq, UInt8.le_iff_toNat_le, hnat]
  exact ⟨hlow, hhigh⟩

theorem decimalBytes_isEmpty (n : Nat) : (decimalBytes n).isEmpty = false := by
  rw [List.isEmpty_eq_false_iff]
  exact fun h => Text.decimal_ne_nil n (List.map_eq_nil_iff.mp h)

theorem decodePane_decimal {pane : PaneId} (h : pane < 2 ^ 32) : decodePane (37 :: decimalBytes pane) = some pane := by
  simp only [decodePane, decimalBytes_isEmpty, decimalBytes_all, digitsValue_decimal, Bool.not_true, Bool.or_self,
    Bool.false_eq_true, if_false, if_pos h]

theorem decodeNumber_decimal {n : Nat} (h : n < 2 ^ 64) : decodeNumber (decimalBytes n) = some n := by
  have hlength : ¬ 20 < (decimalBytes n).length := by
    have hle := Text.length_decimal_le (n := n) (k := 20) (by decide) (by omega)
    simp only [decimalBytes, List.length_map] at hle ⊢
    exact Nat.not_lt_of_le hle
  simp only [decodeNumber, decimalBytes_isEmpty, decimalBytes_all, digitsValue_decimal, hlength, decide_false,
    Bool.not_true, Bool.or_self, Bool.false_eq_true, if_false, if_pos h]

theorem isWord_decimal (n : Nat) : IsWord (decimalBytes n) := by
  have hall := List.all_eq_true.mp (decimalBytes_all n)
  constructor <;> (intro hmem; exact absurd (hall _ hmem) (by decide))

theorem isWord_pane (pane : PaneId) : IsWord (37 :: decimalBytes pane) := by
  simp only [IsWord, List.mem_cons, not_or]
  exact ⟨⟨by decide, (isWord_decimal pane).1⟩, by decide, (isWord_decimal pane).2⟩

/-! ## Reading a header -/

section Header

variable {d : Decoder}

/-- Every header on the way to this one is within its limit. -/
def Roomy (header : Bytes) : Prop :=
  ∀ d : Decoder, d.block = none → d.header <+: header → d.header.length ≤ d.headerLimit

theorem byte_header (hblock : d.block = none) (hline : d.line = .header) {header : Bytes} (hroom : Roomy header)
    {b : UInt8} (hb : b ≠ newline) (hheard : d.header ++ [b] <+: header) :
    d.byte true b =
      if b = space then
        (({ d with header := d.header ++ [b] } : Decoder).startPayload.map fun opened =>
          (opened.1, { opened.2 with header := [] })).getD ([], { d with header := d.header ++ [b] })
      else ([], { d with header := d.header ++ [b] }) := by
  have hbyte : d.byte true b = d.headerByte b := by
    rw [byte_outside hblock]
    simp only [lineByte, hline]
  obtain ⟨e, he⟩ : ∃ e : Decoder, e = { d with header := d.header ++ [b] } := ⟨_, rfl⟩
  have hnone : e.block = none := by rw [he]; exact hblock
  have hlimit : ¬ e.headerLimit < e.header.length := by
    rw [he]
    exact Nat.not_lt.mpr (hroom _ hblock hheard)
  have hdata : ¬ e.isBlockData = true := by simp [isBlockData, hnone]
  rw [hbyte, headerByte, if_neg hb, ← he]
  simp only [if_neg hdata, if_neg hlimit, hnone, Option.isNone_none, Bool.true_and, beq_iff_eq]
  split
  · cases e.startPayload <;> rfl
  · rfl

theorem feed_letters (hblock : d.block = none) (hline : d.line = .header) {header : Bytes} (hroom : Roomy header)
    {w : Bytes} (hw : IsWord w) (hheard : d.header ++ w <+: header) :
    d.feed true w = ([], { d with header := d.header ++ w }) := by
  induction w generalizing d with
  | nil =>
    rw [List.append_nil]
    rfl
  | cons b w ih =>
    have hlive : d.line ≠ .poisoned := by rw [hline]; exact Line.noConfusion
    simp only [IsWord, List.mem_cons, not_or] at hw
    rw [← List.singleton_append, ← List.append_assoc] at hheard
    have hbyte := byte_header hblock hline hroom (Ne.symm hw.2.1) ((List.prefix_append _ _).trans hheard)
    rw [if_neg (Ne.symm hw.1.1)] at hbyte
    rw [feed_cons_live hlive, hbyte, @ih { d with header := d.header ++ [b] } hblock hline ⟨hw.1.2, hw.2.2⟩ hheard]
    simp

/-- A word and its space: the words so far open a payload, or the header grows. -/
theorem feed_word (hblock : d.block = none) (hline : d.line = .header) {header : Bytes} (hroom : Roomy header)
    {before : List Bytes} (hbefore : ∀ w ∈ before, IsWord w) (hheader : d.header = sentence before) {w : Bytes}
    (hw : IsWord w) (hheard : sentence (before ++ [w]) <+: header) (hattached : d.attached = true) :
    d.feed true (w ++ [space]) =
      match opening (before ++ [w]) with
      | some pane => ([.start pane], { d with header := [], line := .payload pane none })
      | none => ([], { d with header := sentence (before ++ [w]) }) := by
  rw [sentence_concat, ← hheader] at hheard
  have hletters := feed_letters hblock hline hroom hw ((List.prefix_append _ _).trans hheard)
  have hspace := @byte_header { d with header := d.header ++ w } hblock hline header hroom space (by decide) hheard
  have hsplit : words (d.header ++ w ++ [space]).dropLast = before ++ [w] := by
    rw [List.dropLast_concat, hheader]
    exact words_sentence hbefore w hw
  have hopening := @startPayload_eq_opening { d with header := d.header ++ w ++ [space] } _ hsplit
  have hlive : ({ d with header := d.header ++ w } : Decoder).line ≠ .poisoned := by rw [hline]; exact Line.noConfusion
  simp only [if_true] at hspace
  rw [feed_eq, List.map_append, Transducer.feed_append, ← feed_eq, hletters, ← feed_eq, feed_cons_live hlive, hspace,
    hopening]
  cases opening (before ++ [w]) with
  | none => simp [feed, sentence_concat, hheader]
  | some pane => simp [feed, openPayload, hattached]

/-- Words that open nothing yet. -/
theorem feed_words (hblock : d.block = none) (hline : d.line = .header) {header : Bytes} (hroom : Roomy header)
    (hattached : d.attached = true) {before ws : List Bytes} (hwords : ∀ w ∈ before ++ ws, IsWord w)
    (hheader : d.header = sentence before) (hheard : sentence (before ++ ws) <+: header)
    (hsilent : ∀ shown, shown <+: ws → shown ≠ [] → opening (before ++ shown) = none) :
    d.feed true (sentence ws) = ([], { d with header := sentence (before ++ ws) }) := by
  induction ws generalizing d before with
  | nil =>
    rw [List.append_nil, ← hheader]
    rfl
  | cons w ws ih =>
    have hassoc : before ++ w :: ws = before ++ [w] ++ ws := by simp
    rw [hassoc] at hwords hheard
    have hfirst : sentence (before ++ [w]) <+: header := by
      rw [sentence_append (before ++ [w]) ws] at hheard
      exact (List.prefix_append _ _).trans hheard
    have hword := feed_word hblock hline hroom (fun v hv => hwords v (by simp [hv])) hheader (hwords w (by simp)) hfirst
      hattached
    rw [hsilent [w] (List.prefix_append [w] ws) (List.cons_ne_nil _ _)] at hword
    have hrest := @ih { d with header := sentence (before ++ [w]) } hblock hline hattached (before ++ [w]) hwords rfl hheard
      (fun shown hshown _ => by
        have hnone := hsilent (w :: shown) ((List.prefix_cons_inj w).mpr hshown) (List.cons_ne_nil _ _)
        rwa [List.append_assoc])
    have heq : sentence (w :: ws) = w ++ [space] ++ sentence ws := by simp [sentence]
    rw [heq, feed_eq, List.map_append, Transducer.feed_append, ← feed_eq, hword, ← feed_eq, hrest, hassoc]
    rfl

end Header

/-! ## The headers that open a payload -/

theorem roomy_short {header : Bytes} (h : header.length ≤ maxOutputHeader) : Roomy header := by
  intro d hblock hheard
  have hlength := hheard.length_le.trans h
  refine hlength.trans ?_
  rw [headerLimit]
  split
  · decide
  · split <;> decide

/-- An extended header never starts like a command frame or a plain one. -/
theorem roomy_extended {rest : Bytes} (h : (ascii "%extended-output" ++ rest).length ≤ maxHeader) :
    Roomy (ascii "%extended-output" ++ rest) := by
  intro d hblock hheard
  have hnot {t : Bytes} (ht : t.length ≤ (ascii "%extended-output").length)
      (hne : t.isPrefixOf (ascii "%extended-output") = false) : t.isPrefixOf d.header = false := by
    rw [Bool.eq_false_iff, Ne, List.isPrefixOf_iff_prefix] at hne ⊢
    exact fun hp => hne (List.prefix_of_prefix_length_le (hp.trans hheard) (List.prefix_append _ _) ht)
  have hcommand : (commandTags.any fun t => t.isPrefixOf d.header) = false := by
    simp only [commandTags, List.any_cons, List.any_nil, Bool.or_false, Bool.or_eq_false_iff]
    exact ⟨hnot (by decide) (by decide), hnot (by decide) (by decide), hnot (by decide) (by decide)⟩
  have houtput := @hnot (ascii "%output ") (by decide) (by decide)
  have hlimit : d.headerLimit = maxHeader := by
    simp only [headerLimit, hblock, hcommand, houtput, Option.isSome_none, Bool.or_self, Bool.false_eq_true, if_false]
  rw [hlimit]
  exact hheard.length_le.trans h

/-- A header's words open its pane's payload, and no words before them do. -/
theorem OutputHeader.opens {pane : PaneId} {ws : List Bytes} (h : OutputHeader pane ws) (hpane : pane < 2 ^ 32) :
    ∃ before last, ws = before ++ [last] ∧ opening ws = some pane ∧ (∀ w ∈ ws, IsWord w) ∧
      ∀ shown, shown <+: before → shown ≠ [] → opening shown = none := by
  have hid := decodePane_decimal hpane
  cases h with
  | output =>
    refine ⟨[ascii "%output"], 37 :: decimalBytes pane, rfl, ?_, ?_, ?_⟩
    · simp [opening, hid]
    · intro w hw
      rcases List.mem_pair.mp hw with rfl | rfl
      · constructor <;> decide
      · exact isWord_pane pane
    · intro shown hshown hne
      rcases shown with _ | ⟨name, _ | ⟨id, rest⟩⟩
      · exact absurd rfl hne
      · rfl
      · have hle := hshown.length_le
        simp at hle
  | @extended age hage fields hfields =>
    have hne : ascii "%extended-output" ≠ ascii "%output" := by decide
    have hnumber := decodeNumber_decimal hage
    refine ⟨ascii "%extended-output" :: (37 :: decimalBytes pane) :: decimalBytes age :: fields, ascii ":", rfl, ?_, ?_, ?_⟩
    · simp [opening, hid, hnumber, hne]
    · intro w hw
      simp only [List.cons_append, List.mem_cons, List.mem_append, List.not_mem_nil, or_false] at hw
      rcases hw with rfl | rfl | rfl | hw | rfl
      · constructor <;> decide
      · exact isWord_pane pane
      · exact isWord_decimal age
      · exact (hfields w hw).1
      · constructor <;> decide
    · intro shown hshown hsome
      rcases shown with _ | ⟨name, _ | ⟨id, _ | ⟨number, shown⟩⟩⟩
      · exact absurd rfl hsome
      · rfl
      · obtain ⟨rfl, hrest⟩ := List.cons_prefix_cons.mp hshown
        obtain ⟨rfl, -⟩ := List.cons_prefix_cons.mp hrest
        simp [opening, hid, hne]
      · obtain ⟨rfl, hrest⟩ := List.cons_prefix_cons.mp hshown
        obtain ⟨rfl, hnumbers⟩ := List.cons_prefix_cons.mp hrest
        obtain ⟨rfl, hfirst⟩ := List.cons_prefix_cons.mp hnumbers
        have hlast : shown.getLast? ≠ some (ascii ":") := by
          intro hlast
          exact (hfields _ (hfirst.subset (List.mem_of_getLast? hlast))).2 rfl
        simp [opening, hid, hne, hlast]

theorem OutputHeader.roomy {pane : PaneId} {ws : List Bytes} (h : OutputHeader pane ws) (hpane : pane < 2 ^ 32)
    (hshort : (sentence ws).length ≤ maxHeader) : Roomy (sentence ws) := by
  cases h with
  | output =>
    refine roomy_short ?_
    have hdigits := Text.length_decimal_le (n := pane) (k := 10) (by decide) (Nat.lt_trans hpane (by decide))
    have hname : (ascii "%output").length = 7 := by decide
    simp only [sentence, decimalBytes, Text.decimal, List.flatMap_cons, List.flatMap_nil, List.length_append, List.length_cons,
      List.length_map, List.length_nil, hname, maxOutputHeader] at hdigits ⊢
    omega
  | extended hage hfields =>
    rw [List.cons_append, sentence, List.flatMap_cons, List.append_assoc] at hshort ⊢
    exact roomy_extended hshort

/-! ## Whole notifications -/

section Notification

variable {d : Decoder} {pane : PaneId}

/-- A header opens its payload. -/
theorem feed_header (hblock : d.block = none) (hline : d.line = .header) (hheader : d.header = [])
    (hattached : d.attached = true) (hpane : pane < 2 ^ 32) {ws : List Bytes} (h : OutputHeader pane ws)
    (hshort : (sentence ws).length ≤ maxHeader) :
    d.feed true (sentence ws) = ([.start pane], { d with line := .payload pane none }) := by
  obtain ⟨before, last, rfl, hopens, hwords, hsilent⟩ := h.opens hpane
  have hroom := h.roomy hpane hshort
  have hconcat := sentence_concat before last
  have hprefix : sentence before <+: sentence (before ++ [last]) := by
    rw [hconcat, List.append_assoc]
    exact List.prefix_append _ _
  have hbefore := @feed_words d hblock hline _ hroom hattached [] before (fun w hw => hwords w (by simp_all)) hheader
    hprefix hsilent
  have hlast := @feed_word { d with header := sentence before } hblock hline _ hroom before
    (fun w hw => hwords w (by simp [hw])) rfl last (hwords last (by simp)) (List.prefix_refl _) hattached
  rw [hopens] at hlast
  rw [List.nil_append] at hbefore
  rw [hconcat, List.append_assoc, feed_eq, List.map_append, Transducer.feed_append, ← feed_eq, hbefore, ← feed_eq, hlast]
  simp [hheader]

/-- **A notification's payload comes back byte for byte**, however each byte is encoded and wherever the stream is
cut, and the decoder is where it was. -/
theorem payload_round_trip (hblock : d.block = none) (hline : d.line = .header) (hheader : d.header = [])
    (hattached : d.attached = true) (hpane : pane < 2 ^ 32) {ws : List Bytes} (h : OutputHeader pane ws)
    (hshort : (sentence ws).length ≤ maxHeader) {payload text : Bytes} (hencodes : Encodes payload text)
    {cuts : List Bytes} (hcuts : cuts.flatten = sentence ws ++ text ++ [newline]) :
    d.feedAll (cuts.map (true, ·)) = (.start pane :: payload.map (Decoded.byte pane) ++ [.end_ pane], d) := by
  obtain ⟨hunescape, hnewline⟩ := hencodes.unescape
  have hopened := feed_header hblock hline hheader hattached hpane h hshort
  have hpayload := @payload_line { d with line := .payload pane none } pane hblock rfl text hnewline
  have htagged : tagged (cuts.map (true, ·)) = cuts.flatten.map (true, ·) := by
    simp [tagged, List.map_flatten, List.flatMap_def, Function.comp_def]
  rw [feedAll_eq, htagged, hcuts, List.append_assoc, List.map_append, Transducer.feed_append, ← feed_eq, hopened, ← feed_eq,
    hpayload, hunescape]
  have hself : ({ d with line := .header } : Decoder) = d := by rw [← hline]
  simp [ending, hself]

/-- A notification cut inside an escape. -/
theorem payload_round_trip_cut :
    feedAll { attached := true } [(true, ascii "%extended-output %7 12 later : %\\0"), (true, ascii "12\n")] =
      (.start 7 :: [37, newline].map (Decoded.byte 7) ++ [.end_ 7], { attached := true }) := by
  have hheader : OutputHeader 7 [ascii "%extended-output", ascii "%7", ascii "12", ascii "later", ascii ":"] := by
    refine @OutputHeader.extended 7 12 (by decide) [ascii "later"] ?_
    intro field hfield
    rw [List.mem_singleton.mp hfield]
    exact ⟨⟨by decide, by decide⟩, by decide⟩
  have hencodes : Encodes [37, newline] (ascii "%\\012") := .plain (by decide) (by decide) (.escaped .nil)
  have hcuts : [ascii "%extended-output %7 12 later : %\\0", ascii "12\n"].flatten =
      sentence [ascii "%extended-output", ascii "%7", ascii "12", ascii "later", ascii ":"] ++ ascii "%\\012" ++ [newline] := by
    decide
  exact payload_round_trip rfl rfl rfl rfl (by decide) hheader (by decide) hencodes hcuts

end Notification

/-! ## Where nothing is read back -/

/-- An attached decoder whose client has a second command block open. -/
def secondBlock : Decoder := (feed {} true (ascii "%begin 1 1 0\n%end 1 1 0\n%begin 2 2 0\n")).2

/-- A header whose fields exceed the header limit. -/
def longHeader : List Bytes := [ascii "%extended-output", ascii "%1", ascii "0", List.replicate 1024 48, ascii ":"]

/-- A byte behind a full header. -/
theorem feed_overrun {d : Decoder} (hblock : d.block = none) (hline : d.line = .header)
    (hfull : maxHeader ≤ d.header.length) {b : UInt8} (hb : b ≠ newline) (rest : Bytes) :
    (d.feed true (b :: rest)).1 = [.gap none .framingLoss, .fatal] := by
  have hlive : d.line ≠ .poisoned := by rw [hline]; exact Line.noConfusion
  obtain ⟨e, he⟩ : ∃ e : Decoder, e = { d with header := d.header ++ [b] } := ⟨_, rfl⟩
  have hlimit : e.headerLimit < e.header.length := by
    refine Nat.lt_of_le_of_lt (headerLimit_le e) ?_
    rw [he, List.length_append, List.length_singleton]
    exact Nat.lt_succ_of_le hfull
  have hdata : ¬ e.isBlockData = true := by simp [isBlockData, he, hblock]
  have hbyte : d.byte true b = e.fatal := by
    rw [byte_outside hblock]
    simp only [lineByte, hline]
    rw [headerByte, if_neg hb, ← he]
    simp only [if_neg hdata, if_pos hlimit]
  have hpoisoned : (e.fatal.2.feed true rest).1 = [] := by cases rest <;> rfl
  rw [feed_cons_live hlive, hbyte, hpoisoned, List.append_nil]
  rfl

/-- The digits up to the limit, the one behind it, and what follows. -/
theorem feed_digits {d : Decoder} (hblock : d.block = none) (hline : d.line = .header) {rest : Bytes}
    (hheader : d.header = ascii "%extended-output" ++ rest) {room : Nat} (hroom : d.header.length + room = maxHeader)
    (text : Bytes) :
    (d.feed true (List.replicate room 48 ++ 48 :: text)).1 = [.gap none .framingLoss, .fatal] := by
  have hlength : (d.header ++ List.replicate room 48).length = maxHeader := by
    rw [List.length_append, List.length_replicate, hroom]
  have hletters : d.feed true (List.replicate room 48) = ([], { d with header := d.header ++ List.replicate room 48 }) := by
    refine @feed_letters d hblock hline (d.header ++ List.replicate room 48) ?_ (List.replicate room 48) ⟨?_, ?_⟩
      (List.prefix_refl _)
    · rw [hheader, List.append_assoc] at hlength ⊢
      exact roomy_extended (Nat.le_of_eq hlength)
    · exact fun hmem => absurd (List.eq_of_mem_replicate hmem) (by decide)
    · exact fun hmem => absurd (List.eq_of_mem_replicate hmem) (by decide)
  rw [feed_eq, List.map_append, Transducer.feed_append, ← feed_eq, hletters, ← feed_eq]
  exact @feed_overrun { d with header := d.header ++ List.replicate room 48 } hblock hline (Nat.le_of_eq hlength.symm) 48
    (by decide) text

theorem sentence_digits (digits more rest after : Bytes) (h : digits = more ++ 48 :: rest) :
    sentence [ascii "%extended-output", ascii "%1", ascii "0", digits, ascii ":"] ++ after =
      sentence [ascii "%extended-output", ascii "%1", ascii "0"] ++
        (more ++ 48 :: (rest ++ ([space] ++ sentence [ascii ":"] ++ after))) := by
  have hsplit : [ascii "%extended-output", ascii "%1", ascii "0", digits, ascii ":"] =
      [ascii "%extended-output", ascii "%1", ascii "0"] ++ [digits] ++ [ascii ":"] := rfl
  rw [hsplit, sentence_append, sentence_concat, h]
  simp only [List.append_assoc, List.cons_append]

theorem feed_longHeader (after : Bytes) :
    (feed { attached := true } true (sentence longHeader ++ after)).1 = [.gap none .framingLoss, .fatal] := by
  obtain ⟨front, hfront⟩ : ∃ front, front = sentence [ascii "%extended-output", ascii "%1", ascii "0"] := ⟨_, rfl⟩
  have hwords : feed { attached := true } true front = ([], { attached := true, header := front }) := by
    rw [hfront]
    decide +kernel
  have hdigits (room more : Nat) :
      List.replicate (room + (more + 1)) (48 : UInt8) = List.replicate room 48 ++ 48 :: List.replicate more 48 := by
    rw [← List.replicate_succ, List.replicate_append_replicate]
  have hcut := sentence_digits (List.replicate 1024 48) _ _ after (hdigits 1002 21)
  rw [← hfront] at hcut
  have hrest := @feed_digits { attached := true, header := front } rfl rfl (space :: sentence [ascii "%1", ascii "0"])
    (by rw [hfront]; decide) 1002 (by rw [hfront]; decide)
  rw [longHeader, hcut, feed_eq, List.map_append, Transducer.feed_append, ← feed_eq, hwords, ← feed_eq]
  dsimp only
  rw [List.nil_append]
  exact hrest _

/-- The contents of a block are response data; a longer header is no header; without the protocol only the frame of a
notification is handed on. -/
theorem payload_withheld :
    (secondBlock.line = .header ∧ secondBlock.header = [] ∧ secondBlock.attached = true ∧
      (secondBlock.feed true (ascii "%output %1 x\n")).1 = []) ∧
    (feed { attached := true } true (sentence longHeader ++ ascii "x\n")).1 = [.gap none .framingLoss, .fatal] ∧
    (feed { attached := true } false (ascii "%output %1 x\n")).1 = [.start 1, .end_ 1] :=
  ⟨by decide +kernel, feed_longHeader _, by decide +kernel⟩

end Decoder

end TmuxAgents
