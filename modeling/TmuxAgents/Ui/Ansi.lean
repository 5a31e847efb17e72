/-
The preview's ANSI converter (`ansi.rs`): captured text with its escapes in, styled lines out.

It frames escape sequences with loops of its own. `escape_lexers_agree` says that these find
exactly the text `strip_ansi` finds, and when what either finds of a text is what it finds of
the text's pieces.
-/
import TmuxAgents.Fold.Engine
import TmuxAgents.Lib.Transducer

namespace TmuxAgents.Ui

/-! ## Styles -/

inductive Color
  | reset | black | red | green | yellow | blue | magenta | cyan | gray
  | indexed (n : Nat)
  | rgb (r g b : Nat)
deriving DecidableEq

inductive Modifier
  | bold | dim | italic | underlined | reversed
deriving DecidableEq

/-- What a style sets, and what it takes away, over what stands under it. -/
structure Style where
  fg : Option Color := none
  bg : Option Color := none
  addModifier : List Modifier := []
  subModifier : List Modifier := []
deriving DecidableEq

namespace Style

def withFg (style : Style) (color : Color) : Style := { style with fg := some color }

def withBg (style : Style) (color : Color) : Style := { style with bg := some color }

def add (style : Style) (modifier : Modifier) : Style :=
  { style with addModifier := style.addModifier.insert modifier, subModifier := style.subModifier.erase modifier }

def remove (style : Style) (modifier : Modifier) : Style :=
  { style with addModifier := style.addModifier.erase modifier, subModifier := style.subModifier.insert modifier }

end Style

def basicColor (offset : Nat) : Color :=
  match offset with
  | 0 => .black
  | 1 => .red
  | 2 => .green
  | 3 => .yellow
  | 4 => .blue
  | 5 => .magenta
  | 6 => .cyan
  | 7 => .gray
  | _ => .reset

/-- The colour behind a `38` or a `48`, and the codes behind it. -/
def extendedColor : List Nat → Option (Color × List Nat)
  | 5 :: n :: rest => some (.indexed (min n 255), rest)
  | 2 :: r :: g :: b :: rest => some (.rgb (min r 255) (min g 255) (min b 255), rest)
  | _ => none

theorem extendedColor_length {codes rest : List Nat} {color : Color} (h : extendedColor codes = some (color, rest)) :
    rest.length < codes.length := by
  unfold extendedColor at h
  split at h
  · simp only [Option.some.injEq, Prod.mk.injEq] at h
    obtain ⟨-, rfl⟩ := h
    simp only [List.length_cons]
    omega
  · simp only [Option.some.injEq, Prod.mk.injEq] at h
    obtain ⟨-, rfl⟩ := h
    simp only [List.length_cons]
    omega
  · cases h

/-- A code that takes no arguments. -/
def plainCode (style : Style) (code : Nat) : Style :=
  if code = 0 then {}
  else if code = 1 then style.add .bold
  else if code = 2 then style.add .dim
  else if code = 3 then style.add .italic
  else if code = 4 then style.add .underlined
  else if code = 7 then style.add .reversed
  else if code = 22 then (style.remove .bold).remove .dim
  else if code = 23 then style.remove .italic
  else if code = 24 then style.remove .underlined
  else if code = 27 then style.remove .reversed
  else if 30 ≤ code ∧ code ≤ 37 then style.withFg (basicColor (code - 30))
  else if code = 39 then style.withFg .reset
  else if 40 ≤ code ∧ code ≤ 47 then style.withBg (basicColor (code - 40))
  else if code = 49 then style.withBg .reset
  else if 90 ≤ code ∧ code ≤ 97 then style.withFg (.indexed (8 + (code - 90)))
  else if 100 ≤ code ∧ code ≤ 107 then style.withBg (.indexed (8 + (code - 100)))
  else style

def applyCodes (style : Style) : List Nat → Style
  | [] => style
  | code :: rest =>
    if code = 38 ∨ code = 48 then
      match _heq : extendedColor rest with
      | some (color, rest') => applyCodes (if code = 38 then style.withFg color else style.withBg color) rest'
      | none => applyCodes style rest
    else applyCodes (plainCode style code) rest
termination_by codes => codes.length
decreasing_by
  · have hlt := extendedColor_length _heq
    simp only [List.length_cons]
    omega
  · simp
  · simp

/-- A parameter left out is 0, one that is no `u16` is skipped. -/
def sgrCode (param : Text) : Option Nat := if param.isEmpty then some 0 else Text.parseUnsigned 65536 param

def applySgr (style : Style) (params : Text) : Style :=
  applyCodes style (if params.isEmpty then [0] else (params.splitOn ';').filterMap sgrCode)

/-! ## Lines -/

abbrev Span := Text × Style

/-- The lines so far, the open line's spans, and the run under the style in force. -/
structure Painting where
  lines : List (List Span) := []
  spans : List Span := []
  cur : Text := []
  style : Style := {}

namespace Painting

/-- The run so far becomes a span. -/
def flush (p : Painting) : Painting :=
  if p.cur.isEmpty then p else { p with spans := p.spans ++ [(p.cur, p.style)], cur := [] }

def newline (p : Painting) : Painting := { p.flush with lines := p.lines ++ [p.flush.spans], spans := [] }

def push (p : Painting) (c : Char) : Painting := { p with cur := p.cur ++ [c] }

def restyle (p : Painting) (params : Text) : Painting := { p.flush with style := applySgr p.style params }

def finish (p : Painting) : List (List Span) := p.lines ++ [p.flush.spans]

end Painting

/-! ## Escapes -/

/-- `0x40..=0x7e` -/
def isFinal (c : Char) : Bool := 0x40 ≤ c.toNat && c.toNat ≤ 0x7e

/-- The loop behind `ESC [`: the parameters, the final byte if one comes, and what stands behind it. -/
def csiLoop (params : Text) : Text → Text × Option Char × Text
  | [] => (params, none, [])
  | f :: rest => if isFinal f then (params, some f, rest) else csiLoop (params ++ [f]) rest

/-- The loop behind `ESC ]`: what stands behind the terminator. -/
def oscLoop : Text → Text
  | [] => []
  | f :: rest =>
    if f = '\x07' then rest
    else if f = '\x1b' then (if rest.head? = some '\\' then rest.tail else rest)
    else oscLoop rest

theorem csiLoop_length (params text : Text) : (csiLoop params text).2.2.length ≤ text.length := by
  induction text generalizing params with
  | nil => exact Nat.le_refl _
  | cons f rest ih =>
    rw [csiLoop]
    split
    · simp
    · exact Nat.le_succ_of_le (ih _)

theorem oscLoop_length (text : Text) : (oscLoop text).length ≤ text.length := by
  induction text with
  | nil => exact Nat.le_refl _
  | cons f rest ih =>
    rw [oscLoop]
    split
    · simp
    · split
      · split
        · simp only [List.length_tail, List.length_cons]
          omega
        · simp
      · exact Nat.le_succ_of_le ih

/-- The final `m` alone carries a style. -/
def closeCsi (p : Painting) (params : Text) (final : Option Char) : Painting :=
  if final = some 'm' then p.restyle params else p

def ansiLoop (p : Painting) : Text → Painting
  | [] => p
  | c :: rest =>
    if c = '\x1b' then
      match rest with
      | [] => p
      | d :: rest =>
        if d = '[' then ansiLoop (closeCsi p (csiLoop [] rest).1 (csiLoop [] rest).2.1) (csiLoop [] rest).2.2
        else if d = ']' then ansiLoop p (oscLoop rest)
        else ansiLoop p rest
    else if c = '\n' then ansiLoop p.newline rest
    else if c = '\r' then ansiLoop p rest
    else ansiLoop (p.push c) rest
termination_by text => text.length
decreasing_by
  · have hle := csiLoop_length [] rest
    simp only [List.length_cons]
    omega
  · have hle := oscLoop_length rest
    simp only [List.length_cons]
    omega
  all_goals
    simp only [List.length_cons]
    omega

def ansiToText (input : Text) : List (List Span) := (ansiLoop {} input).finish

/-- The characters of styled lines. -/
def visible (lines : List (List Span)) : Text := joinLines (lines.map fun spans => spans.flatMap (·.1))

/-! ## The characters of a painting -/

theorem joinLines_cons (first : Text) {lines : List Text} (h : lines ≠ []) :
    joinLines (first :: lines) = first ++ '\n' :: joinLines lines := by
  cases lines with
  | nil => exact absurd rfl h
  | cons second lines => simp [joinLines, List.intercalate, List.intersperse]

theorem joinLines_concat_append (lines : List Text) (line more : Text) :
    joinLines (lines ++ [line ++ more]) = joinLines (lines ++ [line]) ++ more := by
  induction lines with
  | nil => simp [joinLines]
  | cons first lines ih =>
    rw [List.cons_append, List.cons_append, joinLines_cons first (by simp), joinLines_cons first (by simp), ih]
    simp

theorem joinLines_concat_nil (lines : List Text) (line : Text) :
    joinLines (lines ++ [line, []]) = joinLines (lines ++ [line]) ++ ['\n'] := by
  induction lines with
  | nil => simp [joinLines, List.intercalate, List.intersperse]
  | cons first lines ih =>
    rw [List.cons_append, List.cons_append, joinLines_cons first (by simp), joinLines_cons first (by simp), ih]
    simp

namespace Painting

/-- The characters painted so far. -/
def seen (p : Painting) : Text := visible p.finish

theorem seen_eq (p : Painting) :
    p.seen = joinLines ((p.lines.map fun spans => spans.flatMap (·.1)) ++ [p.spans.flatMap (·.1) ++ p.cur]) := by
  rw [seen, visible, finish, List.map_append, flush]
  split
  next hcur => simp [List.isEmpty_iff.mp hcur]
  next => simp

@[simp] theorem seen_push (p : Painting) (c : Char) : (p.push c).seen = p.seen ++ [c] := by
  rw [seen_eq, seen_eq, push, ← List.append_assoc, joinLines_concat_append]

@[simp] theorem seen_flush (p : Painting) : p.flush.seen = p.seen := by
  rw [seen_eq, seen_eq, flush]
  split
  · rfl
  · simp

@[simp] theorem seen_restyle (p : Painting) (params : Text) : (p.restyle params).seen = p.seen := by
  rw [← seen_flush p, seen_eq, seen_eq]
  rfl

@[simp] theorem seen_newline (p : Painting) : p.newline.seen = p.seen ++ ['\n'] := by
  have hcur : p.flush.cur = [] := by
    rw [flush]
    split
    next hcur => exact List.isEmpty_iff.mp hcur
    next => rfl
  have hlines : p.flush.lines = p.lines := by
    rw [flush]
    split <;> rfl
  rw [← seen_flush p, seen_eq p.flush, seen_eq, newline, hcur, hlines, List.append_nil, ← joinLines_concat_nil]
  simp

end Painting

@[simp] theorem seen_closeCsi (p : Painting) (params : Text) (final : Option Char) : (closeCsi p params final).seen = p.seen := by
  rw [closeCsi]
  split <;> simp

/-! ## One machine -/

/-- A character, read where the lexer stands: what shows, and where the lexer stands behind it. -/
def lex (mode : AnsiMode) (c : Char) : List Char × AnsiMode :=
  match mode with
  | .text => if c = '\x1b' then ([], .escape) else ([c], .text)
  | .escape => if c = '[' then ([], .csi) else if c = ']' then ([], .osc) else ([], .text)
  | .csi => if isFinal c then ([], .text) else ([], .csi)
  | .osc => if c = '\x07' then ([], .text) else if c = '\x1b' then ([], .oscEscape) else ([], .osc)
  | .oscEscape => if c = '\\' then ([], .text) else if c = '\x1b' then ([], .escape) else ([c], .text)

open Transducer (feed feed_cons feed_append)

theorem stripAnsiFrom_eq (mode : AnsiMode) (text : Text) : stripAnsiFrom mode text = (feed lex mode text).1 := by
  induction text generalizing mode with
  | nil => cases mode <;> rfl
  | cons c rest ih =>
    cases mode <;> simp only [stripAnsiFrom, feed_cons, lex, isFinal, Bool.and_eq_true, decide_eq_true_eq] <;>
      split_ifs <;> simp [ih]

theorem feed_csi (params text : Text) : (feed lex .csi text).1 = (feed lex .text (csiLoop params text).2.2).1 := by
  induction text generalizing params with
  | nil => rfl
  | cons f rest ih =>
    rw [feed_cons, lex, csiLoop]
    split
    · rfl
    · exact ih _

theorem feed_osc (text : Text) : (feed lex .osc text).1 = (feed lex .text (oscLoop text)).1 := by
  induction text with
  | nil => rfl
  | cons f rest ih =>
    rw [feed_cons, lex, oscLoop]
    split
    · rfl
    · split
      · cases rest with
        | nil => rfl
        | cons c rest =>
          simp only [List.head?_cons, Option.some.injEq, List.tail_cons, List.nil_append]
          rw [feed_cons, lex]
          split
          · rfl
          · rw [feed_cons, lex]
      · exact ih

theorem ansiLoop_escape (p : Painting) (d : Char) (rest : Text) :
    ansiLoop p ('\x1b' :: d :: rest) =
      if d = '[' then ansiLoop (closeCsi p (csiLoop [] rest).1 (csiLoop [] rest).2.1) (csiLoop [] rest).2.2
      else if d = ']' then ansiLoop p (oscLoop rest)
      else ansiLoop p rest := by
  rw [ansiLoop.eq_def]
  simp

theorem ansiLoop_plain (p : Painting) {c : Char} (hesc : c ≠ '\x1b') (rest : Text) :
    ansiLoop p (c :: rest) =
      if c = '\n' then ansiLoop p.newline rest else if c = '\r' then ansiLoop p rest else ansiLoop (p.push c) rest := by
  rw [ansiLoop.eq_def]
  simp [hesc]

/-- The converter's loops paint what the machine shows, but for carriage returns. -/
theorem seen_ansiLoop (p : Painting) (text : Text) :
    (ansiLoop p text).seen = p.seen ++ (feed lex .text text).1.filter (· ≠ '\r') := by
  induction p, text using ansiLoop.induct with
  | case1 p => simp [ansiLoop]
  | case2 p => simp [ansiLoop, feed_cons, lex]
  | case3 p rest ih =>
    rw [ansiLoop_escape, if_pos rfl, ih, seen_closeCsi, ← feed_csi]
    rfl
  | case4 p rest hcsi ih =>
    rw [ansiLoop_escape, if_neg hcsi, if_pos rfl, ih, ← feed_osc]
    rfl
  | case5 p d rest hcsi hosc ih =>
    rw [ansiLoop_escape, if_neg hcsi, if_neg hosc, ih, feed_cons, feed_cons]
    simp [lex, hcsi, hosc]
  | case6 p rest hesc ih =>
    rw [ansiLoop_plain p hesc, if_pos rfl, ih, Painting.seen_newline, feed_cons]
    simp [lex]
  | case7 p rest hesc hnl ih =>
    rw [ansiLoop_plain p hesc, if_neg hnl, if_pos rfl, ih, feed_cons]
    simp [lex]
  | case8 p c rest hesc hnl hcr ih =>
    rw [ansiLoop_plain p hesc, if_neg hnl, if_neg hcr, ih, Painting.seen_push, feed_cons]
    simp [lex, hesc, hcr]

theorem visible_ansiToText (text : Text) : visible (ansiToText text) = (stripAnsi text).filter (· ≠ '\r') := by
  rw [stripAnsi, stripAnsiFrom_eq]
  exact seen_ansiLoop {} text

/-- What a machine shows has no escape in it. -/
theorem escape_not_mem_feed (mode : AnsiMode) (text : Text) : '\x1b' ∉ (feed lex mode text).1 := by
  induction text generalizing mode with
  | nil => simp
  | cons c rest ih =>
    have hlex : '\x1b' ∉ (lex mode c).1 := by
      cases mode <;> simp only [lex] <;> split_ifs <;> simp <;> simp_all [eq_comm]
    rw [feed_cons, List.mem_append]
    simp [hlex, ih]

/-! ## The two lexers -/

/-- Behind the text the lexer stands between sequences. -/
def AtGround (text : Text) : Prop := (feed lex .text text).2 = .text

theorem stripAnsi_append {before : Text} (h : AtGround before) (after : Text) :
    stripAnsi (before ++ after) = stripAnsi before ++ stripAnsi after := by
  rw [stripAnsi, stripAnsi, stripAnsi, stripAnsiFrom_eq, stripAnsiFrom_eq, stripAnsiFrom_eq, feed_append, h]

/-- **The preview shows the text the rules match.** What the converter's lines show is what `strip_ansi` leaves, without
its carriage returns. Neither has an escape in it, and behind a text that leaves the lexer between sequences both go on as
if they started anew. -/
theorem escape_lexers_agree :
    (∀ text, visible (ansiToText text) = (stripAnsi text).filter (· ≠ '\r')) ∧
      (∀ text, '\x1b' ∉ visible (ansiToText text) ∧ '\x1b' ∉ stripAnsi text) ∧
        ∀ before after, AtGround before →
          visible (ansiToText (before ++ after)) = visible (ansiToText before) ++ visible (ansiToText after) ∧
            stripAnsi (before ++ after) = stripAnsi before ++ stripAnsi after := by
  have hstrip : ∀ text, '\x1b' ∉ stripAnsi text := by
    intro text
    rw [stripAnsi, stripAnsiFrom_eq]
    exact escape_not_mem_feed _ _
  refine ⟨visible_ansiToText, fun text => ⟨?_, hstrip text⟩, fun before after h => ⟨?_, stripAnsi_append h after⟩⟩
  · rw [visible_ansiToText]
    exact fun hmem => hstrip text (List.mem_filter.mp hmem).1
  · rw [visible_ansiToText, visible_ansiToText, visible_ansiToText, stripAnsi_append h, List.filter_append]

/-- A colour behind a text that ends in a title's terminator. -/
theorem escape_lexers_agree_title :
    visible (ansiToText ("\x1b]0;t\x1b\\a".toList ++ "\x1b[31mb".toList)) =
      visible (ansiToText "\x1b]0;t\x1b\\a".toList) ++ visible (ansiToText "\x1b[31mb".toList) :=
  (escape_lexers_agree.2.2 _ _ (by unfold AtGround; rfl)).1

end TmuxAgents.Ui
