/-
Quoting for the terminal multiplexer (`render.rs`): an argument for its command
parser, a literal operand for its formats, and a group of commands behind one
condition.

What the multiplexer does with a text is a parameter: `CommandLexer` and
`FormatLanguage` say no more of it than the quoting relies on.
-/
import Mathlib.Algebra.Order.Ring.Nat
import Mathlib.Data.List.Basic
import TmuxAgents.Lib.Text

namespace TmuxAgents.Quoting

/-! ## What is sent -/

/-- `str::replace` of a character. -/
def replace (c : Char) (new value : Text) : Text := value.flatMap fun d => if d = c then new else [d]

def quoteTmuxArgument (value : Text) : Text :=
  '\'' :: (replace '\n' "'\\012'".toList (replace '\'' "'\\''".toList value) ++ ['\''])

def encode (value : Text) : Text := value.flatMap fun c => if c = '#' ∨ c = '\x7d' ∨ c = ',' then ['#', c] else [c]

def literalTmuxFormat (value : Text) : Text := "#\x7bl:".toList ++ encode value ++ ['\x7d']

abbrev Argv := List Text

def commandText (argv : Argv) : Text := [' '].intercalate (argv.map quoteTmuxArgument)

/-- The string of a group's commands. -/
def groupText (body : List Argv) : Text := " ; ".toList.intercalate (body.map commandText)

def conditionalGroup (pane condition : Text) (body : List Argv) : Argv :=
  ["if-shell".toList, "-F".toList, "-t".toList, pane, condition, groupText body]

/-! ## The command lexer -/

/-- The commands read, the arguments of the open one, and the argument begun. -/
structure Reading where
  commands : List Argv := []
  args : Argv := []
  word : Option Text := none

namespace Reading

/-- The argument begun goes on. -/
def join (r : Reading) (text : Text) : Reading := { r with word := some (r.word.getD [] ++ text) }

@[simp] theorem join_join (r : Reading) (a b : Text) : (r.join a).join b = r.join (a ++ b) := by
  simp [join]

@[simp] theorem join_commands (r : Reading) (text : Text) : (r.join text).commands = r.commands := rfl

@[simp] theorem join_args (r : Reading) (text : Text) : (r.join text).args = r.args := rfl

end Reading

/-- What the quoting relies on: a quoted span is literal, but for the newlines and NULs nothing is said about; two
escapes; a space that ends an argument; a separator that ends a command. -/
structure CommandLexer where
  read : Reading → Text → Option (List Argv)
  quoted : ∀ (r : Reading) (span rest : Text), (∀ c ∈ span, c ≠ '\'' ∧ c ≠ '\n' ∧ c ≠ '\x00') →
    read r ('\'' :: (span ++ '\'' :: rest)) = read (r.join span) rest
  escapedQuote : ∀ (r : Reading) (rest : Text), read r ('\\' :: '\'' :: rest) = read (r.join ['\'']) rest
  escapedNewline : ∀ (r : Reading) (rest : Text), read r ("\\012".toList ++ rest) = read (r.join ['\n']) rest
  space : ∀ (commands : List Argv) (args : Argv) (word rest : Text),
    read ⟨commands, args, some word⟩ (' ' :: '\'' :: rest) = read ⟨commands, args ++ [word], none⟩ ('\'' :: rest)
  separator : ∀ (commands : List Argv) (args : Argv) (word rest : Text),
    read ⟨commands, args, some word⟩ (" ; ".toList ++ rest) = read ⟨commands ++ [args ++ [word]], [], none⟩ rest
  done : ∀ (commands : List Argv) (args : Argv) (word : Text),
    read ⟨commands, args, some word⟩ [] = some (commands ++ [args ++ [word]])
  nothing : read {} [] = some []

namespace CommandLexer

variable (lexer : CommandLexer)

/-- The commands of a string. -/
def tokens (text : Text) : Option (List Argv) := lexer.read {} text

/-! ## Arguments -/

/-- A character inside quotes. -/
def quoteChar (c : Char) : Text :=
  if c = '\'' then "'\\''".toList else if c = '\n' then "'\\012'".toList else [c]

theorem quoteTmuxArgument_eq (value : Text) : quoteTmuxArgument value = '\'' :: (value.flatMap quoteChar ++ ['\'']) := by
  have hstep : ∀ c, replace '\n' "'\\012'".toList (if c = '\'' then "'\\''".toList else [c]) = quoteChar c := by
    intro c
    rw [quoteChar]
    split
    · rfl
    · simp [replace]
  have hfun : quoteChar = fun c => replace '\n' "'\\012'".toList (if c = '\'' then "'\\''".toList else [c]) :=
    funext fun c => (hstep c).symm
  rw [quoteTmuxArgument, replace, replace, List.flatMap_assoc, hfun]
  rfl

/-- Inside a span: what has been read of it is literal so far. -/
theorem read_span (r : Reading) (span value rest : Text) (hspan : ∀ c ∈ span, c ≠ '\'' ∧ c ≠ '\n' ∧ c ≠ '\x00')
    (hvalue : '\x00' ∉ value) :
    lexer.read r ('\'' :: (span ++ (value.flatMap quoteChar ++ '\'' :: rest))) =
      lexer.read (r.join (span ++ value)) rest := by
  induction value generalizing r span with
  | nil => simpa using lexer.quoted r span rest hspan
  | cons c value ih =>
    have hc : c ≠ '\x00' := fun h => hvalue (by simp [h])
    have hrest : '\x00' ∉ value := fun h => hvalue (List.mem_cons_of_mem _ h)
    by_cases hquote : c = '\''
    · subst hquote
      have hshape : '\'' :: (span ++ (('\'' :: value).flatMap quoteChar ++ '\'' :: rest)) =
          '\'' :: (span ++ '\'' :: '\\' :: '\'' :: '\'' :: ([] ++ (value.flatMap quoteChar ++ '\'' :: rest))) := by
        simp [quoteChar]
      rw [hshape, lexer.quoted r span _ hspan, lexer.escapedQuote, ih _ [] (by simp) hrest]
      simp
    · by_cases hnewline : c = '\n'
      · subst hnewline
        have hshape : '\'' :: (span ++ (('\n' :: value).flatMap quoteChar ++ '\'' :: rest)) =
            '\'' :: (span ++ '\'' :: ("\\012".toList ++ '\'' :: ([] ++ (value.flatMap quoteChar ++ '\'' :: rest)))) := by
          simp [quoteChar]
        rw [hshape, lexer.quoted r span _ hspan, lexer.escapedNewline, ih _ [] (by simp) hrest]
        simp
      · have hshape : '\'' :: (span ++ ((c :: value).flatMap quoteChar ++ '\'' :: rest)) =
            '\'' :: ((span ++ [c]) ++ (value.flatMap quoteChar ++ '\'' :: rest)) := by
          simp [quoteChar, hquote, hnewline]
        have hmore : ∀ d ∈ span ++ [c], d ≠ '\'' ∧ d ≠ '\n' ∧ d ≠ '\x00' := by
          intro d hd
          rcases List.mem_append.mp hd with hd | hd
          · exact hspan d hd
          · rw [List.mem_singleton.mp hd]
            exact ⟨hquote, hnewline, hc⟩
        rw [hshape, ih r _ hmore hrest]
        simp

/-- A quoted argument is read as the argument. -/
theorem read_argument (r : Reading) {arg : Text} (h : '\x00' ∉ arg) (rest : Text) :
    lexer.read r (quoteTmuxArgument arg ++ rest) = lexer.read (r.join arg) rest := by
  have hread := lexer.read_span r [] arg rest (by simp) h
  rw [quoteTmuxArgument_eq]
  simpa using hread

/-! ## Commands -/

theorem commandText_singleton (arg : Text) : commandText [arg] = quoteTmuxArgument arg := List.intercalate_singleton

theorem commandText_cons (arg next : Text) (args : Argv) :
    commandText (arg :: next :: args) = quoteTmuxArgument arg ++ ' ' :: commandText (next :: args) := by
  rw [commandText, List.map_cons, List.map_cons, List.intercalate_cons_cons, List.append_assoc]
  rfl

theorem commandText_head (arg : Text) (args : Argv) : ∃ more, commandText (arg :: args) = '\'' :: more := by
  cases args with
  | nil =>
    rw [commandText_singleton]
    exact ⟨_, rfl⟩
  | cons next args =>
    rw [commandText_cons]
    exact ⟨_, rfl⟩

/-- A command's arguments are read one by one; the last one stays open. -/
theorem read_command (commands : List Argv) (args : Argv) (arg : Text) (more : Argv)
    (h : ∀ a ∈ arg :: more, '\x00' ∉ a) (rest : Text) :
    ∃ front last, args ++ arg :: more = front ++ [last] ∧
      lexer.read ⟨commands, args, none⟩ (commandText (arg :: more) ++ rest) =
        lexer.read ⟨commands, front, some last⟩ rest := by
  induction more generalizing args arg with
  | nil =>
    refine ⟨args, arg, rfl, ?_⟩
    rw [commandText_singleton, lexer.read_argument _ (h arg List.mem_cons_self)]
    rfl
  | cons next more ih =>
    obtain ⟨front, last, hfront, hread⟩ := ih (args ++ [arg]) next fun a ha => h a (List.mem_cons_of_mem _ ha)
    refine ⟨front, last, by rw [← hfront]; simp, ?_⟩
    obtain ⟨tail, htail⟩ := commandText_head next more
    rw [commandText_cons, List.append_assoc, lexer.read_argument _ (h arg List.mem_cons_self), ← hread, htail]
    exact lexer.space commands args arg (tail ++ rest)

theorem groupText_singleton (argv : Argv) : groupText [argv] = commandText argv := List.intercalate_singleton

theorem groupText_cons (argv next : Argv) (body : List Argv) :
    groupText (argv :: next :: body) = commandText argv ++ (" ; ".toList ++ groupText (next :: body)) := by
  rw [groupText, List.map_cons, List.map_cons, List.intercalate_cons_cons, List.append_assoc]
  rfl

theorem read_group (commands : List Argv) (argv : Argv) (body : List Argv)
    (hbody : ∀ argv' ∈ argv :: body, argv' ≠ [] ∧ ∀ arg ∈ argv', '\x00' ∉ arg) :
    lexer.read ⟨commands, [], none⟩ (groupText (argv :: body)) = some (commands ++ argv :: body) := by
  induction body generalizing commands argv with
  | nil =>
    obtain ⟨hne, harg⟩ := hbody argv List.mem_cons_self
    obtain ⟨arg, more, rfl⟩ := List.exists_cons_of_ne_nil hne
    obtain ⟨front, last, hfront, hread⟩ := lexer.read_command commands [] arg more harg []
    rw [List.append_nil] at hread
    rw [groupText_singleton, hread, lexer.done, ← hfront]
    rfl
  | cons next body ih =>
    obtain ⟨hne, harg⟩ := hbody argv List.mem_cons_self
    obtain ⟨arg, more, rfl⟩ := List.exists_cons_of_ne_nil hne
    obtain ⟨front, last, hfront, hread⟩ :=
      lexer.read_command commands [] arg more harg (" ; ".toList ++ groupText (next :: body))
    rw [groupText_cons, hread, lexer.separator, ih _ _ fun argv' h => hbody argv' (List.mem_cons_of_mem _ h), ← hfront]
    simp

theorem tokens_groupText {body : List Argv} (h : ∀ argv ∈ body, argv ≠ [] ∧ ∀ arg ∈ argv, '\x00' ∉ arg) :
    lexer.tokens (groupText body) = some body := by
  cases body with
  | nil => exact lexer.nothing
  | cons argv body => exact lexer.read_group [] argv body h

/-! ## A lexer -/

/-- The commands of a reading, at the end of the text. -/
def close (r : Reading) : List Argv :=
  if r.args.isEmpty && r.word.isNone then r.commands else r.commands ++ [r.args ++ r.word.toList]

/-- A lexer that does just this: quotes, the two escapes, spaces and semicolons. -/
def readChars : Bool → Reading → Text → Option (List Argv)
  | false, r, [] => some (close r)
  | true, _, [] => none
  | true, r, c :: rest => if c = '\'' then readChars false r rest else readChars true (r.join [c]) rest
  | false, r, '\'' :: rest => readChars true (r.join []) rest
  | false, r, '\\' :: '0' :: '1' :: '2' :: rest => readChars false (r.join ['\n']) rest
  | false, r, '\\' :: c :: rest => readChars false (r.join [c]) rest
  | false, _, ['\\'] => none
  | false, r, ' ' :: rest => readChars false ⟨r.commands, r.args ++ r.word.toList, none⟩ rest
  | false, r, ';' :: rest => readChars false ⟨close r, [], none⟩ rest
  | false, r, c :: rest => readChars false (r.join [c]) rest

theorem readChars_span (r : Reading) (start : Text) {span : Text} (h : ∀ c ∈ span, c ≠ '\'') (rest : Text) :
    readChars true (r.join start) (span ++ '\'' :: rest) = readChars false (r.join (start ++ span)) rest := by
  induction span generalizing start with
  | nil => simp [readChars]
  | cons c span ih =>
    rw [List.cons_append, readChars, if_neg (h c List.mem_cons_self), Reading.join_join,
      ih _ fun d hd => h d (List.mem_cons_of_mem _ hd)]
    simp

def reference : CommandLexer where
  read := readChars false
  quoted := by
    intro r span rest h
    rw [readChars, readChars_span _ _ fun c hc => (h c hc).1]
    rfl
  escapedQuote := by
    intros
    rfl
  escapedNewline := by
    intros
    rfl
  space := by
    intros
    rfl
  separator := by
    intro commands args word rest
    have hclose : close ⟨commands, args ++ [word], none⟩ = commands ++ [args ++ [word]] := by simp [close]
    rw [← hclose]
    rfl
  done := by
    intro commands args word
    simp [readChars, close]
  nothing := rfl

end CommandLexer

/-! ## The format language -/

/-- What the quoting relies on. `skip` goes to the first of the ends outside the braces, so many of them open: a `#` and a
character of `,#}:` are passed over together, `#{` opens a brace and a bare `}` closes one. A literal ends with
the brace it opened, and gives its operand unescaped. -/
structure FormatLanguage where
  skip : List Char → Nat → Text → Option (Text × Text)
  skip_escape : ∀ (ends : List Char) (depth : Nat) {c : Char}, c ∈ [',', '#', '\x7d', ':'] → ∀ rest,
    skip ends depth ('#' :: c :: rest) = (skip ends depth rest).map fun p => ('#' :: c :: p.1, p.2)
  skip_open : ∀ (ends : List Char) (depth : Nat) (rest : Text),
    skip ends depth ('#' :: '\x7b' :: rest) = (skip ends (depth + 1) rest).map fun p => ('#' :: '\x7b' :: p.1, p.2)
  skip_plain : ∀ (ends : List Char) (depth : Nat) {c : Char}, c ≠ '#' → c ≠ '\x7d' → (depth = 0 → c ∉ ends) → ∀ rest,
    skip ends depth (c :: rest) = (skip ends depth rest).map fun p => (c :: p.1, p.2)
  skip_close : ∀ (ends : List Char) (depth : Nat), (depth = 0 → '\x7d' ∉ ends) → ∀ rest,
    skip ends (depth + 1) ('\x7d' :: rest) = (skip ends depth rest).map fun p => ('\x7d' :: p.1, p.2)
  skip_end : ∀ (ends : List Char), '\x7d' ∈ ends → ∀ rest, skip ends 1 ('\x7d' :: rest) = some ([], '\x7d' :: rest)
  unescape : Text → Text
  unescape_nil : unescape [] = []
  unescape_escape : ∀ {c : Char}, c ∈ [',', '#', '\x7d', ':'] → ∀ rest, unescape ('#' :: c :: rest) = c :: unescape rest
  unescape_plain : ∀ {c : Char}, c ≠ '#' → ∀ rest, unescape (c :: rest) = c :: unescape rest
  expand : Text → Text
  expand_nil : expand [] = []
  expand_literal : ∀ {text operand rest : Text}, skip ['\x7d'] 1 text = some (operand, '\x7d' :: rest) →
    expand ("#\x7bl:".toList ++ text) = unescape operand ++ expand rest

namespace FormatLanguage

variable (language : FormatLanguage)

/-- A character of a literal's operand. -/
def encodeChar (c : Char) : Text := if c = '#' ∨ c = '\x7d' ∨ c = ',' then ['#', c] else [c]

theorem encode_cons (c : Char) (value : Text) : encode (c :: value) = encodeChar c ++ encode value := rfl

/-- No end is met inside a literal's operand. -/
theorem skip_encode (ends : List Char) (depth : Nat) (value rest : Text) :
    language.skip ends (depth + 1) (encode value ++ rest) =
      (language.skip ends (depth + 1) rest).map fun p => (encode value ++ p.1, p.2) := by
  induction value with
  | nil => simp [encode]
  | cons c value ih =>
    rw [encode_cons, encodeChar]
    split
    next h =>
      have hmem : c ∈ [',', '#', '\x7d', ':'] := by
        rcases h with rfl | rfl | rfl <;> simp
      simp only [List.cons_append, List.nil_append]
      rw [language.skip_escape ends _ hmem, ih, Option.map_map]
      rfl
    next h =>
      simp only [not_or] at h
      simp only [List.cons_append, List.nil_append]
      rw [language.skip_plain ends _ h.1 h.2.1 (by simp), ih, Option.map_map]
      rfl

theorem unescape_encode (value : Text) : language.unescape (encode value) = value := by
  induction value with
  | nil => exact language.unescape_nil
  | cons c value ih =>
    rw [encode_cons, encodeChar]
    split
    next h =>
      have hmem : c ∈ [',', '#', '\x7d', ':'] := by
        rcases h with rfl | rfl | rfl <;> simp
      rw [List.cons_append, List.singleton_append, language.unescape_escape hmem, ih]
    next h =>
      rw [List.singleton_append, language.unescape_plain (fun heq => h (.inl heq)), ih]

theorem expand_literalTmuxFormat (value rest : Text) :
    language.expand (literalTmuxFormat value ++ rest) = value ++ language.expand rest := by
  have hskip : language.skip ['\x7d'] 1 (encode value ++ '\x7d' :: rest) = some (encode value, '\x7d' :: rest) := by
    rw [language.skip_encode, language.skip_end _ (by simp)]
    simp
  have hexpand := language.expand_literal hskip
  rw [language.unescape_encode] at hexpand
  rw [← hexpand, literalTmuxFormat]
  simp

theorem skip_literalTmuxFormat {ends : List Char} {depth : Nat} (h : depth = 0 → '\x7d' ∉ ends) (value rest : Text) :
    language.skip ends depth (literalTmuxFormat value ++ rest) =
      (language.skip ends depth rest).map fun p => (literalTmuxFormat value ++ p.1, p.2) := by
  have hshape : literalTmuxFormat value ++ rest =
      '#' :: '\x7b' :: 'l' :: ':' :: (encode value ++ '\x7d' :: rest) := by
    simp [literalTmuxFormat]
  rw [hshape, language.skip_open, language.skip_plain _ _ (by decide) (by decide) (by simp),
    language.skip_plain _ _ (by decide) (by decide) (by simp), language.skip_encode, language.skip_close _ _ h]
  simp [Option.map_map, Function.comp_def, literalTmuxFormat]

/-! ## A format language -/

/-- `,`, `#`, `\x7d` or `:`. -/
def isEscaped (c : Char) : Bool := [',', '#', '\x7d', ':'].contains c

def skipChars (ends : List Char) : Nat → Text → Option (Text × Text)
  | _, [] => none
  | depth, '#' :: c :: rest =>
    if c = '\x7b' then (skipChars ends (depth + 1) rest).map fun p => ('#' :: c :: p.1, p.2)
    else if isEscaped c then (skipChars ends depth rest).map fun p => ('#' :: c :: p.1, p.2)
    else (skipChars ends depth (c :: rest)).map fun p => ('#' :: p.1, p.2)
  | depth, c :: rest =>
    if ends.contains c ∧ (depth = 0 ∨ depth = 1 ∧ c = '\x7d') then some ([], c :: rest)
    else (skipChars ends (if c = '\x7d' then depth - 1 else depth) rest).map fun p => (c :: p.1, p.2)

def unescapeChars : Text → Text
  | [] => []
  | '#' :: c :: rest => if isEscaped c then c :: unescapeChars rest else '#' :: unescapeChars (c :: rest)
  | c :: rest => c :: unescapeChars rest

theorem found_of_map {found : Option (Text × Text)} (extend : Text → Text) {front rest : Text}
    (h : (found.map fun p => (extend p.1, p.2)) = some (front, rest)) : ∃ inner, found = some (inner, rest) := by
  simp only [Option.map_eq_some_iff, Prod.mk.injEq] at h
  obtain ⟨⟨inner, _⟩, hfound, -, rfl⟩ := h
  exact ⟨inner, hfound⟩

theorem skipChars_length {ends : List Char} {depth : Nat} {text front rest : Text}
    (h : skipChars ends depth text = some (front, rest)) : rest.length ≤ text.length := by
  fun_induction skipChars ends depth text generalizing front with
  | case1 => cases h
  | case2 depth tail ih =>
    obtain ⟨inner, hinner⟩ := found_of_map ('#' :: '\x7b' :: ·) h
    exact (ih hinner).trans (by simp only [List.length_cons]; omega)
  | case3 depth c tail hc hescaped ih =>
    obtain ⟨inner, hinner⟩ := found_of_map ('#' :: c :: ·) h
    exact (ih hinner).trans (by simp only [List.length_cons]; omega)
  | case4 depth c tail hc hescaped ih =>
    obtain ⟨inner, hinner⟩ := found_of_map ('#' :: ·) h
    exact (ih hinner).trans (by simp)
  | case5 depth c tail hpair hend =>
    simp only [Option.some.injEq, Prod.mk.injEq] at h
    rw [← h.2]
  | case6 depth c tail hpair hend ih =>
    obtain ⟨inner, hinner⟩ := found_of_map (c :: ·) h
    exact (ih hinner).trans (by simp)

def expandChars : Text → Text
  | [] => []
  | c :: rest =>
    if "#\x7bl:".toList.isPrefixOf (c :: rest) then
      match _hskip : skipChars ['\x7d'] 1 (rest.drop 3) with
      | some (operand, rest) => unescapeChars operand ++ expandChars rest.tail
      | none => []
    else c :: expandChars rest
termination_by text => text.length
decreasing_by
  · have hle := skipChars_length _hskip
    simp only [List.length_tail, List.length_drop, List.length_cons] at hle ⊢
    omega
  · simp

theorem skipChars_cons (ends : List Char) (depth : Nat) {c : Char} (hhash : c ≠ '#') (rest : Text) :
    skipChars ends depth (c :: rest) =
      if ends.contains c ∧ (depth = 0 ∨ depth = 1 ∧ c = '\x7d') then some ([], c :: rest)
      else (skipChars ends (if c = '\x7d' then depth - 1 else depth) rest).map fun p => (c :: p.1, p.2) := by
  conv_lhs => unfold skipChars
  split <;> simp_all

def reference : FormatLanguage where
  skip := skipChars
  skip_escape := by
    intro ends depth c h rest
    have hbrace : c ≠ '\x7b' := by
      rintro rfl
      simp at h
    simp [skipChars, hbrace, isEscaped, h]
  skip_open := by
    intros
    simp [skipChars]
  skip_plain := by
    intro ends depth c hhash hbrace hend rest
    have hcontinues : ¬ (ends.contains c = true ∧ (depth = 0 ∨ depth = 1 ∧ c = '\x7d')) := by
      simp only [List.contains_eq_mem, decide_eq_true_eq, hbrace, and_false, or_false, not_and]
      exact fun hmem hdepth => hend hdepth hmem
    rw [skipChars_cons ends depth hhash, if_neg hcontinues, if_neg hbrace]
  skip_close := by
    intro ends depth hend rest
    have hcontinues : ¬ (ends.contains '\x7d' = true ∧ (depth + 1 = 0 ∨ depth + 1 = 1 ∧ '\x7d' = '\x7d')) := by
      simp only [List.contains_eq_mem, decide_eq_true_eq, and_true, not_and]
      intro hmem hdepth
      exact hend (by omega) hmem
    rw [skipChars_cons ends _ (by decide), if_neg hcontinues, if_pos rfl, Nat.add_sub_cancel]
  skip_end := by
    intro ends hmem rest
    rw [skipChars_cons ends _ (by decide), if_pos (by simpa using hmem)]
  unescape := unescapeChars
  unescape_nil := rfl
  unescape_escape := by
    intro c h rest
    simp [unescapeChars, isEscaped, h]
  unescape_plain := by
    intro c h rest
    conv_lhs => unfold unescapeChars
    split <;> simp_all
  expand := expandChars
  expand_nil := by simp [expandChars]
  expand_literal := by
    intro text operand rest h
    have hshape : "#\x7bl:".toList ++ text = '#' :: '\x7b' :: 'l' :: ':' :: text := by simp
    rw [hshape, expandChars, if_pos (by simp)]
    split
    next heq =>
      cases h.symm.trans heq
      rfl
    next heq => cases h.symm.trans heq

end FormatLanguage

/-! ## Groups and literals -/

/-- **A command group means its argument lists, and a literal its text.** Under any lexer that keeps what the quoting
relies on, the string of a group whose commands have a name each is read as just these commands, whatever stands in their
arguments. Under any such format language a literal expands to its text, and an operand it stands in goes on behind it:
no end is met inside. -/
theorem group_means_its_commands (lexer : CommandLexer) (language : FormatLanguage) :
    (∀ (pane condition : Text) (body : List Argv), (∀ argv ∈ body, argv ≠ [] ∧ ∀ arg ∈ argv, '\x00' ∉ arg) →
        ∃ text, conditionalGroup pane condition body =
            ["if-shell".toList, "-F".toList, "-t".toList, pane, condition, text] ∧ lexer.tokens text = some body) ∧
      ∀ value rest, language.expand (literalTmuxFormat value) = value ∧
        language.expand (literalTmuxFormat value ++ rest) = value ++ language.expand rest ∧
          ∀ (ends : List Char) (depth : Nat), (depth = 0 → '\x7d' ∉ ends) →
            language.skip ends depth (literalTmuxFormat value ++ rest) =
              (language.skip ends depth rest).map fun p => (literalTmuxFormat value ++ p.1, p.2) := by
  refine ⟨fun pane condition body h => ⟨_, rfl, lexer.tokens_groupText h⟩, fun value rest => ⟨?_, ?_, ?_⟩⟩
  · have hexpand := language.expand_literalTmuxFormat value []
    simpa [language.expand_nil] using hexpand
  · exact language.expand_literalTmuxFormat value rest
  · exact fun ends depth h => language.skip_literalTmuxFormat h value rest

/-- A group inside a group, and a literal as an operand. -/
theorem group_means_its_commands_nested :
    (∃ text, conditionalGroup "%1".toList ['1']
          [["set".toList, "it's ; \n".toList, []], conditionalGroup ['%'] ['0'] [["kill-server".toList]]] =
        ["if-shell".toList, "-F".toList, "-t".toList, "%1".toList, ['1'], text] ∧
      CommandLexer.reference.tokens text =
        some [["set".toList, "it's ; \n".toList, []], conditionalGroup ['%'] ['0'] [["kill-server".toList]]]) ∧
      FormatLanguage.reference.skip [','] 0 (literalTmuxFormat "#\x7b@x\x7d,".toList ++ [',', 'a']) =
        (FormatLanguage.reference.skip [','] 0 [',', 'a']).map
          fun p => (literalTmuxFormat "#\x7b@x\x7d,".toList ++ p.1, p.2) :=
  ⟨(group_means_its_commands CommandLexer.reference FormatLanguage.reference).1 _ _ _ (by decide),
    ((group_means_its_commands CommandLexer.reference FormatLanguage.reference).2 _ _).2.2 [','] 0 (by decide)⟩

/-- A command of no words leaves no trace: its group is the empty one. -/
theorem nameless_command_vanishes :
    ¬ ∀ (lexer : CommandLexer) (body : List Argv), (∀ argv ∈ body, ∀ arg ∈ argv, '\x00' ∉ arg) →
        lexer.tokens (groupText body) = some body := by
  intro h
  have hnone := h CommandLexer.reference [[]] (by simp)
  have hempty := h CommandLexer.reference [] (by simp)
  have hsame : groupText [[]] = groupText [] := rfl
  rw [hsame, hempty] at hnone
  cases hnone

end TmuxAgents.Quoting
