/-
The keybindings installer (`install_keys.rs`): a managed file of bindings, and one marked line in the user's
tmux configuration that sources it.

Whatever is installed and uninstalled, and whatever of it is declined or fails, a finished install is what the
check asks for, and a finished uninstall leaves nothing of it; the user's own lines stay as they are, unless a
write of the configuration fails half way: the file is truncated before it is written (`keys_runs`).
-/
import TmuxAgents.Dispatch.SlotTextFacts

namespace TmuxAgents.Install.Keys

open SlotText (lines)

/-! ## What is written -/

def keysMarker : Text := "# tma keys".toList

def managedMarker : Text := "tma keybindings".toList

/-- A key, and the command that stands behind it. -/
structure Binding where
  key : String
  command : String

def bindings : List Binding :=
  [{ key := "a", command := "display-popup -E -w 80% -h 60% 'tma'" },
    { key := "G", command := "run-shell 'tma watch --temporary-session --table --client \"#\x7bclient_name\x7d\"'" },
    { key := "j", command := "run-shell 'tma jump --attention --client \"#\x7bclient_name\x7d\"'" },
    { key := "g", command := "run-shell 'tma jump --blocked --client \"#\x7bclient_name\x7d\"'" },
    { key := "b", command := "run-shell 'tma jump --back --client \"#\x7bclient_name\x7d\"'" },
    { key := "h", command := "run-shell 'tma jump --home --client \"#\x7bclient_name\x7d\"'" },
    { key := "A", command := "run-shell 'tma act --menu --pane \"#\x7bpane_id\x7d\"'" }]

def mouseBindings : List Binding :=
  [{ key := "MouseDown1Status"
     command := "if-shell -F '#\x7b==:#\x7bmouse_status_range\x7d,tma:blocked\x7d' " ++
      "\x7b run-shell 'tma jump --blocked --client \"#\x7bclient_name\x7d\"' \x7d " ++
      "\x7b if-shell -F '#\x7bm:tma:*,#\x7bmouse_status_range\x7d\x7d' " ++
      "\x7b display-popup -E -w 80% -h 60% 'tma' \x7d \x7b switch-client -t= \x7d \x7d" },
    { key := "MouseDown1StatusRight"
      command := "if-shell -F '#\x7b==:#\x7bmouse_status_range\x7d,tma:blocked\x7d' " ++
      "\x7b run-shell 'tma jump --blocked --client \"#\x7bclient_name\x7d\"' \x7d " ++
      "\x7b if-shell -F '#\x7bm:tma:*,#\x7bmouse_status_range\x7d\x7d' " ++
      "\x7b display-popup -E -w 80% -h 60% 'tma' \x7d \x7d" },
    { key := "MouseDown3Status"
      command := "if-shell -F '#\x7bm:tma:*,#\x7bmouse_status_range\x7d\x7d' " ++
      "\x7b run-shell 'tma jump --menu --client \"#\x7bclient_name\x7d\"' \x7d" },
    { key := "MouseDown3StatusRight"
      command := "if-shell -F '#\x7bm:tma:*,#\x7bmouse_status_range\x7d\x7d' " ++
      "\x7b run-shell 'tma jump --menu --client \"#\x7bclient_name\x7d\"' \x7d" }]

def daemonLine : Text :=
  "run-shell -b 'tma --socket-path \"#\x7bsocket_path\x7d\" daemon --ensure >/dev/null 2>&1'".toList

def bindingLines (lead : String) (bindings : List Binding) : Text :=
  bindings.flatMap fun b => lead.toList ++ b.key.toList ++ [' '] ++ b.command.toList ++ ['\n']

def banner : Text :=
  "# ".toList ++ managedMarker ++ (", managed by `tma install-keys`. Do not hand-edit; re-run to update,\n" ++
    "# or `tma install-keys --uninstall` to remove.\n").toList

def mouseGroup : Text :=
  "# Clickable status segments (--mouse). Needs `set -g mouse on`, which tma leaves to you.\n".toList ++
    bindingLines "bind-key -n " mouseBindings

def daemonGroup : Text :=
  "# Event-hub daemon, started once per tmux server start (omit with --no-daemon). Idempotent.\n".toList ++
    daemonLine ++ ['\n']

/-- The managed file. -/
def renderManaged (mouse daemon : Bool) : Text :=
  banner ++ bindingLines "bind-key " bindings ++ (if mouse then mouseGroup else []) ++ (if daemon then daemonGroup else [])

inductive ConfigDir
  | default
  | pinned
deriving DecidableEq

/-- What every such line starts with. -/
def sourceFile : Text := "source-file ".toList

/-- It is left to tmux to find the managed file. -/
def defaultPaths : Text := "-q \"$XDG_CONFIG_HOME/tma/tmux.conf\" \"$HOME/.config/tma/tmux.conf\"".toList

/-- The line that sources the managed file. -/
def sourceLine (managed : Text) (dir : ConfigDir) : Text :=
  match dir with
  | .default => sourceFile ++ defaultPaths ++ [' '] ++ keysMarker
  | .pinned => sourceFile ++ ['"'] ++ managed ++ ['"', ' '] ++ keysMarker

/-! ## The user's configuration -/

def isKeysSourceLine (line : Text) : Bool :=
  let trimmed := trimEnd (trimStart line)
  sourceFile.isPrefixOf trimmed && keysMarker.isSuffixOf trimmed

def unlines (lines : List Text) : Text := lines.flatMap fun line => line ++ ['\n']

/-- The lines that are not tma's. -/
def kept (text : Text) : List Text := (lines text).filter fun line => !isKeysSourceLine line

def marked (text : Text) : List Text := (lines text).filter isKeysSourceLine

/-- The text with one marked line, or nothing where that is what it holds. -/
def markConf (old want : Text) : Option Text :=
  if marked old = [want] ∧ old.getLast? = some '\n' then none else some (unlines (kept old) ++ (want ++ ['\n']))

def unmarkConf (old : Text) : Option Text :=
  if (lines old).any isKeysSourceLine then some (unlines (kept old)) else none

/-! ## The commands -/

/-- A file, as `read_to_string` finds it. -/
inductive Content
  | absent
  /-- Not UTF-8, or not to be opened. -/
  | unreadable
  | utf8 (text : Text)
deriving DecidableEq

/-- `unwrap_or_default`. -/
def Content.orEmpty : Content → Text
  | .utf8 text => text
  | _ => []

theorem Content.orEmpty_utf8 (text : Text) : (Content.utf8 text).orEmpty = text := rfl

structure Files where
  managed : Content
  conf : Content
deriving DecidableEq

/-- How a write goes. -/
inductive Write
  | whole
  /-- It is declined, or the file cannot be opened. -/
  | unopened
  /-- It fails behind so many characters, or within the next one. -/
  | torn (behind : Nat) (within : Bool)
deriving DecidableEq

/-- `apply_file`. The file is truncated once it is open. -/
def applyFile (file : Content) (old new : Text) (written : Write) : Content × Bool :=
  if old = new then (file, true)
  else match written with
    | .whole => (.utf8 new, true)
    | .unopened => (file, false)
    | .torn behind within => (if within then .unreadable else .utf8 (new.take behind), false)

/-- Someone's file, at the managed path. -/
def foreign (text : Text) : Bool := !text.isEmpty && !decide (managedMarker <:+: text)

/-- The managed file, and then the line that sources it. -/
def write (new want : Text) (written : Write × Write) (files : Files) : Files × Bool :=
  if foreign files.managed.orEmpty then (files, false)
  else
    let (file, done) := applyFile files.managed files.managed.orEmpty new written.1
    if !done then ({ files with managed := file }, false)
    else
      match markConf files.conf.orEmpty want with
      | none => ({ files with managed := file }, true)
      | some new =>
        let (conf, done) := applyFile files.conf files.conf.orEmpty new written.2
        ({ managed := file, conf }, done)

def install (managed : Text) (dir : ConfigDir) (mouse daemon : Bool) : Write × Write → Files → Files × Bool :=
  write (renderManaged mouse daemon) (sourceLine managed dir)

/-- The marked lines are taken out. -/
def unsource (written : Write) (files : Files) : Files × Bool :=
  match unmarkConf files.conf.orEmpty with
  | none => (files, true)
  | some new =>
    let (conf, done) := applyFile files.conf files.conf.orEmpty new written
    ({ files with conf }, done)

/-- Where the managed file is tma's, it is removed first, or is not. -/
def uninstall (removed : Bool) (written : Write) (files : Files) : Files × Bool :=
  match files.managed with
  | .utf8 text =>
    if !decide (managedMarker <:+: text) then unsource written files
    else if removed then unsource written { files with managed := .absent }
    else (files, false)
  | _ => unsource written files

inductive Command
  | install (dir : ConfigDir) (mouse daemon : Bool) (written : Write × Write)
  | uninstall (removed : Bool) (written : Write)

def Command.run (managed : Text) (command : Command) (files : Files) : Files × Bool :=
  match command with
  | .install dir mouse daemon written => Keys.install managed dir mouse daemon written files
  | .uninstall removed written => Keys.uninstall removed written files

/-- How its write of the configuration goes, if it comes to that. -/
def Command.confWrite : Command → Write
  | .install _ _ _ written => written.2
  | .uninstall _ written => written

def runAll (managed : Text) (commands : List Command) (files : Files) : Files :=
  commands.foldl (fun files command => (command.run managed files).1) files

/-! ## The check -/

inductive Drift
  | noMouse
  | noDaemon
  | stale
  | missing
  | noLine
  | otherLine
  | manyLines
deriving DecidableEq

/-- What the check prints. -/
def Drift.text (managed conf : Text) : Drift → Text
  | .noMouse => "keybindings file ".toList ++ managed ++
      " has no mouse bindings; re-run `tma install-keys --mouse`".toList
  | .noDaemon => "keybindings file ".toList ++ managed ++
      (" has no daemon launcher; re-run `tma install-keys` " ++
        "(or `--check --no-daemon` if that is deliberate)").toList
  | .stale => "keybindings file ".toList ++ managed ++
      " is stale (differs from what tma would write); reinstall".toList
  | .missing => "keybindings file ".toList ++ managed ++ " missing (never installed)".toList
  | .noLine => conf ++ " has no `source-file` line for the keybindings".toList
  | .otherLine => conf ++ " sources a different keybindings path; reinstall".toList
  | .manyLines => conf ++ " has more than one tma keys `source-file` line; reinstall to dedup".toList

/-- The groups of the rendering that this is, if it is one. -/
def groupsOf (text : Text) : Option (Bool × Bool) :=
  [(false, false), (false, true), (true, false), (true, true)].find? fun groups => text = renderManaged groups.1 groups.2

def managedDrift (requireMouse requireDaemon : Bool) (file : Content) : List Drift :=
  match file with
  | .utf8 text =>
    match groupsOf text with
    | some (mouse, daemon) =>
      (if requireMouse && !mouse then [.noMouse] else []) ++ (if requireDaemon && !daemon then [.noDaemon] else [])
    | none => [.stale]
  | _ => [.missing]

def confDrift (want conf : Text) : List Drift :=
  match marked conf with
  | [line] => if line = want then [] else [.otherLine]
  | [] => [.noLine]
  | _ => [.manyLines]

def drift (managed : Text) (dir : ConfigDir) (requireMouse requireDaemon : Bool) (files : Files) : List Drift :=
  managedDrift requireMouse requireDaemon files.managed ++ confDrift (sourceLine managed dir) files.conf.orEmpty

/-! ## Lines -/

/-- Lines that can be written and read again. -/
def Plain (line : Text) : Prop := '\n' ∉ line ∧ line.getLast? ≠ some '\r'

theorem lines_unlines {text : List Text} (h : ∀ line ∈ text, Plain line) (rest : Text) :
    lines (unlines text ++ rest) = text ++ lines rest := by
  induction text with
  | nil => rfl
  | cons line text ih =>
    obtain ⟨hnewline, hlast⟩ := h line List.mem_cons_self
    have hcut : unlines (line :: text) ++ rest = line ++ '\n' :: (unlines text ++ rest) := by simp [unlines]
    rw [hcut, SlotText.lines_line hnewline hlast, ih fun l hl => h l (List.mem_cons_of_mem _ hl)]
    rfl

/-- No line that is read has a newline. -/
theorem newline_not_mem_lines {text line : Text} (h : line ∈ lines text) : '\n' ∉ line := by
  simp only [lines, List.mem_map] at h
  obtain ⟨piece, hpiece, rfl⟩ := h
  obtain ⟨before, after, hsplit⟩ := List.append_of_mem hpiece
  rcases (Lines.splitInclusive_piece hsplit).2 with ⟨front, rfl, hfront⟩ | ⟨-, hpiece⟩
  · have hstrip : SlotText.stripLine (front ++ ['\n']) <+: front := by
      rw [SlotText.stripLine, List.reverse_append, List.reverse_singleton, List.singleton_append]
      rcases List.eq_nil_or_concat front with rfl | ⟨start, c, rfl⟩
      · exact List.prefix_rfl
      · by_cases hc : c = '\r'
        · subst hc
          simp
        · simp [hc]
    exact fun hmem => hfront (hstrip.subset hmem)
  · rw [SlotText.stripLine_unfinished hpiece]
    exact hpiece

/-- There is no carriage return in the text. -/
def Clean (text : Text) : Prop := '\r' ∉ text

theorem stripLine_front (line : Text) : SlotText.stripLine line <+: line := by
  unfold SlotText.stripLine
  split
  next front heq =>
    rw [List.reverse_eq_cons_iff.mp heq, List.reverse_cons, List.append_assoc]
    exact List.prefix_append _ _
  next front _ heq =>
    rw [List.reverse_eq_cons_iff.mp heq]
    exact List.prefix_append _ _
  next => exact List.prefix_rfl

theorem mem_of_mem_lines {text line : Text} (h : line ∈ lines text) {c : Char} (hc : c ∈ line) : c ∈ text := by
  simp only [lines, List.mem_map] at h
  obtain ⟨piece, hpiece, rfl⟩ := h
  have hmem : c ∈ (Lines.splitInclusive '\n' text).flatten :=
    List.mem_flatten.mpr ⟨piece, hpiece, (stripLine_front piece).subset hc⟩
  rwa [Lines.flatten_splitInclusive] at hmem

theorem Clean.plain {text line : Text} (h : Clean text) (hline : line ∈ lines text) : Plain line :=
  ⟨newline_not_mem_lines hline, fun hlast => h (mem_of_mem_lines hline (List.mem_of_getLast? hlast))⟩

theorem lines_unlines_nil {text : List Text} (h : ∀ line ∈ text, Plain line) : lines (unlines text) = text := by
  have hlines := lines_unlines h []
  rwa [List.append_nil, show lines [] = [] from rfl, List.append_nil] at hlines

theorem unlines_append (a b : List Text) : unlines (a ++ b) = unlines a ++ unlines b := List.flatMap_append

/-- A text without a line break. -/
def OneLine (text : Text) : Prop := '\n' ∉ text ∧ '\r' ∉ text

/-- A line of tma's. -/
def Own (line : Text) : Prop := OneLine line ∧ isKeysSourceLine line = true

theorem OneLine.plain {line : Text} (h : OneLine line) : Plain line :=
  ⟨h.1, fun hlast => h.2 (List.mem_of_getLast? hlast)⟩

/-- The line that tma writes is one it finds again. -/
theorem sourceLine_marked {managed : Text} (hpath : OneLine managed) (dir : ConfigDir) : Own (sourceLine managed dir) := by
  obtain ⟨body, hbody, hreturn, hline⟩ : ∃ body, '\n' ∉ body ∧ '\r' ∉ body ∧
      sourceLine managed dir = sourceFile ++ (body ++ keysMarker) := by
    cases dir with
    | default => exact ⟨defaultPaths ++ [' '], by decide, by decide, by simp only [sourceLine, List.append_assoc]⟩
    | pinned =>
      exact ⟨['"'] ++ managed ++ ['"', ' '], by simpa using hpath.1, by simpa using hpath.2,
        by simp only [sourceLine, List.append_assoc]⟩
  have hlast : (sourceLine managed dir).getLast? = some 's' := by
    rw [hline, ← List.append_assoc]
    exact List.getLast?_append_of_ne_nil _ (by decide)
  have htrim : trimEnd (trimStart (sourceLine managed dir)) = sourceLine managed dir := by
    have hstart : trimStart (sourceLine managed dir) = sourceLine managed dir := by
      rw [hline]
      rfl
    rw [hstart, trimEnd]
    obtain ⟨front, hfront⟩ := List.getLast?_eq_some_iff.mp hlast
    rw [hfront, List.reverse_append, List.reverse_singleton, List.singleton_append,
      List.dropWhile_cons_of_neg (by decide), List.reverse_cons, List.reverse_reverse]
  refine ⟨⟨?_, ?_⟩, ?_⟩
  · rw [hline]
    simp only [List.mem_append, not_or]
    exact ⟨by decide, hbody, by decide⟩
  · rw [hline]
    simp only [List.mem_append, not_or]
    exact ⟨by decide, hreturn, by decide⟩
  · simp only [isKeysSourceLine, htrim, Bool.and_eq_true]
    rw [hline]
    refine ⟨List.isPrefixOf_iff_prefix.mpr (List.prefix_append _ _), List.isSuffixOf_iff_suffix.mpr ?_⟩
    rw [← List.append_assoc]
    exact List.suffix_append _ _

/-! ## What a command leaves -/

/-- What holds of the files since the first of the commands. -/
structure Spared (start files : Files) : Prop where
  clean : Clean files.conf.orEmpty
  foreign : Keys.foreign start.managed.orEmpty = true → files.managed = start.managed

/-- What holds of them as long as no write of the configuration is torn. -/
structure Untouched (start files : Files) : Prop where
  readable : files.conf ≠ .unreadable
  /-- The user's lines are the user's. -/
  lines : kept files.conf.orEmpty = kept start.conf.orEmpty
  /-- Every line keeps its end. -/
  whole : start.conf.orEmpty = unlines (SlotText.lines start.conf.orEmpty) →
    files.conf.orEmpty = unlines (SlotText.lines files.conf.orEmpty)

/-- The write is not torn. -/
def Write.Untorn (written : Write) : Prop := ∀ behind within, written ≠ .torn behind within

theorem kept_append_marked {text own : List Text} (h : ∀ line ∈ own, isKeysSourceLine line = true) :
    (text ++ own).filter (fun line => !isKeysSourceLine line) = text.filter fun line => !isKeysSourceLine line := by
  have hown : own.filter (fun line => !isKeysSourceLine line) = [] := by
    rw [List.filter_eq_nil_iff]
    intro line hline
    simp [h line hline]
  rw [List.filter_append, hown, List.append_nil]

section

variable {start files : Files}

/-- The user's lines, and lines of tma's behind them. -/
theorem plain_rewritten {conf : Text} (h : Clean conf) {own : List Text} (hown : ∀ line ∈ own, Own line) :
    ∀ line ∈ kept conf ++ own, Plain line := by
  intro line hline
  rcases List.mem_append.mp hline with hline | hline
  · exact h.plain (List.mem_of_mem_filter hline)
  · exact (hown line hline).1.plain

theorem clean_rewritten {conf : Text} (h : Clean conf) {own : List Text} (hown : ∀ line ∈ own, Own line) :
    Clean (unlines (kept conf ++ own)) := by
  intro hreturn
  obtain ⟨line, hline, hmem⟩ := List.mem_flatMap.mp hreturn
  have hmem : '\r' ∈ line := by simpa using hmem
  rcases List.mem_append.mp hline with hline | hline
  · exact h (mem_of_mem_lines (List.mem_of_mem_filter hline) hmem)
  · exact (hown line hline).1.2 hmem

/-- A write of a text without carriage returns, whole or torn. -/
theorem clean_applyFile {file : Content} {new : Text} (hold : Clean file.orEmpty) (hnew : Clean new) (written : Write) :
    Clean (applyFile file file.orEmpty new written).1.orEmpty := by
  unfold applyFile
  split
  · exact hold
  · cases written with
    | whole => exact hnew
    | unopened => exact hold
    | torn behind within =>
      cases within with
      | true => exact List.not_mem_nil
      | false => exact fun hmem => hnew (List.mem_of_mem_take hmem)

/-- Only lines of tma's are put in place of lines of tma's. -/
theorem Untouched.rewrite (h : Untouched start files) (hclean : Clean files.conf.orEmpty) {own : List Text}
    (hown : ∀ line ∈ own, Own line) {written : Write} (huntorn : written.Untorn) :
    Untouched start { files with
      conf := (applyFile files.conf files.conf.orEmpty (unlines (kept files.conf.orEmpty ++ own)) written).1 } := by
  unfold applyFile
  split
  · exact h
  · cases written with
    | unopened => exact h
    | torn behind within => exact absurd rfl (huntorn behind within)
    | whole =>
      have hlines := lines_unlines_nil (plain_rewritten hclean hown)
      have hkept : kept (unlines (kept files.conf.orEmpty ++ own)) = kept files.conf.orEmpty := by
        rw [kept, hlines, kept_append_marked fun line hline => (hown line hline).2]
        simp [kept]
      exact ⟨Content.noConfusion, hkept.trans h.lines, fun _ => (congrArg unlines hlines).symm⟩

theorem markConf_eq (old want : Text) : markConf old want = none ∨ markConf old want = some (unlines (kept old ++ [want])) := by
  unfold markConf
  split
  · exact .inl rfl
  · refine .inr (congrArg some ?_)
    rw [unlines_append]
    simp [unlines]

theorem unmarkConf_eq (old : Text) : unmarkConf old = none ∨ unmarkConf old = some (unlines (kept old ++ [])) := by
  unfold unmarkConf
  rw [List.append_nil]
  split
  · exact .inr rfl
  · exact .inl rfl

/-- What an install does to the configuration, if it comes to that. -/
theorem install_conf {managed : Text} (hpath : OneLine managed) (dir : ConfigDir) (mouse daemon : Bool)
    (written : Write × Write) (files : Files) :
    (Keys.install managed dir mouse daemon written files).1.conf = files.conf ∨
      ∃ own : List Text, (∀ line ∈ own, Own line) ∧ (Keys.install managed dir mouse daemon written files).1.conf =
        (applyFile files.conf files.conf.orEmpty (unlines (kept files.conf.orEmpty ++ own)) written.2).1 := by
  unfold Keys.install write
  split
  · exact .inl rfl
  · dsimp only
    split
    · exact .inl rfl
    · rcases markConf_eq files.conf.orEmpty (sourceLine managed dir) with hmark | hmark
      · rw [hmark]
        exact .inl rfl
      · rw [hmark]
        refine .inr ⟨[sourceLine managed dir], fun line hline => ?_, rfl⟩
        rw [List.mem_singleton.mp hline]
        exact sourceLine_marked hpath dir

/-- And to the managed file. -/
theorem install_managed (managed : Text) (dir : ConfigDir) (mouse daemon : Bool) (written : Write × Write) (files : Files) :
    (Keys.install managed dir mouse daemon written files).1.managed = files.managed ∨
      Keys.foreign files.managed.orEmpty = false := by
  unfold Keys.install write
  split
  · exact .inl rfl
  next hown => exact .inr (Bool.eq_false_of_not_eq_true hown)

theorem unsource_conf (written : Write) (files : Files) : (Keys.unsource written files).1.managed = files.managed ∧
    ((Keys.unsource written files).1.conf = files.conf ∨ (Keys.unsource written files).1.conf =
      (applyFile files.conf files.conf.orEmpty (unlines (kept files.conf.orEmpty ++ [])) written).1) := by
  unfold Keys.unsource
  rcases unmarkConf_eq files.conf.orEmpty with hunmark | hunmark
  · rw [hunmark]
    exact ⟨rfl, .inl rfl⟩
  · rw [hunmark]
    exact ⟨rfl, .inr rfl⟩

theorem uninstall_conf (removed : Bool) (written : Write) (files : Files) :
    (Keys.uninstall removed written files).1.conf = files.conf ∨ (Keys.uninstall removed written files).1.conf =
      (applyFile files.conf files.conf.orEmpty (unlines (kept files.conf.orEmpty ++ [])) written).1 := by
  unfold Keys.uninstall
  split
  · split
    · exact (unsource_conf written files).2
    · split
      · exact (unsource_conf written { files with managed := .absent }).2
      · exact .inl rfl
  · exact (unsource_conf written files).2

theorem uninstall_managed (removed : Bool) (written : Write) (files : Files) :
    (Keys.uninstall removed written files).1.managed = files.managed ∨ Keys.foreign files.managed.orEmpty = false := by
  unfold Keys.uninstall
  split
  next text hmanaged =>
    split
    · exact .inl (unsource_conf written files).1
    next hmarked =>
      refine .inr ?_
      have hbanner : managedMarker <:+: text := by simpa using hmarked
      rw [hmanaged]
      simp [Keys.foreign, Content.orEmpty, hbanner]
  · exact .inl (unsource_conf written files).1

/-- What one command does: to the configuration a write of its own lines, to the managed file something where it is no one
else's. -/
theorem run_cases {managed : Text} (hpath : OneLine managed) (command : Command) (files : Files) :
    ((command.run managed files).1.conf = files.conf ∨
      ∃ own : List Text, (∀ line ∈ own, Own line) ∧ (command.run managed files).1.conf =
        (applyFile files.conf files.conf.orEmpty (unlines (kept files.conf.orEmpty ++ own)) command.confWrite).1) ∧
      ((command.run managed files).1.managed = files.managed ∨ Keys.foreign files.managed.orEmpty = false) := by
  cases command with
  | install dir mouse daemon written =>
    exact ⟨install_conf hpath dir mouse daemon written files, install_managed managed dir mouse daemon written files⟩
  | uninstall removed written =>
    exact ⟨(uninstall_conf removed written files).imp id fun h => ⟨[], fun line hline => absurd hline List.not_mem_nil, h⟩,
      uninstall_managed removed written files⟩

theorem Spared.run {managed : Text} (hpath : OneLine managed) (h : Spared start files) (command : Command) :
    Spared start (command.run managed files).1 := by
  obtain ⟨hconf, hmanaged⟩ := run_cases hpath command files
  constructor
  · rcases hconf with hsame | ⟨own, hown, hwritten⟩
    · rw [hsame]
      exact h.clean
    · rw [hwritten]
      exact clean_applyFile h.clean (clean_rewritten h.clean hown) _
  · intro hforeign
    rcases hmanaged with hsame | hours
    · rw [hsame]
      exact h.foreign hforeign
    · rw [← h.foreign hforeign, hours] at hforeign
      cases hforeign

theorem Untouched.run {managed : Text} (hpath : OneLine managed) (h : Untouched start files) (hclean : Clean files.conf.orEmpty)
    {command : Command} (huntorn : command.confWrite.Untorn) : Untouched start (command.run managed files).1 := by
  rcases (run_cases hpath command files).1 with hsame | ⟨own, hown, hwritten⟩
  · exact ⟨by rw [hsame]; exact h.readable, by rw [hsame]; exact h.lines, by rw [hsame]; exact h.whole⟩
  · have hrewrite := h.rewrite hclean hown huntorn
    exact ⟨by rw [hwritten]; exact hrewrite.readable, by rw [hwritten]; exact hrewrite.lines,
      by rw [hwritten]; exact hrewrite.whole⟩

theorem Spared.runAll {managed : Text} (hpath : OneLine managed) (h : Spared start files) (commands : List Command) :
    Spared start (Keys.runAll managed commands files) := by
  induction commands generalizing files with
  | nil => exact h
  | cons command commands ih => exact ih (h.run hpath command)

theorem Untouched.runAll {managed : Text} (hpath : OneLine managed) (hspared : Spared start files) (h : Untouched start files)
    {commands : List Command} (huntorn : ∀ command ∈ commands, command.confWrite.Untorn) :
    Untouched start (Keys.runAll managed commands files) := by
  induction commands generalizing files with
  | nil => exact h
  | cons command commands ih =>
    exact ih (hspared.run hpath command) (h.run hpath hspared.clean (huntorn command List.mem_cons_self))
      fun other hother => huntorn other (List.mem_cons_of_mem _ hother)

end

/-! ## What a finished command leaves -/

theorem applyFile_done {file : Content} {new : Text} {written : Write}
    (h : (applyFile file file.orEmpty new written).2 = true) :
    (applyFile file file.orEmpty new written).1.orEmpty = new := by
  unfold applyFile at h ⊢
  split
  next heq => exact heq
  next hne =>
    rw [if_neg hne] at h
    cases written with
    | whole => rfl
    | unopened => cases h
    | torn behind within => cases h

/-- A write that is done was whole, or nothing had to be written. -/
theorem applyFile_whole {file : Content} {old new : Text} {written : Write} (h : (applyFile file old new written).2 = true) :
    applyFile file old new .whole = applyFile file old new written := by
  unfold applyFile at h ⊢
  split
  next => rfl
  next hne =>
    rw [if_neg hne] at h
    cases written with
    | whole => rfl
    | unopened => cases h
    | torn behind within => cases h

theorem Content.eq_utf8 {file : Content} {text : Text} (h : file.orEmpty = text) (hne : text ≠ []) : file = .utf8 text := by
  cases file with
  | utf8 held => exact congrArg Content.utf8 h
  | absent => exact absurd h.symm hne
  | unreadable => exact absurd h.symm hne

theorem banner_managed (mouse daemon : Bool) : managedMarker <:+: renderManaged mouse daemon := by
  refine ⟨"# ".toList, ?_, ?_⟩
  rotate_left
  · simp only [renderManaged, banner, List.append_assoc]
    rfl

theorem renderManaged_ne_nil (mouse daemon : Bool) : renderManaged mouse daemon ≠ [] := by
  intro h
  have hmarker := (banner_managed mouse daemon).subset
  rw [h] at hmarker
  exact absurd (hmarker (by decide : 't' ∈ managedMarker)) List.not_mem_nil

/-- The optional groups start differently. -/
theorem groups_apart : mouseGroup.take 3 = "# C".toList ∧ daemonGroup.take 3 = "# E".toList := ⟨rfl, rfl⟩

/-- The groups of a managed file can be told from it. -/
theorem renderManaged_inj {mouse daemon mouse' daemon' : Bool}
    (h : renderManaged mouse daemon = renderManaged mouse' daemon') : mouse = mouse' ∧ daemon = daemon' := by
  obtain ⟨hmouse, hdaemon⟩ := groups_apart
  have hgroups : (if mouse then mouseGroup else []) ++ (if daemon then daemonGroup else []) =
      (if mouse' then mouseGroup else []) ++ (if daemon' then daemonGroup else []) := by
    simp only [renderManaged, List.append_assoc] at h
    exact List.append_cancel_left (List.append_cancel_left h)
  generalize mouseGroup = onClick at hmouse hgroups
  generalize daemonGroup = onStart at hdaemon hgroups
  obtain ⟨clicks, rfl⟩ : ∃ rest, onClick = "# C".toList ++ rest := ⟨_, by rw [← hmouse, List.take_append_drop]⟩
  obtain ⟨starts, rfl⟩ : ∃ rest, onStart = "# E".toList ++ rest := ⟨_, by rw [← hdaemon, List.take_append_drop]⟩
  cases mouse <;> cases daemon <;> cases mouse' <;> cases daemon' <;> simp at hgroups ⊢

theorem groupsOf_render (mouse daemon : Bool) : groupsOf (renderManaged mouse daemon) = some (mouse, daemon) := by
  have hsome : (groupsOf (renderManaged mouse daemon)).isSome = true := by
    rw [groupsOf, List.find?_isSome]
    have hmem : (mouse, daemon) ∈ [(false, false), (false, true), (true, false), (true, true)] := by
      cases mouse <;> cases daemon <;> decide
    exact ⟨(mouse, daemon), hmem, decide_eq_true (Eq.refl (renderManaged mouse daemon))⟩
  obtain ⟨⟨mouse', daemon'⟩, hfound⟩ := Option.isSome_iff_exists.mp hsome
  have hfind := hfound
  rw [groupsOf] at hfind
  have heq := List.find?_some hfind
  rw [decide_eq_true_eq] at heq
  obtain ⟨rfl, rfl⟩ := renderManaged_inj heq
  exact hfound

/-- A file with the groups asked for has not drifted. -/
theorem managedDrift_eq_nil {text : Text} {mouse daemon requireMouse requireDaemon : Bool}
    (h : groupsOf text = some (mouse, daemon)) (hmouse : requireMouse = true → mouse = true)
    (hdaemon : requireDaemon = true → daemon = true) : managedDrift requireMouse requireDaemon (.utf8 text) = [] := by
  simp only [managedDrift, h]
  cases requireMouse <;> cases requireDaemon <;> simp_all

/-- What a finished install leaves. -/
structure Installed (managed : Text) (dir : ConfigDir) (mouse daemon : Bool) (files : Files) : Prop where
  file : files.managed = .utf8 (renderManaged mouse daemon)
  line : marked files.conf.orEmpty = [sourceLine managed dir]
  ended : files.conf.orEmpty.getLast? = some '\n'

section

variable {managed : Text} {dir : ConfigDir} {mouse daemon : Bool} {files : Files}

theorem marked_append (h : Clean files.conf.orEmpty) {own : List Text} (hown : ∀ line ∈ own, Own line) :
    marked (unlines (kept files.conf.orEmpty ++ own)) = own := by
  have hlines := lines_unlines_nil (plain_rewritten h hown)
  have hnone : (kept files.conf.orEmpty).filter isKeysSourceLine = [] := by
    rw [List.filter_eq_nil_iff]
    intro line hline
    simpa using (List.mem_filter.mp hline).2
  rw [marked, hlines, List.filter_append, hnone, List.nil_append, List.filter_eq_self]
  exact fun line hline => (hown line hline).2

theorem install_done (hpath : OneLine managed) (hclean : Clean files.conf.orEmpty) {written : Write × Write}
    (h : (install managed dir mouse daemon written files).2 = true) :
    Installed managed dir mouse daemon (install managed dir mouse daemon written files).1 := by
  unfold install write at h ⊢
  split at h
  · cases h
  next hown =>
    rw [if_neg hown]
    dsimp only at h ⊢
    split at h
    · cases h
    next hdone =>
      rw [if_neg hdone]
      have hmanaged := Content.eq_utf8 (applyFile_done (by simpa using hdone)) (renderManaged_ne_nil mouse daemon)
      by_cases hsame : marked files.conf.orEmpty = [sourceLine managed dir] ∧ files.conf.orEmpty.getLast? = some '\n'
      · have hnone : markConf files.conf.orEmpty (sourceLine managed dir) = none := if_pos hsame
        rw [hnone]
        exact ⟨hmanaged, hsame.1, hsame.2⟩
      · have hsome : markConf files.conf.orEmpty (sourceLine managed dir) =
            some (unlines (kept files.conf.orEmpty) ++ (sourceLine managed dir ++ ['\n'])) := if_neg hsame
        have hnew : unlines (kept files.conf.orEmpty) ++ (sourceLine managed dir ++ ['\n']) =
            unlines (kept files.conf.orEmpty ++ [sourceLine managed dir]) := by simp [unlines]
        rw [hsome] at h ⊢
        have hconf := applyFile_done h
        refine ⟨hmanaged, ?_, ?_⟩
        · rw [hconf, hnew]
          refine marked_append hclean fun line hline => ?_
          rw [List.mem_singleton.mp hline]
          exact sourceLine_marked hpath dir
        · rw [hconf, ← List.append_assoc]
          exact List.getLast?_concat

/-- It is what the check asks for. -/
theorem Installed.drift (h : Installed managed dir mouse daemon files) {requireMouse requireDaemon : Bool}
    (hmouse : requireMouse = true → mouse = true) (hdaemon : requireDaemon = true → daemon = true) :
    drift managed dir requireMouse requireDaemon files = [] := by
  rw [Keys.drift, h.file, managedDrift_eq_nil (groupsOf_render mouse daemon) hmouse hdaemon, confDrift, h.line]
  exact if_pos rfl

theorem write_again {new want : Text} {conf : Content} (hown : foreign new = false) (hconf : markConf conf.orEmpty want = none)
    (written : Write × Write) :
    write new want written { managed := .utf8 new, conf } = ({ managed := .utf8 new, conf }, true) := by
  simp only [write, Content.orEmpty_utf8, hown, applyFile, if_true, Bool.not_true, Bool.false_eq_true, if_false, hconf]

/-- Another install finds nothing to write. -/
theorem Installed.again (h : Installed managed dir mouse daemon files) (written : Write × Write) :
    install managed dir mouse daemon written files = (files, true) := by
  obtain ⟨file, conf⟩ := files
  obtain ⟨rfl, hline, hended⟩ := h
  have hown : foreign (renderManaged mouse daemon) = false := by
    rw [foreign, decide_eq_true (banner_managed mouse daemon), Bool.not_true, Bool.and_false]
  exact write_again hown (if_pos ⟨hline, hended⟩) written

/-- What a finished uninstall leaves: no line of tma's, and no file. -/
structure Uninstalled (files : Files) : Prop where
  line : marked files.conf.orEmpty = []
  file : ∀ text, files.managed = .utf8 text → ¬ managedMarker <:+: text

theorem unsource_done (hclean : Clean files.conf.orEmpty) {written : Write} (h : (unsource written files).2 = true) :
    marked (unsource written files).1.conf.orEmpty = [] ∧ (unsource written files).1.managed = files.managed := by
  unfold unsource at h ⊢
  by_cases hany : (lines files.conf.orEmpty).any isKeysSourceLine = true
  · have hsome : unmarkConf files.conf.orEmpty = some (unlines (kept files.conf.orEmpty ++ [])) := by
      rw [List.append_nil]
      exact if_pos hany
    rw [hsome] at h ⊢
    have hconf := applyFile_done h
    refine ⟨?_, rfl⟩
    rw [hconf]
    exact marked_append hclean fun line hline => absurd hline List.not_mem_nil
  · have hnone : unmarkConf files.conf.orEmpty = none := if_neg hany
    rw [hnone]
    refine ⟨List.filter_eq_nil_iff.mpr fun line hline hmarked => hany ?_, rfl⟩
    exact List.any_eq_true.mpr ⟨line, hline, hmarked⟩

theorem unsource_whole {written : Write} (h : (unsource written files).2 = true) :
    unsource .whole files = unsource written files := by
  unfold unsource at h ⊢
  split
  next => rfl
  next new hunmark =>
    rw [hunmark] at h
    dsimp only
    rw [applyFile_whole h]

theorem uninstall_whole {removed : Bool} {written : Write} (h : (uninstall removed written files).2 = true) :
    uninstall removed .whole files = uninstall removed written files := by
  obtain ⟨file, conf⟩ := files
  unfold uninstall at h ⊢
  cases file with
  | absent => exact unsource_whole h
  | unreadable => exact unsource_whole h
  | utf8 text =>
    dsimp only at h ⊢
    split at h
    next hforeign =>
      rw [if_pos hforeign, if_pos hforeign]
      exact unsource_whole h
    next hours =>
      rw [if_neg hours, if_neg hours]
      split at h
      next hremoved =>
        rw [if_pos hremoved, if_pos hremoved]
        exact unsource_whole h
      · cases h

theorem uninstall_done (hclean : Clean files.conf.orEmpty) {removed : Bool} {written : Write}
    (h : (uninstall removed written files).2 = true) : Uninstalled (uninstall removed written files).1 := by
  obtain ⟨file, conf⟩ := files
  unfold uninstall at h ⊢
  cases file with
  | absent =>
    obtain ⟨hline, hfile⟩ := unsource_done hclean h
    exact ⟨hline, fun text htext => by rw [hfile] at htext; cases htext⟩
  | unreadable =>
    obtain ⟨hline, hfile⟩ := unsource_done hclean h
    exact ⟨hline, fun text htext => by rw [hfile] at htext; cases htext⟩
  | utf8 text =>
    dsimp only at h ⊢
    split at h
    next hbanner =>
      rw [if_pos hbanner]
      obtain ⟨hline, hfile⟩ := unsource_done hclean h
      refine ⟨hline, fun text' htext => ?_⟩
      rw [hfile] at htext
      cases htext
      simpa using hbanner
    next hbanner =>
      rw [if_neg hbanner]
      split at h
      next hremoved =>
        rw [if_pos hremoved]
        obtain ⟨hline, hfile⟩ := @unsource_done { managed := .absent, conf } hclean written h
        exact ⟨hline, fun text' htext => by rw [hfile] at htext; cases htext⟩
      · cases h

end

/-! ## Runs -/

/-- **The installer keeps to its line.** Whatever has been installed and uninstalled, and declined or failed: another's file
at the managed path is as it was; a finished install is one the check finds nothing missing from, and doing it again writes
nothing; a finished uninstall leaves no line and no file of tma's. As long as no write of the configuration was torn, the
user's lines are as they were, and once it is uninstalled, a configuration that had whole lines and none marked is byte for
byte what it was. -/
theorem keys_runs {managed : Text} (hpath : OneLine managed) {start : Files} (hread : start.conf ≠ .unreadable)
    (hclean : Clean start.conf.orEmpty) (commands : List Command) {files : Files}
    (hrun : runAll managed commands start = files) :
    (foreign start.managed.orEmpty = true → files.managed = start.managed) ∧
      (∀ dir mouse daemon written, (install managed dir mouse daemon written files).2 = true →
        (∀ requireMouse requireDaemon, (requireMouse = true → mouse = true) → (requireDaemon = true → daemon = true) →
          drift managed dir requireMouse requireDaemon (install managed dir mouse daemon written files).1 = []) ∧
        ∀ written', install managed dir mouse daemon written' (install managed dir mouse daemon written files).1 =
          ((install managed dir mouse daemon written files).1, true)) ∧
      (∀ removed written, (uninstall removed written files).2 = true → Uninstalled (uninstall removed written files).1) ∧
      ((∀ command ∈ commands, command.confWrite.Untorn) →
        files.conf ≠ .unreadable ∧ kept files.conf.orEmpty = kept start.conf.orEmpty ∧
          ∀ removed written, (uninstall removed written files).2 = true →
            start.conf.orEmpty = unlines (lines start.conf.orEmpty) → marked start.conf.orEmpty = [] →
              (uninstall removed written files).1.conf.orEmpty = start.conf.orEmpty) := by
  have hfresh : Spared start start := ⟨hclean, fun _ => rfl⟩
  have hspared : Spared start files := by
    rw [← hrun]
    exact hfresh.runAll hpath commands
  refine ⟨hspared.foreign, ?_, fun removed written hdone => uninstall_done hspared.clean hdone, fun huntorn => ?_⟩
  · intro dir mouse daemon written hdone
    have hinstalled := install_done hpath hspared.clean hdone
    exact ⟨fun _ _ hmouse hdaemon => hinstalled.drift hmouse hdaemon, hinstalled.again⟩
  · have huntouched : Untouched start files := by
      rw [← hrun]
      exact Untouched.runAll hpath hfresh ⟨hread, rfl, id⟩ huntorn
    refine ⟨huntouched.readable, huntouched.lines, fun removed written hdone hwhole hnone => ?_⟩
    have huninstalled := uninstall_done hspared.clean hdone
    have hafter : Untouched start (uninstall removed written files).1 := by
      rw [← uninstall_whole hdone]
      exact @Untouched.run _ _ _ hpath huntouched hspared.clean (.uninstall removed .whole) fun _ _ => Write.noConfusion
    have hall : ∀ {text : Text}, marked text = [] → kept text = lines text := by
      intro text hmarked
      rw [kept, List.filter_eq_self]
      intro line hline
      simpa using List.filter_eq_nil_iff.mp hmarked line hline
    calc (uninstall removed written files).1.conf.orEmpty
        = unlines (lines (uninstall removed written files).1.conf.orEmpty) := hafter.whole hwhole
      _ = unlines (kept (uninstall removed written files).1.conf.orEmpty) := by rw [hall huninstalled.line]
      _ = unlines (kept start.conf.orEmpty) := by rw [hafter.lines]
      _ = start.conf.orEmpty := by rw [hall hnone, ← hwhole]

def mouseConf : Files where
  managed := .absent
  conf := .utf8 "set -g mouse on\n".toList

/-- An uninstall that nothing keeps from it finishes. -/
theorem uninstall_accepted (files : Files) : (uninstall true .whole files).2 = true := by
  have hwrite : ∀ (file : Content) (old new : Text), (applyFile file old new .whole).2 = true := by
    intro file old new
    unfold applyFile
    split <;> rfl
  have hunsource : ∀ files, (unsource .whole files).2 = true := by
    intro files
    unfold unsource
    split
    · rfl
    · exact hwrite _ _ _
  unfold uninstall
  split
  · split
    · exact hunsource files
    · exact hunsource _
  · exact hunsource files

/-- An install, one whose managed file is torn, and an uninstall. -/
theorem keys_runs_mouse :
    (uninstall true .whole (runAll "/x/tmux.conf".toList
      [.install .pinned true false (.whole, .whole), .install .default true true (.torn 4 false, .whole)] mouseConf)).1.conf.orEmpty =
      "set -g mouse on\n".toList := by
  have hpath : OneLine "/x/tmux.conf".toList := ⟨by decide, by decide⟩
  have hclean : Clean mouseConf.conf.orEmpty := by
    unfold Clean
    decide
  refine ((keys_runs hpath Content.noConfusion hclean
    [.install .pinned true false (.whole, .whole), .install .default true true (.torn 4 false, .whole)] rfl).2.2.2 ?_).2.2
    true .whole (uninstall_accepted _) (by decide) (by decide)
  intro command hcommand
  simp only [List.mem_cons, List.not_mem_nil, or_false] at hcommand
  rcases hcommand with rfl | rfl
  · exact fun _ _ => Write.noConfusion
  · exact fun _ _ => Write.noConfusion

end TmuxAgents.Install.Keys
