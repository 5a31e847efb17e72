/-
Terminal multiplexer formats (`#{..}`) and the options they set.

A format is expanded against the options as they are when the command runs, so a
later command of a chain reads what the earlier ones wrote. `guarded` wraps the
commands of a chain in one condition. The chain holds where the condition is true
at its start (`run_guarded_of_test`), and commits step by step as long as no write
of its own makes the condition true (`run_guarded_cons`).

What a numeric comparison does is a parameter (`Numbers`); it compares integers
(`Numbers.Lawful`).
-/
import Mathlib.Logic.Function.Basic
import TmuxAgents.Lib.Text

/-- A format over options named by `κ`. -/
inductive Format (κ : Type*)
  | literal (text : Text)
  | option (key : κ)
  /-- `#{?cond,yes,no}`. -/
  | choose (cond yes no : Format κ)
  /-- `#{==:a,b}`. -/
  | equal (a b : Format κ)
  /-- `#{&&:a,b}`. -/
  | both (a b : Format κ)
  /-- `#{e|<=:a,b}`. -/
  | numLe (a b : Format κ)
  /-- `#{e|<:a,b}`. -/
  | numLt (a b : Format κ)

namespace Format

variable {κ : Type*}

/-! ## Numbers -/

/-- The numeric comparisons, of two texts. -/
structure Numbers where
  le : Text → Text → Bool
  lt : Text → Text → Bool

/-- The machine integer a text reads as. The empty text reads as zero. -/
def number (text : Text) : Option Nat := if text.isEmpty then some 0 else Text.parseUnsigned (2 ^ 64) text

@[simp] theorem number_nil : number [] = some 0 := rfl

theorem number_decimal {n : Nat} (h : n < 2 ^ 64) : number (Text.decimal n) = some n := by
  have hne : (Text.decimal n).isEmpty = false := by simp
  rw [number, hne, if_neg Bool.false_ne_true, Text.parseUnsigned_decimal h]

theorem number_lt {text : Text} {n : Nat} (h : number text = some n) : n < 2 ^ 64 := by
  simp only [number] at h
  split at h
  · rw [← Option.some.inj h]
    decide
  · exact Text.parseUnsigned_lt h

/-- Integers are compared as integers. -/
structure Numbers.Lawful (numbers : Numbers) : Prop where
  le_eq : ∀ {a b : Text} {m n : Nat}, number a = some m → number b = some n → numbers.le a b = decide (m ≤ n)
  lt_eq : ∀ {a b : Text} {m n : Nat}, number a = some m → number b = some n → numbers.lt a b = decide (m < n)

/-- Comparisons that are false where an operand is no integer. -/
def Numbers.integers : Numbers where
  le a b := ((number a).bind fun m => (number b).map fun n => decide (m ≤ n)).getD false
  lt a b := ((number a).bind fun m => (number b).map fun n => decide (m < n)).getD false

theorem Numbers.integers_lawful : Numbers.integers.Lawful where
  le_eq := by
    intro a b m n ha hb
    simp only [integers, ha, hb, Option.bind_some, Option.map_some, Option.getD_some]
  lt_eq := by
    intro a b m n ha hb
    simp only [integers, ha, hb, Option.bind_some, Option.map_some, Option.getD_some]

/-! ## Expansion -/

/-- `#`, then the head and the comma-separated operands in braces. -/
def braced (head : String) (operands : List Text) : Text :=
  '#' :: '\x7b' :: head.toList ++ List.intercalate [','] operands ++ ['\x7d']

/-- The format's text. -/
def render (name : κ → Text) : Format κ → Text
  | .literal text => text
  | .option key => braced "" [name key]
  | .choose cond yes no => braced "?" [cond.render name, yes.render name, no.render name]
  | .equal a b => braced "==:" [a.render name, b.render name]
  | .both a b => braced "&&:" [a.render name, b.render name]
  | .numLe a b => braced "e|<=:" [a.render name, b.render name]
  | .numLt a b => braced "e|<:" [a.render name, b.render name]

/-- Neither empty nor `0`. -/
def truthy (text : Text) : Bool := !text.isEmpty && text != ['0']

/-- `1` or `0`. -/
def flag (b : Bool) : Text := if b then ['1'] else ['0']

@[simp] theorem truthy_flag (b : Bool) : truthy (flag b) = b := by cases b <;> rfl

section Expansion

variable (numbers : Numbers)

/-- What the format is under these option values. An option's text is not expanded again. -/
def expand (env : κ → Text) : Format κ → Text
  | .literal text => text
  | .option key => env key
  | .choose cond yes no => if truthy (cond.expand env) then yes.expand env else no.expand env
  | .equal a b => flag (a.expand env = b.expand env)
  | .both a b => flag (truthy (a.expand env) && truthy (b.expand env))
  | .numLe a b => flag (numbers.le (a.expand env) (b.expand env))
  | .numLt a b => flag (numbers.lt (a.expand env) (b.expand env))

/-- The format as a condition. -/
def test (env : κ → Text) (f : Format κ) : Bool := truthy (f.expand numbers env)

end Expansion

/-- The options a format reads. -/
def reads : Format κ → List κ
  | .literal _ => []
  | .option key => [key]
  | .choose cond yes no => cond.reads ++ yes.reads ++ no.reads
  | .equal a b | .both a b | .numLe a b | .numLt a b => a.reads ++ b.reads

/-- A text that is its own expansion: it opens, closes and splits nothing. -/
def plain (text : Text) : Bool := text.all fun c => !(['#', '\x7b', '\x7d', ','].contains c)

/-- Every literal is plain, so that the format's text parses back as the format. -/
def Plain : Format κ → Prop
  | .literal text => plain text = true
  | .option _ => True
  | .choose cond yes no => cond.Plain ∧ yes.Plain ∧ no.Plain
  | .equal a b | .both a b | .numLe a b | .numLt a b => a.Plain ∧ b.Plain

variable {numbers : Numbers}

/-- A format sees only what it reads. -/
theorem expand_congr {env env' : κ → Text} {f : Format κ} (h : ∀ key ∈ f.reads, env key = env' key) :
    f.expand numbers env = f.expand numbers env' := by
  induction f with
  | literal text => rfl
  | option key => exact h key (by simp [reads])
  | choose cond yes no ihc ihy ihn =>
    simp only [reads, List.mem_append] at h
    simp only [expand, ihc fun k hk => h k (.inl (.inl hk)), ihy fun k hk => h k (.inl (.inr hk)),
      ihn fun k hk => h k (.inr hk)]
  | equal a b iha ihb | both a b iha ihb | numLe a b iha ihb | numLt a b iha ihb =>
    simp only [reads, List.mem_append] at h
    simp only [expand, iha fun k hk => h k (.inl hk), ihb fun k hk => h k (.inr hk)]

/-! ## Chains of writes -/

variable [DecidableEq κ]

/-- The option values after the writes, each expanded when its turn comes. -/
def run (numbers : Numbers) (writes : List (κ × Format κ)) (env : κ → Text) : κ → Text :=
  writes.foldl (fun env write => Function.update env write.1 (write.2.expand numbers env)) env

/-- The writes under one condition: where it is true a write keeps what is stored. -/
def guarded (suppress : Format κ) (writes : List (κ × Format κ)) : List (κ × Format κ) :=
  writes.map fun write => (write.1, .choose suppress (.option write.1) write.2)

omit [DecidableEq κ] in
theorem guarded_plain {suppress : Format κ} {writes : List (κ × Format κ)} (h : suppress.Plain)
    (hwrites : ∀ write ∈ writes, write.2.Plain) : ∀ write ∈ guarded suppress writes, write.2.Plain := by
  intro write hw
  obtain ⟨bare, hbare, rfl⟩ := List.mem_map.mp hw
  exact ⟨h, trivial, hwrites bare hbare⟩

section Chains

variable {write : κ × Format κ} {writes : List (κ × Format κ)} {suppress : Format κ} {env : κ → Text} {key : κ}

@[simp] theorem run_nil : run numbers [] env = env := rfl

theorem run_cons : run numbers (write :: writes) env =
    run numbers writes (Function.update env write.1 (write.2.expand numbers env)) := rfl

theorem run_append (before after : List (κ × Format κ)) :
    run numbers (before ++ after) env = run numbers after (run numbers before env) := by
  simp only [run, List.foldl_append]

/-- An option no write names keeps its value. -/
theorem run_of_not_mem (h : key ∉ writes.map Prod.fst) : run numbers writes env key = env key := by
  induction writes generalizing env with
  | nil => rfl
  | cons write writes ih =>
    rw [List.map_cons, List.mem_cons, not_or] at h
    rw [run_cons, ih h.2, Function.update_of_ne h.1]

/-- A condition is not changed by a write of what it does not read. -/
theorem test_update {value : Text} (h : key ∉ suppress.reads) :
    suppress.test numbers (Function.update env key value) = suppress.test numbers env := by
  have hsame : suppress.expand numbers (Function.update env key value) = suppress.expand numbers env :=
    expand_congr fun k hk => Function.update_of_ne (fun he : k = key => h (he ▸ hk)) _ _
  rw [test, hsame, test]

/-- A condition is not changed by writes of what it does not read. -/
theorem test_run (h : ∀ write ∈ writes, write.1 ∉ suppress.reads) :
    suppress.test numbers (run numbers writes env) = suppress.test numbers env := by
  induction writes generalizing env with
  | nil => rfl
  | cons write writes ih =>
    rw [run_cons, ih fun w hw => h w (List.mem_cons_of_mem _ hw), test_update (h write List.mem_cons_self)]

/-- **Writes that read nothing written before them are simultaneous.** -/
theorem run_apply (hpair : writes.Pairwise fun a b => a.1 ≠ b.1 ∧ a.1 ∉ b.2.reads) (hmem : write ∈ writes) :
    run numbers writes env write.1 = write.2.expand numbers env := by
  induction writes generalizing env with
  | nil => cases hmem
  | cons first writes ih =>
    obtain ⟨hfirst, hrest⟩ := List.pairwise_cons.mp hpair
    rw [run_cons]
    rcases List.mem_cons.mp hmem with rfl | hmem
    · have hout : write.1 ∉ writes.map Prod.fst := by
        intro hin
        obtain ⟨other, hother, heq⟩ := List.mem_map.mp hin
        exact (hfirst other hother).1 heq.symm
      rw [run_of_not_mem hout, Function.update_self]
    · rw [ih hrest hmem]
      refine expand_congr fun key hkey => Function.update_of_ne ?_ _ _
      rintro rfl
      exact (hfirst write hmem).2 hkey

/-- **A suppressed chain holds.** The first write keeps what is stored, and so leaves the
condition true for the next. -/
theorem run_guarded_of_test (h : suppress.test numbers env = true) :
    run numbers (guarded suppress writes) env = env := by
  induction writes with
  | nil => rfl
  | cons write writes ih =>
    have hkeep : Function.update env write.1
        ((Format.choose suppress (.option write.1) write.2).expand numbers env) = env := by
      have hcond : truthy (suppress.expand numbers env) = true := h
      rw [expand, if_pos hcond, expand, Function.update_eq_self]
    rw [guarded, List.map_cons, run_cons, hkeep]
    exact ih

/-- A write goes through where the condition is false, and the rest is guarded anew. -/
theorem run_guarded_cons (h : suppress.test numbers env = false) :
    run numbers (guarded suppress (write :: writes)) env =
      run numbers (guarded suppress writes) (Function.update env write.1 (write.2.expand numbers env)) := by
  have hwrite : (Format.choose suppress (.option write.1) write.2).expand numbers env = write.2.expand numbers env := by
    have hcond : truthy (suppress.expand numbers env) = false := h
    rw [expand, hcond, if_neg Bool.false_ne_true]
  rw [guarded, List.map_cons, run_cons, hwrite, guarded]

/-- Writes of what the condition does not read go through together. -/
theorem run_guarded_append (h : suppress.test numbers env = false)
    (hreads : ∀ write ∈ writes, write.1 ∉ suppress.reads) (after : List (κ × Format κ)) :
    run numbers (guarded suppress (writes ++ after)) env =
      run numbers (guarded suppress after) (run numbers writes env) := by
  induction writes generalizing env with
  | nil => rfl
  | cons write writes ih =>
    rw [List.cons_append, run_guarded_cons h, run_cons]
    refine ih ?_ fun w hw => hreads w (List.mem_cons_of_mem _ hw)
    rw [test_update (hreads write List.mem_cons_self)]
    exact h

/-- A chain that writes nothing its condition reads. -/
theorem run_guarded_of_unread (h : suppress.test numbers env = false)
    (hreads : ∀ write ∈ writes, write.1 ∉ suppress.reads) :
    run numbers (guarded suppress writes) env = run numbers writes env := by
  have hchain := run_guarded_append h hreads []
  rw [List.append_nil] at hchain
  exact hchain

/-- **A chain whose condition is false before every write goes through.** -/
theorem run_guarded_of_prefixes
    (h : ∀ k < writes.length, suppress.test numbers (run numbers (guarded suppress (writes.take k)) env) = false) :
    run numbers (guarded suppress writes) env = run numbers writes env := by
  induction writes generalizing env with
  | nil => rfl
  | cons write writes ih =>
    have hstart : suppress.test numbers env = false := h 0 (Nat.zero_lt_succ _)
    rw [run_guarded_cons hstart, run_cons]
    refine ih fun k hk => ?_
    have hnext := h (k + 1) (Nat.succ_lt_succ hk)
    rw [List.take_succ_cons, run_guarded_cons hstart] at hnext
    exact hnext

/-- A value no write names or reads is left beside them. -/
theorem run_update {value : Text} (h : ∀ write ∈ writes, write.1 ≠ key ∧ key ∉ write.2.reads) :
    run numbers writes (Function.update env key value) = Function.update (run numbers writes env) key value := by
  induction writes generalizing env with
  | nil => rfl
  | cons write writes ih =>
    obtain ⟨hne, hreads⟩ := h write List.mem_cons_self
    have hsame : write.2.expand numbers (Function.update env key value) = write.2.expand numbers env :=
      expand_congr fun k hk => Function.update_of_ne (fun he : k = key => hreads (he ▸ hk)) _ _
    rw [run_cons, hsame, Function.update_comm hne.symm, ih fun w hw => h w (List.mem_cons_of_mem _ hw), run_cons]

end Chains

end Format
