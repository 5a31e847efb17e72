/-
Programs that call on their surroundings: a call, and what to do with its answer.

Nothing is assumed of the answers. What holds of every run (`Always`) therefore holds whatever
the surroundings do between two calls.
-/
import Mathlib.Algebra.Order.Ring.Nat
import Mathlib.Data.List.Basic
import Mathlib.Data.List.TakeWhile

namespace Interaction

variable {Call : Type} {Answer : Call → Type} {α β : Type}

/-- A program: its result, or a call and how it goes on. -/
inductive Program (Answer : Call → Type) (α : Type)
  | done (result : α)
  | ask (call : Call) (next : Answer call → Program Answer α)

/-- A call and what answered it. -/
structure Exchange (Answer : Call → Type) where
  call : Call
  answer : Answer call

def Program.bind : Program Answer α → (α → Program Answer β) → Program Answer β
  | .done result, f => f result
  | .ask call next, f => .ask call fun answer => (next answer).bind f

/-- What a program exchanges on its way to a result. -/
inductive Runs : Program Answer α → List (Exchange Answer) → α → Prop
  | done (result : α) : Runs (.done result) [] result
  | ask {call : Call} {next : Answer call → Program Answer α} {trace : List (Exchange Answer)} {result : α}
      (answer : Answer call) (rest : Runs (next answer) trace result) :
      Runs (.ask call next) (⟨call, answer⟩ :: trace) result

/-- It holds of every run. -/
def Always (program : Program Answer α) (Q : List (Exchange Answer) → α → Prop) : Prop :=
  ∀ trace result, Runs program trace result → Q trace result

variable {Q : List (Exchange Answer) → α → Prop}

theorem always_done {result : α} : Always (.done result : Program Answer α) Q ↔ Q [] result := by
  constructor
  · intro h
    exact h [] result (.done result)
  · intro h trace result' hrun
    cases hrun
    exact h

theorem always_ask {call : Call} {next : Answer call → Program Answer α} :
    Always (.ask call next) Q ↔ ∀ answer, Always (next answer) fun trace => Q (⟨call, answer⟩ :: trace) := by
  constructor
  · intro h answer trace result hrun
    exact h _ _ (.ask answer hrun)
  · intro h trace result hrun
    cases hrun with
    | ask answer hrest => exact h answer _ _ hrest

theorem Always.mono {program : Program Answer α} {P : List (Exchange Answer) → α → Prop} (h : Always program P)
    (himp : ∀ trace result, P trace result → Q trace result) : Always program Q := by
  intro trace result hrun
  exact himp _ _ (h _ _ hrun)

theorem Always.and {program : Program Answer α} {P : List (Exchange Answer) → α → Prop} (h : Always program P)
    (h' : Always program Q) : Always program fun trace result => P trace result ∧ Q trace result := by
  intro trace result hrun
  exact ⟨h _ _ hrun, h' _ _ hrun⟩

theorem runs_bind {program : Program Answer α} {f : α → Program Answer β} {trace : List (Exchange Answer)} {result : β} :
    Runs (program.bind f) trace result ↔
      ∃ before value after, trace = before ++ after ∧ Runs program before value ∧ Runs (f value) after result := by
  induction program generalizing trace with
  | done value =>
    constructor
    · intro hrun
      exact ⟨[], value, trace, rfl, .done value, hrun⟩
    · intro h
      obtain ⟨before, value', after, rfl, hfirst, hrest⟩ := h
      cases hfirst
      exact hrest
  | ask call next ih =>
    constructor
    · intro hrun
      cases hrun with
      | ask answer hrest =>
        obtain ⟨before, value, after, rfl, hfirst, hrest⟩ := (ih answer).mp hrest
        exact ⟨⟨call, answer⟩ :: before, value, after, rfl, .ask answer hfirst, hrest⟩
    · intro h
      obtain ⟨before, value, after, rfl, hfirst, hrest⟩ := h
      cases hfirst with
      | ask answer hfirst => exact .ask answer ((ih answer).mpr ⟨_, value, after, rfl, hfirst, hrest⟩)

/-- One program after another. -/
theorem Always.bind {program : Program Answer α} {f : α → Program Answer β} {P : List (Exchange Answer) → α → Prop}
    {R : List (Exchange Answer) → β → Prop} (h : Always program P)
    (hf : ∀ before value, P before value → Always (f value) fun after => R (before ++ after)) :
    Always (program.bind f) R := by
  intro trace result hrun
  obtain ⟨before, value, after, rfl, hfirst, hrest⟩ := runs_bind.mp hrun
  exact hf before value (h _ _ hfirst) _ _ hrest

/-! ## One run -/

/-- It holds of some run. -/
def Sometimes (program : Program Answer α) (Q : List (Exchange Answer) → α → Prop) : Prop :=
  ∃ trace result, Runs program trace result ∧ Q trace result

theorem sometimes_done {result : α} (h : Q [] result) : Sometimes (.done result : Program Answer α) Q :=
  ⟨[], result, .done result, h⟩

theorem sometimes_ask {call : Call} {next : Answer call → Program Answer α} (answer : Answer call)
    (h : Sometimes (next answer) fun trace => Q (⟨call, answer⟩ :: trace)) : Sometimes (.ask call next) Q := by
  obtain ⟨trace, result, hrun, hQ⟩ := h
  exact ⟨_, result, .ask answer hrun, hQ⟩

/-! ## Between two marks -/

section Between

variable {ε : Type} (mark : ε → Bool)

/-- A mark of a trace, with what comes before it and what comes after, up to the next mark. -/
structure Between (trace before : List ε) (e : ε) (during after : List ε) : Prop where
  split : trace = before ++ e :: (during ++ after)
  marked : mark e = true
  within : ∀ x ∈ during, mark x = false
  ends : after = [] ∨ ∃ next rest, after = next :: rest ∧ mark next = true

variable {mark}

theorem not_between_nil {before during after : List ε} {e : ε} : ¬ Between mark [] before e during after := by
  intro h
  have hlength := congrArg List.length h.split
  simp at hlength

/-- A mark comes after an unmarked beginning. -/
theorem past_quiet {quiet rest front back : List ε} {e : ε} (h : quiet ++ rest = front ++ e :: back)
    (hquiet : ∀ x ∈ quiet, mark x = false) (he : mark e = true) :
    ∃ front', front = quiet ++ front' ∧ rest = front' ++ e :: back := by
  rcases List.append_eq_append_iff.mp h with ⟨front', rfl, hrest⟩ | ⟨quiet', rfl, hmark⟩
  · exact ⟨front', rfl, hrest⟩
  · cases quiet' with
    | nil => exact ⟨[], by simp, hmark.symm⟩
    | cons x quiet' =>
      rw [List.cons_append, List.cons.injEq] at hmark
      obtain ⟨rfl, -⟩ := hmark
      have hfalse := hquiet e (List.mem_append_right _ List.mem_cons_self)
      rw [he] at hfalse
      cases hfalse

theorem Between.of_append {quiet rest before during after : List ε} {e : ε}
    (h : Between mark (quiet ++ rest) before e during after) (hquiet : ∀ x ∈ quiet, mark x = false) :
    ∃ before', before = quiet ++ before' ∧ Between mark rest before' e during after := by
  obtain ⟨before', rfl, hrest⟩ := past_quiet h.split hquiet h.marked
  exact ⟨before', rfl, hrest, h.marked, h.within, h.ends⟩

theorem Between.prepend {trace before during after : List ε} {e : ε} (h : Between mark trace before e during after)
    (front : List ε) : Between mark (front ++ trace) (front ++ before) e during after :=
  ⟨by rw [h.split, List.append_assoc], h.marked, h.within, h.ends⟩

/-- A trace that begins with a mark: it is that one, or it comes after. -/
theorem Between.of_cons {first e : ε} {quiet rest before during after : List ε}
    (h : Between mark (first :: (quiet ++ rest)) before e during after) (hquiet : ∀ x ∈ quiet, mark x = false)
    (hrest : rest = [] ∨ ∃ next rest', rest = next :: rest' ∧ mark next = true) :
    (before = [] ∧ e = first ∧ during = quiet ∧ after = rest) ∨
      ∃ before', before = first :: (quiet ++ before') ∧ Between mark rest before' e during after := by
  cases before with
  | nil =>
    have hsplit := h.split
    rw [List.nil_append, List.cons.injEq] at hsplit
    obtain ⟨rfl, hsplit⟩ := hsplit
    have hbegin {d a : List ε} (hd : ∀ x ∈ d, mark x = false)
        (ha : a = [] ∨ ∃ next rest', a = next :: rest' ∧ mark next = true) :
        (d ++ a).takeWhile (fun x => !mark x) = d := by
      rw [List.takeWhile_append_of_pos (fun x hx => by rw [hd x hx]; rfl)]
      rcases ha with rfl | ⟨next, rest', rfl, hnext⟩
      · exact List.append_nil d
      · rw [List.takeWhile_cons_of_neg (by rw [hnext]; decide), List.append_nil]
    have hduring : during = quiet := by
      rw [← hbegin h.within h.ends, ← hsplit, hbegin hquiet hrest]
    subst hduring
    exact .inl ⟨rfl, rfl, rfl, (List.append_cancel_left hsplit).symm⟩
  | cons x before =>
    have hsplit := h.split
    rw [List.cons_append, List.cons.injEq] at hsplit
    obtain ⟨rfl, hsplit⟩ := hsplit
    have hlater : Between mark (quiet ++ rest) before e during after := ⟨hsplit, h.marked, h.within, h.ends⟩
    obtain ⟨before', rfl, hbetween⟩ := hlater.of_append hquiet
    exact .inr ⟨before', rfl, hbetween⟩

/-- More of a trace after a mark that begins with one. -/
theorem Between.append {trace before during after : List ε} {e next : ε}
    (h : Between mark trace before e during after) (hnext : mark next = true) (rest : List ε) :
    Between mark (trace ++ next :: rest) before e during (after ++ next :: rest) := by
  refine ⟨?_, h.marked, h.within, .inr ?_⟩
  · rw [h.split]
    simp only [List.append_assoc, List.cons_append]
  · rcases h.ends with rfl | ⟨next', rest', rfl, hnext'⟩
    · exact ⟨next, rest, rfl, hnext⟩
    · exact ⟨next', rest' ++ next :: rest, rfl, hnext'⟩

/-- A trace has one mark at most where it has none before and none after it. -/
theorem sole_mark {front back front' back' : List ε} {e e' : ε} (h : front ++ e :: back = front' ++ e' :: back')
    (hfront : ∀ x ∈ front, mark x = false) (hback : ∀ x ∈ back, mark x = false) (he' : mark e' = true) :
    front = front' ∧ e = e' ∧ back = back' := by
  rcases List.append_eq_append_iff.mp h with ⟨mid, rfl, hmid⟩ | ⟨mid, rfl, hmid⟩
  · cases mid with
    | nil =>
      rw [List.nil_append, List.cons.injEq] at hmid
      exact ⟨(List.append_nil _).symm, hmid⟩
    | cons x mid =>
      rw [List.cons_append, List.cons.injEq] at hmid
      have hfalse := hback e' (by rw [hmid.2]; exact List.mem_append_right _ List.mem_cons_self)
      rw [he'] at hfalse
      cases hfalse
  · cases mid with
    | nil =>
      rw [List.nil_append, List.cons.injEq] at hmid
      exact ⟨List.append_nil _, hmid.1.symm, hmid.2.symm⟩
    | cons x mid =>
      rw [List.cons_append, List.cons.injEq] at hmid
      have hfalse := hfront e' (by rw [hmid.1]; exact List.mem_append_right _ List.mem_cons_self)
      rw [he'] at hfalse
      cases hfalse

end Between

end Interaction
