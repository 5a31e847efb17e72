/-
Labelled runs: what a system shows, step by step, and what can be read off it.

A step shows a list of events. `Trace.since` carries a fact about the state from
the event that establishes it; `Trace.between` turns such a fact into what must
have been shown between two events.
-/
import Mathlib.Algebra.Order.Ring.Nat
import Mathlib.Data.List.Basic

variable {σ τ ω : Type*}

/-- The runs from `s`: what they showed, and where they arrived. -/
inductive Trace (step : σ → List τ → σ → Prop) (s : σ) : List τ → σ → Prop
  | start : Trace step s [] s
  | next {shown out : List τ} {s₁ s₂ : σ} (before : Trace step s shown s₁) (taken : step s₁ out s₂) :
    Trace step s (shown ++ out) s₂

namespace Trace

variable {step : σ → List τ → σ → Prop} {s₀ s : σ} {shown : List τ}

theorem invariant (I : σ → Prop) (hstep : ∀ s out s', I s → step s out s' → I s') (h₀ : I s₀)
    (h : Trace step s₀ shown s) : I s := by
  induction h with
  | start => exact h₀
  | next _ taken ih => exact hstep _ _ _ ih taken

/-- An invariant of what was shown so far and the state. -/
theorem history (I : List τ → σ → Prop) (hstep : ∀ shown s out s', I shown s → step s out s' → I (shown ++ out) s')
    (h₀ : I [] s₀) (h : Trace step s₀ shown s) : I shown s := by
  induction h with
  | start => exact h₀
  | next _ taken ih => exact hstep _ _ _ _ ih taken

theorem append {shown' : List τ} {s' : σ} (h : Trace step s₀ shown s) (h' : Trace step s shown' s') :
    Trace step s₀ (shown ++ shown') s' := by
  induction h' with
  | start => rwa [List.append_nil]
  | next _ taken ih => rw [← List.append_assoc]; exact .next ih taken

/-- Whatever was shown, some step showed it. -/
theorem all_shown (I : σ → Prop) (Q : τ → Prop) (hstep : ∀ s out s', I s → step s out s' → I s')
    (hshow : ∀ s out s', I s → step s out s' → ∀ x ∈ out, Q x) (h₀ : I s₀) (h : Trace step s₀ shown s) :
    ∀ x ∈ shown, Q x := by
  induction h with
  | start => intro x hx; cases hx
  | next before taken ih =>
    intro x hx
    rcases List.mem_append.mp hx with hx | hx
    · exact ih x hx
    · exact hshow _ _ _ (before.invariant I hstep h₀) taken x hx

/-- An event of a longer list is in its first or in its second part. -/
theorem split_at {shown out pre post : List τ} {x : τ} (h : shown ++ out = pre ++ x :: post) :
    (∃ mid, shown = pre ++ x :: mid ∧ post = mid ++ out) ∨
      ∃ before, pre = shown ++ before ∧ out = before ++ x :: post := by
  rcases List.append_eq_append_iff.mp h with ⟨before, hpre, hout⟩ | ⟨rest, hshown, hrest⟩
  · exact .inr ⟨before, hpre, hout⟩
  · cases rest with
    | nil =>
      simp only [List.append_nil] at hshown
      simp only [List.nil_append] at hrest
      exact .inr ⟨[], by simp [hshown], by simpa using hrest.symm⟩
    | cons y mid =>
      simp only [List.cons_append, List.cons.injEq] at hrest
      obtain ⟨rfl, rfl⟩ := hrest
      exact .inl ⟨mid, hshown, rfl⟩

/-- Two different events were shown one before the other. -/
theorem exists_order {shown : List τ} {x y : τ} (hx : x ∈ shown) (hy : y ∈ shown) (hne : x ≠ y) :
    (∃ pre mid post, shown = pre ++ x :: mid ++ y :: post) ∨ ∃ pre mid post, shown = pre ++ y :: mid ++ x :: post := by
  obtain ⟨pre, post, rfl⟩ := List.append_of_mem hx
  rcases List.mem_append.mp hy with hy | hy
  · obtain ⟨before, mid, rfl⟩ := List.append_of_mem hy
    exact .inr ⟨before, mid, post, by simp⟩
  · obtain ⟨mid, after, rfl⟩ := List.append_of_mem ((List.mem_cons.mp hy).resolve_left hne.symm)
    exact .inl ⟨pre, mid, after, by simp⟩

variable (I : σ → Prop) (Since : τ → List τ → σ → Prop)

/-- A fact about an event, what was shown since, and the state holds at every later point, if the
step that shows the event establishes it and every step keeps it. -/
theorem since (hI : ∀ s out s', I s → step s out s' → I s')
    (hnew : ∀ s before x after s', I s → step s (before ++ x :: after) s' → Since x after s')
    (hkeep : ∀ s x mid out s', I s → Since x mid s → step s out s' → Since x (mid ++ out) s')
    (h₀ : I s₀) (h : Trace step s₀ shown s) {pre mid : List τ} {x : τ} (hx : shown = pre ++ x :: mid) :
    Since x mid s := by
  induction h generalizing pre mid with
  | start => simp at hx
  | next before taken ih =>
    have hs := before.invariant I hI h₀
    rcases split_at hx with ⟨mid', hshown, rfl⟩ | ⟨b, rfl, rfl⟩
    · exact hkeep _ _ _ _ _ hs (ih hshown) taken
    · exact hnew _ _ _ _ _ hs taken

/-- What two events, in this order, say about each other and what was shown between them. -/
theorem between (Q : τ → List τ → τ → Prop) (hI : ∀ s out s', I s → step s out s' → I s')
    (hnew : ∀ s before x after s', I s → step s (before ++ x :: after) s' → Since x after s')
    (hkeep : ∀ s x mid out s', I s → Since x mid s → step s out s' → Since x (mid ++ out) s')
    (hwithin : ∀ s before x mid y after s', I s → step s (before ++ x :: mid ++ y :: after) s' → Q x mid y)
    (hacross : ∀ s x mid before y after s', I s → Since x mid s → step s (before ++ y :: after) s' →
      Q x (mid ++ before) y)
    (h₀ : I s₀) (h : Trace step s₀ shown s) {pre mid post : List τ} {x y : τ}
    (hx : shown = pre ++ x :: mid ++ y :: post) : Q x mid y := by
  induction h generalizing pre mid post with
  | start => simp at hx
  | next before taken ih =>
    have hs := before.invariant I hI h₀
    rcases split_at hx with ⟨mid', hshown, rfl⟩ | ⟨b, hpre, rfl⟩
    · exact ih hshown
    · rcases split_at hpre.symm with ⟨mid', hshown, rfl⟩ | ⟨b', rfl, rfl⟩
      · exact hacross _ _ _ _ _ _ _ hs (before.since I Since hI hnew hkeep h₀ hshown) taken
      · exact hwithin _ _ _ _ _ _ _ hs taken

/-! ## Runs of listed operations -/

section Play

variable (act : σ → ω → List τ × σ)

/-- What a list of operations shows, and where it ends. -/
def play : σ → List ω → List τ × σ
  | s, [] => ([], s)
  | s, op :: ops =>
    let (out, s₁) := act s op
    let (rest, s₂) := play s₁ ops
    (out ++ rest, s₂)

/-- The steps of operations that are let through. -/
def Acts (ok : σ → ω → Prop) (s : σ) (out : List τ) (s' : σ) : Prop :=
  ∃ op, ok s op ∧ act s op = (out, s')

/-- Every operation is let through where it is taken. -/
def Meets (ok : σ → ω → Prop) : σ → List ω → Prop
  | _, [] => True
  | s, op :: ops => ok s op ∧ Meets ok (act s op).2 ops

theorem meets_true (s : σ) (ops : List ω) : Meets act (fun _ _ => True) s ops := by
  induction ops generalizing s with
  | nil => trivial
  | cons op ops ih => exact ⟨trivial, ih (act s op).2⟩

theorem play_trace {ok : σ → ω → Prop} {s : σ} {ops : List ω} (h : Meets act ok s ops) :
    Trace (Acts act ok) s (play act s ops).1 (play act s ops).2 := by
  induction ops generalizing s with
  | nil => exact .start
  | cons op ops ih =>
    have hone : Trace (Acts act ok) s ([] ++ (act s op).1) (act s op).2 := .next .start ⟨op, h.1, rfl⟩
    exact hone.append (ih h.2)

end Play

end Trace
