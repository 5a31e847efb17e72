/-
Runs of a deterministic system: the states a list of operations leads
through, what they fire on the way, and the induction over them.

`firings_nodup` is the rule for one-shot effects. A token is *spent* in a
state when no operation can fire it there; if firing a token spends it and
no operation makes a spent token good again, a run fires each token at most
once.
-/
import Mathlib.Algebra.Order.Ring.Nat
import Mathlib.Data.List.Basic
import Mathlib.Data.List.Induction
import Mathlib.Data.List.Nodup

namespace Run

variable {σ ω τ : Type*}

section

variable (step : σ → ω → σ)

/-- The state after a list of operations. -/
def run (s : σ) (ops : List ω) : σ := ops.foldl step s

@[simp] theorem run_nil (s : σ) : run step s [] = s := rfl

@[simp] theorem run_cons (s : σ) (op : ω) (ops : List ω) :
    run step s (op :: ops) = run step (step s op) ops := rfl

theorem run_append (s : σ) (ops₁ ops₂ : List ω) :
    run step s (ops₁ ++ ops₂) = run step (run step s ops₁) ops₂ := List.foldl_append

theorem run_concat (s : σ) (ops : List ω) (op : ω) :
    run step s (ops ++ [op]) = step (run step s ops) op := by rw [run_append]; rfl

/-- An invariant of every step is an invariant of every run. -/
theorem invariant (I : σ → Prop) (h : ∀ s op, I s → I (step s op)) {s : σ} (hs : I s) (ops : List ω) :
    I (run step s ops) := by
  induction ops generalizing s with
  | nil => exact hs
  | cons op ops ih => exact ih (h s op hs)

/-- What a run fires, in order. -/
def firings (fires : σ → ω → Option τ) : σ → List ω → List τ
  | _, [] => []
  | s, op :: ops => (fires s op).toList ++ firings fires (step s op) ops

@[simp] theorem firings_nil (fires : σ → ω → Option τ) (s : σ) : firings step fires s [] = [] := rfl

@[simp] theorem firings_cons (fires : σ → ω → Option τ) (s : σ) (op : ω) (ops : List ω) :
    firings step fires s (op :: ops) = (fires s op).toList ++ firings step fires (step s op) ops := rfl

theorem firings_append (fires : σ → ω → Option τ) (s : σ) (ops₁ ops₂ : List ω) :
    firings step fires s (ops₁ ++ ops₂) =
      firings step fires s ops₁ ++ firings step fires (run step s ops₁) ops₂ := by
  induction ops₁ generalizing s with
  | nil => rfl
  | cons op ops₁ ih => simp [ih]

end

section Once

variable {step : σ → ω → σ} {fires : σ → ω → Option τ}

theorem mem_firings {t : τ} : ∀ {s : σ} {ops : List ω}, t ∈ firings step fires s ops →
    ∃ before op after, ops = before ++ op :: after ∧ fires (run step s before) op = some t
  | _, [], h => by simp [firings_nil] at h
  | s, op :: ops, h => by
    simp only [firings_cons, List.mem_append, Option.mem_toList] at h
    rcases h with h | h
    · exact ⟨[], op, ops, rfl, h⟩
    · obtain ⟨before, op', after, rfl, hf⟩ := mem_firings h
      exact ⟨op :: before, op', after, rfl, hf⟩

variable (I : σ → Prop) (Spent : τ → σ → Prop)

/-- Once fired, a token stays spent. -/
theorem spent_of_mem_firings (hI : ∀ s op, I s → I (step s op))
    (hfire : ∀ s op t, I s → fires s op = some t → Spent t (step s op))
    (hkeep : ∀ s op t, I s → Spent t s → Spent t (step s op)) {s : σ} (hs : I s) {ops : List ω} {t : τ}
    (ht : t ∈ firings step fires s ops) : Spent t (run step s ops) := by
  obtain ⟨before, op, after, rfl, hf⟩ := mem_firings ht
  rw [run_append, run_cons]
  have hb := invariant step I hI hs before
  exact (invariant step (fun s => I s ∧ Spent t s) (fun s op h => ⟨hI s op h.1, hkeep s op t h.1 h.2⟩)
    ⟨hI _ op hb, hfire _ op t hb hf⟩ after).2

/-- A one-shot effect fires at most once per token. -/
theorem firings_nodup (hI : ∀ s op, I s → I (step s op))
    (hfire : ∀ s op t, I s → fires s op = some t → Spent t (step s op))
    (hkeep : ∀ s op t, I s → Spent t s → Spent t (step s op))
    (hspent : ∀ s op t, I s → Spent t s → fires s op ≠ some t) {s : σ} (hs : I s) (ops : List ω) :
    (firings step fires s ops).Nodup := by
  induction ops generalizing s with
  | nil => simp [firings_nil]
  | cons op ops ih =>
    have hs' := hI s op hs
    simp only [firings_cons]
    cases hf : fires s op with
    | none => simpa using ih hs'
    | some t =>
      simp only [Option.toList_some, List.singleton_append, List.nodup_cons]
      refine ⟨fun hmem => ?_, ih hs'⟩
      obtain ⟨before, op', after, rfl, hf'⟩ := mem_firings hmem
      have hb := invariant step (fun s => I s ∧ Spent t s)
        (fun s op h => ⟨hI s op h.1, hkeep s op t h.1 h.2⟩) ⟨hs', hfire s op t hs hf⟩ before
      exact hspent _ op' t hb.1 hb.2 hf'

end Once

theorem length_firings_le {step : σ → ω → σ} {τ' : Type*} {fires : σ → ω → Option τ} {fires' : σ → ω → Option τ'}
    (h : ∀ s op, (fires s op).isSome → (fires' s op).isSome) (s : σ) (ops : List ω) :
    (firings step fires s ops).length ≤ (firings step fires' s ops).length := by
  induction ops generalizing s with
  | nil => exact Nat.le_refl 0
  | cons op ops ih =>
    have hfirst : (fires s op).toList.length ≤ (fires' s op).toList.length := by
      have hfires := h s op
      cases hfire : fires s op with
      | none => exact Nat.zero_le _
      | some t =>
        obtain ⟨t', hfire'⟩ := Option.isSome_iff_exists.mp (hfires (by rw [hfire]; rfl))
        rw [hfire']
        exact Nat.le_refl 1
    rw [firings_cons, firings_cons, List.length_append, List.length_append]
    exact Nat.add_le_add hfirst (ih (step s op))

/-! ## Since the last operation of a kind -/

section Since

variable (step : σ → ω → σ) (ends : ω → Bool) (P : σ → ω → Prop)

/-- `P` held of some operation of the run, in the state it met, and none that `ends` it came after. -/
def Since (s : σ) (ops : List ω) : Prop :=
  ∃ before op after, ops = before ++ op :: after ∧ P (run step s before) op ∧ ∀ later ∈ after, ends later = false

variable {step ends P}

theorem not_since_nil {s : σ} : ¬Since step ends P s [] := by
  rintro ⟨before, op, after, h, -⟩
  simp at h

theorem since_concat {s : σ} {ops : List ω} {op : ω} :
    Since step ends P s (ops ++ [op]) ↔ P (run step s ops) op ∨ ends op = false ∧ Since step ends P s ops := by
  constructor
  · rintro ⟨before, op', after, h, hP, hafter⟩
    rcases List.eq_nil_or_concat' after with rfl | ⟨after, last, rfl⟩
    · obtain ⟨rfl, hop⟩ := List.append_inj' h rfl
      rw [List.cons.injEq] at hop
      exact .inl (hop.1 ▸ hP)
    · rw [← List.cons_append, ← List.append_assoc] at h
      obtain ⟨rfl, hlast⟩ := List.append_inj' h rfl
      rw [List.cons.injEq] at hlast
      obtain ⟨rfl, -⟩ := hlast
      exact .inr ⟨hafter op (by simp), before, op', after, rfl, hP, fun later hl => hafter later (by simp [hl])⟩
  · rintro (hP | ⟨hends, before, op', after, rfl, hP, hafter⟩)
    · exact ⟨ops, op, [], rfl, hP, by simp⟩
    · refine ⟨before, op', after ++ [op], by simp, hP, fun later hl => ?_⟩
      rcases List.mem_append.mp hl with hl | hl
      · exact hafter later hl
      · rw [List.mem_singleton.mp hl]
        exact hends

theorem since_or {P' : σ → ω → Prop} {s : σ} {ops : List ω} :
    Since step ends (fun s op => P s op ∨ P' s op) s ops ↔ Since step ends P s ops ∨ Since step ends P' s ops := by
  constructor
  · rintro ⟨before, op, after, h, hP | hP, hafter⟩
    · exact .inl ⟨before, op, after, h, hP, hafter⟩
    · exact .inr ⟨before, op, after, h, hP, hafter⟩
  · rintro (⟨before, op, after, h, hP, hafter⟩ | ⟨before, op, after, h, hP, hafter⟩)
    · exact ⟨before, op, after, h, .inl hP, hafter⟩
    · exact ⟨before, op, after, h, .inr hP, hafter⟩

/-- A flag that starts down, that `P` raises and only `ends` drops, tells whether `P` held since. -/
theorem flag_iff_since {Q : σ → Prop} (hstep : ∀ s op, Q (step s op) ↔ P s op ∨ ends op = false ∧ Q s) {s : σ}
    (hs : ¬Q s) (ops : List ω) : Q (run step s ops) ↔ Since step ends P s ops := by
  induction ops using List.reverseRecOn with
  | nil => exact iff_of_false hs not_since_nil
  | append_singleton ops op ih => rw [run_concat, hstep, since_concat, ih]

end Since

/-! ## Runs whose every operation is good -/

section Along

variable {step : σ → ω → σ} {Good : σ → ω → Prop}

/-- Every operation of the run is good in the state it meets. -/
def Along (step : σ → ω → σ) (Good : σ → ω → Prop) (s : σ) (ops : List ω) : Prop :=
  ∀ before op after, ops = before ++ op :: after → Good (run step s before) op

theorem Along.nil (s : σ) : Along step Good s [] := by
  intro before op after h
  cases before <;> cases h

theorem Along.of_append {s : σ} {before after : List ω} (h : Along step Good s (before ++ after)) :
    Along step Good s before := by
  rintro init op rest rfl
  exact h init op (rest ++ after) (by rw [List.append_assoc, List.cons_append])

theorem Along.after {s : σ} {before after : List ω} (h : Along step Good s (before ++ after)) :
    Along step Good (run step s before) after := by
  intro init op rest heq
  rw [← run_append]
  exact h (before ++ init) op rest (by rw [heq, List.append_assoc])

theorem Along.last {s : σ} {ops : List ω} {op : ω} (h : Along step Good s (ops ++ [op])) : Good (run step s ops) op :=
  h ops op [] rfl

theorem Along.concat {s : σ} {ops : List ω} {op : ω} (h : Along step Good s ops) (hop : Good (run step s ops) op) :
    Along step Good s (ops ++ [op]) := by
  intro before op' after heq
  rcases List.eq_nil_or_concat' after with rfl | ⟨after, last, rfl⟩
  · obtain ⟨rfl, hlast⟩ := List.append_inj' heq rfl
    cases hlast
    exact hop
  · rw [← List.cons_append, ← List.append_assoc] at heq
    obtain ⟨rfl, -⟩ := List.append_inj' heq rfl
    exact h before op' after rfl

/-- An invariant of the operations so far and the state, which good operations keep. -/
theorem Along.invariant (I : List ω → σ → Prop) {s : σ} (hs : I [] s)
    (h : ∀ ops op, I ops (run step s ops) → Good (run step s ops) op → I (ops ++ [op]) (step (run step s ops) op))
    {ops : List ω} (hops : Along step Good s ops) : I ops (run step s ops) := by
  induction ops using List.reverseRecOn with
  | nil => exact hs
  | append_singleton ops op ih =>
    rw [run_concat]
    exact h ops op (ih hops.of_append) hops.last

end Along

/-! ## Two systems on the same operations -/

section Related

variable {σ' : Type*} {step : σ → ω → σ} {step' : σ' → ω → σ'}

/-- A relation that every operation keeps is kept by every run. -/
theorem run_related (R : σ → σ' → Prop) (h : ∀ s t op, R s t → R (step s op) (step' t op)) {s : σ} {t : σ'}
    (hR : R s t) (ops : List ω) : R (run step s ops) (run step' t ops) := by
  induction ops generalizing s t with
  | nil => exact hR
  | cons op ops ih => exact ih (h s t op hR)

/-- Related systems that fire the same on every operation fire the same on every run. -/
theorem firings_related (R : σ → σ' → Prop) {fires : σ → ω → Option τ} {fires' : σ' → ω → Option τ}
    (h : ∀ s t op, R s t → fires s op = fires' t op ∧ R (step s op) (step' t op)) {s : σ} {t : σ'} (hR : R s t)
    (ops : List ω) : firings step fires s ops = firings step' fires' t ops := by
  induction ops generalizing s t with
  | nil => rfl
  | cons op ops ih =>
    obtain ⟨hf, hn⟩ := h s t op hR
    simp only [firings_cons, hf, ih hn]

end Related

/-! ## Runs under a discipline -/

section Guarded

variable {κ : Type*} {guard : κ → ω → κ → Prop}

/-- The operations callers may issue: `guard k op k'` lets `op` through in mode `k` and
leaves mode `k'`. -/
inductive Guarded (guard : κ → ω → κ → Prop) : κ → List ω → κ → Prop
  | nil (k : κ) : Guarded guard k [] k
  | cons {k k₁ k₂ : κ} {op : ω} {ops : List ω} (h : guard k op k₁) (rest : Guarded guard k₁ ops k₂) :
    Guarded guard k (op :: ops) k₂

/-- An invariant of every disciplined step is an invariant of every disciplined run. -/
theorem Guarded.invariant (step : σ → ω → σ) (I : κ → σ → Prop)
    (h : ∀ k op k' s, guard k op k' → I k s → I k' (step s op)) {k k' : κ} {ops : List ω}
    (hops : Guarded guard k ops k') {s : σ} (hs : I k s) : I k' (run step s ops) := by
  induction hops generalizing s with
  | nil k => exact hs
  | cons hg _ ih => exact ih (h _ _ _ s hg hs)

theorem Guarded.append {k k₁ k₂ : κ} {ops₁ ops₂ : List ω} (h₁ : Guarded guard k ops₁ k₁)
    (h₂ : Guarded guard k₁ ops₂ k₂) : Guarded guard k (ops₁ ++ ops₂) k₂ := by
  induction h₁ with
  | nil k => exact h₂
  | cons hg _ ih => exact .cons hg (ih h₂)

end Guarded

/-! ## Steps that may fail, with outputs -/

section Exec

/-- The outputs and the state after a list of operations, if each of them succeeds. -/
def exec (step : σ → ω → Option (List τ × σ)) : σ → List ω → Option (List τ × σ)
  | s, [] => some ([], s)
  | s, op :: ops =>
    match step s op with
    | none => none
    | some (out, s) =>
      match exec step s ops with
      | none => none
      | some (rest, s) => some (out ++ rest, s)

variable {step : σ → ω → Option (List τ × σ)}

theorem exec_cons {s s' : σ} {op : ω} {ops : List ω} {outs : List τ} :
    exec step s (op :: ops) = some (outs, s') ↔ ∃ out s₁ rest, step s op = some (out, s₁) ∧
      exec step s₁ ops = some (rest, s') ∧ outs = out ++ rest := by
  simp only [exec]
  constructor
  · intro h
    split at h
    · cases h
    · rename_i out s₁ hs
      split at h
      · cases h
      · rename_i rest s₂ hr
        simp only [Option.some.injEq, Prod.mk.injEq] at h
        obtain ⟨rfl, rfl⟩ := h
        exact ⟨out, s₁, rest, hs, hr, rfl⟩
  · rintro ⟨out, s₁, rest, hs, hr, rfl⟩
    simp only [hs, hr]

theorem exec_append {s s' : σ} {ops₁ ops₂ : List ω} {outs : List τ} :
    exec step s (ops₁ ++ ops₂) = some (outs, s') ↔ ∃ outs₁ s₁ outs₂, exec step s ops₁ = some (outs₁, s₁) ∧
      exec step s₁ ops₂ = some (outs₂, s') ∧ outs = outs₁ ++ outs₂ := by
  induction ops₁ generalizing s outs with
  | nil => simp [exec, eq_comm]
  | cons op ops₁ ih =>
    simp only [List.cons_append, exec_cons, ih]
    constructor
    · rintro ⟨out, s₁, rest, hs, ⟨outs₁, s₂, outs₂, h₁, h₂, rfl⟩, rfl⟩
      exact ⟨out ++ outs₁, s₂, outs₂, ⟨out, s₁, outs₁, hs, h₁, rfl⟩, h₂, by simp⟩
    · rintro ⟨_, s₂, outs₂, ⟨out, s₁, outs₁, hs, h₁, rfl⟩, h₂, rfl⟩
      exact ⟨out, s₁, outs₁ ++ outs₂, hs, ⟨outs₁, s₂, outs₂, h₁, h₂, rfl⟩, by simp⟩

/-- An invariant of the outputs so far and the state. -/
theorem exec_invariant (I : List τ → σ → Prop)
    (h : ∀ outs s op out s', I outs s → step s op = some (out, s') → I (outs ++ out) s') {outs₀ : List τ} {s : σ}
    (hs : I outs₀ s) {ops : List ω} {outs : List τ} {s' : σ} (he : exec step s ops = some (outs, s')) :
    I (outs₀ ++ outs) s' := by
  induction ops generalizing outs₀ s outs with
  | nil =>
    simp only [exec, Option.some.injEq, Prod.mk.injEq] at he
    obtain ⟨rfl, rfl⟩ := he
    simpa using hs
  | cons op ops ih =>
    obtain ⟨out, s₁, rest, hstep, hr, rfl⟩ := exec_cons.mp he
    rw [← List.append_assoc]
    exact ih (h outs₀ s op out s₁ hs hstep) hr

theorem exec_concat {s s' : σ} {ops : List ω} {op : ω} {outs : List τ} :
    exec step s (ops ++ [op]) = some (outs, s') ↔ ∃ outs₁ s₁ out, exec step s ops = some (outs₁, s₁) ∧
      step s₁ op = some (out, s') ∧ outs = outs₁ ++ out := by
  rw [exec_append]
  constructor
  · rintro ⟨outs₁, s₁, outs₂, h₁, h₂, rfl⟩
    obtain ⟨out, s₂, rest, hstep, hrest, rfl⟩ := exec_cons.mp h₂
    simp only [exec, Option.some.injEq, Prod.mk.injEq] at hrest
    obtain ⟨rfl, rfl⟩ := hrest
    exact ⟨outs₁, s₁, out, h₁, hstep, by simp⟩
  · rintro ⟨outs₁, s₁, out, h₁, hstep, rfl⟩
    exact ⟨outs₁, s₁, out, h₁, exec_cons.mpr ⟨out, s', [], hstep, rfl, by simp⟩, rfl⟩

/-- An invariant that speaks of the operations so far, at every point of a run. -/
theorem exec_history (I : List ω → List τ → σ → Prop) {s : σ} (hs : I [] [] s)
    (h : ∀ done outs s₁ op out s', exec step s done = some (outs, s₁) → I done outs s₁ →
      step s₁ op = some (out, s') → I (done ++ [op]) (outs ++ out) s') {ops : List ω} {outs : List τ} {s' : σ}
    (he : exec step s ops = some (outs, s')) : I ops outs s' := by
  induction ops using List.reverseRecOn generalizing outs s' with
  | nil =>
    simp only [exec, Option.some.injEq, Prod.mk.injEq] at he
    obtain ⟨rfl, rfl⟩ := he
    exact hs
  | append_singleton ops op ih =>
    obtain ⟨outs₁, s₁, out, h₁, hstep, rfl⟩ := exec_concat.mp he
    exact h ops outs₁ s₁ op out s' h₁ (ih h₁) hstep

/-- If no step fails under an invariant, no run does. -/
theorem exec_total (I : σ → Prop) (h : ∀ s op, I s → ∃ out s', step s op = some (out, s') ∧ I s') {s : σ}
    (hs : I s) (ops : List ω) : ∃ outs s', exec step s ops = some (outs, s') ∧ I s' := by
  induction ops generalizing s with
  | nil => exact ⟨[], s, rfl, hs⟩
  | cons op ops ih =>
    obtain ⟨out, s₁, hstep, hs₁⟩ := h s op hs
    obtain ⟨rest, s', hr, hs'⟩ := ih hs₁
    exact ⟨out ++ rest, s', exec_cons.mpr ⟨out, s₁, rest, hstep, hr, rfl⟩, hs'⟩

end Exec

end Run
