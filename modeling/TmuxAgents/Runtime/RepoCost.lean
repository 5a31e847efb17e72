/-
What a refresh asks of `git`: the calls it makes, what it remembers of them, and
whose answer each row is labelled with.

The priming batch asks about each cold directory once, under the refresh's own
budget. The rows are resolved after it from the memo, and a directory the memo
cannot answer then is asked about again, under `deadline`. `refresh_cost` says
when that does not happen.
-/
import Mathlib.Data.List.Dedup
import TmuxAgents.Runtime.Repo

namespace TmuxAgents.Repo

variable (git : List Call → Text → Nat → RevParse)

/-! ## The batch -/

theorem resolveBatchUncached_eq (log : List Call) (cwds : List Text) (budget : Nat) :
    resolveBatchUncached git log cwds budget =
      (cwds.map fun cwd => conclude cwd (git log cwd budget), log ++ cwds.map fun cwd => (cwd, budget)) := by
  have hzip : ((cwds.map fun cwd => git log cwd budget).zip cwds).map (fun p => conclude p.2 p.1) =
      cwds.map fun cwd => conclude cwd (git log cwd budget) := by
    induction cwds with
    | nil => rfl
    | cons cwd cwds ih => simp [ih]
  rw [resolveBatchUncached, runRevParseBatch]
  simp only [hzip]

theorem prime_eq (world : World) (cwds : List Text) (now budget : Nat) :
    prime git world cwds now budget =
      { memo := remember world.memo now ((coldCwds world.memo cwds now).map fun cwd =>
          (cwd, conclude cwd (git world.log cwd budget)))
        log := world.log ++ (coldCwds world.memo cwds now).map fun cwd => (cwd, budget) } := by
  have hzip : ∀ (cold : List Text) (f : Text → Resolved), cold.zip (cold.map f) = cold.map fun cwd => (cwd, f cwd) := by
    intro cold f
    induction cold with
    | nil => rfl
    | cons cwd cold ih => simp [ih]
  rw [prime]
  split
  next hcold =>
    rw [List.isEmpty_iff.mp hcold]
    simp [remember]
  next => simp only [resolveBatchUncached_eq, hzip]

theorem get?_remember (memo : Memo) (now : Nat) (answer : Text → Resolved) (cwds : List Text) (cwd : Text) :
    Assoc.get? (remember memo now (cwds.map fun c => (c, answer c))) cwd =
      match answer cwd with
      | .known info => if cwd ∈ cwds then some { at_ := now, info } else Assoc.get? memo cwd
      | .unknown => Assoc.get? memo cwd := by
  induction cwds generalizing memo with
  | nil =>
    simp only [List.map_nil, remember, List.foldl_nil, List.not_mem_nil, if_false]
    split <;> rfl
  | cons first cwds ih =>
    rw [remember, List.map_cons, List.foldl_cons, ← remember, ih]
    by_cases hfirst : cwd = first
    · subst hfirst
      cases hanswer : answer cwd with
      | known info => simp [memoPut]
      | unknown => simp
    · have hget : ∀ info, Assoc.get? (memoPut memo first now info) cwd = Assoc.get? memo cwd := fun info =>
        Assoc.get?_set_other hfirst
      cases answer first with
      | known info => simp [hfirst, hget]
      | unknown => simp [hfirst]

theorem mem_coldCwds {memo : Memo} {cwds : List Text} {now : Nat} {cwd : Text} :
    cwd ∈ coldCwds memo cwds now ↔ cwd ∈ cwds ∧ cwd ≠ [] ∧ memoGet memo cwd now = none := by
  rw [coldCwds, (List.perm_insertionSort _ _).mem_iff, List.mem_dedup]
  simp

theorem coldCwds_nodup (memo : Memo) (cwds : List Text) (now : Nat) : (coldCwds memo cwds now).Nodup :=
  (List.perm_insertionSort _ _).nodup_iff.mpr (List.nodup_dedup _)

/-! ## Hits -/

/-- The directory's answer is in the memo when its row is resolved: an entry that is fresh then, or a definite answer of
the batch. -/
def Covered (world : World) (start budget : Nat) (cwd : Text) (now : Nat) : Prop :=
  if (memoGet world.memo cwd start).isSome then (memoGet world.memo cwd now).isSome = true
  else (∃ info, conclude cwd (git world.log cwd budget) = .known info) ∧ now - start < memoTtl

theorem memoGet_stale {memo : Memo} {cwd : Text} {start now : Nat} (hstart : memoGet memo cwd start = none)
    (hle : start ≤ now) : memoGet memo cwd now = none := by
  rw [memoGet] at hstart ⊢
  split
  next => rfl
  next entry hentry =>
    rw [hentry] at hstart
    simp only [ite_eq_right_iff, reduceCtorEq, imp_false, Nat.not_lt] at hstart
    rw [if_neg (by omega)]

/-- The primed memo answers for a directory just where it is covered. -/
theorem memoGet_prime {world : World} {cwds : List Text} {start budget now : Nat} {cwd : Text} (hmem : cwd ∈ cwds)
    (hne : cwd ≠ []) (hle : start ≤ now) :
    (memoGet (prime git world cwds start budget).memo cwd now).isSome ↔ Covered git world start budget cwd now := by
  have hget := get?_remember world.memo start (fun c => conclude c (git world.log c budget))
    (coldCwds world.memo cwds start) cwd
  rw [prime_eq, Covered]
  cases hstart : memoGet world.memo cwd start with
  | some hit =>
    have hcold : cwd ∉ coldCwds world.memo cwds start := fun h => by simp [(mem_coldCwds.mp h).2.2] at hstart
    have hsame : Assoc.get? (remember world.memo start ((coldCwds world.memo cwds start).map fun c =>
        (c, conclude c (git world.log c budget)))) cwd = Assoc.get? world.memo cwd := by
      rw [hget]
      split <;> simp [hcold]
    simp [memoGet, hsame]
  | none =>
    have hcold : cwd ∈ coldCwds world.memo cwds start := mem_coldCwds.mpr ⟨hmem, hne, hstart⟩
    cases hanswer : conclude cwd (git world.log cwd budget) with
    | known info =>
      simp only [hanswer, if_pos hcold] at hget
      simp only [memoGet, hget]
      by_cases hfresh : now - start < memoTtl
      · simp [hfresh]
      · simp [hfresh]
    | unknown =>
      simp only [hanswer] at hget
      have hstale := memoGet_stale hstart hle
      rw [memoGet] at hstale
      simp [memoGet, hget, hstale]

/-! ## The rows -/

/-- Every row's directory is in the memo when the row is resolved. -/
def Hits (memo : Memo) (clock : Nat → Nat) (rows : List AgentRow) : Prop :=
  ∀ i row cwd, rows[i]? = some row → row.cwd = some cwd → cwd ≠ [] → (memoGet memo cwd (clock i)).isSome = true

theorem resolve_hit {world : World} {cwd : Text} {now : Nat}
    (h : cwd ≠ [] → (memoGet world.memo cwd now).isSome = true) : (resolve git world cwd now).2 = world := by
  rw [resolve]
  split
  next => rfl
  next hne =>
    have hsome := h (by simpa using hne)
    split
    next => rfl
    next hnone => simp [hnone] at hsome

theorem resolve_miss {world : World} {cwd : Text} {now : Nat} (hne : cwd ≠ [])
    (h : (memoGet world.memo cwd now).isSome = false) : (resolve git world cwd now).2.log = world.log ++ [(cwd, deadline)] := by
  have hempty : cwd.isEmpty = false := by simpa using hne
  have hnone : memoGet world.memo cwd now = none := by simpa using h
  rw [resolve, hempty, hnone]
  simp only [resolveBatchUncached_eq, List.map_cons, List.map_nil]
  cases conclude cwd (git world.log cwd deadline) <;> rfl

theorem resolve_log (world : World) (cwd : Text) (now : Nat) :
    (resolve git world cwd now).2.log = world.log ∨ (resolve git world cwd now).2.log = world.log ++ [(cwd, deadline)] := by
  by_cases h : cwd ≠ [] → (memoGet world.memo cwd now).isSome = true
  · exact .inl (by rw [resolve_hit git h])
  · obtain ⟨hne, hmiss⟩ := Classical.not_imp.mp h
    exact .inr (resolve_miss git hne (by simpa using hmiss))

/-- One row: its directory's answer, and the world behind it. -/
def resolveRow (world : World) (row : AgentRow) (now : Nat) : Option RepoInfo × World :=
  match row.cwd with
  | none => (none, world)
  | some cwd => resolve git world cwd now

theorem annotateEach_cons (clock : Nat → Nat) (world : World) (row : AgentRow) (rows : List AgentRow) :
    annotateEach git clock world (row :: rows) =
      ({ row with repo := (resolveRow git world row (clock 0)).1.map label } ::
          (annotateEach git (fun k => clock (k + 1)) (resolveRow git world row (clock 0)).2 rows).1,
        (annotateEach git (fun k => clock (k + 1)) (resolveRow git world row (clock 0)).2 rows).2) := by
  cases hcwd : row.cwd <;> simp only [annotateEach, resolveRow, hcwd]

theorem resolveRow_log (world : World) (row : AgentRow) (now : Nat) :
    ∃ calls, (resolveRow git world row now).2.log = world.log ++ calls := by
  rw [resolveRow]
  cases row.cwd with
  | none => exact ⟨[], by simp⟩
  | some cwd =>
    rcases resolve_log git world cwd now with h | h
    · exact ⟨[], by simp [h]⟩
    · exact ⟨_, h⟩

theorem annotateEach_log (clock : Nat → Nat) (world : World) (rows : List AgentRow) :
    ∃ calls, (annotateEach git clock world rows).2.log = world.log ++ calls := by
  induction rows generalizing clock world with
  | nil => exact ⟨[], by simp [annotateEach]⟩
  | cons row rows ih =>
    obtain ⟨first, hfirst⟩ := resolveRow_log git world row (clock 0)
    obtain ⟨more, hmore⟩ := ih (fun k => clock (k + 1)) (resolveRow git world row (clock 0)).2
    exact ⟨first ++ more, by rw [annotateEach_cons, hmore, hfirst, List.append_assoc]⟩

theorem hits_cons {memo : Memo} {clock : Nat → Nat} {row : AgentRow} {rows : List AgentRow} :
    Hits memo clock (row :: rows) ↔
      (∀ cwd, row.cwd = some cwd → cwd ≠ [] → (memoGet memo cwd (clock 0)).isSome = true) ∧
        Hits memo (fun k => clock (k + 1)) rows := by
  constructor
  · intro h
    exact ⟨fun cwd => h 0 row cwd rfl, fun i row' cwd hrow => h (i + 1) row' cwd hrow⟩
  · rintro ⟨hrow, hrows⟩ i row' cwd hget
    cases i with
    | zero =>
      cases hget
      exact hrow cwd
    | succ i => exact hrows i row' cwd hget

theorem resolveRow_hit {world : World} {row : AgentRow} {now : Nat}
    (h : ∀ cwd, row.cwd = some cwd → cwd ≠ [] → (memoGet world.memo cwd now).isSome = true) :
    (resolveRow git world row now).2 = world := by
  rw [resolveRow]
  cases hcwd : row.cwd with
  | none => rfl
  | some cwd => exact resolve_hit git (h cwd hcwd)

/-- Where every row hits, nothing is asked. -/
theorem annotateEach_hits {clock : Nat → Nat} {world : World} {rows : List AgentRow} (h : Hits world.memo clock rows) :
    (annotateEach git clock world rows).2 = world := by
  induction rows generalizing clock with
  | nil => rfl
  | cons row rows ih =>
    obtain ⟨hrow, hrows⟩ := hits_cons.mp h
    rw [annotateEach_cons, resolveRow_hit git hrow]
    exact ih hrows

/-- Where one misses, the first such directory is asked about under the deadline. -/
theorem annotateEach_miss {clock : Nat → Nat} {world : World} {rows : List AgentRow} (h : ¬ Hits world.memo clock rows) :
    ∃ cwd calls, cwd ∈ rows.filterMap AgentRow.cwd ∧ cwd ≠ [] ∧
      (annotateEach git clock world rows).2.log = world.log ++ (cwd, deadline) :: calls := by
  induction rows generalizing clock with
  | nil => exact absurd (fun i row cwd hrow => by simp at hrow) h
  | cons row rows ih =>
    rw [annotateEach_cons]
    by_cases hrow : ∀ cwd, row.cwd = some cwd → cwd ≠ [] → (memoGet world.memo cwd (clock 0)).isSome = true
    · obtain ⟨cwd, calls, hmem, hne, hlog⟩ := ih fun hrows => h (hits_cons.mpr ⟨hrow, hrows⟩)
      rw [resolveRow_hit git hrow]
      refine ⟨cwd, calls, ?_, hne, hlog⟩
      cases hcwd : row.cwd <;> simp [hcwd, hmem]
    · simp only [not_forall] at hrow
      obtain ⟨cwd, hcwd, hne, hmiss⟩ := hrow
      have hfirst : (resolveRow git world row (clock 0)).2.log = world.log ++ [(cwd, deadline)] := by
        rw [resolveRow, hcwd]
        exact resolve_miss git hne (by simpa using hmiss)
      obtain ⟨more, hmore⟩ := annotateEach_log git (fun k => clock (k + 1)) (resolveRow git world row (clock 0)).2 rows
      refine ⟨cwd, more, by simp [hcwd], hne, ?_⟩
      rw [hmore, hfirst]
      simp

/-! ## The cost -/

/-- Each cold directory is asked about at most once, no other one is, and only under the budget. -/
structure Bounded (memo : Memo) (cwds : List Text) (start budget : Nat) (calls : List Call) : Prop where
  once : (calls.map Prod.fst).Nodup
  cold : ∀ call ∈ calls, call.1 ∈ cwds ∧ memoGet memo call.1 start = none
  budget_eq : ∀ call ∈ calls, call.2 = budget

/-- The memo covers every row. -/
def Steady (clock : Nat → Nat) (world : World) (rows : List AgentRow) (budget : Nat) : Prop :=
  ∀ i row cwd, rows[i]? = some row → row.cwd = some cwd → cwd ≠ [] →
    Covered git world (clock 0) budget cwd (clock (i + 1))

theorem hits_prime {clock : Nat → Nat} (hclock : ∀ k, clock 0 ≤ clock (k + 1)) {world : World} {rows : List AgentRow}
    {budget : Nat} :
    Hits (prime git world (rows.filterMap AgentRow.cwd) (clock 0) budget).memo (fun k => clock (k + 1)) rows ↔
      Steady git clock world rows budget := by
  have hmem : ∀ {i : Nat} {row : AgentRow} {cwd : Text}, rows[i]? = some row → row.cwd = some cwd →
      cwd ∈ rows.filterMap AgentRow.cwd := fun hrow hcwd => List.mem_filterMap.mpr ⟨_, List.mem_of_getElem? hrow, hcwd⟩
  constructor
  · intro h i row cwd hrow hcwd hne
    exact (memoGet_prime git (hmem hrow hcwd) hne (hclock i)).mp (h i row cwd hrow hcwd hne)
  · intro h i row cwd hrow hcwd hne
    exact (memoGet_prime git (hmem hrow hcwd) hne (hclock i)).mpr (h i row cwd hrow hcwd hne)

theorem bounded_batch (memo : Memo) (cwds : List Text) (start budget : Nat) :
    Bounded memo cwds start budget ((coldCwds memo cwds start).map fun cwd => (cwd, budget)) where
  once := by simpa [Function.comp_def] using coldCwds_nodup memo cwds start
  cold := by
    intro call hcall
    obtain ⟨cwd, hcwd, rfl⟩ := List.mem_map.mp hcall
    exact ⟨(mem_coldCwds.mp hcwd).1, (mem_coldCwds.mp hcwd).2.2⟩
  budget_eq := by
    intro call hcall
    obtain ⟨cwd, -, rfl⟩ := List.mem_map.mp hcall
    rfl

/-- A call behind the batch breaks the bound: it asks again, or about a directory that was fresh. -/
theorem not_bounded_more {memo : Memo} {cwds : List Text} {start budget : Nat} {cwd : Text} (hmem : cwd ∈ cwds) (hne : cwd ≠ [])
    (asked : Nat) (calls : List Call) :
    ¬ Bounded memo cwds start budget (((coldCwds memo cwds start).map fun cwd => (cwd, budget)) ++ (cwd, asked) :: calls) := by
  intro h
  have hcold := (h.cold (cwd, asked) (by simp)).2
  have honce := h.once
  rw [List.map_append, List.nodup_append] at honce
  refine honce.2.2 cwd ?_ cwd (by simp) rfl
  simpa using mem_coldCwds.mpr ⟨hmem, hne, hcold⟩

/-- The calls a refresh adds to the log. -/
theorem annotateWithin_log (clock : Nat → Nat) (hclock : ∀ k, clock 0 ≤ clock (k + 1)) (world : World) (rows : List AgentRow)
    (budget : Nat) :
    ∃ calls, (annotateWithin git clock world rows budget).2.log = world.log ++ calls ∧
      (Bounded world.memo (rows.filterMap AgentRow.cwd) (clock 0) budget calls ↔ Steady git clock world rows budget) := by
  have hlog := congrArg World.log (prime_eq git world (rows.filterMap AgentRow.cwd) (clock 0) budget)
  by_cases hsteady : Steady git clock world rows budget
  · refine ⟨_, ?_, iff_of_true (bounded_batch world.memo _ (clock 0) budget) hsteady⟩
    rw [annotateWithin, annotateEach_hits git ((hits_prime git hclock).mpr hsteady), hlog]
  · obtain ⟨cwd, calls, hmem, hne, hmiss⟩ := annotateEach_miss git fun h => hsteady ((hits_prime git hclock).mp h)
    refine ⟨_, ?_, iff_of_false (not_bounded_more hmem hne deadline calls) hsteady⟩
    rw [annotateWithin, hmiss, hlog, List.append_assoc]

/-! ## Whose answer -/

/-- Between the two logs the directory was in a batch, and this is what became of it. -/
def Asked (start final : List Call) (cwd : Text) (result : Resolved) : Prop :=
  ∃ (before : List Call) (batch : List Text) (budget : Nat) (after : List Call), final = before ++ batch.map (fun c => (c, budget)) ++ after ∧ start <+: before ∧
    cwd ∈ batch ∧ conclude cwd (git before cwd budget) = result

/-- What is remembered was remembered before, or is a definite answer since. -/
structure Remembers (start world : World) : Prop where
  log : start.log <+: world.log
  memo : ∀ cwd entry, Assoc.get? world.memo cwd = some entry →
    Assoc.get? start.memo cwd = some entry ∨ Asked git start.log world.log cwd (.known entry.info)

/-- Where the label of a row resolved at `now` comes from: what was remembered at the start is
fresh then. -/
inductive Answered (start world : World) (cwd : Text) (now : Nat) : Option RepoInfo → Prop
  | empty : cwd = [] → Answered start world cwd now none
  | memo {entry : MemoEntry} : Assoc.get? start.memo cwd = some entry → now - entry.at_ < memoTtl →
      Answered start world cwd now entry.info
  | definite {info : Option RepoInfo} : Asked git start.log world.log cwd (.known info) → Answered start world cwd now info
  | timedOut : Asked git start.log world.log cwd .unknown → Answered start world cwd now none

variable {git}

theorem Asked.more {start final : List Call} {cwd : Text} {result : Resolved} (h : Asked git start final cwd result)
    (more : List Call) : Asked git start (final ++ more) cwd result := by
  obtain ⟨before, batch, budget, after, rfl, hrest⟩ := h
  exact ⟨before, batch, budget, after ++ more, by simp, hrest⟩

theorem Answered.more {start world : World} {cwd : Text} {now : Nat} {info : Option RepoInfo}
    (h : Answered git start world cwd now info) {world' : World} (hlog : ∃ calls, world'.log = world.log ++ calls) :
    Answered git start world' cwd now info := by
  obtain ⟨calls, hlog⟩ := hlog
  cases h with
  | empty h => exact .empty h
  | memo h hfresh => exact .memo h hfresh
  | definite h => exact .definite (hlog ▸ h.more calls)
  | timedOut h => exact .timedOut (hlog ▸ h.more calls)

theorem Remembers.prime {start world : World} (h : Remembers git start world) (cwds : List Text) (now budget : Nat) :
    Remembers git start (prime git world cwds now budget) := by
  rw [prime_eq]
  refine ⟨h.log.trans (List.prefix_append _ _), fun cwd entry hget => ?_⟩
  have hbefore : Assoc.get? world.memo cwd = some entry → Assoc.get? start.memo cwd = some entry ∨
      Asked git start.log (world.log ++ (coldCwds world.memo cwds now).map fun c => (c, budget)) cwd (.known entry.info) := by
    intro hget
    rcases h.memo cwd entry hget with hold | hasked
    · exact .inl hold
    · exact .inr (hasked.more _)
  rw [get?_remember world.memo now fun c => conclude c (git world.log c budget)] at hget
  cases hanswer : conclude cwd (git world.log cwd budget) with
  | unknown =>
    rw [hanswer] at hget
    exact hbefore hget
  | known info =>
    rw [hanswer] at hget
    simp only at hget
    split at hget
    next hcold =>
      cases hget
      exact .inr ⟨world.log, _, budget, [], by simp, h.log, hcold, hanswer⟩
    next => exact hbefore hget

theorem Remembers.resolve {start world : World} (h : Remembers git start world) (cwd : Text) (now : Nat) :
    Remembers git start (resolve git world cwd now).2 ∧
      Answered git start (Repo.resolve git world cwd now).2 cwd now (Repo.resolve git world cwd now).1 := by
  rw [Repo.resolve]
  split
  next hempty => exact ⟨h, .empty (List.isEmpty_iff.mp hempty)⟩
  next =>
    split
    next hit hget =>
      refine ⟨h, ?_⟩
      rw [memoGet] at hget
      split at hget
      next => cases hget
      next entry hentry =>
        split at hget
        next hfresh =>
          cases hget
          rcases h.memo cwd entry hentry with hold | hasked
          · exact .memo hold hfresh
          · exact .definite hasked
        next => cases hget
    next =>
      have hasked : ∀ {result : Resolved}, conclude cwd (git world.log cwd deadline) = result →
          Asked git start.log (world.log ++ [(cwd, deadline)]) cwd result := fun hresult =>
        ⟨world.log, [cwd], deadline, [], by simp, h.log, by simp, hresult⟩
      have hlog : start.log <+: world.log ++ [(cwd, deadline)] := h.log.trans (List.prefix_append _ _)
      have hold : ∀ other entry, Assoc.get? world.memo other = some entry → Assoc.get? start.memo other = some entry ∨
          Asked git start.log (world.log ++ [(cwd, deadline)]) other (.known entry.info) := by
        intro other entry hget
        rcases h.memo other entry hget with hold | hasked
        · exact .inl hold
        · exact .inr (hasked.more _)
      simp only [resolveBatchUncached_eq, List.map_cons, List.map_nil, List.getLast?_singleton]
      cases hanswer : conclude cwd (git world.log cwd deadline) with
      | unknown => exact ⟨⟨hlog, hold⟩, .timedOut (hasked hanswer)⟩
      | known info =>
        refine ⟨⟨hlog, fun other entry hget => ?_⟩, .definite (hasked hanswer)⟩
        by_cases hother : other = cwd
        · subst hother
          cases Assoc.get?_set_self.symm.trans hget
          exact .inr (hasked hanswer)
        · exact hold other entry ((Assoc.get?_set_other hother).symm.trans hget)

/-- A row, labelled at `now` with its own directory's answer. -/
def Labelled (git : List Call → Text → Nat → RevParse) (start world : World) (now : Nat) (row labelled : AgentRow) : Prop :=
  ∃ info, labelled = { row with repo := info.map label } ∧
    match row.cwd with
    | none => info = none
    | some cwd => Answered git start world cwd now info

/-- Each row is labelled at its own reading of the clock. -/
def LabelledEach (git : List Call → Text → Nat → RevParse) (start world : World) (clock : Nat → Nat)
    (rows labelled : List AgentRow) : Prop :=
  List.Forall₂ (fun row labelled => Labelled git start world (clock row.2) row.1 labelled) rows.zipIdx labelled

theorem LabelledEach.cons {start world : World} {clock : Nat → Nat} {row row' : AgentRow} {rows labelled : List AgentRow}
    (hrow : Labelled git start world (clock 0) row row')
    (hrows : LabelledEach git start world (fun k => clock (k + 1)) rows labelled) :
    LabelledEach git start world clock (row :: rows) (row' :: labelled) := by
  refine List.Forall₂.cons hrow ?_
  rw [List.zipIdx_succ, List.forall₂_map_left_iff]
  exact hrows

theorem Remembers.resolveRow {start world : World} (h : Remembers git start world) (row : AgentRow) (now : Nat) :
    Remembers git start (resolveRow git world row now).2 ∧
      match row.cwd with
      | none => (Repo.resolveRow git world row now).1 = none
      | some cwd => Answered git start (Repo.resolveRow git world row now).2 cwd now (Repo.resolveRow git world row now).1 := by
  rw [Repo.resolveRow]
  cases row.cwd with
  | none => exact ⟨h, rfl⟩
  | some cwd => exact h.resolve cwd now

theorem Remembers.annotateEach {start : World} (clock : Nat → Nat) {world : World} (h : Remembers git start world)
    (rows : List AgentRow) :
    Remembers git start (annotateEach git clock world rows).2 ∧
      LabelledEach git start (Repo.annotateEach git clock world rows).2 clock rows (Repo.annotateEach git clock world rows).1 := by
  induction rows generalizing clock world with
  | nil => exact ⟨h, .nil⟩
  | cons row rows ih =>
    obtain ⟨hworld, hanswer⟩ := h.resolveRow row (clock 0)
    obtain ⟨hrest, hlabels⟩ := ih (fun k => clock (k + 1)) hworld
    rw [annotateEach_cons]
    refine ⟨hrest, .cons ⟨_, rfl, ?_⟩ hlabels⟩
    cases hcwd : row.cwd with
    | none => simpa [hcwd] using hanswer
    | some cwd =>
      simp only [hcwd] at hanswer ⊢
      exact hanswer.more (annotateEach_log git _ _ _)

/-! ## A refresh -/

/-- **A refresh costs one batch, where its memo holds.** The calls of a refresh ask each cold directory at most once, no
other one, and only under the refresh's own budget, exactly if the memo covers every row when it is resolved: with an entry
that is fresh at the row as it was at the start, or with a definite answer of the batch that is not yet too old. Covered or
not, a definite answer alone is remembered, and each row is labelled with its own directory's answer, a remembered one only
while it is fresh. -/
theorem refresh_cost (git : List Call → Text → Nat → RevParse) (clock : Nat → Nat) (hclock : ∀ k, clock 0 ≤ clock (k + 1))
    (world : World) (rows : List AgentRow) :
    ∀ refresh ∈ [(annotateRows git clock world rows, deadline), (annotateSeedRows git clock world rows, seedBudget)],
      (∃ calls, refresh.1.2.log = world.log ++ calls ∧
        (Bounded world.memo (rows.filterMap AgentRow.cwd) (clock 0) refresh.2 calls ↔ Steady git clock world rows refresh.2)) ∧
      Remembers git world refresh.1.2 ∧ LabelledEach git world refresh.1.2 (fun k => clock (k + 1)) rows refresh.1.1 := by
  have hbudget : ∀ budget, (∃ calls, (annotateWithin git clock world rows budget).2.log = world.log ++ calls ∧
      (Bounded world.memo (rows.filterMap AgentRow.cwd) (clock 0) budget calls ↔ Steady git clock world rows budget)) ∧
      Remembers git world (annotateWithin git clock world rows budget).2 ∧
        LabelledEach git world (annotateWithin git clock world rows budget).2 (fun k => clock (k + 1)) rows
          (annotateWithin git clock world rows budget).1 := by
    intro budget
    have hstart : Remembers git world world := ⟨List.prefix_rfl, fun _ _ => .inl⟩
    exact ⟨annotateWithin_log git clock hclock world rows budget,
      (hstart.prime (rows.filterMap AgentRow.cwd) (clock 0) budget).annotateEach (fun k => clock (k + 1)) rows⟩
  intro refresh hrefresh
  simp only [List.mem_cons, List.not_mem_nil, or_false] at hrefresh
  rcases hrefresh with rfl | rfl
  · exact hbudget deadline
  · exact hbudget seedBudget

def rowAt (cwd : Text) : AgentRow where
  paneId := ['%', '1']
  agent := []
  state := .idle
  since := 0
  session := []
  windowIndex := 0
  paneIndex := 0
  title := []
  cwd := some cwd

/-- A first frame of two rows in a checkout `git` answers for, and one in a directory still
remembered, with the clock running on. -/
theorem refresh_cost_answered :
    ∃ calls, (annotateSeedRows (fun _ _ _ => .done "main\n.git\n.git\n".toList true) (fun k => 7 + k)
        ⟨[("/b".toList, ⟨5, none⟩)], []⟩ [rowAt "/a".toList, rowAt "/b".toList, rowAt "/a".toList]).2.log = calls ∧
      Bounded [("/b".toList, ⟨5, none⟩)] ["/a".toList, "/b".toList, "/a".toList] 7 seedBudget calls := by
  have hcost := (refresh_cost (fun _ _ _ => .done "main\n.git\n.git\n".toList true) (fun k => 7 + k)
    (fun _ => Nat.le_add_right _ _) ⟨[("/b".toList, ⟨5, none⟩)], []⟩ [rowAt "/a".toList, rowAt "/b".toList, rowAt "/a".toList] _
    (List.mem_cons_of_mem _ List.mem_cons_self)).1
  obtain ⟨calls, hlog, hbounded⟩ := hcost
  refine ⟨calls, hlog, hbounded.mpr ?_⟩
  intro i row cwd hrow hcwd hne
  match i, hrow with
  | 0, hrow =>
    cases hrow
    cases hcwd
    exact ⟨⟨_, rfl⟩, (by decide : 7 + 1 - 7 < memoTtl)⟩
  | 1, hrow =>
    cases hrow
    cases hcwd
    rfl
  | 2, hrow =>
    cases hrow
    cases hcwd
    exact ⟨⟨_, rfl⟩, (by decide : 7 + 3 - 7 < memoTtl)⟩

/-- A directory `git` is slow in is asked about again, for as long as any refresh may take. -/
theorem seed_outlasts_its_budget :
    ¬ ∀ (git : List Call → Text → Nat → RevParse) (clock : Nat → Nat) (world : World) (rows : List AgentRow),
        (∀ k, clock k ≤ clock (k + 1)) → ∃ calls, (annotateSeedRows git clock world rows).2.log = world.log ++ calls ∧
          Bounded world.memo (rows.filterMap AgentRow.cwd) (clock 0) seedBudget calls := by
  intro h
  obtain ⟨calls, hlog, hbounded⟩ := h (fun _ _ _ => .timedOut) (fun _ => 7) ⟨[], []⟩ [rowAt "/a".toList]
    fun _ => Nat.le_refl _
  have hcalls : (annotateSeedRows (fun _ _ _ => .timedOut) (fun _ => 7) ⟨[], []⟩ [rowAt "/a".toList]).2.log =
      [("/a".toList, seedBudget), ("/a".toList, deadline)] := by decide +kernel
  rw [hcalls, List.nil_append] at hlog
  rw [← hlog] at hbounded
  have hbudget := hbounded.budget_eq ("/a".toList, deadline) (by simp)
  revert hbudget
  decide

end TmuxAgents.Repo
