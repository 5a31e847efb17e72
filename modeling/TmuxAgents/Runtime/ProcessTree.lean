/-
The processes of a pane and the one its agent is (`subtree`, `leader_pid` and
`has_ancestor_in` of the runtime's `identity.rs`).

A snapshot of `ps` can race a pid's reuse, so the parents of its processes may
loop. The walk and the climb are the library's search and climb over them.
-/
import TmuxAgents.Lib.Choose
import TmuxAgents.Lib.Reach
import TmuxAgents.Persist.Stamp
import TmuxAgents.Runtime.Recognize
import Mathlib.Data.Prod.Lex
import Mathlib.Data.Fintype.Card
import Mathlib.Data.Set.Finite.Basic
import Mathlib.Order.WellFounded

namespace TmuxAgents

open Relation (ReflTransGen TransGen)

/-! ## Names -/

/-- Nix's `wrapProgram` suffix. -/
def nixWrapped : Text := "-wrapped".toList

/-- Undo nix's rename. macOS cuts the name short, so a part of the suffix counts too, longest first. -/
def unwrapNix : Text → Text
  | '.' :: rest =>
    (((List.range' 1 nixWrapped.length).reverse.findSome? fun n => Text.stripSuffix rest (nixWrapped.take n)).filter
      fun name => !name.isEmpty).getD ('.' :: rest)
  | base => base

/-- The executable's name: the first word, then its base name, then without nix's wrapping. -/
def normalizeComm (comm : Text) : Text :=
  let first := (splitWhitespace comm).headD comm
  unwrapNix ((first.splitOn '/').getLast?.getD first)

/-- A process that one of the names matches. -/
def ProcInfo.isNamed (names : List String) (p : ProcInfo) : Bool :=
  names.any fun n => normalizeComm p.comm.toList == n.toList

/-! ## The walk -/

/-- The walk's variables. The frontier is a stack, its top first. -/
structure Walk where
  out : List ProcInfo := []
  frontier : List Nat
  seen : List Nat := []

/-- The children of a process that are not seen yet, as the scan meets them. -/
def freshChildren (procs : List ProcInfo) (pid : Nat) (seen : List Nat) : List Nat :=
  (procs.filter fun p => p.ppid == pid && p.pid != pid && !seen.contains p.pid).map (·.pid)

/-- One turn of the loop, with the popped process. -/
def Walk.turn (procs : List ProcInfo) (w : Walk) (pid : Nat) (frontier : List Nat) : Walk :=
  if pid ∈ w.seen then { w with frontier := frontier }
  else
    { out := w.out ++ procs.filter fun p => p.pid == pid
      frontier := (freshChildren procs pid (w.seen ++ [pid])).reverse ++ frontier
      seen := w.seen ++ [pid] }

/-- What the walk has left to do: every process joins the frontier at most once. -/
def Walk.left (procs : List ProcInfo) (w : Walk) : Nat :=
  w.frontier.length + procs.countP fun p => decide (p.ppid ∉ w.seen)

theorem Walk.turn_left (procs : List ProcInfo) (w : Walk) {pid : Nat} {frontier : List Nat}
    (h : w.frontier = pid :: frontier) : (w.turn procs pid frontier).left procs < w.left procs := by
  unfold Walk.turn
  split
  next => simp [Walk.left, h]
  next hpid =>
    have hpart : (procs.filter fun p => p.ppid == pid && p.pid != pid && !(w.seen ++ [pid]).contains p.pid).length +
        procs.countP (fun p => decide (p.ppid ∉ w.seen ++ [pid])) ≤ procs.countP fun p => decide (p.ppid ∉ w.seen) := by
      rw [← List.countP_eq_length_filter]
      induction procs with
      | nil => simp
      | cons p procs ih =>
        simp only [List.countP_cons]
        by_cases hp : p.ppid = pid
        · simp [hp, hpid] at ih ⊢
          split <;> omega
        · simp [hp] at ih ⊢
          omega
    simp only [Walk.left, freshChildren, h, List.length_append, List.length_reverse, List.length_map,
      List.length_cons] at hpart ⊢
    omega

/-- The loop, until the frontier is empty. -/
def Walk.run (procs : List ProcInfo) (w : Walk) : Walk :=
  match _h : w.frontier with
  | [] => w
  | pid :: frontier => (w.turn procs pid frontier).run procs
termination_by w.left procs
decreasing_by exact w.turn_left procs _h

/-- Every process reachable from `root` via the ppid chain, `root` itself included. -/
def subtree (root : Nat) (procs : List ProcInfo) : List ProcInfo := (Walk.run procs { frontier := [root] }).out

/-! ## The agent's process -/

/-- Does any process of `among` sit on the ppid chain of `p` inside the tree? -/
def hasAncestorIn (p : ProcInfo) (among tree : List ProcInfo) : Bool :=
  Reach.climb (fun ppid => (tree.find? fun q => q.pid == ppid).map (·.ppid)) (fun ppid => among.any fun m => m.pid == ppid)
    tree.length p.ppid

def leaderKey (among tree : List ProcInfo) (p : ProcInfo) : Bool ×ₗ Bool ×ₗ Nat :=
  toLex (hasAncestorIn p among tree, toLex (p.pid != p.pgid, p.pid))

/-- The pid to attribute to the agent: the outermost match, then a group leader, then the lowest. -/
def leaderPid (tree : List ProcInfo) (names : List String) : Option Nat :=
  let found := tree.filter fun p => p.isNamed names
  (Choose.minByKey (leaderKey found tree) found).map (·.pid)

/-! ## What the walk finds -/

section Walk

variable {procs : List ProcInfo} {root : Nat}

/-- One process is the parent of the other, by pids. -/
def IsChild (procs : List ProcInfo) (parent pid : Nat) : Prop := ∃ p ∈ procs, p.ppid = parent ∧ p.pid = pid

/-- A process is reachable from the root through ppid links. -/
def Reaches (procs : List ProcInfo) (root pid : Nat) : Prop := ReflTransGen (IsChild procs) root pid

/-- The walk is a search, and has kept every process of the pids it has seen. -/
structure Walk.Inv (procs : List ProcInfo) (root : Nat) (w : Walk) : Prop where
  searched : Reach.Searched (IsChild procs) root w.frontier w.seen
  out : w.out = w.seen.flatMap fun pid => procs.filter fun p => p.pid == pid

theorem mem_freshChildren {pid : Nat} {seen : List Nat} {y : Nat} :
    y ∈ freshChildren procs pid seen ↔ IsChild procs pid y ∧ y ≠ pid ∧ y ∉ seen := by
  simp only [freshChildren, List.mem_map, List.mem_filter, Bool.and_eq_true, beq_iff_eq, bne_iff_ne, Bool.not_eq_true',
    List.contains_eq_mem, decide_eq_false_iff_not, IsChild]
  constructor
  · rintro ⟨p, ⟨hp, ⟨hparent, hself⟩, hseen⟩, rfl⟩
    exact ⟨⟨p, hp, hparent, rfl⟩, hself, hseen⟩
  · rintro ⟨⟨p, hp, hparent, rfl⟩, hself, hseen⟩
    exact ⟨p, ⟨hp, ⟨hparent, hself⟩, hseen⟩, rfl⟩

theorem Walk.Inv.turn {w : Walk} (hi : w.Inv procs root) {pid : Nat} {frontier : List Nat}
    (h : w.frontier = pid :: frontier) : (w.turn procs pid frontier).Inv procs root := by
  have hs := hi.searched
  rw [h] at hs
  unfold Walk.turn
  split
  next hpid => exact ⟨hs.skip hpid, hi.out⟩
  next hpid =>
    refine ⟨hs.visit hpid ?_ ?_, ?_⟩
    · intro y hy
      exact (mem_freshChildren.mp (List.mem_reverse.mp hy)).1
    · intro y hy
      by_cases hseen : y ∈ w.seen ++ [pid]
      · exact .inl hseen
      · refine .inr (List.mem_reverse.mpr (mem_freshChildren.mpr ⟨hy, ?_, hseen⟩))
        rintro rfl
        exact hseen (by simp)
    · simp only [hi.out, List.flatMap_append, List.flatMap_singleton]

theorem Walk.Inv.run {w : Walk} (hi : w.Inv procs root) :
    (w.run procs).Inv procs root ∧ (w.run procs).frontier = [] := by
  fun_induction Walk.run procs w with
  | case1 w h => exact ⟨hi, h⟩
  | case2 w pid frontier h ih => exact ih (hi.turn h)

/-- What the walk ends with. -/
theorem subtree_walk (root : Nat) (procs : List ProcInfo) :
    ∃ seen : List Nat, seen.Nodup ∧ (∀ pid, pid ∈ seen ↔ Reaches procs root pid) ∧
      subtree root procs = seen.flatMap fun pid => procs.filter fun p => p.pid == pid := by
  have hstart : Walk.Inv procs root { frontier := [root] } := ⟨.start, rfl⟩
  obtain ⟨hi, hfrontier⟩ := hstart.run
  have hs := hi.searched
  rw [hfrontier] at hs
  exact ⟨_, hs.nodup, hs.done, hi.out⟩

theorem mem_subtree {p : ProcInfo} : p ∈ subtree root procs ↔ p ∈ procs ∧ Reaches procs root p.pid := by
  obtain ⟨seen, -, hseen, heq⟩ := subtree_walk root procs
  simp only [heq, List.mem_flatMap, List.mem_filter, beq_iff_eq, hseen]
  constructor
  · rintro ⟨pid, hreach, hp, rfl⟩
    exact ⟨hp, hreach⟩
  · rintro ⟨hp, hreach⟩
    exact ⟨p.pid, hreach, hp, rfl⟩

/-- With distinct pids, a pid is kept at most once. -/
theorem subtree_nodup (hdistinct : (procs.map (·.pid)).Nodup) : ((subtree root procs).map (·.pid)).Nodup := by
  obtain ⟨seen, hnodup, -, heq⟩ := subtree_walk root procs
  have hone (pid : Nat) : (procs.filter fun p => p.pid == pid).map (·.pid) = (procs.map (·.pid)).filter (· == pid) := by
    rw [List.filter_map]
    rfl
  rw [heq, List.map_flatMap]
  simp only [hone]
  rw [List.nodup_flatMap]
  refine ⟨fun pid _ => hdistinct.filter _, hnodup.imp ?_⟩
  intro a b hne
  simp only [Function.onFun, List.disjoint_left, List.mem_filter, beq_iff_eq]
  rintro x ⟨-, rfl⟩ ⟨-, hb⟩
  exact hne hb

end Walk

/-! ## Ancestors -/

section Ancestors

variable {tree : List ProcInfo} {names : List String}

/-- The process above another in the tree. -/
def IsParent (tree : List ProcInfo) (p q : ProcInfo) : Prop := q ∈ tree ∧ q.pid = p.ppid

/-- A proper ancestor in the tree. -/
def IsAncestor (tree : List ProcInfo) (p q : ProcInfo) : Prop := TransGen (IsParent tree) p q

/-- No process of the tree is above itself. -/
def Acyclic (tree : List ProcInfo) : Prop := ∀ p ∈ tree, ¬ IsAncestor tree p p

/-- A match sits above the process. -/
def IsUnder (tree : List ProcInfo) (names : List String) (p : ProcInfo) : Prop :=
  ∃ q, IsAncestor tree p q ∧ q.isNamed names = true

theorem find_pid (hdistinct : (tree.map (·.pid)).Nodup) {q : ProcInfo} (hq : q ∈ tree) :
    tree.find? (fun p => p.pid == q.pid) = some q := by
  induction tree with
  | nil => cases hq
  | cons p tree ih =>
    rw [List.map_cons, List.nodup_cons] at hdistinct
    rcases List.mem_cons.mp hq with rfl | hq
    · simp
    · have hne : (p.pid == q.pid) = false := by
        rw [beq_eq_false_iff_ne]
        intro heq
        exact hdistinct.1 (heq ▸ List.mem_map_of_mem hq)
      rw [List.find?_cons, hne]
      exact ih hdistinct.2 hq

theorem IsAncestor.mem {p q : ProcInfo} (h : IsAncestor tree p q) : q ∈ tree := by
  cases h with
  | single h => exact h.1
  | tail _ h => exact h.1

/-- **The bounded climb finds exactly the matches above**, cycles or not. -/
theorem hasAncestorIn_iff (hdistinct : (tree.map (·.pid)).Nodup) (p : ProcInfo) :
    hasAncestorIn p (tree.filter fun p => p.isNamed names) tree = true ↔ IsUnder tree names p := by
  have hhit (pid : Nat) : ((tree.filter fun p => p.isNamed names).any fun m => m.pid == pid) = true ↔
      ∃ q ∈ tree, q.isNamed names = true ∧ q.pid = pid := by
    simp only [List.any_eq_true, List.mem_filter, beq_iff_eq, and_assoc]
  have hparent (a b : Nat) : (tree.find? fun q => q.pid == a).map (·.ppid) = some b ↔
      ∃ q ∈ tree, q.pid = a ∧ q.ppid = b := by
    rw [Option.map_eq_some_iff]
    constructor
    · rintro ⟨q, hq, hb⟩
      exact ⟨q, List.mem_of_find?_eq_some hq, by simpa using List.find?_some hq, hb⟩
    · rintro ⟨q, hq, rfl, hb⟩
      exact ⟨q, find_pid hdistinct hq, hb⟩
  have hclimb := @Reach.climb_iff Nat (fun ppid => (tree.find? fun q => q.pid == ppid).map (·.ppid))
    (fun ppid => (tree.filter fun p => p.isNamed names).any fun m => m.pid == ppid) (tree.map (·.pid))
    (fun a ha => by
      obtain ⟨q, hq, -, rfl⟩ := (hhit a).mp ha
      exact List.mem_map_of_mem hq)
    (fun a b hab => by
      obtain ⟨q, hq, rfl, -⟩ := (hparent a b).mp hab
      exact List.mem_map_of_mem hq) p.ppid
  rw [List.length_map] at hclimb
  refine hclimb.trans ?_
  clear hclimb
  constructor
  · rintro ⟨b, hreach, hb⟩
    obtain ⟨m, hm, hnamed, rfl⟩ := (hhit b).mp hb
    refine ⟨m, ?_, hnamed⟩
    have hup (a : Nat) (h : ReflTransGen (fun x y => (tree.find? fun q => q.pid == x).map (·.ppid) = some y) a m.pid)
        (p : ProcInfo) (hp : p.ppid = a) : IsAncestor tree p m := by
      induction h using ReflTransGen.head_induction_on generalizing p with
      | refl => exact .single ⟨hm, hp.symm⟩
      | head hstep _ ih =>
        obtain ⟨q, hq, hpid, hppid⟩ := (hparent _ _).mp hstep
        exact .head ⟨hq, hpid.trans hp.symm⟩ (ih q hppid)
    exact hup _ hreach p rfl
  · rintro ⟨m, hup, hnamed⟩
    refine ⟨m.pid, ?_, (hhit m.pid).mpr ⟨m, hup.mem, hnamed, rfl⟩⟩
    induction hup using TransGen.head_induction_on with
    | single h =>
      rw [h.2]
    | head h _ ih => exact .head ((hparent _ _).mpr ⟨_, h.1, h.2, rfl⟩) ih

/-- With no loop in the tree, some match is under no other. -/
theorem exists_outermost (hacyclic : Acyclic tree) {p : ProcInfo} (hp : p ∈ tree) (hnamed : p.isNamed names = true) :
    ∃ q ∈ tree, q.isNamed names = true ∧ ¬ IsUnder tree names q := by
  let above (a b : { q // q ∈ tree }) : Prop := IsAncestor tree b.1 a.1
  have htrans : IsTrans _ above := ⟨fun a b c hab hbc => TransGen.trans hbc hab⟩
  have hirrefl : Std.Irrefl above := ⟨fun a => hacyclic a.1 a.2⟩
  have hfinite : Finite { q // q ∈ tree } := (List.finite_toSet tree).to_subtype
  have hwf : WellFounded above := Finite.wellFounded_of_trans_of_irrefl above
  obtain ⟨q, hq, hmin⟩ := hwf.has_min { q | q.1.isNamed names = true } ⟨⟨p, hp⟩, hnamed⟩
  refine ⟨q.1, q.2, hq, ?_⟩
  rintro ⟨m, hup, hm⟩
  exact hmin ⟨m, hup.mem⟩ hm hup

end Ancestors

/-! ## The choice -/

section Choice

variable {tree : List ProcInfo} {names : List String}

/-- A process that leads its own group. -/
def ProcInfo.Leads (p : ProcInfo) : Prop := p.pid = p.pgid

/-- An outermost match comes first, then a group leader, then the lower pid. -/
def Preferred (tree : List ProcInfo) (names : List String) (p q : ProcInfo) : Prop :=
  (IsUnder tree names p → IsUnder tree names q) ∧
    ((IsUnder tree names q → IsUnder tree names p) →
      (q.Leads → p.Leads) ∧ ((p.Leads → q.Leads) → p.pid ≤ q.pid))

theorem leaderKey_le (hdistinct : (tree.map (·.pid)).Nodup) (p q : ProcInfo) :
    leaderKey (tree.filter fun p => p.isNamed names) tree p ≤ leaderKey (tree.filter fun p => p.isNamed names) tree q ↔
      Preferred tree names p q := by
  have hbool {a b : Bool} {m n : Bool ×ₗ Nat} :
      toLex (a, m) ≤ toLex (b, n) ↔ (a = true → b = true) ∧ ((b = true → a = true) → m ≤ n) := by
    rw [Prod.Lex.toLex_le_toLex]
    cases a <;> cases b <;> simp
  have hbool' {a b : Bool} {m n : Nat} :
      toLex (a, m) ≤ toLex (b, n) ↔ (a = true → b = true) ∧ ((b = true → a = true) → m ≤ n) := by
    rw [Prod.Lex.toLex_le_toLex]
    cases a <;> cases b <;> simp
  simp only [leaderKey, hbool, hbool', hasAncestorIn_iff hdistinct, Preferred, ProcInfo.Leads, bne_iff_ne, ne_eq,
    not_imp_not]

theorem leaderKey_injective (among tree : List ProcInfo) {p q : ProcInfo}
    (h : leaderKey among tree p = leaderKey among tree q) : p.pid = q.pid :=
  congrArg (fun key : Bool ×ₗ Bool ×ₗ Nat => (ofLex (ofLex key).2).2) h

theorem eq_of_pid (hdistinct : (tree.map (·.pid)).Nodup) {p q : ProcInfo} (hp : p ∈ tree) (hq : q ∈ tree)
    (h : p.pid = q.pid) : p = q := by
  have hfind := find_pid hdistinct hp
  rw [h, find_pid hdistinct hq] at hfind
  exact (Option.some.inj hfind).symm

/-- The pid answered is the most preferred match's. -/
theorem leaderPid_eq_some (hdistinct : (tree.map (·.pid)).Nodup) (pid : Nat) :
    leaderPid tree names = some pid ↔
      ∃ p ∈ tree, p.isNamed names = true ∧ p.pid = pid ∧
        ∀ q ∈ tree, q.isNamed names = true → Preferred tree names p q := by
  have hkey : ∀ p ∈ tree.filter fun p => p.isNamed names, ∀ q ∈ tree.filter fun p => p.isNamed names,
      leaderKey (tree.filter fun p => p.isNamed names) tree p =
        leaderKey (tree.filter fun p => p.isNamed names) tree q → p = q :=
    fun p hp q hq h => eq_of_pid hdistinct (List.mem_of_mem_filter hp) (List.mem_of_mem_filter hq)
      (leaderKey_injective _ _ h)
  simp only [leaderPid, Option.map_eq_some_iff, Choose.minByKey_eq_some_iff hkey, leaderKey_le hdistinct,
    List.mem_filter, and_assoc, and_imp]
  constructor
  · rintro ⟨p, hp, hnamed, hbest, hpid⟩
    exact ⟨p, hp, hnamed, hpid, hbest⟩
  · rintro ⟨p, hp, hnamed, hpid, hbest⟩
    exact ⟨p, hp, hnamed, hbest, hpid⟩

theorem leaderPid_eq_none : leaderPid tree names = none ↔ ∀ p ∈ tree, p.isNamed names = false := by
  simp only [leaderPid, Option.map_eq_none_iff, Choose.minByKey_eq_none, List.filter_eq_nil_iff, Bool.not_eq_true]

theorem preferred_congr {tree' : List ProcInfo} (h : ∀ p, p ∈ tree' ↔ p ∈ tree) (p q : ProcInfo) :
    Preferred tree' names p q ↔ Preferred tree names p q := by
  have hparent : IsParent tree' = IsParent tree := by
    funext p q
    exact propext (and_congr_left' (h q))
  simp only [Preferred, IsUnder, IsAncestor, hparent]

/-- The order of the tree does not matter. -/
theorem leaderPid_perm {tree' : List ProcInfo} (hperm : tree'.Perm tree) (hdistinct : (tree.map (·.pid)).Nodup) :
    leaderPid tree' names = leaderPid tree names := by
  have hdistinct' : (tree'.map (·.pid)).Nodup := (hperm.map _).nodup_iff.mpr hdistinct
  have hmem (p : ProcInfo) : p ∈ tree' ↔ p ∈ tree := hperm.mem_iff
  apply Option.ext
  intro pid
  rw [leaderPid_eq_some hdistinct', leaderPid_eq_some hdistinct]
  simp only [hmem, preferred_congr hmem]

end Choice

/-! ## The whole -/

theorem reaches_perm {procs procs' : List ProcInfo} (hperm : procs'.Perm procs) (root pid : Nat) :
    Reaches procs' root pid ↔ Reaches procs root pid := by
  have hchild : IsChild procs' = IsChild procs := by
    funext parent pid
    simp only [IsChild, hperm.mem_iff]
  rw [Reaches, Reaches, hchild]

theorem subtree_perm {procs procs' : List ProcInfo} (hperm : procs'.Perm procs) (hdistinct : (procs.map (·.pid)).Nodup)
    (root : Nat) : (subtree root procs').Perm (subtree root procs) := by
  have hdistinct' : (procs'.map (·.pid)).Nodup := (hperm.map _).nodup_iff.mpr hdistinct
  refine (List.perm_ext_iff_of_nodup (List.Nodup.of_map _ (subtree_nodup hdistinct'))
    (List.Nodup.of_map _ (subtree_nodup hdistinct))).mpr ?_
  intro p
  rw [mem_subtree, mem_subtree, hperm.mem_iff, reaches_perm hperm]

/-- **The processes of a pane and its agent's, for every snapshot.** The walk ends, with every reachable process once;
the pid answered is a match's, under no other match where the tree has no loop, and the most preferred one; the order
of the snapshot does not matter. -/
theorem process_tree_walk (procs : List ProcInfo) (hdistinct : (procs.map (·.pid)).Nodup) (root : Nat)
    (names : List String) :
    ((subtree root procs).map (·.pid)).Nodup ∧
    (∀ p, p ∈ subtree root procs ↔ p ∈ procs ∧ Reaches procs root p.pid) ∧
    (leaderPid (subtree root procs) names = none ↔ ∀ p ∈ subtree root procs, p.isNamed names = false) ∧
    (∀ pid, leaderPid (subtree root procs) names = some pid →
      ∃ p ∈ subtree root procs, p.isNamed names = true ∧ p.pid = pid ∧
        (Acyclic (subtree root procs) → ¬ IsUnder (subtree root procs) names p) ∧
        ∀ q ∈ subtree root procs, q.isNamed names = true → Preferred (subtree root procs) names p q) ∧
    ∀ procs' : List ProcInfo, procs'.Perm procs →
      (subtree root procs').Perm (subtree root procs) ∧
        leaderPid (subtree root procs') names = leaderPid (subtree root procs) names := by
  have hnodup := @subtree_nodup procs root hdistinct
  refine ⟨hnodup, fun p => mem_subtree, leaderPid_eq_none, ?_, ?_⟩
  · intro pid h
    obtain ⟨p, hp, hnamed, hpid, hbest⟩ := (leaderPid_eq_some hnodup pid).mp h
    refine ⟨p, hp, hnamed, hpid, ?_, hbest⟩
    intro hacyclic hunder
    obtain ⟨q, hq, hqnamed, hout⟩ := exists_outermost hacyclic hp hnamed
    exact hout ((hbest q hq hqnamed).1 hunder)
  · intro procs' hperm
    have htree := subtree_perm hperm hdistinct root
    exact ⟨htree, leaderPid_perm htree hnodup⟩

/-- An agent, and a child of its name that leads its own group and has the lower pid. -/
def namesake : List ProcInfo :=
  [{ pid := 100, ppid := 1, pgid := 100, tpgid := some 600, comm := "-zsh" },
    { pid := 600, ppid := 100, pgid := 600, tpgid := some 600, comm := "pi" },
    { pid := 234, ppid := 600, pgid := 234, tpgid := some 600, comm := "node" }]

/-- The agent outranks its namesake. -/
theorem process_tree_walk_namesake :
    leaderPid (subtree 100 namesake) ["node", "pi"] = some 600 ∧
      leaderPid (subtree 100 namesake.reverse) ["node", "pi"] = some 600 := by
  have hleader : leaderPid (subtree 100 namesake) ["node", "pi"] = some 600 := by decide +kernel
  refine ⟨hleader, ?_⟩
  have hwalk := process_tree_walk namesake (by decide) 100 ["node", "pi"]
  rw [(hwalk.2.2.2.2 _ (List.reverse_perm namesake)).2, hleader]

end TmuxAgents
