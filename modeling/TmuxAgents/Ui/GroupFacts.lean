/-
Grouped rows and the lines they are drawn on.

A line list (`lines`) stands between the two maps: `rowAtDisplay` reads it, and
`displayIndex` says where it holds a row. Both follow from the groups being
numbered on from one another (`Contiguous`), which is how the model caches them.
-/
import TmuxAgents.Ui.Group

namespace TmuxAgents.Ui

/-! ## Buckets -/

/-- The rows of one repository, in order. -/
def membersOf (rows : List AgentRow) (key : RepoKey) : List Nat :=
  (List.range rows.length).filter fun i => (rows[i]?).map repoKey = some key

theorem mem_membersOf {rows : List AgentRow} {key : RepoKey} {i : Nat} :
    i ∈ membersOf rows key ↔ (rows[i]?).map repoKey = some key := by
  simp only [membersOf, List.mem_filter, List.mem_range, decide_eq_true_eq, and_iff_right_iff_imp]
  intro h
  obtain ⟨row, hrow, -⟩ := Option.map_eq_some_iff.mp h
  exact (List.getElem?_eq_some_iff.mp hrow).1

theorem membersOf_concat (rows : List AgentRow) (row : AgentRow) (key : RepoKey) :
    membersOf (rows ++ [row]) key = membersOf rows key ++ if repoKey row = key then [rows.length] else [] := by
  have hold : ∀ i ∈ List.range rows.length, ((rows ++ [row])[i]?).map repoKey = (rows[i]?).map repoKey := by
    intro i hi
    rw [List.getElem?_append_left (List.mem_range.mp hi)]
  rw [membersOf, List.length_append, List.length_singleton, List.range_succ, List.filter_append,
    List.filter_congr fun i hi => by rw [hold i hi], membersOf, List.filter_singleton]
  simp

/-- The buckets of the rows: one for each repository, with its rows in order. -/
structure Bucketed (rows : List AgentRow) (buckets : Buckets) : Prop where
  keys : (buckets.map Prod.fst).Nodup
  members : ∀ key, (Assoc.get? buckets key).getD [] = membersOf rows key
  nonempty : ∀ bucket ∈ buckets, bucket.2 ≠ []

theorem Bucketed.join {rows : List AgentRow} {buckets : Buckets} (h : Bucketed rows buckets) (row : AgentRow) :
    Bucketed (rows ++ [row]) (joinBucket buckets (repoKey row) rows.length) where
  keys := Assoc.nodup_set h.keys
  members := by
    intro key
    rw [membersOf_concat, ← h.members key, joinBucket]
    by_cases hkey : repoKey row = key
    · subst hkey
      rw [Assoc.get?_set_self, if_pos rfl]
      rfl
    · rw [Assoc.get?_set_other (Ne.symm hkey), if_neg hkey, List.append_nil]
  nonempty := by
    intro bucket hbucket
    rcases Assoc.mem_set hbucket with hold | rfl
    · exact h.nonempty bucket hold
    · simp

theorem Bucketed.from {before : List AgentRow} {buckets : Buckets} (h : Bucketed before buckets) (rows : List AgentRow) :
    Bucketed (before ++ rows) (bucketsFrom before.length buckets rows) := by
  induction rows generalizing before buckets with
  | nil => simpa [bucketsFrom] using h
  | cons row rows ih =>
    have hnext := ih (h.join row)
    rw [List.append_assoc, List.length_append] at hnext
    exact hnext

theorem buckets_bucketed (rows : List AgentRow) : Bucketed rows (buckets rows) := by
  have hempty : Bucketed [] [] := ⟨by simp, by simp [membersOf], by simp⟩
  exact hempty.from rows

theorem mem_buckets {rows : List AgentRow} {bucket : RepoKey × List Nat} :
    bucket ∈ buckets rows ↔ bucket.2 = membersOf rows bucket.1 ∧ bucket.2 ≠ [] := by
  have hbuckets := buckets_bucketed rows
  constructor
  · intro h
    have hmembers := hbuckets.members bucket.1
    rw [Assoc.get?_of_mem hbuckets.keys h] at hmembers
    exact ⟨hmembers, hbuckets.nonempty bucket h⟩
  · rintro ⟨hmembers, hne⟩
    have hget := hbuckets.members bucket.1
    rw [← hmembers] at hget
    cases hfound : Assoc.get? (buckets rows) bucket.1 with
    | none =>
      rw [hfound] at hget
      exact absurd hget.symm hne
    | some members =>
      rw [hfound] at hget
      exact Assoc.mem_of_get? (hfound.trans (congrArg some hget))

theorem orderedBuckets_perm (rows : List AgentRow) : (orderedBuckets rows).Perm (buckets rows) :=
  List.perm_insertionSort _ _

theorem mem_orderedBuckets {rows : List AgentRow} {bucket : RepoKey × List Nat} :
    bucket ∈ orderedBuckets rows ↔ bucket.2 = membersOf rows bucket.1 ∧ bucket.2 ≠ [] :=
  (orderedBuckets_perm rows).mem_iff.trans mem_buckets

/-! ## The order of groups -/

theorem groupOrder_key {rows : List AgentRow} {a b : RepoKey × List Nat} (h : groupOrder rows a = groupOrder rows b) :
    a.1 = b.1 := by
  have hlast := congrArg (fun order => (ofLex (ofLex order).2).2) h
  exact hlast

/-- No two groups tie. -/
theorem orderedBuckets_strict (rows : List AgentRow) :
    (orderedBuckets rows).Pairwise fun a b => groupOrder rows a < groupOrder rows b := by
  have hsorted : (orderedBuckets rows).Pairwise fun a b => groupOrder rows a ≤ groupOrder rows b := by
    have htotal : Std.Total fun a b : RepoKey × List Nat => groupOrder rows a ≤ groupOrder rows b :=
      ⟨fun a b => le_total (groupOrder rows a) (groupOrder rows b)⟩
    have htrans : IsTrans (RepoKey × List Nat) fun a b => groupOrder rows a ≤ groupOrder rows b :=
      ⟨fun _ _ _ => le_trans⟩
    exact List.pairwise_insertionSort _ _
  have hkeys : (orderedBuckets rows).Pairwise fun a b => a.1 ≠ b.1 := by
    have hnodup : ((orderedBuckets rows).map Prod.fst).Nodup :=
      ((orderedBuckets_perm rows).map Prod.fst).nodup_iff.mpr (buckets_bucketed rows).keys
    exact List.pairwise_map.mp hnodup
  refine (hsorted.and hkeys).imp ?_
  intro a b h
  exact lt_of_le_of_ne h.1 fun heq => h.2 (groupOrder_key heq)

/-! ## The partition -/

theorem membersOf_sorted (rows : List AgentRow) (key : RepoKey) : (membersOf rows key).Pairwise (· < ·) :=
  List.Pairwise.filter _ List.pairwise_lt_range

/-- Every row is in one group. -/
theorem orderedBuckets_partition (rows : List AgentRow) :
    ((orderedBuckets rows).flatMap Prod.snd).Perm (List.range rows.length) := by
  have hnodup : ((orderedBuckets rows).flatMap Prod.snd).Nodup := by
    refine List.nodup_flatMap.mpr ⟨fun bucket hbucket => ?_, ?_⟩
    · rw [(mem_orderedBuckets.mp hbucket).1]
      exact (membersOf_sorted rows bucket.1).imp Nat.ne_of_lt
    · have hstrict := orderedBuckets_strict rows
      refine hstrict.imp_of_mem ?_
      intro a b ha hb hlt i hia hib
      rw [(mem_orderedBuckets.mp ha).1, mem_membersOf] at hia
      rw [(mem_orderedBuckets.mp hb).1, mem_membersOf, hia] at hib
      have hbuckets : a = b := by
        refine Prod.ext (Option.some.inj hib) ?_
        rw [(mem_orderedBuckets.mp ha).1, (mem_orderedBuckets.mp hb).1, Option.some.inj hib]
      exact absurd (hbuckets ▸ hlt) (lt_irrefl _)
  refine (List.perm_ext_iff_of_nodup hnodup List.nodup_range).mpr fun i => ?_
  rw [List.mem_flatMap, List.mem_range]
  constructor
  · rintro ⟨bucket, hbucket, hi⟩
    rw [(mem_orderedBuckets.mp hbucket).1, mem_membersOf] at hi
    obtain ⟨row, hrow, -⟩ := Option.map_eq_some_iff.mp hi
    exact (List.getElem?_eq_some_iff.mp hrow).1
  · intro hi
    have hmem : i ∈ membersOf rows (repoKey rows[i]) := mem_membersOf.mpr (by simp [hi])
    exact ⟨(repoKey rows[i], membersOf rows (repoKey rows[i])),
      mem_orderedBuckets.mpr ⟨rfl, List.ne_nil_of_mem hmem⟩, hmem⟩

/-! ## Lines -/

/-- The lines drawn: a header, then its rows. -/
def lines : List Group → List (Option Nat)
  | [] => []
  | g :: groups => none :: (g.members.map some ++ lines groups)

/-- Groups that are not empty, their members numbered on from `start`. -/
def Contiguous : Nat → List Group → Prop
  | _, [] => True
  | start, g :: groups =>
    g.members ≠ [] ∧ g.members = List.range' start g.members.length ∧ Contiguous (start + g.members.length) groups

/-- The rows under the groups. -/
def rowCount (groups : List Group) : Nat := (groups.map fun g => g.members.length).sum

theorem rowCount_cons (g : Group) (groups : List Group) : rowCount (g :: groups) = g.members.length + rowCount groups := by
  simp [rowCount]

theorem cachedFrom_contiguous {groups : List Group} (h : ∀ g ∈ groups, g.members ≠ []) (start : Nat) :
    Contiguous start (cachedFrom start groups) := by
  induction groups generalizing start with
  | nil => trivial
  | cons g groups ih =>
    have hne := List.length_pos_iff.mpr (h g List.mem_cons_self)
    have hrest := ih (fun g' hg' => h g' (List.mem_cons_of_mem _ hg')) (start + g.members.length)
    refine ⟨?_, ?_, ?_⟩
    · rw [← List.length_pos_iff]
      simpa using hne
    · simp
    · simpa using hrest

theorem length_lines (groups : List Group) : (lines groups).length = rowCount groups + groups.length := by
  induction groups with
  | nil => rfl
  | cons g groups ih =>
    rw [lines, rowCount_cons]
    simp only [List.length_cons, List.length_append, List.length_map, ih]
    omega

theorem mem_members {start r : Nat} {g : Group} (h : g.members = List.range' start g.members.length) :
    r ∈ g.members ↔ start ≤ r ∧ r < start + g.members.length := by
  conv_lhs => rw [h]
  exact List.mem_range'_1

theorem mem_lines {start r : Nat} {groups : List Group} (h : Contiguous start groups) :
    some r ∈ lines groups ↔ start ≤ r ∧ r < start + rowCount groups := by
  induction groups generalizing start with
  | nil =>
    simp only [lines, List.not_mem_nil, rowCount, List.map_nil, List.sum_nil, false_iff]
    omega
  | cons g groups ih =>
    obtain ⟨-, hmembers, hrest⟩ := h
    rw [lines, rowCount_cons]
    simp only [List.mem_cons, reduceCtorEq, false_or, List.mem_append, List.mem_map, Option.some.injEq, exists_eq_right,
      mem_members hmembers, ih hrest]
    omega

/-- Rows come in their order. -/
theorem lines_sorted {start : Nat} {groups : List Group} (h : Contiguous start groups) :
    (lines groups).Pairwise fun x y => ∀ a b, x = some a → y = some b → a < b := by
  induction groups generalizing start with
  | nil => exact .nil
  | cons g groups ih =>
    obtain ⟨-, hmembers, hrest⟩ := h
    refine .cons (by simp) (List.pairwise_append.mpr ⟨?_, ih hrest, ?_⟩)
    · rw [hmembers]
      refine List.pairwise_map.mpr ((List.pairwise_lt_range' 1).imp ?_)
      intro a b hab a' b' ha hb
      cases ha
      cases hb
      exact hab
    · intro x hx y hy a b ha hb
      subst ha
      subst hb
      have hmem : a ∈ g.members := by simpa using hx
      have ha := (mem_members hmembers).mp hmem
      have hb := (mem_lines hrest).mp hy
      omega

theorem lines_lt {start : Nat} {groups : List Group} (h : Contiguous start groups) {i j a b : Nat}
    (hi : (lines groups)[i]? = some (some a)) (hj : (lines groups)[j]? = some (some b)) : i < j ↔ a < b := by
  have hforward : ∀ {i j a b : Nat}, (lines groups)[i]? = some (some a) → (lines groups)[j]? = some (some b) → i < j → a < b := by
    intro i j a b hi hj hij
    obtain ⟨hil, hi⟩ := List.getElem?_eq_some_iff.mp hi
    obtain ⟨hjl, hj⟩ := List.getElem?_eq_some_iff.mp hj
    exact List.pairwise_iff_getElem.mp (lines_sorted h) i j hil hjl hij a b hi hj
  refine ⟨hforward hi hj, fun hab => ?_⟩
  rcases Nat.lt_trichotomy i j with hij | rfl | hji
  · exact hij
  · rw [hi] at hj
    cases hj
    exact absurd hab (Nat.lt_irrefl _)
  · have hba := hforward hj hi hji
    omega

/-- The walk reads the line. -/
theorem rowAtFrom_eq {start : Nat} {groups : List Group} (h : Contiguous start groups) (cursor line : Nat) :
    rowAtFrom cursor (cursor + line) groups = ((lines groups)[line]?).getD none := by
  induction groups generalizing start cursor line with
  | nil => simp [rowAtFrom, lines]
  | cons g groups ih =>
    obtain ⟨hne, hmembers, hrest⟩ := h
    rw [rowAtFrom, lines]
    cases line with
    | zero => simp
    | succ line =>
      have hcursor : cursor + (line + 1) ≠ cursor := by omega
      rw [if_neg hcursor, List.getElem?_cons_succ]
      by_cases hin : line < g.members.length
      · have hhead : g.members.head? = some start := by
          have hlength := List.length_pos_iff.mpr hne
          rw [hmembers, List.head?_range']
          simp only [Nat.ne_of_gt hlength, if_false]
        have hget : (g.members.map some ++ lines groups)[line]? = some (some (start + line)) := by
          rw [List.getElem?_append_left (by simpa using hin), List.getElem?_map, hmembers, List.getElem?_range' hin]
          simp
        rw [if_pos (by omega), hhead, hget]
        simp only [Option.map_some, Option.getD_some, Option.some.injEq]
        omega
      · have hget : (g.members.map some ++ lines groups)[line]? = (lines groups)[line - g.members.length]? := by
          rw [List.getElem?_append_right (by simpa using hin), List.length_map]
        have hline : cursor + (line + 1) = cursor + 1 + g.members.length + (line - g.members.length) := by omega
        rw [if_neg (by omega), hget, hline]
        exact ih hrest _ _

/-- A row's line holds the row. -/
theorem displayIndexFrom_eq {start : Nat} {groups : List Group} (h : Contiguous start groups) {r : Nat} (hstart : start ≤ r)
    (hend : r < start + rowCount groups) (headers : Nat) :
    ∃ line, displayIndexFrom headers r groups = start + headers + line ∧ (lines groups)[line]? = some (some r) := by
  induction groups generalizing start headers with
  | nil =>
    simp only [rowCount, List.map_nil, List.sum_nil] at hend
    omega
  | cons g groups ih =>
    obtain ⟨hne, hmembers, hrest⟩ := h
    rw [rowCount_cons] at hend
    rw [displayIndexFrom, lines]
    by_cases hin : r < start + g.members.length
    · have hmem : g.members.contains r = true := by simpa using (mem_members hmembers).mpr ⟨hstart, hin⟩
      refine ⟨r - start + 1, by rw [if_pos hmem]; omega, ?_⟩
      rw [List.getElem?_cons_succ, List.getElem?_append_left (by rw [List.length_map]; omega), List.getElem?_map, hmembers,
        List.getElem?_range' (by omega)]
      simp only [Option.map_some, Option.some.injEq]
      omega
    · have hmem : g.members.contains r = false := by
        have hout : r ∉ g.members := fun h => hin ((mem_members hmembers).mp h).2
        simpa using hout
      obtain ⟨line, hindex, hget⟩ := ih hrest (by omega) (by omega) (headers + 1)
      refine ⟨line + g.members.length + 1, by rw [hmem, if_neg Bool.false_ne_true, hindex]; omega, ?_⟩
      rw [List.getElem?_cons_succ, List.getElem?_append_right (by rw [List.length_map]; omega), List.length_map,
        Nat.add_sub_cancel, hget]

section

variable {groups : List Group} (h : Contiguous 0 groups) (hne : groups ≠ [])

include h

theorem displayIndex_line {r : Nat} (hr : r < rowCount groups) : (lines groups)[displayIndex groups r]? = some (some r) := by
  obtain ⟨line, hindex, hget⟩ := displayIndexFrom_eq h (Nat.zero_le r) (by omega) 0
  rw [displayIndex, hindex]
  simpa using hget

include hne

theorem rowAtDisplay_line (line : Nat) : rowAtDisplay groups (rowCount groups) line = ((lines groups)[line]?).getD none := by
  have hwalk := rowAtFrom_eq h 0 line
  rw [rowAtDisplay, if_neg (by simpa using hne)]
  simpa using hwalk

omit h in
theorem displayLen_eq : displayLen groups (rowCount groups) = (lines groups).length := by
  rw [displayLen, if_neg (by simpa using hne), length_lines]

theorem displayIndex_lt {r : Nat} (hr : r < rowCount groups) : displayIndex groups r < displayLen groups (rowCount groups) := by
  rw [displayLen_eq hne]
  exact (List.getElem?_eq_some_iff.mp (displayIndex_line h hr)).1

theorem rowAtDisplay_displayIndex {r : Nat} (hr : r < rowCount groups) :
    rowAtDisplay groups (rowCount groups) (displayIndex groups r) = some r := by
  rw [rowAtDisplay_line h hne, displayIndex_line h hr]
  rfl

/-- A line below the end is a row's, or a header. -/
theorem line_cases {line : Nat} (hline : line < displayLen groups (rowCount groups)) :
    (∃ r < rowCount groups, displayIndex groups r = line) ∨
      (lines groups)[line]? = some none ∧ rowAtDisplay groups (rowCount groups) line = none := by
  rw [displayLen_eq hne] at hline
  have hget := List.getElem?_eq_getElem hline
  cases hrow : (lines groups)[line] with
  | none =>
    rw [hrow] at hget
    exact .inr ⟨hget, by rw [rowAtDisplay_line h hne, hget]; rfl⟩
  | some r =>
    rw [hrow] at hget
    have hr := ((mem_lines h).mp (List.mem_of_getElem? hget)).2
    rw [Nat.zero_add] at hr
    have hindex := displayIndex_line h hr
    refine .inl ⟨r, hr, ?_⟩
    have hlt := lines_lt h hindex hget
    have hgt := lines_lt h hget hindex
    omega

omit hne

theorem displayIndex_strictMono {r r' : Nat} (hr' : r' < rowCount groups) (hlt : r < r') :
    displayIndex groups r < displayIndex groups r' :=
  (lines_lt h (displayIndex_line h (hlt.trans hr')) (displayIndex_line h hr')).mpr hlt

end

/-! ## Rows in group order -/

theorem groupRows_members_ne {rows : List AgentRow} {g : Group} (h : g ∈ groupRows rows) : g.members ≠ [] := by
  obtain ⟨bucket, hbucket, rfl⟩ := List.mem_map.mp h
  exact (mem_orderedBuckets.mp hbucket).2

theorem flatMap_members (rows : List AgentRow) :
    ((groupRows rows).flatMap Group.members).Perm (List.range rows.length) := by
  rw [groupRows, List.flatMap_map]
  exact orderedBuckets_partition rows

theorem rowCount_eq (groups : List Group) : rowCount groups = (groups.flatMap Group.members).length := by
  rw [List.length_flatMap, rowCount]

theorem rowCount_groupRows (rows : List AgentRow) : rowCount (groupRows rows) = rows.length := by
  rw [rowCount_eq, (flatMap_members rows).length_eq, List.length_range]

theorem rowCount_cachedFrom (start : Nat) (groups : List Group) : rowCount (cachedFrom start groups) = rowCount groups := by
  induction groups generalizing start with
  | nil => rfl
  | cons g groups ih => rw [cachedFrom, rowCount_cons, rowCount_cons, ih, List.length_range']

theorem filterMap_range (rows : List AgentRow) : (List.range rows.length).filterMap (rows[·]?) = rows := by
  induction rows with
  | nil => rfl
  | cons row rows ih =>
    rw [List.length_cons, List.range_succ_eq_map, List.filterMap_cons, List.filterMap_map]
    simpa [Function.comp_def] using ih

theorem regroupRows_perm (rows : List AgentRow) : (regroupRows rows).1.Perm rows := by
  have hflat : (regroupRows rows).1 = ((groupRows rows).flatMap Group.members).filterMap (rows[·]?) := by
    rw [regroupRows, List.filterMap_flatMap]
  rw [hflat]
  exact ((flatMap_members rows).filterMap _).trans (.of_eq (filterMap_range rows))

theorem length_regroupRows (rows : List AgentRow) : (regroupRows rows).1.length = rows.length :=
  (regroupRows_perm rows).length_eq

theorem regroupRows_contiguous (rows : List AgentRow) : Contiguous 0 (regroupRows rows).2 :=
  cachedFrom_contiguous (fun _ hg => groupRows_members_ne hg) 0

theorem rowCount_regroupRows (rows : List AgentRow) : rowCount (regroupRows rows).2 = (regroupRows rows).1.length := by
  rw [regroupRows, rowCount_cachedFrom, rowCount_groupRows, ← length_regroupRows]
  rfl

theorem regroupRows_ne {rows : List AgentRow} (h : rows ≠ []) : (regroupRows rows).2 ≠ [] := by
  intro hnil
  have hcount := rowCount_regroupRows rows
  rw [hnil, length_regroupRows] at hcount
  exact h (List.length_eq_zero_iff.mp hcount.symm)

/-! ## The first row -/

/-- In the picker's order. -/
def Flat (rows : List AgentRow) : Prop := rows.Pairwise fun a b => rowUrgency a ≤ rowUrgency b

theorem sorted_flat (rows : List AgentRow) : Flat (sorted rows) := by
  have htotal : Std.Total fun a b : AgentRow => rowUrgency a ≤ rowUrgency b :=
    ⟨fun a b => le_total (rowUrgency a) (rowUrgency b)⟩
  have htrans : IsTrans AgentRow fun a b => rowUrgency a ≤ rowUrgency b := ⟨fun _ _ _ => le_trans⟩
  exact List.pairwise_insertionSort _ _

theorem rowRank_le {a b : AgentRow} (h : rowUrgency a ≤ rowUrgency b) : rowRank a ≤ rowRank b := by
  rw [rowUrgency, rowUrgency, Prod.Lex.toLex_le_toLex] at h
  simp only at h
  omega

theorem since_le {a b : AgentRow} (h : rowUrgency a ≤ rowUrgency b) (hrank : rowRank a = rowRank b) : a.since ≤ b.since := by
  rw [rowUrgency, rowUrgency, Prod.Lex.toLex_le_toLex] at h
  simp only at h
  omega

/-- A group of rows in order is as urgent as its first one. -/
theorem urgency_flat {rows : List AgentRow} {members : List Nat} {first : AgentRow} {held : List AgentRow}
    (hheld : members.filterMap (rows[·]?) = first :: held) (hflat : Flat (first :: held)) :
    urgency rows members = rowUrgency first := by
  have hle : ∀ row ∈ first :: held, rowUrgency first ≤ rowUrgency row := by
    intro row hrow
    rcases List.mem_cons.mp hrow with rfl | hrow
    · exact le_refl _
    · exact (List.pairwise_cons.mp hflat).1 row hrow
  have hbest : ((first :: held).map rowRank).min? = some (rowRank first) := by
    refine List.min?_eq_some_iff.mpr ⟨by simp, fun rank hrank => ?_⟩
    obtain ⟨row, hrow, rfl⟩ := List.mem_map.mp hrank
    exact rowRank_le (hle row hrow)
  have hsince : (((first :: held).filter fun row => rowRank row = rowRank first).map AgentRow.since).min? = some first.since := by
    refine List.min?_eq_some_iff.mpr ⟨by simp, fun since hmem => ?_⟩
    obtain ⟨row, hrow, rfl⟩ := List.mem_map.mp hmem
    obtain ⟨hrow, hrank⟩ := List.mem_filter.mp hrow
    exact since_le (hle row hrow) (by simpa using hrank : rowRank row = rowRank first).symm
  rw [urgency, hheld]
  simp only [hbest, Option.getD_some, hsince]
  rfl

/-- The rows of a group, in order. -/
theorem heldBy_flat {rows : List AgentRow} (hflat : Flat rows) {members : List Nat} (h : members.Pairwise (· < ·)) :
    Flat (members.filterMap (rows[·]?)) := by
  refine List.pairwise_filterMap.mpr (h.imp ?_)
  intro i j hij a ha b hb
  obtain ⟨hi, rfl⟩ := List.getElem?_eq_some_iff.mp ha
  obtain ⟨hj, rfl⟩ := List.getElem?_eq_some_iff.mp hb
  exact List.pairwise_iff_getElem.mp hflat i j hi hj hij

theorem mem_of_members {rows : List AgentRow} {key : RepoKey} {row : AgentRow}
    (h : row ∈ (membersOf rows key).filterMap (rows[·]?)) : row ∈ rows ∧ repoKey row = key := by
  obtain ⟨i, hi, hrow⟩ := List.mem_filterMap.mp h
  rw [mem_membersOf, hrow, Option.map_some, Option.some.injEq] at hi
  exact ⟨List.mem_of_getElem? hrow, hi⟩

/-- The first row leads its repository's. -/
theorem membersOf_head (row : AgentRow) (rows : List AgentRow) :
    ∃ held, (membersOf (row :: rows) (repoKey row)).filterMap ((row :: rows)[·]?) = row :: held := by
  rw [membersOf, List.length_cons, List.range_succ_eq_map, List.filter_cons_of_pos (by simp), List.filterMap_cons]
  exact ⟨_, rfl⟩

/-- **The first line's row is as urgent as the flat order's first.** And it is that row, where no row of another
repository ties with it. -/
theorem regroupRows_head {row first : AgentRow} {rows : List AgentRow} (hflat : Flat (row :: rows))
    (hfirst : (regroupRows (row :: rows)).1.head? = some first) :
    rowUrgency first = rowUrgency row ∧
      ((∀ other ∈ rows, rowUrgency other = rowUrgency row → repoKey other = repoKey row) → first = row) := by
  obtain ⟨held, hheld⟩ := membersOf_head row rows
  have hurgency {bucket : RepoKey × List Nat} {first : AgentRow} {held : List AgentRow}
      (hbucket : bucket ∈ orderedBuckets (row :: rows))
      (hheld : bucket.2.filterMap ((row :: rows)[·]?) = first :: held) :
      urgency (row :: rows) bucket.2 = rowUrgency first := by
    have hsorted := membersOf_sorted (row :: rows) bucket.1
    rw [← (mem_orderedBuckets.mp hbucket).1] at hsorted
    have hheldFlat := heldBy_flat hflat hsorted
    rw [hheld] at hheldFlat
    exact urgency_flat hheld hheldFlat
  have hown : (repoKey row, membersOf (row :: rows) (repoKey row)) ∈ orderedBuckets (row :: rows) := by
    refine mem_orderedBuckets.mpr ⟨rfl, ?_⟩
    rintro hnil
    simp only at hnil
    rw [hnil] at hheld
    cases hheld
  cases hordered : orderedBuckets (row :: rows) with
  | nil =>
    rw [hordered] at hown
    cases hown
  | cons bucket more =>
    have hmem : bucket ∈ orderedBuckets (row :: rows) := by rw [hordered]; exact List.mem_cons_self
    obtain ⟨hmembers, hne⟩ := mem_orderedBuckets.mp hmem
    have hlead : ∃ held, bucket.2.filterMap ((row :: rows)[·]?) = first :: held := by
      obtain ⟨i, hi⟩ := List.exists_mem_of_ne_nil _ hne
      have hvalid := mem_membersOf.mp (hmembers ▸ hi)
      obtain ⟨held, hheld, -⟩ := Option.map_eq_some_iff.mp hvalid
      cases hlist : bucket.2.filterMap ((row :: rows)[·]?) with
      | nil => exact absurd (hlist ▸ List.mem_filterMap.mpr ⟨i, hi, hheld⟩) List.not_mem_nil
      | cons lead more =>
        rw [regroupRows, groupRows, hordered, List.map_cons, List.flatMap_cons, hlist] at hfirst
        cases hfirst
        exact ⟨more, rfl⟩
    obtain ⟨held', hheld'⟩ := hlead
    have hfirstMem : first ∈ row :: rows ∧ repoKey first = bucket.1 := by
      refine mem_of_members ?_
      rw [← hmembers, hheld']
      exact List.mem_cons_self
    have hle : groupOrder (row :: rows) bucket ≤
        groupOrder (row :: rows) (repoKey row, membersOf (row :: rows) (repoKey row)) := by
      have hstrict := orderedBuckets_strict (row :: rows)
      rw [hordered] at hown hstrict
      rcases List.mem_cons.mp hown with heq | hmore
      · rw [heq]
      · exact le_of_lt ((List.pairwise_cons.mp hstrict).1 _ hmore)
    have hfirstLe : rowUrgency first ≤ rowUrgency row := by
      rw [← hurgency hmem hheld', ← hurgency hown hheld]
      rw [groupOrder, groupOrder, Prod.Lex.toLex_le_toLex] at hle
      rcases hle with hlt | ⟨heq, -⟩
      · exact le_of_lt hlt
      · exact le_of_eq heq
    have hrowLe : rowUrgency row ≤ rowUrgency first := by
      rcases List.mem_cons.mp hfirstMem.1 with rfl | hmem
      · exact le_refl _
      · exact (List.pairwise_cons.mp hflat).1 first hmem
    have heq : rowUrgency first = rowUrgency row := le_antisymm hfirstLe hrowLe
    refine ⟨heq, fun hties => ?_⟩
    have hkey : repoKey first = repoKey row := by
      rcases List.mem_cons.mp hfirstMem.1 with rfl | hmem
      · rfl
      · exact hties first hmem heq
    rw [hmembers, ← hfirstMem.2, hkey, hheld] at hheld'
    exact (List.cons.inj hheld').1.symm

/-! ## Grouped display -/

/-- **Grouped rows and their lines.** The groups part the rows by repository, each keeps their order, and they are in
strictly rising order of urgency, name and key. In group order the rows' lines rise with the rows below the display's end
and lead back to them, every other line is a header, and the first row is as urgent as the flat order's first: it is that
row but for a tie with another repository's. -/
theorem grouped_display (rows : List AgentRow) :
    (((groupRows rows).flatMap Group.members).Perm (List.range rows.length) ∧
      (∀ g ∈ groupRows rows, g.members ≠ [] ∧ g.members.Pairwise (· < ·) ∧
        ∃ key, g.name = key.getD noRepo ∧ ∀ i, i ∈ g.members ↔ (rows[i]?).map repoKey = some key) ∧
      (orderedBuckets rows).Pairwise fun a b => groupOrder rows a < groupOrder rows b) ∧
    ((regroupRows rows).1.Perm rows ∧
      (∀ r < rows.length,
        displayIndex (regroupRows rows).2 r < displayLen (regroupRows rows).2 rows.length ∧
          rowAtDisplay (regroupRows rows).2 rows.length (displayIndex (regroupRows rows).2 r) = some r ∧
            ∀ r' < r, displayIndex (regroupRows rows).2 r' < displayIndex (regroupRows rows).2 r) ∧
      ∀ line < displayLen (regroupRows rows).2 rows.length,
        (∃ r < rows.length, displayIndex (regroupRows rows).2 r = line) ∨
          (lines (regroupRows rows).2)[line]? = some none ∧ rowAtDisplay (regroupRows rows).2 rows.length line = none) ∧
    (Flat rows → ∀ row first, rows.head? = some row → (regroupRows rows).1.head? = some first →
      rowUrgency first = rowUrgency row ∧
        ((∀ other ∈ rows, rowUrgency other = rowUrgency row → repoKey other = repoKey row) → first = row)) := by
  have hcount : rowCount (regroupRows rows).2 = rows.length := by rw [rowCount_regroupRows, length_regroupRows]
  have hcontiguous := regroupRows_contiguous rows
  refine ⟨⟨flatMap_members rows, ?_, orderedBuckets_strict rows⟩, ⟨regroupRows_perm rows, ?_, ?_⟩, ?_⟩
  · intro g hg
    obtain ⟨bucket, hbucket, rfl⟩ := List.mem_map.mp hg
    obtain ⟨hmembers, hne⟩ := mem_orderedBuckets.mp hbucket
    refine ⟨hne, ?_, bucket.1, rfl, fun i => ?_⟩
    · simp only [hmembers]
      exact membersOf_sorted rows bucket.1
    · simp only [hmembers]
      exact mem_membersOf
  · intro r hr
    have hne : (regroupRows rows).2 ≠ [] := regroupRows_ne (List.ne_nil_of_length_pos (Nat.zero_lt_of_lt hr))
    rw [← hcount] at hr ⊢
    exact ⟨displayIndex_lt hcontiguous hne hr, rowAtDisplay_displayIndex hcontiguous hne hr,
      fun r' hlt => displayIndex_strictMono hcontiguous hr hlt⟩
  · intro line hline
    have hne : (regroupRows rows).2 ≠ [] := by
      intro hnil
      have hrows : rows.length = 0 := by rw [← hcount, hnil]; rfl
      rw [hnil, hrows] at hline
      exact absurd hline (Nat.not_lt_zero _)
    rw [← hcount] at hline ⊢
    exact line_cases hcontiguous hne hline
  · intro hflat row first hrow hfirst
    cases rows with
    | nil => cases hrow
    | cons head rows =>
      cases hrow
      obtain ⟨hurgency, hties⟩ := regroupRows_head hflat hfirst
      exact ⟨hurgency, fun h => hties fun other hother => h other (List.mem_cons_of_mem _ hother)⟩

/-- A row of a repository, in a state for so long. -/
def rowIn (pane : Text) (repo : Text) (since : Nat) : AgentRow where
  paneId := pane
  agent := []
  state := .blocked
  since
  session := []
  windowIndex := 0
  paneIndex := 0
  title := []
  repo := some { name := repo, branch := [], worktree := false }

/-- Two repositories, the second one's row between the first one's. -/
theorem grouped_display_two :
    (regroupRows [rowIn ['1'] ['a'] 5, rowIn ['2'] ['b'] 6, rowIn ['3'] ['a'] 7]).1.head? = some (rowIn ['1'] ['a'] 5) := by
  have hhead : ∃ first, (regroupRows [rowIn ['1'] ['a'] 5, rowIn ['2'] ['b'] 6, rowIn ['3'] ['a'] 7]).1.head? = some first :=
    ⟨_, rfl⟩
  obtain ⟨first, hfirst⟩ := hhead
  have hflat : Flat [rowIn ['1'] ['a'] 5, rowIn ['2'] ['b'] 6, rowIn ['3'] ['a'] 7] := by
    unfold Flat
    decide
  rw [hfirst, ((grouped_display _).2.2 hflat _ first rfl hfirst).2 (by decide)]

/-- Tied rows are shown in the order of their repositories' names. -/
theorem tied_row_first :
    ¬ ∀ rows, Flat rows → (regroupRows rows).1.head? = rows.head? := by
  intro h
  have hflat : Flat [rowIn ['1'] ['b'] 5, rowIn ['2'] ['a'] 5] := by
    unfold Flat
    decide
  have hhead := h _ hflat
  revert hhead
  decide

end TmuxAgents.Ui
