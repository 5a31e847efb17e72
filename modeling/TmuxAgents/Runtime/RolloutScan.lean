/-
What the scan of a rollout file reads.

A longer window has the whole lines of a shorter one at its end
(`clean_longer`), so a record found stays the newest one found.
-/
import TmuxAgents.Runtime.Rollout

open Lines (Whole)
open Text (lossy)

namespace TmuxAgents.Rollout

/-- The last bytes of a file. -/
def lastBytes (content : List UInt8) (n : Nat) : List UInt8 := content.drop (content.length - n)

/-- The lines kept of a window of the last bytes. -/
def cleanLast (content : List UInt8) (n : Nat) : Text :=
  cleanWindow (lastBytes content n) (0 < content.length - n)

/-! ## A window -/

theorem cleanWindow_eq (bytes : List UInt8) (dropLeading : Bool) :
    cleanWindow bytes dropLeading =
      match (if dropLeading then (Lines.position '\n' (lossy bytes)).map (· + 1) else some 0) with
      | none => []
      | some start => ((lossy bytes).take (Lines.completeLen '\n' (lossy bytes))).drop start := by
  unfold cleanWindow Lines.completeLen
  dsimp only
  generalize (if dropLeading then (Lines.position '\n' (lossy bytes)).map (· + 1) else some 0) = start
  cases start with
  | none => rfl
  | some start =>
    cases hlast : Lines.rposition '\n' (lossy bytes) with
    | none => simp
    | some last =>
      dsimp only
      split
      · rename_i hle
        rw [List.drop_eq_nil_of_le]
        rw [List.length_take]
        omega
      · rfl

/-- From the head of the file on, the whole lines. -/
theorem cleanWindow_head {lines rest : List UInt8} (hlines : Whole Text.newline lines) (hrest : Text.newline ∉ rest) :
    cleanWindow (lines ++ rest) false = lossy lines := by
  rw [cleanWindow_eq, if_neg Bool.false_ne_true, Text.lossy_append hlines,
    Lines.completeLen_append (Text.whole_lossy hlines) (Text.newline_not_mem_lossy hrest), List.take_left]
  rfl

/-- Further on, the whole lines behind the first one. -/
theorem cleanWindow_cut {first lines rest : List UInt8} (hfirst : Text.newline ∉ first) (hlines : Whole Text.newline lines)
    (hrest : Text.newline ∉ rest) : cleanWindow ((first ++ [Text.newline]) ++ (lines ++ rest)) true = lossy lines := by
  have hcut : Whole Text.newline (first ++ [Text.newline]) := .inr ⟨first, rfl⟩
  have hposition : Lines.position '\n' (lossy first ++ '\n' :: lossy (lines ++ rest)) = some (lossy first).length :=
    Lines.position_eq_some.mpr ⟨lossy first, _, rfl, Text.newline_not_mem_lossy hfirst, rfl⟩
  have hall : lossy ((first ++ [Text.newline]) ++ (lines ++ rest)) = lossy first ++ '\n' :: lossy (lines ++ rest) := by
    rw [List.append_assoc, List.singleton_append, Text.lossy_newline]
  have hwhole : lossy ((first ++ [Text.newline]) ++ (lines ++ rest)) = (lossy (first ++ [Text.newline]) ++ lossy lines) ++ lossy rest := by
    rw [Text.lossy_append hcut, Text.lossy_append hlines, List.append_assoc]
  have hlen : Lines.completeLen '\n' (lossy ((first ++ [Text.newline]) ++ (lines ++ rest))) =
      (lossy (first ++ [Text.newline]) ++ lossy lines).length := by
    rw [hwhole, Lines.completeLen_append ((Text.whole_lossy hcut).append (Text.whole_lossy hlines))
      (Text.newline_not_mem_lossy hrest)]
  rw [cleanWindow_eq, if_pos rfl, hlen, hall, hposition, ← hall, hwhole, List.take_left, Text.lossy_newline first []]
  have hdrop : (lossy first ++ '\n' :: lossy []).length = (lossy first).length + 1 := by simp [lossy, Text.lossyFrom]
  simp only [Option.map_some, ← hdrop, List.drop_left]

/-- A window without a Text.newline has no line. -/
theorem cleanWindow_none {bytes : List UInt8} (h : Text.newline ∉ bytes) (dropLeading : Bool) : cleanWindow bytes dropLeading = [] := by
  have hlen : Lines.completeLen '\n' (lossy bytes) = 0 := Lines.completeLen_append .nil (Text.newline_not_mem_lossy h)
  rw [cleanWindow_eq, hlen]
  split <;> simp

/-- A window of the last bytes is whole lines between a cut one and an unfinished one. -/
theorem cleanLast_cases (content : List UInt8) (n : Nat) :
    Text.newline ∉ lastBytes content n ∧ cleanLast content n = [] ∨
      ∃ dropped lines rest, content = dropped ++ (lines ++ rest) ∧ Whole Text.newline lines ∧ Text.newline ∉ rest ∧
        cleanLast content n = lossy lines ∧
        (dropped = [] ∧ content.length ≤ n ∨
          ∃ before first, dropped = before ++ (first ++ [Text.newline]) ∧ before.length = content.length - n ∧
            0 < content.length - n ∧ Text.newline ∉ first) := by
  by_cases hstart : 0 < content.length - n
  · cases hposition : Lines.position Text.newline (lastBytes content n) with
    | none =>
      have hnone := Lines.position_eq_none.mp hposition
      exact .inl ⟨hnone, cleanWindow_none hnone _⟩
    | some i =>
      obtain ⟨first, more, hbytes, hfirst, -⟩ := Lines.position_eq_some.mp hposition
      obtain ⟨hlines, hrest⟩ := Lines.complete_split Text.newline more
      have hmore := (List.take_append_drop (Lines.completeLen Text.newline more) more).symm
      refine .inr ⟨content.take (content.length - n) ++ (first ++ [Text.newline]), more.take (Lines.completeLen Text.newline more),
        more.drop (Lines.completeLen Text.newline more), ?_, hlines, hrest, ?_, .inr ⟨_, first, rfl, ?_, hstart, hfirst⟩⟩
      · rw [← hmore, List.append_assoc, List.append_assoc, List.singleton_append, ← hbytes]
        exact (List.take_append_drop _ _).symm
      · rw [cleanLast, decide_eq_true hstart, ← cleanWindow_cut hfirst hlines hrest, ← hmore, hbytes, List.append_assoc,
          List.singleton_append]
      · rw [List.length_take]
        omega
  · obtain ⟨hlines, hrest⟩ := Lines.complete_split Text.newline content
    have hcontent := (List.take_append_drop (Lines.completeLen Text.newline content) content).symm
    have hbytes : lastBytes content n = content := by
      rw [lastBytes, Nat.eq_zero_of_not_pos hstart, List.drop_zero]
    refine .inr ⟨[], content.take (Lines.completeLen Text.newline content), content.drop (Lines.completeLen Text.newline content),
      hcontent, hlines, hrest, ?_, .inl ⟨rfl, by omega⟩⟩
    rw [cleanLast, decide_eq_false hstart, hbytes, ← cleanWindow_head hlines hrest, ← hcontent]

/-! ## The newest record -/

section

variable {β γ : Type} (f : β → Option γ)

/-- The last value there is. -/
def newest (list : List β) : Option γ :=
  list.foldl (fun found x =>
    match f x with
    | some y => some y
    | none => found) none

theorem newest_concat (list : List β) (x : β) : newest f (list ++ [x]) = (f x).or (newest f list) := by
  rw [newest, List.foldl_append]
  cases hx : f x <;> simp [hx, newest]

theorem newest_append (a b : List β) : newest f (a ++ b) = (newest f b).or (newest f a) := by
  induction b using List.reverseRecOn with
  | nil => simp [newest]
  | append_singleton b x ih => rw [← List.append_assoc, newest_concat, newest_concat, ih, Option.or_assoc]

theorem newest_eq_some {list : List β} {y : γ} :
    newest f list = some y ↔ ∃ before x after, list = before ++ x :: after ∧ f x = some y ∧ ∀ z ∈ after, f z = none := by
  induction list using List.reverseRecOn with
  | nil => simp [newest]
  | append_singleton list x ih =>
    rw [newest_concat]
    constructor
    · intro h
      cases hx : f x with
      | some y' =>
        rw [hx, Option.some_or] at h
        exact ⟨list, x, [], rfl, hx.trans h, by simp⟩
      | none =>
        rw [hx, Option.none_or] at h
        obtain ⟨before, x', after, rfl, hx', hafter⟩ := ih.mp h
        refine ⟨before, x', after ++ [x], by simp, hx', fun z hz => ?_⟩
        rcases List.mem_append.mp hz with hz | hz
        · exact hafter z hz
        · rw [List.mem_singleton.mp hz, hx]
    · intro h
      obtain ⟨before, x', after, hlist, hx', hafter⟩ := h
      rcases List.eq_nil_or_concat' after with rfl | ⟨after, last, rfl⟩
      · obtain ⟨rfl, hlast⟩ := List.append_inj' hlist rfl
        cases hlast
        rw [hx', Option.some_or]
      · rw [← List.cons_append, ← List.append_assoc] at hlist
        obtain ⟨rfl, hlast⟩ := List.append_inj' hlist rfl
        cases hlast
        rw [hafter x (by simp), Option.none_or]
        exact ih.mpr ⟨before, x', after, rfl, hx', fun z hz => hafter z (by simp [hz])⟩

end

section

variable {V : Type} (f64 : F64 V)

theorem parse_eq (blob : Text) : Telemetry.parseCodexRollout f64 blob =
    (newest (Telemetry.codexLinePct f64) (SlotText.lines blob)).map fun p => { session := none, pct := some p, tokens := none } := by
  unfold Telemetry.parseCodexRollout newest
  dsimp only
  congr 2
  funext found line
  cases Telemetry.codexLinePct f64 line <;> rfl

theorem pct_eq (blob : Text) : pct f64 blob = newest (Telemetry.codexLinePct f64) (SlotText.lines blob) := by
  rw [pct, parse_eq]
  cases newest (Telemetry.codexLinePct f64) (SlotText.lines blob) <;> rfl

theorem pct_nil : pct f64 [] = none := rfl

theorem pct_append {a : Text} (ha : Whole '\n' a) (b : Text) : pct f64 (a ++ b) = (pct f64 b).or (pct f64 a) := by
  rw [pct_eq, pct_eq, pct_eq, SlotText.lines, Lines.splitInclusive_append ha, List.map_append, newest_append]
  rfl

theorem isSome_parse {blob : Text} : (Telemetry.parseCodexRollout f64 blob).isSome = (pct f64 blob).isSome := by
  rw [pct_eq, parse_eq, Option.isSome_map]

/-! ## Longer windows -/

/-- Whole lines that reach past a place reach the end of its line. -/
theorem whole_past {before first more lines tail : List UInt8} (hfirst : Text.newline ∉ first) (hlines : Whole Text.newline lines)
    (hlen : before.length < lines.length) (h : (before ++ (first ++ [Text.newline])) ++ more = lines ++ tail) :
    ∃ past, lines = (before ++ (first ++ [Text.newline])) ++ past ∧ Whole Text.newline past := by
  rcases List.append_eq_append_iff.mp h with ⟨past, hpast, -⟩ | ⟨past, hpast, -⟩
  · refine ⟨past, hpast, ?_⟩
    rw [hpast] at hlines
    exact hlines.of_append
  · rcases List.eq_nil_or_concat' past with rfl | ⟨past, last, rfl⟩
    · exact ⟨[], by rw [hpast, List.append_nil, List.append_nil], .nil⟩
    · -- The last Text.newline of `lines` would stand in `first`.
      exfalso
      rw [← List.append_assoc, ← List.append_assoc] at hpast
      obtain ⟨hfront, -⟩ := List.append_inj' hpast rfl
      rcases hlines with rfl | ⟨front, rfl⟩
      · exact Nat.not_lt_zero _ hlen
      · rw [List.append_assoc] at hfront
        rcases List.append_eq_append_iff.mp hfront with ⟨between, -, hmem⟩ | ⟨between, hbetween, hmem⟩
        · exact hfirst (by rw [hmem]; simp)
        · have hlength := congrArg List.length hbetween
          simp only [List.length_append, List.length_singleton] at hlen hlength
          obtain rfl : between = [] := List.length_eq_zero_iff.mp (by omega)
          exact hfirst (by rw [← List.nil_append first, ← hmem]; simp)

/-- Behind other bytes, the same lines are the last ones kept. -/
theorem clean_longer {content : List UInt8} {m n : Nat} (h : m ≤ n) (hfound : cleanLast content m ≠ []) :
    ∃ more, Whole '\n' more ∧ cleanLast content n = more ++ cleanLast content m := by
  obtain ⟨hnone, hnil⟩ | ⟨dropped, lines, rest, hcut, hlines, hrest, hclean, hdropped⟩ := cleanLast_cases content m
  · exact absurd hnil hfound
  have hne : lines ≠ [] := by
    intro hnil
    rw [hclean, hnil] at hfound
    exact hfound rfl
  obtain ⟨hnone', hnil'⟩ | ⟨dropped', lines', rest', hcut', hlines', hrest', hclean', hdropped'⟩ := cleanLast_cases content n
  · -- The longer window has the lines of the shorter one.
    exfalso
    have hmem : Text.newline ∈ lines := by
      by_contra hmem
      exact hne (hlines.eq_nil hmem)
    have hle : content.length - n ≤ dropped.length := by
      rcases hdropped with ⟨-, hlen⟩ | ⟨before, first, rfl, hbefore, -, -⟩
      · omega
      · rw [List.length_append]
        omega
    apply hnone'
    rw [lastBytes]
    have hbytes : content.drop (content.length - n) = dropped.drop (content.length - n) ++ (lines ++ rest) := by
      conv_lhs => arg 2; rw [hcut]
      exact List.drop_append_of_le_length hle
    rw [hbytes]
    simp [hmem]
  · have hsame : ∀ past, Whole Text.newline past → dropped = dropped' ++ past →
        ∃ more, Whole '\n' more ∧ cleanLast content n = more ++ cleanLast content m := by
      intro past hpast hdrop
      have hlines'' : lines' ++ rest' = (past ++ lines) ++ rest := by
        rw [hcut, hdrop, List.append_assoc] at hcut'
        rw [← List.append_cancel_left hcut', List.append_assoc]
      have hlen := Lines.completeLen_append hlines' hrest'
      rw [hlines'', Lines.completeLen_append (hpast.append hlines) hrest] at hlen
      obtain ⟨heq, -⟩ := List.append_inj hlines'' hlen.symm
      refine ⟨lossy past, Text.whole_lossy hpast, ?_⟩
      rw [hclean', hclean, heq, Text.lossy_append hpast]
    have hwhole : Whole Text.newline dropped := by
      rcases hdropped with ⟨rfl, -⟩ | ⟨before, first, rfl, -, -, -⟩
      · exact .nil
      · exact .inr ⟨before ++ first, (List.append_assoc ..).symm⟩
    rcases hdropped' with ⟨rfl, -⟩ | ⟨before', first', rfl, hbefore', hpos', hfirst'⟩
    · exact hsame dropped hwhole rfl
    · have hlen : before'.length < dropped.length := by
        rcases hdropped with ⟨-, hlen⟩ | ⟨before, first, rfl, hbefore, -, -⟩
        · omega
        · simp only [List.length_append, List.length_singleton]
          omega
      obtain ⟨past, hpast, hpastWhole⟩ := whole_past hfirst' hwhole hlen (hcut'.symm.trans hcut)
      exact hsame past hpastWhole hpast

/-- **A reading found stays the reading.** -/
theorem found_longer {content : List UInt8} {m n p : Nat} (h : m ≤ n) (hp : pct f64 (cleanLast content m) = some p) :
    pct f64 (cleanLast content n) = some p := by
  have hne : cleanLast content m ≠ [] := by
    intro hnil
    rw [hnil, pct_nil] at hp
    cases hp
  obtain ⟨more, hmore, hlonger⟩ := clean_longer h hne
  rw [hlonger, pct_append f64 hmore, hp, Option.some_or]

/-- One window of the scan. -/
theorem readScanFrom_step (content : List UInt8) (window : Nat) :
    readScanFrom f64 content content.length window =
      if (pct f64 (cleanLast content window)).isSome ∨ content.length ≤ window ∨ scanCap ≤ window then
        cleanLast content window
      else readScanFrom f64 content content.length (min (window + tailWindow) scanCap) := by
  have hlast : (content.drop (content.length - window)).take (content.length - (content.length - window)) =
      lastBytes content window := by
    rw [lastBytes, List.take_of_length_le (by rw [List.length_drop])]
  rw [readScanFrom]
  simp only [hlast, isSome_parse, Nat.sub_eq_zero_iff_le]
  rfl

theorem cleanLast_all {content : List UInt8} {m n : Nat} (hm : content.length ≤ m) (hn : content.length ≤ n) :
    cleanLast content m = cleanLast content n := by
  rw [cleanLast, cleanLast, lastBytes, lastBytes, Nat.sub_eq_zero_of_le hm, Nat.sub_eq_zero_of_le hn]

/-- What the scan finds is what the widest window holds. -/
theorem readScanFrom_eq (content : List UInt8) {window : Nat} (hwindow : window ≤ scanCap) :
    pct f64 (readScanFrom f64 content content.length window) = pct f64 (cleanLast content scanCap) := by
  induction hmore : scanCap - window using Nat.strong_induction_on generalizing window with
  | _ more ih =>
    rw [readScanFrom_step]
    split
    · rename_i hstop
      rcases hstop with hfound | hhead | hcap
      · obtain ⟨p, hp⟩ := Option.isSome_iff_exists.mp hfound
        rw [hp, found_longer f64 hwindow hp]
      · rw [cleanLast_all hhead (hhead.trans hwindow)]
      · rw [Nat.le_antisymm hwindow hcap]
    · rename_i hgoes
      simp only [not_or] at hgoes
      refine ih _ ?_ (Nat.min_le_right _ _) rfl
      simp only [tailWindow]
      omega

/-! ## The lines within the cap -/

/-- The percent of a line of the file: decoded, and without its end. -/
def linePct (line : List UInt8) : Option Nat := Telemetry.codexLinePct f64 (SlotText.stripLine (lossy (line ++ [Text.newline])))

theorem splitInclusive_lossy {lines : List UInt8} (h : Whole Text.newline lines) :
    Lines.splitInclusive '\n' (lossy lines) = (Lines.splitInclusive Text.newline lines).map lossy := by
  have hflatten : ∀ pieces : List (List UInt8), (∀ piece ∈ pieces, Whole Text.newline piece) →
      (pieces.map lossy).flatten = lossy pieces.flatten := by
    intro pieces hpieces
    induction pieces with
    | nil => rfl
    | cons piece pieces ih =>
      rw [List.map_cons, List.flatten_cons, List.flatten_cons, Text.lossy_append (hpieces piece List.mem_cons_self),
        ih fun piece hpiece => hpieces piece (List.mem_cons_of_mem _ hpiece)]
  have hline : ∀ piece ∈ Lines.splitInclusive Text.newline lines, ∃ front, piece = front ++ [Text.newline] ∧ Text.newline ∉ front :=
    fun piece hpiece => h.line hpiece
  have hlossy : ∀ piece ∈ (Lines.splitInclusive Text.newline lines).map lossy, ∃ front, piece = front ++ ['\n'] ∧ '\n' ∉ front := by
    intro piece hpiece
    obtain ⟨bytes, hbytes, rfl⟩ := List.mem_map.mp hpiece
    obtain ⟨front, rfl, hfront⟩ := hline bytes hbytes
    exact ⟨lossy front, Text.lossy_newline front [], Text.newline_not_mem_lossy hfront⟩
  have hsplit := (Lines.splitInclusive_flatten hlossy).2
  rw [hflatten _ (fun piece hpiece => .inr ((hline piece hpiece).imp fun _ hfront => hfront.1)),
    Lines.flatten_splitInclusive] at hsplit
  exact hsplit

theorem pct_lossy {lines : List UInt8} (h : Whole Text.newline lines) :
    pct f64 (lossy lines) =
      newest (fun line => Telemetry.codexLinePct f64 (SlotText.stripLine (lossy line))) (Lines.splitInclusive Text.newline lines) := by
  rw [pct_eq, SlotText.lines, splitInclusive_lossy h, newest, List.foldl_map, List.foldl_map]
  rfl

/-- **The newest whole record in the window decides.** It is a line of the file with its end, and
in the window with the Text.newline before it, or from the head of the file. -/
theorem pct_cleanLast_iff {content : List UInt8} {n p : Nat} :
    pct f64 (cleanLast content n) = some p ↔
      ∃ before line after, Lines.IsLine Text.newline content before line after ∧
        (content.length ≤ n ∨ content.length - n < before.length) ∧ linePct f64 line = some p ∧
        ∀ before' line' after', Lines.IsLine Text.newline after before' line' after' → linePct f64 line' = none := by
  obtain ⟨hnone, hnil⟩ | ⟨dropped, lines, rest, hcut, hlines, hrest, hclean, hdropped⟩ := cleanLast_cases content n
  · rw [hnil, pct_nil]
    refine iff_of_false (by simp) fun h => hnone ?_
    obtain ⟨before, line, after, hline, hin, -, -⟩ := h
    have hle : content.length - n ≤ before.length := by omega
    have hbytes : content.drop (content.length - n) =
        before.drop (content.length - n) ++ ((line ++ [Text.newline]) ++ after) := by
      conv_lhs => arg 2; rw [hline.cut]
      exact List.drop_append_of_le_length hle
    rw [lastBytes, hbytes]
    simp
  have hwhole : Whole Text.newline dropped := by
    rcases hdropped with ⟨rfl, -⟩ | ⟨before, first, rfl, -, -, -⟩
    · exact .nil
    · exact .inr ⟨before ++ first, (List.append_assoc ..).symm⟩
  rw [hclean, pct_lossy f64 hlines, newest_eq_some]
  constructor
  · intro h
    obtain ⟨earlier, piece, later, hsplit, hp, hlater⟩ := h
    obtain ⟨line, rfl, hline⟩ := hlines.line (hsplit ▸ List.mem_append_right _ List.mem_cons_self)
    obtain ⟨hflat, hearlier, -, -⟩ := hlines.cut hsplit
    have hsplit' : Lines.splitInclusive Text.newline lines = (earlier ++ [line ++ [Text.newline]]) ++ later := by
      rw [hsplit, List.append_assoc, List.singleton_append]
    obtain ⟨hflat', -, -, hlaterSplit⟩ := hlines.cut hsplit'
    have hlaterWhole : Whole Text.newline later.flatten := by
      rw [hflat'] at hlines
      exact hlines.of_append
    refine ⟨dropped ++ earlier.flatten, line, later.flatten ++ rest, ⟨?_, hwhole.append hearlier, hline⟩, ?_, hp, ?_⟩
    · rw [hcut, hflat, List.flatten_cons]
      simp only [List.append_assoc]
    · rcases hdropped with ⟨-, hlen⟩ | ⟨before, first, rfl, hbefore, -, -⟩
      · exact .inl hlen
      · refine .inr ?_
        simp only [List.length_append, List.length_singleton]
        omega
    · intro before' line' after' hline'
      have hmem : line' ++ [Text.newline] ∈ later ++ Lines.splitInclusive Text.newline rest := by
        rw [← hlaterSplit, ← Lines.splitInclusive_append hlaterWhole, hline'.split]
        exact List.mem_append_right _ List.mem_cons_self
      rcases List.mem_append.mp hmem with hmem | hmem
      · exact hlater _ hmem
      · exact absurd hmem (Lines.not_line_of_not_mem hrest)
  · intro h
    obtain ⟨before, line, after, hline, hin, hp, hlater⟩ := h
    obtain ⟨past, hpast, hpastWhole⟩ : ∃ past, before = dropped ++ past ∧ Whole Text.newline past := by
      rcases hdropped with ⟨rfl, -⟩ | ⟨start, first, rfl, hstart, hpos, hfirst⟩
      · exact ⟨before, rfl, hline.whole⟩
      · exact whole_past hfirst hline.whole (by omega) (hcut.symm.trans hline.cut)
    obtain ⟨hafter, hunfinished⟩ := Lines.complete_split Text.newline after
    have hafterCut := (List.take_append_drop (Lines.completeLen Text.newline after) after).symm
    generalize after.take (Lines.completeLen Text.newline after) = finished at hafter hafterCut
    generalize after.drop (Lines.completeLen Text.newline after) = unfinished at hunfinished hafterCut
    have hkept : lines ++ rest = (past ++ ((line ++ [Text.newline]) ++ finished)) ++ unfinished := by
      have hall := hcut.symm.trans hline.cut
      rw [hpast, List.append_assoc] at hall
      rw [List.append_cancel_left hall, hafterCut]
      simp only [List.append_assoc]
    have hwholeLine : Whole Text.newline (line ++ [Text.newline]) := .inr ⟨line, rfl⟩
    have hlen := Lines.completeLen_append hlines hrest
    rw [hkept, Lines.completeLen_append (hpastWhole.append (hwholeLine.append hafter)) hunfinished] at hlen
    obtain ⟨hlinesEq, -⟩ := List.append_inj hkept hlen.symm
    have hkeptLine : Lines.IsLine Text.newline lines past line finished := ⟨hlinesEq, hpastWhole, hline.single⟩
    refine ⟨_, _, _, hkeptLine.split, hp, fun piece hpiece => ?_⟩
    obtain ⟨line', rfl, -⟩ := hafter.line hpiece
    obtain ⟨before', after', hline'⟩ := hafter.isLine hpiece unfinished
    rw [← hafterCut] at hline'
    exact hlater before' line' after' hline'

/-- **The widening scan reads what the full scan reads.** Its percent is that of the last bytes up
to the cap, a percent found in a window is found in every longer one, and it is that of the
newest whole record whose line begins behind a Text.newline within the cap, or at the head of the
file. -/
theorem widening_scan (content : List UInt8) :
    pct f64 (readScan f64 content content.length) =
        pct f64 (cleanWindow (content.drop (content.length - scanCap)) (0 < content.length - scanCap)) ∧
      (∀ m n p, m ≤ n → pct f64 (cleanWindow (content.drop (content.length - m)) (0 < content.length - m)) = some p →
        pct f64 (cleanWindow (content.drop (content.length - n)) (0 < content.length - n)) = some p) ∧
      ∀ p, pct f64 (readScan f64 content content.length) = some p ↔
        ∃ before line after, Lines.IsLine Text.newline content before line after ∧
          (content.length ≤ scanCap ∨ content.length - scanCap < before.length) ∧ linePct f64 line = some p ∧
          ∀ before' line' after', Lines.IsLine Text.newline after before' line' after' → linePct f64 line' = none := by
  have hscan : pct f64 (readScan f64 content content.length) = pct f64 (cleanLast content scanCap) :=
    readScanFrom_eq f64 content (by decide)
  refine ⟨hscan, fun m n p hle hp => found_longer f64 hle hp, fun p => ?_⟩
  rw [hscan, pct_cleanLast_iff]

end

/-! ## A record at the cap -/

/-- Whole numbers, which is what the records below are made of. -/
def wholeF64 : F64 Nat where
  parse token := if token.all Char.isDigit then some (token.foldl (fun n c => n * 10 + (c.toNat - '0'.toNat)) 0) else none
  zero := 0
  hundred := 100
  le a b := a ≤ b
  lt a b := a < b
  div := (· / ·)
  mul := (· * ·)
  round := id
  clamp x low high := max low (min x high)
  toU8 := id

/-- A full context. -/
def fullRecord : List UInt8 :=
  Text.bytes "\x7b\"type\":\"token_count\",\"info\":\x7b\"total_token_usage\":\x7b\"total_tokens\":8\x7d,\"model_context_window\":8\x7d\x7d".toList

/-- Its bytes, spelled out once: decoding the text is what costs. -/
theorem fullRecord_eq : fullRecord =
    [123, 34, 116, 121, 112, 101, 34, 58, 34, 116, 111, 107, 101, 110, 95, 99, 111, 117, 110, 116, 34, 44, 34,
      105, 110, 102, 111, 34, 58, 123, 34, 116, 111, 116, 97, 108, 95, 116, 111, 107, 101, 110, 95, 117, 115,
      97, 103, 101, 34, 58, 123, 34, 116, 111, 116, 97, 108, 95, 116, 111, 107, 101, 110, 115, 34, 58, 56, 125,
      44, 34, 109, 111, 100, 101, 108, 95, 99, 111, 110, 116, 101, 120, 116, 95, 119, 105, 110, 100, 111, 119,
      34, 58, 56, 125, 125] := by
  decide +kernel

theorem fullRecord_pct : linePct wholeF64 fullRecord = some 100 := by
  rw [fullRecord_eq]
  decide +kernel

/-- A record in the last 200 bytes is found in the widest window. -/
theorem widening_scan_record :
    pct wholeF64 (cleanWindow ((fullRecord ++ [Text.newline]).drop ((fullRecord ++ [Text.newline]).length - scanCap))
      (0 < (fullRecord ++ [Text.newline]).length - scanCap)) = some 100 :=
  (widening_scan wholeF64 (fullRecord ++ [Text.newline])).2.1 200 scanCap 100 (by decide)
    (by rw [fullRecord_eq]; decide +kernel)

/-- Over any record: the kernel would otherwise unfold the bytes of the one below. -/
theorem filled_length {record : List UInt8} (hfits : record.length + 1 ≤ scanCap) :
    ([Text.newline] ++ ((record ++ [Text.newline]) ++
      List.replicate (scanCap - (record.length + 1)) (Text.byte 'x'))).length = scanCap + 1 := by
  simp only [List.length_append, List.length_singleton, List.length_replicate]
  omega

/-- A whole record that begins where the widest window does is not read. -/
theorem record_at_cap_unread :
    ¬ ∀ (content before line after : List UInt8) (p : Nat), Lines.IsLine Text.newline content before line after →
      content.length - scanCap ≤ before.length → linePct wholeF64 line = some p →
      (∀ before' line' after', Lines.IsLine Text.newline after before' line' after' → linePct wholeF64 line' = none) →
      pct wholeF64 (readScan wholeF64 content content.length) = some p := by
  intro h
  have hx : Text.newline ∉ List.replicate (scanCap - (fullRecord.length + 1)) (Text.byte 'x') := by
    intro hmem
    exact absurd (List.eq_of_mem_replicate hmem) (by decide)
  have hrecord : Text.newline ∉ fullRecord := by
    rw [fullRecord_eq]
    decide +kernel
  have hlen : ([Text.newline] ++ ((fullRecord ++ [Text.newline]) ++
      List.replicate (scanCap - (fullRecord.length + 1)) (Text.byte 'x'))).length = scanCap + 1 :=
    filled_length (by rw [fullRecord_eq]; decide)
  generalize List.replicate (scanCap - (fullRecord.length + 1)) (Text.byte 'x') = filler at hx hlen
  have hread := h ([Text.newline] ++ ((fullRecord ++ [Text.newline]) ++ filler)) [Text.newline] fullRecord filler 100
    ⟨rfl, .inr ⟨[], rfl⟩, hrecord⟩ (by rw [hlen, Nat.add_sub_cancel_left]; exact Nat.le_refl 1) fullRecord_pct
    (fun before' line' after' hline => absurd (by rw [hline.cut]; simp) hx)
  rw [(widening_scan wholeF64 _).1, hlen, Nat.add_sub_cancel_left, List.singleton_append, List.drop_one, List.tail_cons,
    decide_eq_true Nat.one_pos, ← List.nil_append filler, cleanWindow_cut hrecord .nil hx] at hread
  cases hread

end TmuxAgents.Rollout
