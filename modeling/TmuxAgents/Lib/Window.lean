/-
A search through a stream that is read in chunks: between two reads only the elements are kept that a
match could still begin in.

What is kept of the stream so far is what is kept of what was kept (`keep_keep_append`), and a match that
was not there before is found in what is kept and the next chunk (`infix_append_iff_keep`).
-/
import Mathlib.Data.List.Infix

namespace Window

variable {α : Type*} {marker : List α}

/-- The last elements that a match can begin in. -/
def keep (marker buf : List α) : List α := buf.drop (buf.length - (marker.length - 1))

theorem keep_suffix (marker buf : List α) : keep marker buf <:+ buf := List.drop_suffix _ _

/-- Nothing is dropped before there is more than a match can begin in. -/
theorem keep_cut (marker buf : List α) :
    ∃ front, buf = front ++ keep marker buf ∧ (front = [] ∨ (keep marker buf).length = marker.length - 1) := by
  refine ⟨buf.take (buf.length - (marker.length - 1)), (List.take_append_drop _ _).symm, ?_⟩
  by_cases hle : buf.length ≤ marker.length - 1
  · exact .inl (by rw [Nat.sub_eq_zero_of_le hle, List.take_zero])
  · refine .inr ?_
    rw [keep, List.length_drop]
    omega

/-- What is kept of what was kept is what is kept of the whole. -/
theorem keep_keep_append (a b : List α) : keep marker (keep marker a ++ b) = keep marker (a ++ b) := by
  obtain ⟨front, hcut, hfront⟩ := keep_cut marker a
  generalize keep marker a = kept at hcut hfront
  subst hcut
  rcases hfront with rfl | hlength
  · rw [List.nil_append]
  · have hskip : (front ++ (kept ++ b)).length - (marker.length - 1) =
        front.length + ((kept ++ b).length - (marker.length - 1)) := by
      simp only [List.length_append]
      omega
    rw [List.append_assoc, keep, keep, hskip, List.drop_length_add_append]

/-- A match that the next chunk completes begins in what was kept. -/
theorem infix_append_iff_keep {a : List α} (h : ¬ marker <:+: a) (b : List α) :
    marker <:+: a ++ b ↔ marker <:+: keep marker a ++ b := by
  constructor
  · rintro ⟨before, after, hsplit⟩
    obtain ⟨front, hcut, hfront⟩ := keep_cut marker a
    generalize keep marker a = kept at hcut hfront
    subst hcut
    rw [List.append_assoc, List.append_assoc, List.append_eq_append_iff] at hsplit
    rcases hsplit with ⟨gap, rfl, hgap⟩ | ⟨gap, rfl, hgap⟩
    · -- It begins before what was kept, and ends in it: it was there before.
      rcases hfront with hnil | hlength
      · rw [List.append_eq_nil_iff] at hnil
        rw [hnil.2, List.nil_append] at hgap
        exact ⟨[], after, hgap⟩
      · by_cases hgapnil : gap = []
        · rw [hgapnil, List.nil_append] at hgap
          exact ⟨[], after, hgap⟩
        · have hpos := List.length_pos_of_ne_nil hgapnil
          have hlead : marker <+: marker ++ after := List.prefix_append _ _
          have hkept : gap ++ kept <+: marker ++ after := ⟨b, by rw [hgap, List.append_assoc]⟩
          have hle : marker.length ≤ (gap ++ kept).length := by
            rw [List.length_append]
            omega
          obtain ⟨rest, hrest⟩ := List.prefix_of_prefix_length_le hlead hkept hle
          exact absurd ⟨before, rest, by simp only [List.append_assoc, hrest]⟩ h
    · exact ⟨gap, after, by rw [hgap, List.append_assoc]⟩
  · intro hinfix
    have hsuffix : keep marker a ++ b <:+ a ++ b := by
      obtain ⟨front, hfront⟩ := keep_suffix marker a
      exact ⟨front, by rw [← List.append_assoc, hfront]⟩
    exact hinfix.trans hsuffix.isInfix

theorem keep_nil : keep marker [] = [] := List.drop_nil

end Window
