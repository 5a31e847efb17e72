/-
Request lines, whatever the reader shows at a look.

What a read holds of its line is a function of the line's bytes so far (`Held.of`), so neither
where a look ends nor how many there were is left in it.
-/
import TmuxAgents.Serve.Wire

namespace TmuxAgents.Serve.Wire

open Session (Incoming)

/-! ## The reference -/

/-- What a whole line is read as. -/
def judge (cap : Nat) (line : List UInt8) : Incoming := if line.length ≤ cap then decoded line else .tooLong

/-- The lines a newline ends. What follows the last newline is none. -/
def terminated (stream : List UInt8) : List (List UInt8) := (stream.splitOn Text.newline).dropLast

/-- The first `n` answers: the lines in order, and the end of the stream from then on. -/
def reference (cap : Nat) (stream : List UInt8) (n : Nat) : List Incoming :=
  ((terminated stream).map (judge cap) ++ List.replicate n Incoming.eof).take n

theorem terminated_line {line tail : List UInt8} (h : Text.newline ∉ line) :
    terminated (line ++ Text.newline :: tail) = line :: terminated tail := by
  rw [terminated, List.splitOn_append_cons_self, List.splitOn_eq_singleton h, List.singleton_append,
    List.dropLast_cons_of_ne_nil (List.splitOn_ne_nil _ _), terminated]

theorem terminated_tail {tail : List UInt8} (h : Text.newline ∉ tail) : terminated tail = [] := by
  rw [terminated, List.splitOn_eq_singleton h, List.dropLast_singleton]

theorem reference_line (cap n : Nat) {line tail : List UInt8} (h : Text.newline ∉ line) :
    reference cap (line ++ Text.newline :: tail) (n + 1) = judge cap line :: reference cap tail n := by
  rw [reference, terminated_line h, List.map_cons, List.cons_append, List.take_succ_cons, reference]
  congr 1
  rw [List.replicate_succ', ← List.append_assoc]
  refine List.take_append_of_le_length ?_
  rw [List.length_append, List.length_replicate]
  omega

theorem reference_tail (cap n : Nat) {tail : List UInt8} (h : Text.newline ∉ tail) :
    reference cap tail n = List.replicate n Incoming.eof := by
  rw [reference, terminated_tail h, List.map_nil, List.nil_append, List.take_replicate, Nat.min_self]

/-! ## What is held of a line -/

/-- What is held once `seen` of the line was. -/
def Held.of (cap : Nat) (seen : List UInt8) : Held :=
  if seen.length ≤ cap then { buf := seen, overrun := false } else { buf := [], overrun := true }

theorem Held.of_nil (cap : Nat) : Held.of cap [] = {} := if_pos (Nat.zero_le cap)

theorem Held.length_of_le (cap : Nat) (seen : List UInt8) : (Held.of cap seen).buf.length ≤ cap := by
  rw [Held.of]
  split
  next h => exact h
  next => exact Nat.zero_le cap

theorem Held.extend_of (cap : Nat) (seen available : List UInt8) :
    (Held.of cap seen).extend cap available = Held.of cap (seen ++ available) := by
  rw [Held.of, Held.of, List.length_append]
  by_cases hseen : seen.length ≤ cap
  · rw [if_pos hseen]
    by_cases hall : seen.length + available.length ≤ cap
    · simp [Held.extend, hall, Nat.not_lt.mpr hall]
    · simp [Held.extend, hall, Nat.not_le.mp hall]
  · have hall : ¬seen.length + available.length ≤ cap := by omega
    rw [if_neg hseen, if_neg hall]
    rfl

theorem Held.incoming_finish_of (cap : Nat) (seen available : List UInt8) {pos : Nat} (h : pos ≤ available.length) :
    ((Held.of cap seen).finish cap available pos).incoming = judge cap (seen ++ available.take pos) := by
  have hlen : (seen ++ available.take pos).length = seen.length + pos := by
    rw [List.length_append, List.length_take_of_le h]
  rw [Held.of, judge, hlen]
  by_cases hseen : seen.length ≤ cap
  · rw [if_pos hseen]
    by_cases hall : seen.length + pos ≤ cap
    · simp [Held.finish, Held.incoming, hall, Nat.not_lt.mpr hall]
    · simp [Held.finish, Held.incoming, hall, Nat.not_le.mp hall]
  · have hall : ¬seen.length + pos ≤ cap := by omega
    rw [if_neg hseen, if_neg hall]
    rfl

theorem Held.length_finish_of_le (cap : Nat) (seen available : List UInt8) (pos : Nat) :
    ((Held.of cap seen).finish cap available pos).buf.length ≤ cap := by
  have hseen := Held.length_of_le cap seen
  rw [Held.finish]
  by_cases hoverrun : (!(Held.of cap seen).overrun && decide (cap < (Held.of cap seen).buf.length + pos)) = true
  · simpa [hoverrun] using hseen
  · cases hof : (Held.of cap seen).overrun with
    | true => simpa [hof] using hseen
    | false =>
      have hfits : (Held.of cap seen).buf.length + pos ≤ cap := by simpa [hof] using hoverrun
      simp only [hof, Bool.not_false, Bool.true_and, decide_eq_true_eq, Nat.not_lt.mpr hfits, if_false, if_true,
        List.length_append, List.length_take]
      omega

/-! ## One read -/

section

variable {ρ ε : Type} (reader : BufRead ρ ε UInt8) (cap : Nat)

/-- How a read of `r` may end, when `seen` of its line is past already. -/
inductive Reads (seen : List UInt8) (r : ρ) : Except ε (Incoming × ρ) → Prop
  | line {line tail : List UInt8} {r' : ρ} : reader.rest r = line ++ Text.newline :: tail → Text.newline ∉ line →
    reader.rest r' = tail → Reads seen r (.ok (judge cap (seen ++ line), r'))
  | tail {r' : ρ} : Text.newline ∉ reader.rest r → reader.rest r' = [] → Reads seen r (.ok (.eof, r'))
  | failed {r' : ρ} {err : ε} : reader.fillBuf r' = .error err → Reads seen r (.error err)

theorem reads_nextLineFrom (seen : List UInt8) (r : ρ) :
    Reads reader cap seen r (nextLineFrom reader cap (Held.of cap seen) r) := by
  -- on what is left to read, as the loop itself
  induction hlen : (reader.rest r).length using Nat.strong_induction_on generalizing seen r with
  | _ n ih =>
    subst hlen
    rw [nextLineFrom]
    split
    next err hfill => exact .failed hfill
    next r' hfill =>
      have hrest := reader.ends hfill
      refine .tail ?_ ((reader.fills hfill).trans hrest)
      rw [hrest]
      exact List.not_mem_nil
    next b bs r' hfill =>
      split
      next pos hpos =>
        obtain ⟨front, back, hsplit, hfront, rfl⟩ := Lines.position_eq_some.mp hpos
        have hle : front.length ≤ (b :: bs).length := by rw [hsplit, List.length_append]; omega
        have htake : (b :: bs).take front.length = front := by rw [hsplit, List.take_left]
        have hsplit' : b :: bs = (front ++ [Text.newline]) ++ back := by
          rw [hsplit, List.append_assoc, List.singleton_append]
        have hconsumed := reader.rest_consume hfill hsplit'
        rw [List.length_append, List.length_singleton] at hconsumed
        rw [Held.incoming_finish_of cap seen _ hle, htake]
        refine .line ?_ hfront hconsumed
        rw [reader.rest_eq hfill, hsplit', List.append_assoc, List.append_assoc, List.singleton_append]
      next hpos =>
        have hline := Lines.position_eq_none.mp hpos
        have hrest := reader.rest_eq hfill
        have hread := ih _ (reader.length_consume_lt hfill) (seen ++ b :: bs) _ rfl
        rw [Held.extend_of]
        generalize nextLineFrom reader cap (Held.of cap (seen ++ b :: bs))
          (reader.consume r' (b :: bs).length) = answer at hread
        cases hread with
        | @line line tail r'' hnext hmem htail =>
          rw [List.append_assoc]
          refine .line ?_ ?_ htail
          · rw [hrest, hnext, List.append_assoc]
          · rw [List.mem_append, not_or]
            exact ⟨hline, hmem⟩
        | tail hmem hnil =>
          refine .tail ?_ hnil
          rw [hrest, List.mem_append, not_or]
          exact ⟨hline, hmem⟩
        | failed hfailed => exact .failed hfailed

theorem reads_nextLine (r : ρ) : Reads reader cap [] r (nextLine reader cap r) := by
  have hread := reads_nextLineFrom reader cap [] r
  rwa [Held.of_nil] at hread

/-- The loop holds what its line so far makes it hold. -/
theorem Loops.held {r r' : ρ} {held : Held} (h : Loops reader cap r held r') : ∃ seen, held = Held.of cap seen ∧
    Text.newline ∉ seen ∧ reader.rest r = seen ++ reader.rest r' := by
  induction h with
  | start => exact ⟨[], (Held.of_nil cap).symm, List.not_mem_nil, rfl⟩
  | @again held r' r'' b bs _ hfill hpos ih =>
    obtain ⟨seen, rfl, hseen, hrest⟩ := ih
    refine ⟨seen ++ b :: bs, Held.extend_of .., ?_, ?_⟩
    · rw [List.mem_append, not_or]
      exact ⟨hseen, Lines.position_eq_none.mp hpos⟩
    · rw [hrest, reader.rest_eq hfill, List.append_assoc]

/-- From wherever its loop is, a read returns the same. -/
theorem Loops.nextLine {r r' : ρ} {held : Held} (h : Loops reader cap r held r') :
    nextLineFrom reader cap held r' = nextLine reader cap r := by
  induction h with
  | start => rfl
  | again _ hfill hpos ih =>
    rw [← ih]
    conv => rhs; rw [nextLineFrom]
    split
    next err hfill' => rw [hfill] at hfill'; cases hfill'
    next r'' hfill' => rw [hfill] at hfill'; cases hfill'
    next b' bs' r'' hfill' =>
      rw [hfill] at hfill'
      cases hfill'
      rw [hpos]

/-! ## All reads -/

theorem nextLines_ok {n : Nat} {r r' : ρ} {incoming : Incoming} (h : nextLine reader cap r = .ok (incoming, r')) :
    nextLines reader cap (n + 1) r = (nextLines reader cap n r').map (incoming :: ·) := by
  rw [nextLines, h]
  show (nextLines reader cap n r' >>= fun later => .ok (incoming :: later)) = _
  cases nextLines reader cap n r' with
  | ok later => rfl
  | error err => rfl

theorem nextLines_eq (n : Nat) (r : ρ) : nextLines reader cap n r = .ok (reference cap (reader.rest r) n) ∨
    ∃ r' err, reader.fillBuf r' = .error err ∧ nextLines reader cap n r = .error err := by
  induction n generalizing r with
  | zero => exact .inl rfl
  | succ n ih =>
    -- one read, whatever it returned, and the others after it
    have hcons {incoming : Incoming} {r' : ρ} (hread : nextLine reader cap r = .ok (incoming, r'))
        (href : reference cap (reader.rest r) (n + 1) = incoming :: reference cap (reader.rest r') n) :
        nextLines reader cap (n + 1) r = .ok (reference cap (reader.rest r) (n + 1)) ∨
          ∃ r' err, reader.fillBuf r' = .error err ∧ nextLines reader cap (n + 1) r = .error err := by
      rw [nextLines_ok reader cap hread, href]
      rcases ih r' with hlater | ⟨r'', err, hfailed, hlater⟩
      · exact .inl (by rw [hlater]; rfl)
      · exact .inr ⟨r'', err, hfailed, by rw [hlater]; rfl⟩
    have hread := reads_nextLine reader cap r
    generalize hanswer : nextLine reader cap r = answer at hread
    cases hread with
    | line hrest hmem htail =>
      refine hcons hanswer ?_
      rw [hrest, reference_line cap n hmem, htail]
      rfl
    | tail hmem hnil =>
      refine hcons hanswer ?_
      rw [reference_tail cap _ hmem, hnil, reference_tail cap _ List.not_mem_nil]
      rfl
    | failed hfailed => exact .inr ⟨_, _, hfailed, by rw [nextLines, hanswer]; rfl⟩

end

theorem nextLines_chunked (cap n : Nat) (chunks : {chunks : List (List UInt8) // [] ∉ chunks}) :
    nextLines (BufRead.chunked Empty UInt8) cap n chunks = .ok (reference cap chunks.1.flatten n) := by
  rcases nextLines_eq (BufRead.chunked Empty UInt8) cap n chunks with h | ⟨_, err, _⟩
  · exact h
  · exact err.elim

end TmuxAgents.Serve.Wire
