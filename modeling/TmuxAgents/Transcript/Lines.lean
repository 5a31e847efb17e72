/-
The events of a piece of a transcript: they are the events of its lines, so whole lines can be
mapped a piece at a time (`mapRange_append`).
-/
import TmuxAgents.Transcript.Reader

namespace TmuxAgents.Transcript

open Lines

variable {Kind Session : Type} (adapters : Adapters Kind Session) (store : Store) (id : FileId)

/-- A line that maps to an event. -/
def bears (line : Bytes) : Bool :=
  !(stripEol line).all isAsciiWhitespace &&
    (adapters.mapRecord store (stripEol line)).elim true fun record => !record.2.isEmpty

/-- How many events a line maps to. -/
def eventCount (line : Bytes) : Nat :=
  if (stripEol line).all isAsciiWhitespace then 0
  else (adapters.mapRecord store (stripEol line)).elim 1 fun record => record.2.length

/-- An event whatever size the file had when its cursor was minted. -/
def Event.unsized (event : Event Kind) : Event Kind := { event with cursor := { event.cursor with size := 0 } }

theorem mapLine_eq_nil {size offset : Nat} {line : Bytes} :
    (mapLine adapters store id size line offset).1 = [] ↔ bears adapters store line = false := by
  unfold mapLine bears
  by_cases hblank : (stripEol line).all isAsciiWhitespace = true
  · simp [hblank]
  · cases hrecord : adapters.mapRecord store (stripEol line) with
    | none => simp [hblank, hrecord]
    | some record => simp [hblank, hrecord]

theorem length_mapLine (size offset : Nat) (line : Bytes) :
    (mapLine adapters store id size line offset).1.length = eventCount adapters store line := by
  unfold mapLine eventCount
  by_cases hblank : (stripEol line).all isAsciiWhitespace = true
  · simp [hblank]
  · cases hrecord : adapters.mapRecord store (stripEol line) with
    | none => simp [hblank, hrecord]
    | some record => simp [hblank, hrecord]

theorem mapLine_unsized (size offset : Nat) (line : Bytes) :
    (mapLine adapters store id size line offset).1.map Event.unsized = (mapLine adapters store id 0 line offset).1 := by
  unfold mapLine
  by_cases hblank : (stripEol line).all isAsciiWhitespace = true
  · simp [hblank]
  · cases hrecord : adapters.mapRecord store (stripEol line) with
    | none => simp [hblank, hrecord, Event.unsized]
    | some record =>
      simp only [hblank, hrecord]
      refine List.ext_getElem? fun i => ?_
      simp only [Bool.false_eq_true, if_false, List.getElem?_map, List.getElem?_mapIdx, Option.map_map]
      rfl

theorem mapLines_append (size offset : Nat) (lines more : List Bytes) :
    (mapLines adapters store id size offset (lines ++ more)).1 =
      (mapLines adapters store id size offset lines).1 ++
        (mapLines adapters store id size (offset + lines.flatten.length) more).1 := by
  induction lines generalizing offset with
  | nil => rfl
  | cons line lines ih =>
    simp only [List.cons_append, mapLines, ih, List.append_assoc, List.flatten_cons, List.length_append,
      Nat.add_assoc]

theorem mapLines_append_unknown (size offset : Nat) (lines more : List Bytes) :
    (mapLines adapters store id size offset (lines ++ more)).2 =
      (mapLines adapters store id size offset lines).2 +
        (mapLines adapters store id size (offset + lines.flatten.length) more).2 := by
  induction lines generalizing offset with
  | nil => simp [mapLines]
  | cons line lines ih =>
    simp only [List.cons_append, mapLines, ih, List.flatten_cons, List.length_append, Nat.add_assoc]

/-- A line without events has no unknown one. -/
theorem mapLine_unknown {size offset : Nat} {line : Bytes} (h : (mapLine adapters store id size line offset).1 = []) :
    (mapLine adapters store id size line offset).2 = 0 := by
  unfold mapLine at h ⊢
  by_cases hblank : (stripEol line).all isAsciiWhitespace = true
  · simp [hblank]
  · cases hrecord : adapters.mapRecord store (stripEol line) with
    | none => simp [hblank, hrecord] at h
    | some record =>
      have hnil : record.2 = [] := by simpa [hblank, hrecord] using h
      simp [hblank, hrecord, hnil]

theorem mapLines_unsized (size offset : Nat) (lines : List Bytes) :
    (mapLines adapters store id size offset lines).1.map Event.unsized =
      (mapLines adapters store id 0 offset lines).1 := by
  induction lines generalizing offset with
  | nil => rfl
  | cons line lines ih => simp only [mapLines, List.map_append, mapLine_unsized, ih]

theorem mapLines_eq_nil {size offset : Nat} {lines : List Bytes} :
    (mapLines adapters store id size offset lines).1 = [] ↔ ∀ line ∈ lines, bears adapters store line = false := by
  induction lines generalizing offset with
  | nil => simp [mapLines]
  | cons line lines ih =>
    simp only [mapLines, List.append_eq_nil_iff, mapLine_eq_nil, ih, List.mem_cons, forall_eq_or_imp]

/-- **Whole lines map by themselves.** -/
theorem mapRange_append (size base : Nat) {bytes more : Bytes} (h : Whole newline bytes) :
    (mapRange adapters store id size (bytes ++ more) base).1 =
      (mapRange adapters store id size bytes base).1 ++
        (mapRange adapters store id size more (base + bytes.length)).1 := by
  unfold mapRange
  rw [splitInclusive_append h, mapLines_append, flatten_splitInclusive]

theorem mapRange_append_unknown (size base : Nat) {bytes more : Bytes} (h : Whole newline bytes) :
    (mapRange adapters store id size (bytes ++ more) base).2 =
      (mapRange adapters store id size bytes base).2 +
        (mapRange adapters store id size more (base + bytes.length)).2 := by
  unfold mapRange
  rw [splitInclusive_append h, mapLines_append_unknown, flatten_splitInclusive]

theorem mapRange_unsized (size base : Nat) (bytes : Bytes) :
    (mapRange adapters store id size bytes base).1.map Event.unsized =
      (mapRange adapters store id 0 bytes base).1 :=
  mapLines_unsized adapters store id size base _

theorem mapRange_eq_nil {size base : Nat} {bytes : Bytes} :
    (mapRange adapters store id size bytes base).1 = [] ↔
      ∀ line ∈ Lines.splitInclusive newline bytes, bears adapters store line = false :=
  mapLines_eq_nil adapters store id

/-- The events of the newline-terminated lines of a file, in file order. -/
def lineEvents (bytes : Bytes) : List (Event Kind) :=
  (mapRange adapters store id 0 (bytes.take (completeLen newline bytes)) 0).1

end TmuxAgents.Transcript
