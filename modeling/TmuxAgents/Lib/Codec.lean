/-
Codecs: a value as a text, and back.

`Exact` says that a codec reads back what it wrote and writes back what it read. The rules
below are for codecs made of others: a list of values, and fields joined by a separator,
where a joined text splits in one way only.
-/
import TmuxAgents.Lib.Text

namespace Codec

/-! ## Exact codecs -/

variable {α β : Type*} {Valid : α → Prop} {encode : α → β} {parse : β → Option α}

/-- The codec reads back every valid value, accepts nothing but encodings of valid values, and
two texts it accepts are the same exactly where their values are. -/
structure Exact (Valid : α → Prop) (encode : α → β) (parse : β → Option α) : Prop where
  parse_encode : ∀ v, Valid v → parse (encode v) = some v
  encode_parse : ∀ s v, parse s = some v → encode v = s
  valid : ∀ s v, parse s = some v → Valid v
  same : ∀ s t v w, parse s = some v → parse t = some w → (s = t ↔ v = w)

/-- Exactness in one line, which is how it is proved. -/
theorem Exact.of_iff (h : ∀ s v, parse s = some v ↔ Valid v ∧ encode v = s) : Exact Valid encode parse where
  parse_encode v hv := (h _ _).mpr ⟨hv, rfl⟩
  encode_parse s v hs := ((h s v).mp hs).2
  valid s v hs := ((h s v).mp hs).1
  same s t v w hs ht := by
    constructor
    · rintro rfl
      exact Option.some.inj (hs.symm.trans ht)
    · rintro rfl
      exact ((h s v).mp hs).2.symm.trans ((h t v).mp ht).2

/-- Exactness in one line, which is how it is used. -/
theorem Exact.parse_eq_some (h : Exact Valid encode parse) {s : β} {v : α} :
    parse s = some v ↔ Valid v ∧ encode v = s := by
  constructor
  · intro hs
    exact ⟨h.valid s v hs, h.encode_parse s v hs⟩
  · rintro ⟨hv, rfl⟩
    exact h.parse_encode v hv

/-- A list of values, each of its own text. -/
theorem Exact.mapM_eq_some (h : Exact Valid encode parse) {texts : List β} {values : List α} :
    texts.mapM parse = some values ↔ (∀ v ∈ values, Valid v) ∧ values.map encode = texts := by
  induction texts generalizing values with
  | nil =>
    cases values with
    | nil => simp
    | cons v vs => simp
  | cons text texts ih =>
    simp only [List.mapM_cons, Option.bind_eq_bind, Option.bind_eq_some_iff, h.parse_eq_some, ih, Option.pure_def,
      Option.some.injEq]
    constructor
    · rintro ⟨v, ⟨hv, rfl⟩, vs, ⟨hvs, rfl⟩, rfl⟩
      exact ⟨by simpa using ⟨hv, hvs⟩, rfl⟩
    · rintro ⟨hvalid, hmap⟩
      cases values with
      | nil => cases hmap
      | cons v vs =>
        obtain ⟨rfl, rfl⟩ := List.cons.inj hmap
        exact ⟨v, ⟨hvalid v List.mem_cons_self, rfl⟩, vs, ⟨fun w hw => hvalid w (List.mem_cons_of_mem _ hw), rfl⟩,
          rfl⟩

theorem mem_intercalate {c sep : α} {fields : List (List α)} (h : c ∈ [sep].intercalate fields) :
    c = sep ∨ ∃ field ∈ fields, c ∈ field := by
  induction fields with
  | nil => cases h
  | cons field fields ih =>
    cases fields with
    | nil => exact .inr ⟨field, List.mem_cons_self, by simpa using h⟩
    | cons next rest =>
      rw [List.intercalate_cons_cons, List.append_assoc, List.mem_append, List.mem_append,
        List.mem_singleton] at h
      rcases h with h | h | h
      · exact .inr ⟨field, List.mem_cons_self, h⟩
      · exact .inl h
      · rcases ih h with h | ⟨f, hf, hc⟩
        · exact .inl h
        · exact .inr ⟨f, List.mem_cons_of_mem _ hf, hc⟩

/-- Two lists of fields, joined, are joined at one more separator. -/
theorem intercalate_append {sep : α} {l l' : List (List α)} (hl : l ≠ []) (hl' : l' ≠ []) :
    [sep].intercalate (l ++ l') = [sep].intercalate l ++ sep :: [sep].intercalate l' := by
  induction l with
  | nil => exact absurd rfl hl
  | cons field l ih =>
    cases l with
    | nil => rw [List.cons_append, List.nil_append, List.intercalate_cons_of_ne_nil hl', List.intercalate_singleton,
        List.append_assoc, List.singleton_append]
    | cons next rest =>
      have ih := ih (List.cons_ne_nil next rest)
      rw [List.cons_append] at ih ⊢
      rw [List.cons_append, List.intercalate_cons_cons, ih, List.intercalate_cons_cons]
      simp only [List.append_assoc]

end Codec

namespace Text

/-! ## Splitting and joining -/

theorem not_mem_of_mem_splitOn {sep : Char} {text field : Text} (h : field ∈ text.splitOn sep) : sep ∉ field := by
  induction text generalizing field with
  | nil =>
    rw [List.splitOn_nil, List.mem_singleton] at h
    subst h
    exact List.not_mem_nil
  | cons c text ih =>
    rw [List.splitOn_cons_eq_if_modifyHead] at h
    obtain ⟨first, rest, hsplit⟩ := List.exists_cons_of_ne_nil (List.splitOn_ne_nil sep text)
    by_cases hc : c = sep
    · rw [if_pos (beq_iff_eq.mpr hc), List.mem_cons] at h
      rcases h with rfl | h
      · exact List.not_mem_nil
      · exact ih h
    · rw [if_neg (by rwa [beq_iff_eq]), hsplit, List.modifyHead_cons, List.mem_cons] at h
      rcases h with rfl | h
      · have hfirst : sep ∉ first := ih (by rw [hsplit]; exact List.mem_cons_self)
        rw [List.mem_cons]
        rintro (heq | hmem)
        · exact hc heq.symm
        · exact hfirst hmem
      · exact ih (by rw [hsplit]; exact List.mem_cons_of_mem _ h)

/-- A text has one list of separator-free fields. -/
theorem splitOn_eq_iff {sep : Char} {text : Text} {fields : List Text} :
    text.splitOn sep = fields ↔ fields ≠ [] ∧ (∀ field ∈ fields, sep ∉ field) ∧ [sep].intercalate fields = text := by
  constructor
  · rintro rfl
    exact ⟨List.splitOn_ne_nil sep text, fun _ hfield => not_mem_of_mem_splitOn hfield, List.intercalate_splitOn sep⟩
  · rintro ⟨hne, hfields, rfl⟩
    exact List.splitOn_intercalate sep hfields hne

/-- A text without the separator, or what comes before it and what after. -/
theorem find_sep (sep : Char) (text : Text) :
    (text.dropWhile (· ≠ sep) = [] ∧ sep ∉ text) ∨
      ∃ rest, text.dropWhile (· ≠ sep) = sep :: rest ∧ sep ∉ text.takeWhile (· ≠ sep) ∧
        text.takeWhile (· ≠ sep) ++ sep :: rest = text := by
  have htake : sep ∉ text.takeWhile (· ≠ sep) := by
    intro hmem
    simpa using List.all_eq_true.mp List.all_takeWhile sep hmem
  have happend := List.takeWhile_append_dropWhile (p := fun c => decide (c ≠ sep)) (l := text)
  cases hdrop : text.dropWhile (· ≠ sep) with
  | nil =>
    rw [hdrop, List.append_nil] at happend
    exact .inl ⟨rfl, happend ▸ htake⟩
  | cons c rest =>
    have hc : c = sep := by
      have hhead := List.head?_dropWhile_not (fun c => decide (c ≠ sep)) text
      rw [hdrop] at hhead
      simpa using hhead
    subst hc
    rw [hdrop] at happend
    exact .inr ⟨rest, rfl, htake, happend⟩

/-- More than one field: the first ends at the first separator. -/
theorem splitn_eq_cons_cons {n : Nat} {sep : Char} {text first second : Text} {fields : List Text} :
    splitn (n + 2) sep text = first :: second :: fields ↔
      sep ∉ first ∧ ∃ rest, first ++ sep :: rest = text ∧ splitn (n + 1) sep rest = second :: fields := by
  constructor
  · intro h
    rcases find_sep sep text with ⟨hdrop, -⟩ | ⟨rest, hdrop, htake, happend⟩
    · rw [splitn, hdrop] at h
      cases h
    · rw [splitn, hdrop] at h
      obtain ⟨rfl, hrest⟩ := List.cons.inj h
      exact ⟨htake, rest, happend, hrest⟩
  · rintro ⟨hfirst, rest, rfl, hrest⟩
    rw [splitn_append hfirst, hrest]

theorem splitn_four {sep : Char} {text a b c d : Text} :
    splitn 4 sep text = [a, b, c, d] ↔
      (sep ∉ a ∧ sep ∉ b ∧ sep ∉ c) ∧ a ++ sep :: (b ++ sep :: (c ++ sep :: d)) = text := by
  rw [splitn_eq_cons_cons]
  constructor
  · rintro ⟨ha, rest, rfl, hrest⟩
    obtain ⟨hb, rest', rfl, hrest'⟩ := splitn_eq_cons_cons.mp hrest
    obtain ⟨hc, rest'', rfl, hrest''⟩ := splitn_eq_cons_cons.mp hrest'
    obtain ⟨rfl, -⟩ := List.cons.inj hrest''
    exact ⟨⟨ha, hb, hc⟩, rfl⟩
  · rintro ⟨⟨ha, hb, hc⟩, rfl⟩
    refine ⟨ha, _, rfl, ?_⟩
    rw [splitn_append hb, splitn_append hc]
    rfl

end Text
