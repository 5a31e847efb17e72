/-
The template of a window's name (`window_name.rs` of tma-runtime): a text with fields in braces, parsed
once, as the configuration is loaded, and rendered from the pane that a window is named for.
-/
import TmuxAgents.Persist.Codecs

namespace TmuxAgents.WindowNames

/-! ## Templates -/

inductive Field
  | agent
  | state
  | detail
  | repo
  | branch
deriving DecidableEq

def Field.token : Field → Text
  | .agent => "agent".toList
  | .state => "state".toList
  | .detail => "detail".toList
  | .repo => "repo".toList
  | .branch => "branch".toList

def Field.parse (token : Text) : Option Field :=
  if token = "agent".toList then some .agent
  else if token = "state".toList then some .state
  else if token = "detail".toList then some .detail
  else if token = "repo".toList then some .repo
  else if token = "branch".toList then some .branch
  else none

inductive Segment
  | literal (text : Text)
  | field (field : Field)
deriving DecidableEq

inductive TemplateError
  | unknownToken (token : Text)
  | unterminated
deriving DecidableEq

def TemplateError.message : TemplateError → String
  | .unknownToken token =>
    "unknown token `\x7b" ++ String.ofList token ++ "\x7d`; window_names.format takes \x7bagent\x7d, \x7bstate\x7d, " ++
      "\x7bdetail\x7d, \x7brepo\x7d and \x7bbranch\x7d"
  | .unterminated => "unterminated `\x7b` in window_names.format"

/-- A literal between two fields, if there is any. -/
def literalOf (text : Text) : List Segment := if text = [] then [] else [.literal text]

theorem length_splitOnce {sep : Char} {text before after : Text} (h : splitOnce sep text = some (before, after)) :
    after.length < text.length := by
  obtain ⟨-, rfl⟩ := splitOnce_eq_some.mp h
  rw [List.length_append, List.length_cons]
  omega

def parseSegments (rest : Text) : Except TemplateError (List Segment) :=
  match _h : splitOnce '\x7b' rest with
  | none => .ok (literalOf rest)
  | some (literal, after) =>
    match _h' : splitOnce '\x7d' after with
    | none => .error .unterminated
    | some (token, more) =>
      match Field.parse token with
      | none => .error (.unknownToken token)
      | some field => (parseSegments more).map fun segments => literalOf literal ++ .field field :: segments
termination_by rest.length
decreasing_by exact Nat.lt_trans (length_splitOnce _h') (length_splitOnce _h)

structure NameTemplate where
  segments : List Segment
  source : Text
deriving DecidableEq

def defaultFormat : Text := "\x7brepo\x7d:\x7bstate\x7d".toList

namespace NameTemplate

def default : NameTemplate where
  segments := [.field .repo, .literal ":".toList, .field .state]
  source := defaultFormat

def parse (format : Text) : Except TemplateError NameTemplate :=
  (parseSegments format).map fun segments => { segments, source := format }

def needsRepo (template : NameTemplate) : Bool :=
  template.segments.any fun segment => segment = .field .repo || segment = .field .branch

end NameTemplate

/-! ## Rendering -/

def nameMax : Nat := 64

def separators : Text := " \t:/|,-_@.".toList

def isSeparator (text : Text) : Bool := !text.isEmpty && text.all separators.contains

/-- What is known of the pane, or of its checkout; empty where nothing is. -/
structure NameFields where
  agent : Text
  state : Text
  detail : Text
  repo : Text
  branch : Text

def NameFields.get (fields : NameFields) : Field → Text
  | .agent => fields.agent
  | .state => fields.state
  | .detail => fields.detail
  | .repo => fields.repo
  | .branch => fields.branch

/-- What has been rendered, and the separator that is held back until something follows it. -/
structure Rendering where
  out : Text := []
  pending : Option Text := none

namespace Rendering

def push (r : Rendering) (value : Text) : Rendering :=
  if value = [] then r
  else { out := (if r.out = [] then [] else r.out ++ r.pending.getD []) ++ value }

def segment (fields : NameFields) (r : Rendering) : Segment → Rendering
  | .literal text => if isSeparator text then { r with pending := some text } else r.push text
  | .field found => r.push (fields.get found)

end Rendering

def sanitize (name : Text) : Text :=
  let short := (name.filter fun c => !isControl c).take nameMax
  ((short.dropWhile isWhitespace).reverse.dropWhile isWhitespace).reverse

namespace NameTemplate

/-- The name before it is cut. -/
def joined (template : NameTemplate) (fields : NameFields) : Text :=
  (template.segments.foldl (Rendering.segment fields) {}).out

def render (template : NameTemplate) (fields : NameFields) : Text := sanitize (template.joined fields)

end NameTemplate

/-! ## What is parsed -/

theorem Field.parse_eq_some {token : Text} {field : Field} : Field.parse token = some field ↔ token = field.token := by
  constructor
  · intro h
    unfold Field.parse at h
    repeat' split at h
    all_goals cases h
    all_goals assumption
  · rintro rfl
    cases field <;> rfl

theorem Field.token_plain (field : Field) : '\x7d' ∉ field.token := by cases field <;> decide

theorem splitOnce_eq_none {sep : Char} {text : Text} : splitOnce sep text = none ↔ sep ∉ text := by
  constructor
  · intro h hmem
    obtain ⟨before, after, rfl, hbefore⟩ := List.eq_append_cons_of_mem hmem
    rw [splitOnce_eq_some.mpr ⟨hbefore, rfl⟩] at h
    cases h
  · intro h
    cases hsplit : splitOnce sep text with
    | none => rfl
    | some parts =>
      obtain ⟨-, rfl⟩ := splitOnce_eq_some.mp hsplit
      exact absurd (List.mem_append_right _ List.mem_cons_self) h

def Segment.text : Segment → Text
  | .literal text => text
  | .field found => '\x7b' :: (found.token ++ ['\x7d'])

/-- Literals are not empty and open no field, and no two stand together. -/
def Canonical : List Segment → Prop
  | [] => True
  | .literal text :: rest => text ≠ [] ∧ '\x7b' ∉ text ∧ (∀ other, rest.head? ≠ some (.literal other)) ∧ Canonical rest
  | .field _ :: rest => Canonical rest

theorem text_literalOf (text : Text) : (literalOf text).flatMap Segment.text = text := by
  unfold literalOf
  split
  · rename_i h
    rw [h]
    rfl
  · rw [List.flatMap_singleton, Segment.text]

theorem canonical_literalOf {text : Text} (h : '\x7b' ∉ text) (field : Field) {rest : List Segment}
    (hrest : Canonical rest) : Canonical (literalOf text ++ .field field :: rest) := by
  unfold literalOf
  split
  · exact hrest
  · rename_i hne
    exact ⟨hne, h, fun other => by simp, hrest⟩

/-- A field, behind a literal. -/
theorem text_field (literal more : Text) (field : Field) (rest : List Segment)
    (hrest : rest.flatMap Segment.text = more) :
    (literalOf literal ++ .field field :: rest).flatMap Segment.text =
      literal ++ '\x7b' :: (field.token ++ '\x7d' :: more) := by
  rw [List.flatMap_append, text_literalOf, List.flatMap_cons, hrest, Segment.text, List.cons_append, List.append_assoc,
    List.singleton_append]

/-- A brace opens a field, or the text is no template. -/
theorem parseSegments_open {text literal after : Text} (h : splitOnce '\x7b' text = some (literal, after)) :
    parseSegments text = match splitOnce '\x7d' after with
      | none => .error .unterminated
      | some (token, more) =>
        match Field.parse token with
        | none => .error (.unknownToken token)
        | some field => (parseSegments more).map fun segments => literalOf literal ++ .field field :: segments := by
  rw [parseSegments]
  split
  · rename_i hsplit
    rw [h] at hsplit
    cases hsplit
  · rename_i before rest hsplit
    rw [h] at hsplit
    cases hsplit
    split
    · rename_i hclose
      rw [hclose]
    · rename_i token more hclose
      rw [hclose]

theorem parseSegments_plain {text : Text} (h : '\x7b' ∉ text) : parseSegments text = .ok (literalOf text) := by
  rw [parseSegments]
  split
  · rfl
  · rename_i hsplit
    rw [splitOnce_eq_none.mpr h] at hsplit
    cases hsplit

theorem parseSegments_field {literal : Text} (h : '\x7b' ∉ literal) (field : Field) (more : Text) :
    parseSegments (literal ++ '\x7b' :: (field.token ++ '\x7d' :: more)) =
      (parseSegments more).map fun segments => literalOf literal ++ .field field :: segments := by
  have hopen : splitOnce '\x7b' (literal ++ '\x7b' :: (field.token ++ '\x7d' :: more)) =
      some (literal, field.token ++ '\x7d' :: more) := splitOnce_eq_some.mpr ⟨h, rfl⟩
  have hclose : splitOnce '\x7d' (field.token ++ '\x7d' :: more) = some (field.token, more) :=
    splitOnce_eq_some.mpr ⟨field.token_plain, rfl⟩
  simp only [parseSegments_open hopen, hclose, Field.parse_eq_some.mpr rfl]

theorem parseSegments_text : ∀ segments : List Segment, Canonical segments →
    parseSegments (segments.flatMap Segment.text) = .ok segments
  | [], _ => parseSegments_plain List.not_mem_nil
  | [.literal text], h => by
    obtain ⟨hne, hplain, -⟩ := h
    rw [List.flatMap_cons, List.flatMap_nil, List.append_nil, Segment.text, parseSegments_plain hplain, literalOf,
      if_neg hne]
  | .literal text :: .field field :: rest, h => by
    obtain ⟨hne, hplain, -, hrest⟩ := h
    have htext := text_field text _ field rest rfl
    rw [literalOf, if_neg hne, List.singleton_append] at htext
    rw [htext, parseSegments_field hplain, parseSegments_text rest hrest, literalOf, if_neg hne]
    rfl
  | .literal _ :: .literal other :: _, h => absurd rfl (h.2.2.1 other)
  | .field field :: rest, h => by
    have htext := text_field [] _ field rest rfl
    rw [literalOf, if_pos rfl, List.nil_append] at htext
    rw [htext, parseSegments_field List.not_mem_nil, parseSegments_text rest h]
    rfl

/-- The default format parses. -/
theorem NameTemplate.parse_defaultFormat : parse defaultFormat = .ok default := by
  have hcanonical : Canonical default.segments :=
    ⟨List.cons_ne_nil _ _, by decide, fun other => by simp, trivial⟩
  have htext : default.segments.flatMap Segment.text = defaultFormat := by decide
  have hsegments := parseSegments_text _ hcanonical
  rw [htext] at hsegments
  rw [parse, hsegments]
  rfl

theorem canonical_of_parse {text : Text} {segments : List Segment} (h : parseSegments text = .ok segments) :
    Canonical segments ∧ segments.flatMap Segment.text = text := by
  induction text using parseSegments.induct generalizing segments with
  | case1 text hsplit =>
    have hplain := splitOnce_eq_none.mp hsplit
    rw [parseSegments_plain hplain] at h
    cases h
    refine ⟨?_, text_literalOf text⟩
    unfold literalOf
    split
    · trivial
    · rename_i hne
      exact ⟨hne, hplain, fun other => by simp, trivial⟩
  | case2 text literal after hsplit hclose =>
    rw [parseSegments_open hsplit] at h
    simp [hclose] at h
  | case3 text literal after hsplit token more hclose hunknown =>
    rw [parseSegments_open hsplit] at h
    simp [hclose, hunknown] at h
  | case4 text literal after hsplit token more hclose field hfield ih =>
    obtain ⟨hliteral, rfl⟩ := splitOnce_eq_some.mp hsplit
    obtain ⟨-, rfl⟩ := splitOnce_eq_some.mp hclose
    obtain rfl := Field.parse_eq_some.mp hfield
    rw [parseSegments_field hliteral] at h
    cases hmore : parseSegments more with
    | error e =>
      rw [hmore] at h
      cases h
    | ok rest =>
      rw [hmore] at h
      cases h
      obtain ⟨hrest, htext⟩ := ih hmore
      exact ⟨canonical_literalOf hliteral field hrest, text_field literal more field rest htext⟩

/-- Where a text stops being a template: behind `segments` and a literal, at a brace that opens no field. -/
def Fails (text : Text) (e : TemplateError) : Prop :=
  ∃ (segments : List Segment) (literal after : Text), Canonical segments ∧
    text = segments.flatMap Segment.text ++ (literal ++ '\x7b' :: after) ∧ '\x7b' ∉ literal ∧
    (e = .unterminated ∧ '\x7d' ∉ after ∨
      ∃ token more, e = .unknownToken token ∧ after = token ++ '\x7d' :: more ∧ '\x7d' ∉ token ∧
        ∀ field : Field, token ≠ field.token)

theorem fails_of_parse {text : Text} {e : TemplateError} (h : parseSegments text = .error e) : Fails text e := by
  induction text using parseSegments.induct with
  | case1 text hsplit =>
    rw [parseSegments_plain (splitOnce_eq_none.mp hsplit)] at h
    cases h
  | case2 text literal after hsplit hclose =>
    simp only [parseSegments_open hsplit, hclose] at h
    cases h
    obtain ⟨hliteral, rfl⟩ := splitOnce_eq_some.mp hsplit
    exact ⟨[], literal, after, trivial, rfl, hliteral, .inl ⟨rfl, splitOnce_eq_none.mp hclose⟩⟩
  | case3 text literal after hsplit token more hclose hunknown =>
    simp only [parseSegments_open hsplit, hclose, hunknown] at h
    cases h
    obtain ⟨hliteral, rfl⟩ := splitOnce_eq_some.mp hsplit
    obtain ⟨htoken, rfl⟩ := splitOnce_eq_some.mp hclose
    refine ⟨[], literal, _, trivial, rfl, hliteral, .inr ⟨token, more, rfl, rfl, htoken, fun field hfield => ?_⟩⟩
    rw [Field.parse_eq_some.mpr hfield] at hunknown
    cases hunknown
  | case4 text literal after hsplit token more hclose field hfield ih =>
    obtain ⟨hliteral, rfl⟩ := splitOnce_eq_some.mp hsplit
    obtain ⟨-, rfl⟩ := splitOnce_eq_some.mp hclose
    obtain rfl := Field.parse_eq_some.mp hfield
    rw [parseSegments_field hliteral] at h
    cases hmore : parseSegments more with
    | ok rest =>
      rw [hmore] at h
      cases h
    | error found =>
      rw [hmore] at h
      cases h
      obtain ⟨segments, last, after, hcanonical, rfl, hfails⟩ := ih hmore
      refine ⟨literalOf literal ++ .field field :: segments, last, after,
        canonical_literalOf hliteral field hcanonical, ?_, hfails⟩
      rw [text_field literal _ field segments rfl, List.append_assoc, List.cons_append, List.append_assoc,
        List.cons_append]

/-- **A template is its text**: what parses, parses to the one list of literals and fields that it is the text of, and
every such list is parsed from its text; what does not is no template from a brace on that is not closed, or that holds
what is no field's name, which is named. -/
theorem template_exact (format : Text) :
    (∀ template, NameTemplate.parse format = .ok template ↔
      template.source = format ∧ Canonical template.segments ∧ template.segments.flatMap Segment.text = format) ∧
    ∀ e, NameTemplate.parse format = .error e → Fails format e := by
  refine ⟨fun template => ⟨fun h => ?_, fun h => ?_⟩, fun e h => ?_⟩
  · unfold NameTemplate.parse at h
    cases hsegments : parseSegments format with
    | error e =>
      rw [hsegments] at h
      cases h
    | ok segments =>
      rw [hsegments] at h
      cases h
      exact ⟨rfl, canonical_of_parse hsegments⟩
  · obtain ⟨segments, source⟩ := template
    obtain ⟨rfl, hcanonical, htext⟩ := h
    have hparse := parseSegments_text segments hcanonical
    rw [htext] at hparse
    rw [NameTemplate.parse, hparse]
    rfl
  · unfold NameTemplate.parse at h
    cases hsegments : parseSegments format with
    | ok segments =>
      rw [hsegments] at h
      cases h
    | error found =>
      rw [hsegments] at h
      cases h
      exact fails_of_parse hsegments

/-! ## What is rendered -/

/-- What a segment has to show: a literal, or what its field holds; a separator and an empty field have nothing. -/
def Segment.shown (fields : NameFields) : Segment → List Text
  | .literal text => if isSeparator text || text.isEmpty then [] else [text]
  | .field found => if (fields.get found).isEmpty then [] else [fields.get found]

/-- Nothing of the segments is shown. -/
def Silent (fields : NameFields) (segments : List Segment) : Prop := ∀ segment ∈ segments, segment.shown fields = []

theorem Silent.nil (fields : NameFields) : Silent fields [] := nofun

theorem Silent.snoc {fields : NameFields} {segments : List Segment} (h : Silent fields segments) {segment : Segment}
    (hsegment : segment.shown fields = []) : Silent fields (segments ++ [segment]) := by
  intro other hother
  rcases List.mem_append.mp hother with hother | hother
  · exact h other hother
  · rw [List.mem_singleton.mp hother, hsegment]

def Segment.separator : Segment → Option Text
  | .literal text => if isSeparator text then some text else none
  | .field _ => none

/-- What stands between two parts: the last separator of the segments between them, if there is one. -/
def lastSeparator (segments : List Segment) : Option Text := (segments.filterMap Segment.separator).getLast?

/-- What is shown behind a part. -/
inductive Follows (fields : NameFields) : List Segment → Text → Prop
  | done {segments : List Segment} : Silent fields segments → Follows fields segments []
  | next {between rest : List Segment} {segment : Segment} {part more : Text} :
    Silent fields between → segment.shown fields = [part] → Follows fields rest more →
    Follows fields (between ++ segment :: rest) ((lastSeparator between).getD [] ++ part ++ more)

/-- The parts stand in order, and between two of them the last of the separators there. -/
inductive Joins (fields : NameFields) : List Segment → Text → Prop
  | nothing {segments : List Segment} : Silent fields segments → Joins fields segments []
  | shown {front rest : List Segment} {segment : Segment} {part more : Text} :
    Silent fields front → segment.shown fields = [part] → Follows fields rest more →
    Joins fields (front ++ segment :: rest) (part ++ more)

theorem lastSeparator_snoc (segments : List Segment) (segment : Segment) :
    lastSeparator (segments ++ [segment]) = segment.separator.or (lastSeparator segments) := by
  rw [lastSeparator, List.filterMap_append, List.getLast?_append, lastSeparator, List.filterMap_cons, List.filterMap_nil]
  cases segment.separator <;> rfl

/-- A segment holds a separator back, is not shown, or is pushed. -/
theorem Rendering.segment_cases (fields : NameFields) (r : Rendering) (segment : Segment) :
    (segment.shown fields = [] ∧
      r.segment fields segment = { r with pending := segment.separator.or r.pending }) ∨
    ∃ part, segment.shown fields = [part] ∧ part ≠ [] ∧ r.segment fields segment = r.push part := by
  have hpush : ∀ value : Text, segment.separator = none →
      segment.shown fields = (if value.isEmpty then [] else [value]) → r.segment fields segment = r.push value →
      (segment.shown fields = [] ∧
        r.segment fields segment = { r with pending := segment.separator.or r.pending }) ∨
      ∃ part, segment.shown fields = [part] ∧ part ≠ [] ∧ r.segment fields segment = r.push part := by
    intro value hnone hshown hsegment
    cases value with
    | nil => exact .inl ⟨hshown, by rw [hsegment, hnone]; rfl⟩
    | cons c value => exact .inr ⟨c :: value, hshown, List.cons_ne_nil c value, hsegment⟩
  cases segment with
  | field found => exact hpush (fields.get found) rfl rfl rfl
  | literal text =>
    by_cases hseparator : isSeparator text = true
    · exact .inl (by simp [Segment.shown, Segment.separator, Rendering.segment, hseparator])
    · exact hpush text (by simp [Segment.separator, hseparator]) (by simp [Segment.shown, hseparator])
        (by simp [Rendering.segment, hseparator])

/-- Behind a part, with `between` read since and the last of its separators held back. -/
theorem follows_segments (fields : NameFields) (segments : List Segment) : ∀ (between : List Segment) (r : Rendering),
    r.out ≠ [] → Silent fields between → r.pending = lastSeparator between →
    ∃ more, (segments.foldl (Rendering.segment fields) r).out = r.out ++ more ∧
      Follows fields (between ++ segments) more := by
  induction segments with
  | nil =>
    intro between r _ hbetween _
    refine ⟨[], (List.append_nil _).symm, .done ?_⟩
    rwa [List.append_nil]
  | cons segment segments ih =>
    intro between r hout hbetween hpending
    rw [List.foldl_cons]
    rcases r.segment_cases fields segment with ⟨hshown, hsegment⟩ | ⟨part, hshown, hpart, hsegment⟩
    · obtain ⟨more, hmore, hfollows⟩ := ih (between ++ [segment]) (r.segment fields segment)
        (by rwa [hsegment]) (hbetween.snoc hshown) (by rw [hsegment, lastSeparator_snoc, hpending])
      refine ⟨more, by rw [hmore, hsegment], ?_⟩
      rwa [List.append_assoc] at hfollows
    · have hpush : r.push part = { out := r.out ++ r.pending.getD [] ++ part } := by
        rw [Rendering.push, if_neg hpart, if_neg hout]
      obtain ⟨more, hmore, hfollows⟩ := ih [] (r.segment fields segment)
        (by rw [hsegment, hpush]; simp [hout]) (Silent.nil fields) (by rw [hsegment, hpush]; rfl)
      refine ⟨(lastSeparator between).getD [] ++ part ++ more, ?_, .next hbetween hshown hfollows⟩
      rw [hmore, hsegment, hpush, hpending]
      simp only [List.append_assoc]

/-- Nothing has been shown of `front`. -/
theorem joins_segments (fields : NameFields) (segments : List Segment) : ∀ (front : List Segment) (r : Rendering),
    r.out = [] → Silent fields front →
    Joins fields (front ++ segments) (segments.foldl (Rendering.segment fields) r).out := by
  induction segments with
  | nil =>
    intro front r hout hfront
    rw [List.append_nil, List.foldl_nil, hout]
    exact .nothing hfront
  | cons segment segments ih =>
    intro front r hout hfront
    rw [List.foldl_cons]
    rcases r.segment_cases fields segment with ⟨hshown, hsegment⟩ | ⟨part, hshown, hpart, hsegment⟩
    · have h := ih (front ++ [segment]) (r.segment fields segment) (by rw [hsegment]; exact hout) (hfront.snoc hshown)
      rwa [List.append_assoc] at h
    · have hpush : r.push part = { out := part } := by
        rw [Rendering.push, if_neg hpart, if_pos hout, List.nil_append]
      obtain ⟨more, hmore, hfollows⟩ := follows_segments fields segments [] (r.segment fields segment)
        (by rwa [hsegment, hpush]) (Silent.nil fields) (by rw [hsegment, hpush]; rfl)
      rw [hmore, hsegment, hpush]
      exact .shown hfront hshown hfollows

theorem head?_dropWhile_not (p : Char → Bool) (text : Text) {c : Char} (h : (text.dropWhile p).head? = some c) :
    p c = false := by
  have hhead := List.head?_dropWhile_not p text
  rw [h] at hhead
  simpa using hhead

/-- The text with the blanks at both its ends off. -/
def Trims (text name : Text) : Prop :=
  (∃ before after, text = before ++ name ++ after ∧ ∀ c, c ∈ before ∨ c ∈ after → isWhitespace c = true) ∧
  ∀ c, name.head? = some c ∨ name.getLast? = some c → isWhitespace c = false

theorem last_sanitize {name : Text} {c : Char} (h : (sanitize name).getLast? = some c) : isWhitespace c = false := by
  unfold sanitize at h
  rw [List.getLast?_reverse] at h
  exact head?_dropWhile_not isWhitespace _ h

theorem head_sanitize {name : Text} {c : Char} (h : (sanitize name).head? = some c) : isWhitespace c = false := by
  unfold sanitize at h
  dsimp only at h
  generalize ((name.filter fun c => !isControl c).take nameMax) = short at h
  rw [List.head?_reverse] at h
  -- the blanks at the end do not touch the first character
  obtain ⟨blanks, hblanks⟩ := List.dropWhile_suffix (l := (short.dropWhile isWhitespace).reverse) isWhitespace
  have hne : (short.dropWhile isWhitespace).reverse.dropWhile isWhitespace ≠ [] := by
    intro hnil
    rw [hnil] at h
    cases h
  have hlast := congrArg List.getLast? hblanks
  rw [List.getLast?_append_of_ne_nil _ hne, h, List.getLast?_reverse] at hlast
  exact head?_dropWhile_not isWhitespace short hlast.symm

/-- The checkout is looked up only for a template that names it. -/
theorem NameTemplate.render_congr {template : NameTemplate} (h : template.needsRepo = false) {fields fields' : NameFields}
    (hagent : fields.agent = fields'.agent) (hstate : fields.state = fields'.state)
    (hdetail : fields.detail = fields'.detail) : template.render fields = template.render fields' := by
  have hsegment : ∀ segment ∈ template.segments, ∀ r : Rendering,
      r.segment fields segment = r.segment fields' segment := by
    intro segment hmem r
    have hother := List.any_eq_false.mp h segment hmem
    simp only [Bool.or_eq_true, decide_eq_true_eq, not_or] at hother
    cases segment with
    | literal text => rfl
    | field found =>
      have hget : fields.get found = fields'.get found := by
        cases found with
        | agent => exact hagent
        | state => exact hstate
        | detail => exact hdetail
        | repo => exact absurd rfl hother.1
        | branch => exact absurd rfl hother.2
      rw [Rendering.segment, Rendering.segment, hget]
  have hjoined : ∀ r : Rendering, template.segments.foldl (Rendering.segment fields) r =
      template.segments.foldl (Rendering.segment fields') r := fun r =>
    List.foldl_ext _ _ r fun r segment hmem => hsegment segment hmem r
  rw [NameTemplate.render, NameTemplate.joined, hjoined]
  rfl

theorem sanitize_trims (name : Text) : Trims ((name.filter fun c => !isControl c).take nameMax) (sanitize name) := by
  refine ⟨?_, fun c hc => hc.elim head_sanitize last_sanitize⟩
  unfold sanitize
  dsimp only
  generalize (name.filter fun c => !isControl c).take nameMax = short
  have hblank : ∀ (text : Text) (c : Char), c ∈ text.takeWhile isWhitespace → isWhitespace c = true := fun _ c hc =>
    List.all_eq_true.mp List.all_takeWhile c hc
  refine ⟨short.takeWhile isWhitespace, ((short.dropWhile isWhitespace).reverse.takeWhile isWhitespace).reverse, ?_,
    fun c hc => hc.elim (hblank _ c) fun hc => hblank _ c (List.mem_reverse.mp hc)⟩
  rw [List.append_assoc, ← List.reverse_append, List.takeWhile_append_dropWhile, List.reverse_reverse,
    List.takeWhile_append_dropWhile]

/-- **A rendered name is tidy**: it is the parts that there are, in order, with the last separator of the template that
stands between two of them there, and none elsewhere; of that, without what is of control, it is the first 64 characters,
with the blanks at both ends off. Where the template names nothing of a checkout, nothing of one matters. -/
theorem name_tidy (template : NameTemplate) (fields : NameFields) :
    Joins fields template.segments (template.joined fields) ∧
    Trims (((template.joined fields).filter fun c => !isControl c).take nameMax) (template.render fields) ∧
    (template.needsRepo = false →
      ∀ repo branch, template.render { fields with repo, branch } = template.render fields) :=
  ⟨joins_segments fields template.segments [] {} rfl (Silent.nil fields), sanitize_trims _,
    fun h _ _ => NameTemplate.render_congr h rfl rfl rfl⟩

end TmuxAgents.WindowNames
