/-
The HTTP client of the API lane (`http.rs`): one request, written at once, and an answer that arrives in reads.

An answer is read as its status line and its body are, however the reads cut it (`post_outcome`, `get_text_exact`); a body
in chunks that ends early is the chunks that had arrived.
-/
import TmuxAgents.Lib.Http
import TmuxAgents.Lib.Lossy
import TmuxAgents.Dispatch.SlotText
import TmuxAgents.Runtime.HookFacts
import TmuxAgents.Transcript.CursorText

namespace TmuxAgents.HttpClient

open Act (HttpOutcome)
open Http (Chunk arrived crlf cutAt dechunk lf)

/-! ## The target -/

/-- `u8::is_ascii_graphic`, of each byte of a character. -/
def isGraphic (c : Char) : Bool := decide (0x21 ≤ c.toNat) && decide (c.toNat ≤ 0x7e)

structure Target where
  authority : Text
  hostHeader : Text
  requestTarget : Text
deriving DecidableEq

section

-- `{:?}` of a string.
variable (debug : Text → Text)

/-- `http://host:port[/prefix]` and a path. The port is 80 where there is none. -/
def Target.parse (base path : Text) : Except Text Target :=
  if !base.all isGraphic || !path.all isGraphic then .error "endpoint or path carries whitespace/control bytes".toList
  else if "http://".toList <+: base then
    let rest := base.drop "http://".toList.length
    let authority := rest.takeWhile (· ≠ '/')
    if authority.isEmpty then .error ("api_base ".toList ++ debug base ++ " has no host".toList)
    else .ok
      { authority := if authority.contains ':' then authority else authority ++ ":80".toList
        hostHeader := authority.takeWhile (· ≠ ':')
        requestTarget := ((rest.dropWhile (· ≠ '/')).reverse.dropWhile (· = '/')).reverse ++ path }
  else .error ("api_base ".toList ++ debug base ++ " must be an http:// URL (no TLS on localhost)".toList)

/-! ## Requests -/

def postRequest (target : Target) (body : Text) : Text :=
  "POST ".toList ++ target.requestTarget ++ " HTTP/1.1\r\nHost: ".toList ++ target.hostHeader ++
    "\r\nContent-Type: application/json\r\nContent-Length: ".toList ++ Text.decimal (Text.len body) ++
    "\r\nConnection: close\r\n\r\n".toList ++ body

def getRequest (target : Target) : Text :=
  "GET ".toList ++ target.requestTarget ++ " HTTP/1.1\r\nHost: ".toList ++ target.hostHeader ++
    "\r\nAccept: application/json\r\nConnection: close\r\n\r\n".toList

/-! ## Answers -/

/-- The status code of the first line, as an outcome. -/
def classifyStatus (response : List UInt8) : HttpOutcome :=
  match (SlotText.lines (Text.lossy response)).head? with
  | none => .error "empty response".toList
  | some line =>
    match (splitWhitespace line)[1]?.bind (Text.parseUnsigned (2 ^ 16)) with
    | some code =>
      if 200 ≤ code ∧ code < 300 then .ok
      else if code = 404 then .notFound
      else .error ("server returned HTTP ".toList ++ Text.decimal code)
    | none => .error ("unparseable status line: ".toList ++ debug line)

/-- The size a chunk's line says, behind which an extension may stand. -/
def chunkSize (line : List UInt8) : Option Nat :=
  (Text.fromUtf8 line).bind fun line => Transcript.fromHex (trimEnd (trimStart (line.takeWhile (· ≠ ';'))))

/-- `to_ascii_lowercase`. -/
def toAsciiLowercase (text : Text) : Text := text.map Char.toLower

/-- The head says that the body is in chunks. -/
def isChunked (head : List UInt8) : Bool :=
  let head := toAsciiLowercase (Text.lossy head)
  decide ("transfer-encoding:".toList <:+: head) && decide ("chunked".toList <:+: head)

/-- `String::from_utf8` of a body. -/
def document (bytes : List UInt8) : Except Text Text :=
  (Text.fromUtf8 bytes).elim (.error "response body is not UTF-8".toList) .ok

/-- `body_of`. -/
def bodyOf (raw : List UInt8) : Except Text Text :=
  match cutAt (crlf ++ crlf) raw with
  | none => .error "response carries no header break".toList
  | some (head, body) => document (if isChunked head then dechunk chunkSize body else body)

/-- What all that was read comes to. -/
def answerOf (raw : List UInt8) : Except Text Text :=
  match classifyStatus debug raw with
  | .ok => bodyOf raw
  | .notFound => .error "server returned HTTP 404".toList
  | .error e => .error e

/-! ## Reads -/

/-- A read, where the peer has not closed. -/
inductive Read
  | data (bytes : List UInt8)
  | failed (error : Text)
  /-- The deadline had passed when it was looked at, which only the loop that reads a body does. -/
  | late

/-- The loop that reads a status line. -/
def readStatus : List UInt8 → List Read → Except Text (List UInt8)
  | buf, [] => .ok buf
  | buf, .data bytes :: later =>
    if (buf ++ bytes).contains lf || decide (4096 ≤ (buf ++ bytes).length) then .ok (buf ++ bytes)
    else readStatus (buf ++ bytes) later
  | _, .failed error :: _ => .error ("read failed: ".toList ++ error)
  | buf, .late :: later => readStatus buf later

def maxBodyBytes : Nat := 256 * 1024

/-- The loop that reads a body. -/
def readBody : List UInt8 → List Read → Except Text (List UInt8)
  | raw, [] => .ok raw
  | raw, .data bytes :: later =>
    if maxBodyBytes ≤ (raw ++ bytes).length then .ok (raw ++ bytes) else readBody (raw ++ bytes) later
  | _, .failed error :: _ => .error ("read failed: ".toList ++ error)
  | _, .late :: _ => .error "request timed out".toList

/-- How a call goes, up to its reads. -/
structure Exchange where
  connect : Except Text Unit
  /-- The timeout set before the write, and the write. -/
  armed : Except Text Unit
  written : Except Text Unit
  rearmed : Except Text Unit
  reads : List Read

/-- Up to the first read. -/
def Exchange.sent (io : Exchange) : Except Text Unit := do
  io.connect
  io.armed
  io.written.mapError fun error => "write failed: ".toList ++ error
  io.rearmed

/-- What came of a call, and what it handed to the socket, if it came to that. -/
structure Call (α : Type) where
  wrote : Option (List UInt8)
  result : α

/-- Up to the first read: the request is written once, to a socket that is connected and armed. -/
def Exchange.send (io : Exchange) (request : Text) : Call (Except Text Unit) where
  wrote := (do io.connect; io.armed).toOption.map fun _ => Text.bytes request
  result := io.sent

def postJson (base path body : Text) (io : Exchange) : Call HttpOutcome :=
  match Target.parse debug base path with
  | .error e => { wrote := none, result := .error e }
  | .ok target =>
    let call := io.send (postRequest target body)
    { wrote := call.wrote
      result := match (do
          call.result
          readStatus [] io.reads) with
        | .ok buf => classifyStatus debug buf
        | .error e => .error e }

def getText (base path : Text) (io : Exchange) : Call (Except Text Text) :=
  match Target.parse debug base path with
  | .error e => { wrote := none, result := .error e }
  | .ok target =>
    let call := io.send (getRequest target)
    { wrote := call.wrote
      result := do
        call.result
        answerOf debug (← readBody [] io.reads) }

end

/-! ## One request -/

theorem not_mem_bytes {c : Char} (hc : c.toNat < 128) {text : Text} (h : c ∉ text) : Text.byte c ∉ Text.bytes text := by
  intro hmem
  obtain ⟨d, hd, hbyte⟩ := List.mem_flatMap.mp hmem
  by_cases hascii : d.toNat < 128
  · rw [Text.encode_ascii hascii, List.mem_singleton] at hbyte
    have hnat := congrArg UInt8.toNat hbyte
    rw [Text.byte_toNat hc, Text.byte_toNat hascii] at hnat
    exact h (Char.toNat_inj.mp hnat ▸ hd)
  · have hhigh := Text.encode_high (Nat.le_of_not_lt hascii) _ hbyte
    rw [Text.byte_toNat hc] at hhigh
    omega

/-- What stands on the wire as itself. -/
def Graphic (text : Text) : Prop := ∀ c ∈ text, isGraphic c = true

theorem Graphic.not_mem_bytes {text : Text} (h : Graphic text) {c : Char} (hc : c.toNat < 0x21) :
    Text.byte c ∉ Text.bytes text := by
  refine HttpClient.not_mem_bytes (by omega) fun hmem => ?_
  have hgraphic := h c hmem
  simp only [isGraphic, Bool.and_eq_true, decide_eq_true_eq] at hgraphic
  omega

section

variable {debug : Text → Text} {base path body : Text} {target : Target}

/-- The endpoint's own path, without the slashes at its end, and behind it the path of a call; the host is the endpoint's. -/
def Addresses (base path : Text) (target : Target) : Prop :=
  ∃ authority own slashes : Text, base = "http://".toList ++ (authority ++ (own ++ slashes)) ∧
    authority ≠ [] ∧ '/' ∉ authority ∧ (own = [] ∨ own.head? = some '/') ∧ own.getLast? ≠ some '/' ∧
    (∀ c ∈ slashes, c = '/') ∧ target.hostHeader = authority.takeWhile (· ≠ ':') ∧ target.requestTarget = own ++ path

/-- The slashes at the end, and what stands before them. -/
theorem cut_slashes (text : Text) : ∃ slashes : Text,
    text = (text.reverse.dropWhile (· = '/')).reverse ++ slashes ∧ (∀ c ∈ slashes, c = '/') ∧
      (text.reverse.dropWhile (· = '/')).reverse.getLast? ≠ some '/' := by
  refine ⟨(text.reverse.takeWhile (· = '/')).reverse, ?_, fun c hc => ?_, fun hlast => ?_⟩
  · rw [← List.reverse_append, List.takeWhile_append_dropWhile, List.reverse_reverse]
  · simpa using List.all_eq_true.mp List.all_takeWhile c (List.mem_reverse.mp hc)
  · rw [List.getLast?_reverse] at hlast
    have hhead := List.head?_dropWhile_not (· = '/') text.reverse
    rw [hlast] at hhead
    simp at hhead

theorem head?_dropWhile_ne (text : Text) : text.dropWhile (· ≠ '/') = [] ∨ (text.dropWhile (· ≠ '/')).head? = some '/' := by
  cases hrest : text.dropWhile (· ≠ '/') with
  | nil => exact .inl rfl
  | cons c rest =>
    have hhead := List.head?_dropWhile_not (· ≠ '/') text
    rw [hrest] at hhead
    simp only [List.head?_cons, decide_not, Bool.not_eq_false', decide_eq_true_eq] at hhead
    exact .inr (congrArg some hhead)

/-- A target is made of what stood in the base and the path. -/
theorem parse_ok (h : Target.parse debug base path = .ok target) :
    Graphic target.hostHeader ∧ Graphic target.requestTarget ∧ Addresses base path target := by
  unfold Target.parse at h
  split at h
  · cases h
  next hgraphic =>
    rw [Bool.not_eq_true, Bool.or_eq_false_iff, Bool.not_eq_false', Bool.not_eq_false'] at hgraphic
    have hbase : Graphic base := List.all_eq_true.mp hgraphic.1
    have hpath : Graphic path := List.all_eq_true.mp hgraphic.2
    split at h
    next hscheme =>
      dsimp only at h
      split at h
      · cases h
      next hauthority =>
        cases h
        refine ⟨fun c hc => hbase c ?_, fun c hc => ?_, ?_⟩
        · have hauthority := (List.takeWhile_sublist _).subset hc
          exact List.mem_of_mem_drop ((List.takeWhile_sublist _).subset hauthority)
        · rcases List.mem_append.mp hc with hc | hc
          · have hrest := (List.dropWhile_sublist _).subset (List.mem_reverse.mp hc)
            have hfirst := (List.dropWhile_sublist _).subset (List.mem_reverse.mp hrest)
            exact hbase c (List.mem_of_mem_drop hfirst)
          · exact hpath c hc
        · obtain ⟨slashes, hown, hslashes, hlast⟩ := cut_slashes ((base.drop "http://".toList.length).dropWhile (· ≠ '/'))
          refine ⟨_, _, slashes, ?_, ?_, ?_, ?_, hlast, hslashes, rfl, rfl⟩
          · rw [← hown, List.takeWhile_append_dropWhile]
            exact List.prefix_append_drop hscheme
          · exact fun hnil => hauthority (List.isEmpty_iff.mpr hnil)
          · intro hslash
            simpa using List.all_eq_true.mp List.all_takeWhile _ hslash
          · cases hfront : (((base.drop "http://".toList.length).dropWhile (· ≠ '/')).reverse.dropWhile (· = '/')).reverse with
            | nil => exact .inl rfl
            | cons c front =>
              rw [hfront] at hown
              refine (head?_dropWhile_ne (base.drop "http://".toList.length)).imp (fun hnil => ?_) fun hhead => ?_
              · rw [hnil] at hown
                cases hown
              · rwa [hown] at hhead
    · cases h

/-- What is not graphic is refused, before anything is sent. -/
theorem parse_refuses (h : ∃ c ∈ base ++ path, isGraphic c = false) :
    Target.parse debug base path = .error "endpoint or path carries whitespace/control bytes".toList := by
  obtain ⟨c, hc, hgraphic⟩ := h
  have hall : (!base.all isGraphic || !path.all isGraphic) = true := by
    rw [Bool.or_eq_true, Bool.not_eq_true', Bool.not_eq_true', List.all_eq_false, List.all_eq_false]
    rcases List.mem_append.mp hc with hc | hc
    · exact .inl ⟨c, hc, by rw [hgraphic]; decide⟩
    · exact .inr ⟨c, hc, by rw [hgraphic]; decide⟩
  rw [Target.parse, if_pos hall]

end

/-- A header field, as bytes. -/
def fieldOf (name value : Text) : List UInt8 × List UInt8 := (Text.bytes name, Text.bytes value)

/-- The request that a POST is. -/
def postMessage (target : Target) (body : Text) : Http.Message where
  start := [Text.bytes "POST".toList, Text.bytes target.requestTarget, Text.bytes "HTTP/1.1".toList]
  fields :=
    [fieldOf "Host".toList target.hostHeader, fieldOf "Content-Type".toList "application/json".toList,
      fieldOf "Content-Length".toList (Text.decimal (Text.len body)), fieldOf "Connection".toList "close".toList]
  body := Text.bytes body

/-- The request that a GET is. -/
def getMessage (target : Target) : Http.Message where
  start := [Text.bytes "GET".toList, Text.bytes target.requestTarget, Text.bytes "HTTP/1.1".toList]
  fields :=
    [fieldOf "Host".toList target.hostHeader, fieldOf "Accept".toList "application/json".toList,
      fieldOf "Connection".toList "close".toList]
  body := []

theorem bytes_eol : Text.bytes ['\r', '\n'] = crlf := rfl

theorem bytes_colon : Text.bytes [':', ' '] = [Http.colon, Http.sp] := rfl

theorem bytes_space : Text.bytes [' '] = [Http.sp] := rfl

/-- A request's head as one text. -/
def headText (method requestTarget : Text) (fields : List (Text × Text)) : Text :=
  method ++ ([' '] ++ (requestTarget ++ ([' '] ++ ("HTTP/1.1".toList ++ (['\r', '\n'] ++
    ((fields.flatMap fun field => field.1 ++ ([':', ' '] ++ (field.2 ++ ['\r', '\n']))) ++ ['\r', '\n']))))))

theorem headText_bytes (method requestTarget : Text) (fields : List (Text × Text)) (body : List UInt8) :
    Text.bytes (headText method requestTarget fields) ++ body =
      Http.Message.bytes
        { start := [Text.bytes method, Text.bytes requestTarget, Text.bytes "HTTP/1.1".toList]
          fields := fields.map fun field => fieldOf field.1 field.2
          body } := by
  have hfields : (((fields.map fun field => fieldOf field.1 field.2).map Http.Message.fieldLine).flatMap (· ++ crlf)) =
      Text.bytes (fields.flatMap fun field => field.1 ++ ([':', ' '] ++ (field.2 ++ ['\r', '\n']))) := by
    induction fields with
    | nil => rfl
    | cons field fields ih =>
      rw [List.map_cons, List.map_cons, List.flatMap_cons, ih, List.flatMap_cons]
      simp only [Text.bytes_append, bytes_colon, bytes_eol]
      simp only [Http.Message.fieldLine, fieldOf, List.append_assoc, List.cons_append, List.nil_append]
  rw [Http.Message.bytes, Http.Message.lines, Http.head, List.flatMap_cons, hfields, headText]
  simp only [Text.bytes_append, bytes_space, bytes_eol]
  simp only [Http.separated, List.append_assoc, List.cons_append, List.nil_append]

/-- A text of a request, by the texts between what it puts in. -/
theorem postRequestText {post start length close : Text} (hpost : post = "POST".toList ++ [' '])
    (hstart : start = [' '] ++ ("HTTP/1.1".toList ++ (['\r', '\n'] ++ ("Host".toList ++ [':', ' ']))))
    (hlength : length = ['\r', '\n'] ++ ("Content-Type".toList ++ ([':', ' '] ++ ("application/json".toList ++
      (['\r', '\n'] ++ ("Content-Length".toList ++ [':', ' ']))))))
    (hclose : close = ['\r', '\n'] ++ ("Connection".toList ++ ([':', ' '] ++ ("close".toList ++ (['\r', '\n'] ++ ['\r', '\n'])))))
    (requestTarget host len body : Text) :
    post ++ requestTarget ++ start ++ host ++ length ++ len ++ close ++ body =
      headText "POST".toList requestTarget
        [("Host".toList, host), ("Content-Type".toList, "application/json".toList), ("Content-Length".toList, len),
          ("Connection".toList, "close".toList)] ++ body := by
  subst hpost hstart hlength hclose
  simp only [headText, List.flatMap_cons, List.flatMap_nil, List.append_assoc, List.append_nil]

theorem getRequestText {get start close : Text} (hget : get = "GET".toList ++ [' '])
    (hstart : start = [' '] ++ ("HTTP/1.1".toList ++ (['\r', '\n'] ++ ("Host".toList ++ [':', ' ']))))
    (hclose : close = ['\r', '\n'] ++ ("Accept".toList ++ ([':', ' '] ++ ("application/json".toList ++ (['\r', '\n'] ++
      ("Connection".toList ++ ([':', ' '] ++ ("close".toList ++ (['\r', '\n'] ++ ['\r', '\n'])))))))))
    (requestTarget host : Text) :
    get ++ requestTarget ++ start ++ host ++ close =
      headText "GET".toList requestTarget
        [("Host".toList, host), ("Accept".toList, "application/json".toList), ("Connection".toList, "close".toList)] := by
  subst hget hstart hclose
  simp only [headText, List.flatMap_cons, List.flatMap_nil, List.append_assoc, List.append_nil]

theorem postRequest_bytes (target : Target) (body : Text) :
    Text.bytes (postRequest target body) = (postMessage target body).bytes := by
  have htext : postRequest target body = _ := postRequestText rfl rfl rfl rfl target.requestTarget target.hostHeader _ body
  rw [htext, Text.bytes_append]
  exact headText_bytes _ _ _ _

theorem getRequest_bytes (target : Target) : Text.bytes (getRequest target) = (getMessage target).bytes := by
  have htext : getRequest target = _ := getRequestText rfl rfl rfl target.requestTarget target.hostHeader
  rw [htext, ← List.append_nil (Text.bytes _)]
  exact headText_bytes _ _ _ []

theorem word_ok {word : Text} (h : Graphic word) (hne : word ≠ []) :
    Text.bytes word ≠ [] ∧ Http.sp ∉ Text.bytes word ∧ lf ∉ Text.bytes word :=
  ⟨fun heq => hne (Text.bytes_eq_nil.mp heq), h.not_mem_bytes (by decide : ' '.toNat < 0x21),
    h.not_mem_bytes (by decide : '\n'.toNat < 0x21)⟩

theorem field_ok {name value : Text} (hname : Graphic name) (hcolon : ':' ∉ name) (hvalue : Graphic value) :
    Http.colon ∉ (fieldOf name value).1 ∧ lf ∉ (fieldOf name value).1 ∧ lf ∉ (fieldOf name value).2 :=
  ⟨not_mem_bytes (by decide) hcolon, hname.not_mem_bytes (by decide : '\n'.toNat < 0x21),
    hvalue.not_mem_bytes (by decide : '\n'.toNat < 0x21)⟩

theorem graphic_decimal (n : Nat) : Graphic (Text.decimal n) := by
  intro c hc
  have hdigit := Text.isDigit_of_mem_decimal hc
  simp only [Char.isDigit, Bool.and_eq_true, decide_eq_true_eq, ge_iff_le, UInt32.le_iff_toNat_le] at hdigit
  simp only [isGraphic, Bool.and_eq_true, decide_eq_true_eq]
  have hlow : 48 ≤ c.toNat := hdigit.1
  have hhigh : c.toNat ≤ 57 := hdigit.2
  omega

theorem postMessage_wellFormed {target : Target} (hhost : Graphic target.hostHeader) (htarget : Graphic target.requestTarget)
    (hne : target.requestTarget ≠ []) (body : Text) : (postMessage target body).WellFormed where
  three := rfl
  words word hword := by
    simp only [postMessage, List.mem_cons, List.not_mem_nil, or_false] at hword
    rcases hword with rfl | rfl | rfl
    · exact word_ok (by unfold Graphic; decide) (List.cons_ne_nil _ _)
    · exact word_ok htarget hne
    · exact word_ok (by unfold Graphic; decide) (List.cons_ne_nil _ _)
  fields field hfield := by
    simp only [postMessage, List.mem_cons, List.not_mem_nil, or_false] at hfield
    rcases hfield with rfl | rfl | rfl | rfl
    · exact field_ok (by unfold Graphic; decide) (by decide) hhost
    · exact field_ok (by unfold Graphic; decide) (by decide) (by unfold Graphic; decide)
    · exact field_ok (by unfold Graphic; decide) (by decide) (graphic_decimal _)
    · exact field_ok (by unfold Graphic; decide) (by decide) (by unfold Graphic; decide)

theorem getMessage_wellFormed {target : Target} (hhost : Graphic target.hostHeader) (htarget : Graphic target.requestTarget)
    (hne : target.requestTarget ≠ []) : (getMessage target).WellFormed where
  three := rfl
  words word hword := by
    simp only [getMessage, List.mem_cons, List.not_mem_nil, or_false] at hword
    rcases hword with rfl | rfl | rfl
    · exact word_ok (by unfold Graphic; decide) (List.cons_ne_nil _ _)
    · exact word_ok htarget hne
    · exact word_ok (by unfold Graphic; decide) (List.cons_ne_nil _ _)
  fields field hfield := by
    simp only [getMessage, List.mem_cons, List.not_mem_nil, or_false] at hfield
    rcases hfield with rfl | rfl | rfl
    · exact field_ok (by unfold Graphic; decide) (by decide) hhost
    · exact field_ok (by unfold Graphic; decide) (by decide) (by unfold Graphic; decide)
    · exact field_ok (by unfold Graphic; decide) (by decide) (by unfold Graphic; decide)

/-! ## Status lines -/

/-- A status line, without its end. -/
def statusLine (code : Nat) (reason : List UInt8) : List UInt8 :=
  Text.bytes ("HTTP/1.1".toList ++ ' ' :: (Text.decimal code ++ [' '])) ++ reason

/-- What a status code means to the caller. -/
def outcomeOf (code : Nat) : HttpOutcome :=
  if 200 ≤ code ∧ code < 300 then .ok
  else if code = 404 then .notFound
  else .error ("server returned HTTP ".toList ++ Text.decimal code)

theorem stripLine_front (front rest : Text) :
    ∃ more, SlotText.stripLine (front ++ ' ' :: (rest ++ ['\n'])) = front ++ ' ' :: more := by
  have hreverse : (front ++ ' ' :: (rest ++ ['\n'])).reverse = '\n' :: (rest.reverse ++ ' ' :: front.reverse) := by simp
  rw [SlotText.stripLine, hreverse]
  obtain rfl | ⟨rest, c, rfl⟩ := List.eq_nil_or_concat' rest
  · exact ⟨[], by simp⟩
  · rw [List.reverse_append, List.reverse_singleton, List.singleton_append, List.cons_append]
    by_cases hc : c = '\r'
    · exact ⟨rest, by simp [hc]⟩
    · refine ⟨rest ++ [c], ?_⟩
      split
      next heq => exact absurd (by cases heq; rfl) hc
      next heq => cases heq; simp
      next hother => exact absurd rfl (hother _)

section

variable (debug : Text → Text)

/-- Only the first line counts. -/
theorem classifyStatus_line (line after : List UInt8) :
    classifyStatus debug (line ++ [lf] ++ after) = classifyStatus debug (line ++ [lf]) := by
  have hwhole : Lines.Whole Text.newline (line ++ [lf]) := .inr ⟨line, rfl⟩
  have hne : Lines.splitInclusive '\n' (Text.lossy (line ++ [lf])) ≠ [] := by
    intro heq
    have hnil := Lines.splitInclusive_eq_nil.mp heq
    rw [show Text.lossy (line ++ [lf]) = Text.lossy line ++ ['\n'] from Text.lossy_newline line []] at hnil
    exact List.append_ne_nil_of_right_ne_nil _ (List.cons_ne_nil _ _) hnil
  have hhead : (SlotText.lines (Text.lossy (line ++ [lf] ++ after))).head? =
      (SlotText.lines (Text.lossy (line ++ [lf]))).head? := by
    rw [Text.lossy_append hwhole, SlotText.lines, SlotText.lines, Lines.splitInclusive_append (Text.whole_lossy hwhole),
      List.map_append, List.head?_append_of_ne_nil _ (by simpa using hne)]
  rw [classifyStatus, classifyStatus, hhead]

/-- The second word of a text that begins with two. -/
theorem second_word {first second rest : Text} (hfirst : IsWord first) (hsecond : IsWord second) :
    (splitWhitespace (first ++ ' ' :: (second ++ ' ' :: rest)))[1]? = some second := by
  have hsplit : ∀ {word : Text} (more : Text), IsWord word →
      (word ++ ' ' :: more).splitOnP isWhitespace = word :: more.splitOnP isWhitespace := fun more hword =>
    List.splitOnP_append_cons_of_forall_mem hword.2 ' ' (by decide) more
  rw [splitWhitespace, hsplit _ hfirst, hsplit _ hsecond]
  simp [hfirst.1, hsecond.1]

theorem isWord_decimal (n : Nat) : IsWord (Text.decimal n) := by
  refine ⟨Nat.toDigits_ne_nil, fun c hc => ?_⟩
  have hgraphic := graphic_decimal n c hc
  simp only [isGraphic, Bool.and_eq_true, decide_eq_true_eq] at hgraphic
  simp only [isWhitespace, Bool.or_eq_false_iff, Bool.and_eq_false_iff, decide_eq_false_iff_not, List.contains_eq_mem,
    List.mem_cons, List.not_mem_nil, or_false]
  omega

theorem lossy_ascii {text : Text} (h : ∀ c ∈ text, c.toNat < 128) (after : List UInt8) :
    Text.lossy (Text.bytes text ++ after) = text ++ Text.lossy after := by
  induction text with
  | nil => rfl
  | cons c text ih =>
    have hc := h c List.mem_cons_self
    have hread : ∀ rest, Text.readChar (Text.byte c) rest = (c, 0) := by
      intro rest
      have hwidth : Text.charWidth (Text.byte c) = some 1 := by
        rw [Text.charWidth, if_pos]
        rw [UInt8.lt_iff_toNat_lt, Text.byte_toNat hc]
        exact hc
      simp only [Text.readChar, hwidth, Text.byte_toNat hc, Char.ofNat_toNat]
    rw [Text.bytes_ascii hc, List.cons_append, Text.lossy, Text.lossyFrom, hread]
    exact congrArg (c :: ·) (ih fun d hd => h d (List.mem_cons_of_mem _ hd))

theorem classifyStatus_statusLine {code : Nat} (hcode : code < 2 ^ 16) (reason : List UInt8) (hreason : lf ∉ reason) :
    classifyStatus debug (statusLine code reason ++ [lf]) = outcomeOf code := by
  have hascii : ∀ c ∈ "HTTP/1.1".toList ++ ' ' :: (Text.decimal code ++ [' ']), c.toNat < 128 := by
    intro c hc
    simp only [List.mem_append, List.mem_cons, List.not_mem_nil, or_false] at hc
    rcases hc with hc | rfl | hc | rfl
    · exact (by decide : ∀ c ∈ "HTTP/1.1".toList, c.toNat < 128) c hc
    · decide
    · have hgraphic := graphic_decimal code c hc
      simp only [isGraphic, Bool.and_eq_true, decide_eq_true_eq] at hgraphic
      omega
    · decide
  have hlossy : Text.lossy (statusLine code reason ++ [lf]) =
      ("HTTP/1.1".toList ++ ' ' :: Text.decimal code) ++ ' ' :: (Text.lossy reason ++ ['\n']) := by
    rw [statusLine, List.append_assoc, lossy_ascii hascii,
      show Text.lossy (reason ++ [lf]) = Text.lossy reason ++ ['\n'] from Text.lossy_newline reason []]
    simp
  have hline : '\n' ∉ ("HTTP/1.1".toList ++ ' ' :: Text.decimal code) ++ ' ' :: Text.lossy reason := by
    simp only [List.mem_append, List.mem_cons, not_or]
    exact ⟨⟨by decide, by decide, Text.not_mem_decimal (by decide) code⟩, by decide, Text.newline_not_mem_lossy hreason⟩
  obtain ⟨more, hmore⟩ := stripLine_front ("HTTP/1.1".toList ++ ' ' :: Text.decimal code) (Text.lossy reason)
  have hlines : (SlotText.lines (Text.lossy (statusLine code reason ++ [lf]))).head? =
      some (("HTTP/1.1".toList ++ ' ' :: Text.decimal code) ++ ' ' :: more) := by
    have hsplit := Lines.splitInclusive_line hline
    rw [List.append_assoc, List.cons_append] at hsplit
    rw [hlossy, SlotText.lines, hsplit, List.map_singleton, hmore]
    rfl
  have hword := @second_word "HTTP/1.1".toList (Text.decimal code) more (by unfold IsWord; decide) (isWord_decimal code)
  rw [classifyStatus, hlines]
  simp only [List.append_assoc, List.cons_append, hword, Option.bind_some, Text.parseUnsigned_decimal hcode]
  rfl

/-! ## Reads -/

/-- The loop for a status line stops behind it. -/
theorem readStatus_line {line rest : List UInt8} (hline : lf ∉ line) (hlength : line.length < 4096) {buf : List UInt8}
    (hbuf : lf ∉ buf ∧ buf.length < 4096) {reads : List (List UInt8)} (h : buf ++ reads.flatten = line ++ lf :: rest) :
    ∃ more, readStatus buf (reads.map .data) = .ok (line ++ [lf] ++ more) := by
  induction reads generalizing buf with
  | nil =>
    rw [List.flatten_nil, List.append_nil] at h
    exact absurd (h ▸ List.mem_append_right _ List.mem_cons_self) hbuf.1
  | cons bytes reads ih =>
    rw [List.flatten_cons, ← List.append_assoc] at h
    rw [List.map_cons, readStatus]
    split
    next hstop =>
      have hpast : line.length < (buf ++ bytes).length := by
        rcases Bool.or_eq_true_iff.mp hstop with hlf | hfull
        · by_contra hle
          have hfront : buf ++ bytes <+: line :=
            List.prefix_of_prefix_length_le ⟨_, h⟩ ⟨_, rfl⟩ (Nat.le_of_not_lt hle)
          exact hline (hfront.subset (List.contains_iff_mem.mp hlf))
        · exact Nat.lt_of_lt_of_le hlength (of_decide_eq_true hfull)
      have hfront : line ++ [lf] <+: buf ++ bytes := by
        have hwhole : line ++ [lf] <+: line ++ lf :: rest := ⟨rest, by simp⟩
        refine List.prefix_of_prefix_length_le hwhole ⟨_, h⟩ ?_
        rw [List.length_append, List.length_singleton]
        exact hpast
      obtain ⟨more, hmore⟩ := hfront
      exact ⟨more, by rw [hmore]⟩
    next hmore =>
      rw [Bool.not_eq_true, Bool.or_eq_false_iff] at hmore
      refine ih ⟨fun hmem => ?_, Nat.lt_of_not_le (of_decide_eq_false hmore.2)⟩ h
      rw [List.contains_iff_mem.mpr hmem] at hmore
      cases hmore.1

/-- The loop for a body stops where the peer closed, or with enough. -/
theorem readBody_front (raw : List UInt8) (reads : List (List UInt8)) :
    ∃ front, front <+: reads.flatten ∧ readBody raw (reads.map .data) = .ok (raw ++ front) ∧
      (front = reads.flatten ∨ maxBodyBytes ≤ (raw ++ front).length) := by
  induction reads generalizing raw with
  | nil => exact ⟨[], List.prefix_refl _, by rw [List.map_nil, readBody, List.append_nil], .inl rfl⟩
  | cons bytes reads ih =>
    rw [List.map_cons, readBody, List.flatten_cons]
    split
    next hfull => exact ⟨bytes, List.prefix_append _ _, rfl, .inr hfull⟩
    next =>
      obtain ⟨front, hfront, hread, hend⟩ := ih (raw ++ bytes)
      refine ⟨bytes ++ front, (List.prefix_append_right_inj bytes).mpr hfront, by rw [hread, List.append_assoc], ?_⟩
      rcases hend with rfl | hfull
      · exact .inl rfl
      · exact .inr (by rwa [← List.append_assoc])

end

/-! ## Answers as they are sent -/

structure Answer where
  code : Nat
  reason : List UInt8
  fields : List (List UInt8)
  body : List UInt8

namespace Answer

def lines (answer : Answer) : List (List UInt8) := statusLine answer.code answer.reason :: answer.fields

def head (answer : Answer) : List UInt8 := Http.head answer.lines

/-- A `u16` code, no line's end within a line, and a head within what is read. -/
structure WellFormed (answer : Answer) : Prop where
  code : answer.code < 2 ^ 16
  reason : lf ∉ answer.reason
  fields : ∀ field ∈ answer.fields, field ≠ [] ∧ lf ∉ field
  status : (statusLine answer.code answer.reason).length + 1 < 4096
  fits : answer.head.length ≤ maxBodyBytes

section

variable {answer : Answer}

theorem lf_not_mem_statusLine {code : Nat} {reason : List UInt8} (h : lf ∉ reason) : lf ∉ statusLine code reason := by
  have hfront : '\n' ∉ "HTTP/1.1".toList ++ ' ' :: (Text.decimal code ++ [' ']) := by
    simp only [List.mem_append, List.mem_cons, List.not_mem_nil, or_false, not_or]
    exact ⟨by decide, by decide, Text.not_mem_decimal (by decide) code, by decide⟩
  rw [statusLine, List.mem_append, not_or]
  exact ⟨not_mem_bytes (by decide) hfront, h⟩

theorem WellFormed.lines (h : answer.WellFormed) : ∀ line ∈ answer.lines, line ≠ [] ∧ lf ∉ line := by
  intro line hline
  rcases List.mem_cons.mp hline with rfl | hline
  · refine ⟨List.append_ne_nil_of_left_ne_nil (fun heq => ?_) _, lf_not_mem_statusLine h.reason⟩
    exact List.append_ne_nil_of_right_ne_nil _ (List.cons_ne_nil _ _) (Text.bytes_eq_nil.mp heq)
  · exact h.fields line hline

/-- Behind the status line. -/
theorem head_eq (answer : Answer) (body : List UInt8) :
    answer.head ++ body = statusLine answer.code (answer.reason ++ [Http.cr]) ++ [lf] ++ (Http.head answer.fields ++ body) := by
  simp [head, Answer.lines, Http.head, statusLine, Http.crlf]

theorem WellFormed.classifyStatus (h : answer.WellFormed) (debug : Text → Text) (after : List UInt8) :
    classifyStatus debug (statusLine answer.code (answer.reason ++ [Http.cr]) ++ [lf] ++ after) = outcomeOf answer.code := by
  rw [classifyStatus_line, classifyStatus_statusLine debug h.code]
  rw [List.mem_append, List.mem_singleton, not_or]
  exact ⟨h.reason, by decide⟩

end

end Answer

/-- A call that goes well, and the answer in the reads it came in. -/
structure Answered (debug : Text → Text) (base path : Text) (io : Exchange) (answer : Answer) (reads : List (List UInt8)) :
    Prop where
  wellFormed : answer.WellFormed
  target : ∃ target, Target.parse debug base path = .ok target
  sent : io.sent = .ok ()
  cut : io.reads = reads.map .data
  whole : reads.flatten = answer.head ++ answer.body

section

variable {debug : Text → Text} {base path : Text} {io : Exchange} {answer : Answer} {reads : List (List UInt8)}

theorem post_outcome (h : Answered debug base path io answer reads) (body : Text) :
    (postJson debug base path body io).result = outcomeOf answer.code := by
  obtain ⟨target, htarget⟩ := h.target
  have hline : lf ∉ statusLine answer.code (answer.reason ++ [Http.cr]) := by
    refine Answer.lf_not_mem_statusLine ?_
    rw [List.mem_append, List.mem_singleton, not_or]
    exact ⟨h.wellFormed.reason, by decide⟩
  have hlength : (statusLine answer.code (answer.reason ++ [Http.cr])).length < 4096 := by
    have hstatus := h.wellFormed.status
    simp only [statusLine, List.length_append, List.length_singleton] at hstatus ⊢
    omega
  have hwhole : [] ++ reads.flatten =
      statusLine answer.code (answer.reason ++ [Http.cr]) ++ lf :: (Http.head answer.fields ++ answer.body) := by
    rw [List.nil_append, h.whole, answer.head_eq, List.append_assoc, List.singleton_append]
  obtain ⟨more, hread⟩ := readStatus_line hline hlength ⟨List.not_mem_nil, by decide⟩ hwhole
  have hresult : (do
      io.sent
      readStatus [] io.reads) = .ok (statusLine answer.code (answer.reason ++ [Http.cr]) ++ [lf] ++ more) := by
    rw [h.sent, h.cut, hread]
    rfl
  rw [postJson, htarget]
  simp only [Exchange.send, hresult]
  exact h.wellFormed.classifyStatus debug more

/-- What a head and a front of its body come to. -/
theorem answerOf_front (h : answer.WellFormed) (front : List UInt8) :
    (outcomeOf answer.code ≠ .ok → ∃ e, answerOf debug (answer.head ++ front) = .error e) ∧
      (outcomeOf answer.code = .ok → answerOf debug (answer.head ++ front) =
        document (if isChunked (Http.joined answer.lines) then dechunk chunkSize front else front)) := by
  have hstatus : classifyStatus debug (answer.head ++ front) = outcomeOf answer.code := by
    rw [answer.head_eq]
    exact h.classifyStatus debug _
  have hcut : cutAt (crlf ++ crlf) (answer.head ++ front) = some (Http.joined answer.lines, front) :=
    Http.cutAt_head (List.cons_ne_nil _ _) h.lines front
  constructor
  · intro hne
    rw [answerOf, hstatus]
    cases hcode : outcomeOf answer.code with
    | ok => exact absurd hcode hne
    | notFound => exact ⟨_, rfl⟩
    | error e => exact ⟨e, rfl⟩
  · intro hok
    rw [answerOf, hstatus, hok]
    dsimp only
    rw [bodyOf, hcut]

theorem getText_front (h : Answered debug base path io answer reads) :
    ∃ m ≤ answer.body.length, (m < answer.body.length → maxBodyBytes ≤ answer.head.length + m) ∧
      (getText debug base path io).result = answerOf debug (answer.head ++ answer.body.take m) := by
  obtain ⟨target, htarget⟩ := h.target
  obtain ⟨front, hfront, hread, hend⟩ := readBody_front [] reads
  rw [List.nil_append] at hread hend
  have htext : (getText debug base path io).result = answerOf debug front := by
    rw [getText, htarget]
    simp only [Exchange.send, h.sent, h.cut, hread]
    rfl
  rw [h.whole] at hfront hend
  have hhead : answer.head.length ≤ front.length := by
    rcases hend with rfl | hfull
    · rw [List.length_append]
      exact Nat.le_add_right _ _
    · exact Nat.le_trans h.wellFormed.fits hfull
  have htake : front = answer.head ++ answer.body.take (front.length - answer.head.length) := by
    have hprefix := List.prefix_iff_eq_take.mp hfront
    rw [List.take_append, List.take_of_length_le hhead] at hprefix
    exact hprefix
  have hlength : front.length ≤ answer.head.length + answer.body.length := by
    rw [← List.length_append]
    exact hfront.length_le
  refine ⟨front.length - answer.head.length, by omega, fun hlt => ?_, by rw [htext]; exact congrArg (answerOf debug) htake⟩
  rcases hend with hall | hfull
  · rw [hall, List.length_append] at hlt
    omega
  · omega

/-- **An answer means what it says, however it arrives.** A POST's outcome is its status. A GET's text is the body, as far as
it was read: all of it, or up to the cap; where the head says that the body is in chunks, it is the chunks that had
arrived whole; and an answer that is no success gives no text. -/
theorem answer_exact (h : Answered debug base path io answer reads) :
    (∀ body, (postJson debug base path body io).result = outcomeOf answer.code) ∧
      ∃ m ≤ answer.body.length, (m < answer.body.length → maxBodyBytes ≤ answer.head.length + m) ∧
        (outcomeOf answer.code ≠ .ok → ∃ e, (getText debug base path io).result = .error e) ∧
        (outcomeOf answer.code = .ok → isChunked (Http.joined answer.lines) = false →
          (getText debug base path io).result = document (answer.body.take m)) ∧
        (outcomeOf answer.code = .ok → isChunked (Http.joined answer.lines) = true →
          ∀ (chunks : List Chunk) (ending : List UInt8) (n : Nat), (∀ chunk ∈ chunks, chunk.Lawful chunkSize) →
            Http.Ending chunkSize ending → answer.body = (chunks.flatMap Chunk.bytes ++ ending).take n →
            (getText debug base path io).result = document (arrived chunks (min m n))) := by
  obtain ⟨m, hm, hcap, htext⟩ := getText_front h
  obtain ⟨hfailed, hok⟩ := @answerOf_front debug answer h.wellFormed (answer.body.take m)
  refine ⟨post_outcome h, m, hm, hcap, fun hne => ?_, fun hcode hplain => ?_, ?_⟩
  · rw [htext]
    exact hfailed hne
  · rw [htext, hok hcode, hplain]
    rfl
  · intro hcode hchunked chunks ending n hchunks hending hbody
    rw [htext, hok hcode, hchunked, if_pos rfl, hbody, List.take_take, Http.dechunk_take hchunks hending]

end

/-! ## Chunks as they are sent -/

/-- A chunk behind its size. -/
def chunkOf (data : List UInt8) : Chunk := { line := Text.bytes (Transcript.hex data.length), data }

theorem chunkSize_hex {n : Nat} (h : n < 2 ^ 64) : chunkSize (Text.bytes (Transcript.hex n)) = some n := by
  have htext : Text.fromUtf8 (Text.bytes (Transcript.hex n)) = some (Transcript.hex n) := Text.fromUtf8_eq_some.mpr rfl
  have hline : (Transcript.hex n).takeWhile (· ≠ ';') = Transcript.hex n := by
    refine List.takeWhile_eq_self_iff.mpr fun c hc => ?_
    have hne : c ≠ ';' := fun heq => Transcript.not_mem_hex (by decide) n (heq ▸ hc)
    simpa using hne
  have hword : ∀ c ∈ Transcript.hex n, isWhitespace c = false := by
    intro c hc
    obtain ⟨d, hd, rfl⟩ := Transcript.hexDigit_of_mem_hex hc
    exact (by decide : ∀ d < 16, isWhitespace (Nat.digitChar d) = false) d hd
  have hdrop : ∀ {text : Text}, (∀ c ∈ text, isWhitespace c = false) → text.dropWhile isWhitespace = text := by
    intro text htext
    cases text with
    | nil => rfl
    | cons c text => rw [List.dropWhile_cons_of_neg (by rw [htext c List.mem_cons_self]; decide)]
  have htrim : trimEnd (trimStart (Transcript.hex n)) = Transcript.hex n := by
    rw [trimStart, hdrop hword, trimEnd, hdrop fun c hc => hword c (List.mem_reverse.mp hc), List.reverse_reverse]
  rw [chunkSize, htext, Option.bind_some, hline, htrim, Transcript.fromHex_hex h]

theorem chunkOf_lawful {data : List UInt8} (hne : data ≠ []) (hlength : data.length < 2 ^ 64) :
    (chunkOf data).Lawful chunkSize :=
  ⟨@not_mem_bytes '\n' (by decide) _ (Transcript.not_mem_hex (by decide) _), chunkSize_hex hlength, hne⟩

/-! ## An answer in chunks -/

/-- A success in two chunks. -/
def twoChunks : Answer where
  code := 200
  reason := Text.bytes "OK".toList
  fields := [Text.bytes "Transfer-Encoding: chunked".toList]
  body := ([chunkOf (Text.bytes "[true".toList), chunkOf (Text.bytes "]".toList)].flatMap Chunk.bytes ++
    (Text.bytes ['0'] ++ crlf ++ crlf)).take 18

theorem answer_exact_chunks :
    (getText id "http://h".toList "/question".toList
        { connect := .ok (), armed := .ok (), written := .ok (), rearmed := .ok ()
          reads := [.data (twoChunks.head ++ twoChunks.body.take 4), .data (twoChunks.body.drop 4)] }).result =
      .ok "[true]".toList := by
  have hanswered : Answered id "http://h".toList "/question".toList
      { connect := .ok (), armed := .ok (), written := .ok (), rearmed := .ok ()
        reads := [.data (twoChunks.head ++ twoChunks.body.take 4), .data (twoChunks.body.drop 4)] }
      twoChunks [twoChunks.head ++ twoChunks.body.take 4, twoChunks.body.drop 4] :=
    { wellFormed := ⟨by decide, by decide, by decide, by decide, by decide⟩
      target := ⟨_, rfl⟩
      sent := rfl
      cut := rfl
      whole := by simp }
  obtain ⟨-, m, hm, hcap, -, -, hchunked⟩ := answer_exact hanswered
  have hlength : twoChunks.body.length = 18 := by decide
  have hhead : twoChunks.head.length < 1000 := by decide
  have hall : m = 18 := by
    by_contra hne
    have hfull := hcap (by omega)
    unfold maxBodyBytes at hfull
    omega
  rw [hchunked rfl (by decide +kernel) [chunkOf (Text.bytes "[true".toList), chunkOf (Text.bytes "]".toList)]
    (Text.bytes ['0'] ++ crlf ++ crlf) 18 ?_ ?_ rfl, hall, document]
  · have harrived : arrived [chunkOf (Text.bytes "[true".toList), chunkOf (Text.bytes "]".toList)] (min 18 18) =
        Text.bytes "[true]".toList := by decide
    rw [harrived, Text.fromUtf8_eq_some.mpr rfl]
    rfl
  · intro chunk hchunk
    simp only [List.mem_cons, List.not_mem_nil, or_false] at hchunk
    rcases hchunk with rfl | rfl
    · exact chunkOf_lawful (by decide) (by decide)
    · exact chunkOf_lawful (by decide) (by decide)
  · refine ⟨Text.bytes (Transcript.hex 0), crlf, rfl, by decide, ?_⟩
    rw [chunkSize_hex (by decide)]
    rfl

end TmuxAgents.HttpClient
