/-
What the API lane puts on the wire (`api_request`, `post_json`): one request, whatever the pane's stamps and the device's
answers are, and in it the answer as JSON.
-/
import TmuxAgents.Dispatch.Broker
import TmuxAgents.Dispatch.Http
import TmuxAgents.Transcript.JsonGrammar

namespace TmuxAgents.HttpClient

open Act (ApiTransport JsonWriter PaneFacts answersBody apiRequest nonempty)
open Transcript (Value)

/-! ## Bodies -/

theorem escape_eq (c : Char) : JsonWriter.escape c = Value.writeChar c := by
  unfold JsonWriter.escape Value.writeChar
  by_cases hlow : c.toNat < 0x20
  · have hbyte : hexByte (.ofNat c.toNat) = [Nat.digitChar (c.toNat / 16), Nat.digitChar (c.toNat % 16)] := by
      rw [hexByte, UInt8.toNat_ofNat', Nat.mod_eq_of_lt (by omega)]
    rw [hbyte]
    rfl
  · rw [if_neg hlow, if_neg hlow]
    rfl

theorem jsonString_eq (text : Text) : JsonWriter.jsonString text = Value.writeString text := by
  rw [JsonWriter.jsonString, Value.writeString, funext escape_eq]

/-- Values written one after the other in an open array. -/
theorem foldl_writeItems {α : Type} {write : JsonWriter → α → JsonWriter} {value : α → Json}
    (hwrite : ∀ buf due rest a, write { buf, needsComma := due :: rest } a =
      { buf := buf ++ ((if due then [','] else []) ++ Value.writeCompact (value a)), needsComma := true :: rest })
    (as : List α) (buf : Text) (due : Bool) (rest : List Bool) :
    as.foldl write { buf, needsComma := due :: rest } =
      { buf := buf ++ Value.writeItems (!due) (as.map value), needsComma := (due || !as.isEmpty) :: rest } := by
  induction as generalizing buf due with
  | nil => simp [Value.writeItems]
  | cons a as ih =>
    rw [List.foldl_cons, hwrite, ih, List.map_cons, Value.writeItems]
    cases due <;> simp

theorem rawString_writes (buf : Text) (due : Bool) (rest : List Bool) (text : Text) :
    JsonWriter.rawString { buf, needsComma := due :: rest } text =
      { buf := buf ++ ((if due then [','] else []) ++ Value.writeCompact (.str text)), needsComma := true :: rest } := by
  rw [JsonWriter.rawString, jsonString_eq, Value.writeCompact]
  cases due <;> simp [JsonWriter.sep, JsonWriter.push]

theorem array_writes (buf : Text) (due : Bool) (rest : List Bool) (picked : List Text) :
    (picked.foldl JsonWriter.rawString (JsonWriter.beginArray { buf, needsComma := due :: rest })).endArray =
      { buf := buf ++ ((if due then [','] else []) ++ Value.writeCompact (.arr (picked.map .str)))
        needsComma := true :: rest } := by
  have hbegin : JsonWriter.beginArray { buf, needsComma := due :: rest } =
      { buf := buf ++ (if due then [','] else []) ++ ['['], needsComma := false :: true :: rest } := by
    cases due <;> simp [JsonWriter.beginArray, JsonWriter.sep, JsonWriter.push]
  rw [hbegin, foldl_writeItems rawString_writes, Value.writeCompact]
  simp [JsonWriter.endArray, JsonWriter.push]

/-- The answers, one list a question. -/
def answersValue (answers : List (List Text)) : Json :=
  .obj [("answers".toList, .arr (answers.map fun picked => .arr (picked.map .str)))]

theorem answersBody_eq (answers : List (List Text)) : answersBody answers = Value.writeCompact (answersValue answers) := by
  have hopen : ((JsonWriter.new.beginObject).key "answers".toList).beginArray =
      { buf := '\x7b' :: (JsonWriter.jsonString "answers".toList ++ [':', '[']), needsComma := [false, true] } := by
    simp [JsonWriter.new, JsonWriter.beginObject, JsonWriter.key, JsonWriter.beginArray, JsonWriter.sep, JsonWriter.push]
  rw [answersBody, hopen, foldl_writeItems array_writes, answersValue, Value.writeCompact, Value.writePairs, Value.writePairs,
    Value.writeCompact, jsonString_eq]
  simp [JsonWriter.endArray, JsonWriter.endObject, JsonWriter.push, JsonWriter.finish]

/-- What a request says to the agent's server, if it says anything but its path. -/
def sayOf (transport : ApiTransport) (answers : Option (List (List Text))) : Option Json :=
  match transport.op with
  | .permissionReply => transport.reply.map fun reply => .obj [("reply".toList, .str reply.token)]
  | .questionReply => answers.map answersValue
  | .questionReject => none
  | .interrupt => none

/-- The body is a JSON text of what is said. -/
def Says (body : Text) : Option Json → Prop
  | none => body = []
  | some value => Json.Document 3 body value

variable {transport : ApiTransport} {facts : PaneFacts} {answers : Option (List (List Text))} {path body endpoint : Text}

theorem apiRequest_says (h : apiRequest transport facts answers = some (path, body)) :
    path ≠ [] ∧ Says body (sayOf transport answers) := by
  obtain ⟨op, reply⟩ := transport
  cases op with
  | permissionReply =>
    simp only [apiRequest, Option.bind_eq_bind, Option.bind_eq_some_iff, Option.some.injEq, Prod.mk.injEq] at h
    obtain ⟨id, -, reply, rfl, rfl, rfl⟩ := h
    refine ⟨List.append_ne_nil_of_left_ne_nil (List.append_ne_nil_of_left_ne_nil (List.cons_ne_nil _ _) _) _, ?_⟩
    have hcompact : "\x7b\"reply\":\"".toList ++ reply.token ++ "\"\x7d".toList =
        Value.writeCompact (.obj [("reply".toList, .str reply.token)]) := by
      cases reply <;> decide
    rw [hcompact]
    refine Json.padded_self (Value.toCompact_nests fun member hmember => ?_)
    rw [List.mem_singleton.mp hmember]
    trivial
  | questionReply =>
    simp only [apiRequest, Option.bind_eq_bind, Option.bind_eq_some_iff, Option.some.injEq, Prod.mk.injEq] at h
    obtain ⟨id, -, picked, hpicked, rfl, rfl⟩ := h
    obtain ⟨rfl, -⟩ := Option.filter_eq_some_iff.mp hpicked
    refine ⟨List.append_ne_nil_of_left_ne_nil (List.append_ne_nil_of_left_ne_nil (List.cons_ne_nil _ _) _) _, ?_⟩
    rw [answersBody_eq]
    refine Json.padded_self (Value.toCompact_nests fun member hmember => ?_)
    rw [List.mem_singleton.mp hmember]
    intro list hlist
    obtain ⟨picked, -, rfl⟩ := List.mem_map.mp hlist
    intro label hlabel
    obtain ⟨text, -, rfl⟩ := List.mem_map.mp hlabel
    trivial
  | questionReject =>
    simp only [apiRequest, Option.bind_eq_bind, Option.bind_eq_some_iff, Option.some.injEq, Prod.mk.injEq] at h
    obtain ⟨id, -, rfl, rfl⟩ := h
    exact ⟨List.append_ne_nil_of_left_ne_nil (List.append_ne_nil_of_left_ne_nil (List.cons_ne_nil _ _) _) _, rfl⟩
  | interrupt =>
    simp only [apiRequest, Option.bind_eq_bind, Option.bind_eq_some_iff, Option.some.injEq, Prod.mk.injEq] at h
    obtain ⟨id, -, rfl, rfl⟩ := h
    exact ⟨List.append_ne_nil_of_left_ne_nil (List.append_ne_nil_of_left_ne_nil (List.cons_ne_nil _ _) _) _, rfl⟩

/-- The bytes are this request, and read as no other. -/
def IsRequest (bytes : List UInt8) (message : Http.Message) : Prop :=
  message.WellFormed ∧ bytes = message.bytes ∧
    ∀ other : Http.Message, other.WellFormed → other.bytes = bytes → other = message

theorem isRequest {bytes : List UInt8} {message : Http.Message} (hwell : message.WellFormed) (hbytes : bytes = message.bytes) :
    IsRequest bytes message :=
  ⟨hwell, hbytes, fun _ hother heq => Http.Message.bytes_unique hother hwell (heq.trans hbytes)⟩

/-- A POST hands its request to the socket, or nothing. -/
theorem postJson_wrote {debug : Text → Text} {io : Exchange} {sent : List UInt8}
    (h : (postJson debug endpoint path body io).wrote = some sent) :
    ∃ target, Target.parse debug endpoint path = .ok target ∧ sent = (postMessage target body).bytes := by
  unfold postJson at h
  split at h
  · cases h
  next target htarget =>
    obtain ⟨-, -, rfl⟩ := Option.map_eq_some_iff.mp h
    exact ⟨target, htarget, postRequest_bytes target body⟩

theorem getText_wrote {debug : Text → Text} {io : Exchange} {sent : List UInt8}
    (h : (getText debug endpoint path io).wrote = some sent) :
    ∃ target, Target.parse debug endpoint path = .ok target ∧ sent = (getMessage target).bytes := by
  unfold getText at h
  split at h
  · cases h
  next target htarget =>
    obtain ⟨-, -, rfl⟩ := Option.map_eq_some_iff.mp h
    exact ⟨target, htarget, getRequest_bytes target⟩

theorem Addresses.ne_nil {target : Target} (h : Addresses endpoint path target) (hpath : path ≠ []) :
    target.requestTarget ≠ [] := by
  obtain ⟨-, own, -, -, -, -, -, -, -, -, htarget⟩ := h
  rw [htarget]
  exact List.append_ne_nil_of_right_ne_nil own hpath

/-- **A call of the lane is one request.** Whatever the pane's stamps, the endpoint and the answers are: what goes out is the
one POST to the path behind the endpoint's own, its length is its body's, and the body is a JSON text of the answer; or
nothing goes out, where the call ends before its write. And so is the GET for a pane's question. -/
theorem api_call_alone (debug : Text → Text) (h : apiRequest transport facts answers = some (path, body)) (io : Exchange) :
    Says body (sayOf transport answers) ∧
      (∀ sent, (postJson debug endpoint path body io).wrote = some sent →
        ∃ target, Addresses endpoint path target ∧ IsRequest sent (postMessage target body) ∧
          fieldOf "Content-Length".toList (Text.decimal (postMessage target body).body.length) ∈
            (postMessage target body).fields) ∧
      (∀ sent, (getText debug endpoint "/question".toList io).wrote = some sent →
        ∃ target, Addresses endpoint "/question".toList target ∧ IsRequest sent (getMessage target)) ∧
      (∀ asked : Text, (∃ c ∈ endpoint ++ asked, isGraphic c = false) →
        postJson debug endpoint asked body io =
          { wrote := none, result := .error "endpoint or path carries whitespace/control bytes".toList } ∧
        getText debug endpoint asked io =
          { wrote := none, result := .error "endpoint or path carries whitespace/control bytes".toList }) ∧
      ∀ asked target, Target.parse debug endpoint asked = .ok target → io.connect = .ok () → io.armed = .ok () →
        (postJson debug endpoint asked body io).wrote.isSome ∧ (getText debug endpoint asked io).wrote.isSome := by
  obtain ⟨hpath, hbody⟩ := apiRequest_says h
  refine ⟨hbody, fun sent hsent => ?_, fun sent hsent => ?_, fun asked hrefused => ⟨?_, ?_⟩,
    fun asked target htarget hconnect harmed => ?_⟩
  · obtain ⟨target, htarget, rfl⟩ := postJson_wrote hsent
    obtain ⟨hhost, hgraphic, haddresses⟩ := parse_ok htarget
    have hwell := postMessage_wellFormed hhost hgraphic (haddresses.ne_nil hpath) body
    exact ⟨target, haddresses, isRequest hwell rfl, .tail _ (.tail _ (.head _))⟩
  · obtain ⟨target, htarget, rfl⟩ := getText_wrote hsent
    obtain ⟨hhost, hgraphic, haddresses⟩ := parse_ok htarget
    exact ⟨target, haddresses, isRequest (getMessage_wellFormed hhost hgraphic
      (haddresses.ne_nil (List.cons_ne_nil _ _))) rfl⟩
  · rw [postJson, parse_refuses hrefused]
  · rw [getText, parse_refuses hrefused]
  · rw [postJson, getText, htarget]
    simp only [Exchange.send, hconnect, harmed]
    exact ⟨rfl, rfl⟩

def askingPane : PaneFacts where
  agent := some "opencode".toList
  state := .blocked
  detail := some "question".toList
  session := some "ses_1".toList
  cwd := "/w".toList
  pid := none
  title := []
  locator := "w:1.0".toList
  stampedAt := 1
  contextPct := none
  contextCovered := false
  permissionRequest := none
  questionRequest := some "que_1".toList
  apiEndpoint := some "http://h/api/".toList
  episodeMs := 1
  pendingTool := none
  pendingCall := none
  actRepeat := none

theorem api_call_alone_question :
    apiRequest { op := .questionReply, reply := none } askingPane (some [["Red".toList]]) =
        some ("/question/que_1/reply".toList, answersBody [["Red".toList]]) ∧
      ∃ sent, (postJson id "http://h/api/".toList "/question/que_1/reply".toList (answersBody [["Red".toList]])
          { connect := .ok (), armed := .ok (), written := .ok (), rearmed := .ok (), reads := [] }).wrote = some sent ∧
        ∃ target, Addresses "http://h/api/".toList "/question/que_1/reply".toList target ∧
          IsRequest sent (postMessage target (answersBody [["Red".toList]])) := by
  have hrequest : apiRequest { op := .questionReply, reply := none } askingPane (some [["Red".toList]]) =
      some ("/question/que_1/reply".toList, answersBody [["Red".toList]]) := rfl
  obtain ⟨-, hpost, -⟩ := @api_call_alone _ _ _ _ _ "http://h/api/".toList id hrequest
    { connect := .ok (), armed := .ok (), written := .ok (), rearmed := .ok (), reads := [] }
  obtain ⟨target, haddresses, hmessage, -⟩ := hpost _ rfl
  exact ⟨hrequest, _, rfl, target, haddresses, hmessage⟩

end TmuxAgents.HttpClient
