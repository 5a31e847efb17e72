/-
A program publication (`persistence.rs`): the edits that carry a selection to
its pane, in the order they are sent. A later edit of an option overrides an
earlier one, so what a pane shows is the last edit of each (`lastEdit`).

A draw of a fresh token that fails submits nothing; here the tokens are drawn
(`FreshTokens`). The target a pane was read at is the one it is written at.
-/
import TmuxAgents.Persist.Publish

namespace TmuxAgents

/-- `current_stamp`: the public tuple with current protocol authority checked. -/
def currentStamp (options : Options) (now : Nat) : Except GrammarError (Option ReadResult) :=
  match readProjection options now with
  | .error e => .error e
  | .ok (.legacy read) => .ok read
  | .ok (.live stamp _ _) => .ok (some (.settled stamp))
  | .ok .stale => .ok none

/-- The stamp of a read that may have failed, or found nothing. -/
def readStamp (read : Except GrammarError (Option ReadResult)) : Option StampedState :=
  read.toOption.join.map ReadResult.intoInner

/-- `METADATA_KEYS`: a lifetime apart from the state's. -/
def metadataKeys : List OptionKey :=
  [Opt.session, Opt.transcript, Opt.subagents, Opt.contextPct, Opt.contextAt, Opt.tokens, Opt.tokensAt, Opt.quotaPct,
    Opt.quotaAt, Opt.quotaWindow, Opt.quotaResetsAt, Opt.costUsd, Opt.model, Opt.apiEndpoint, Opt.permissionRequest,
    Opt.questionRequest, Opt.pendingTool, Opt.pendingCall, Opt.pendingSummary, Opt.actRepeat]

/-- `PANE_KEYS`: the private markers. -/
def paneKeys : List OptionKey :=
  [ProgramOpt.origin, ProgramOpt.owner, ProgramOpt.commit, ProgramOpt.result, ProgramOpt.invalidated,
    ProgramOpt.blockedHistory, ProgramOpt.ack, ProgramOpt.notified, ProgramOpt.receipt, ProgramOpt.metadataOwner,
    ProgramOpt.attentionEpisode, ProgramOpt.episodeNotified, ProgramOpt.markerClaim, ProgramOpt.metadataUpdate]

/-- What may accompany a publication. -/
def companionKeys : List OptionKey :=
  [Opt.attention, Opt.turnAt, Opt.notifiedAt, Opt.permissionRequest, Opt.questionRequest, Opt.pendingCall,
    Opt.pendingTool, Opt.pendingSummary]

/-! ## Histories -/

/-- What a pane keeps of a blocked episode. -/
structure BlockedHistory where
  processes : ProcessChain
  episode : Token
  acknowledged : Bool
  record : RecordId
deriving DecidableEq

namespace BlockedHistory

def encode (history : BlockedHistory) : Text :=
  history.processes.encode ++ '|' :: (history.episode.text ++ '|' ::
    ((if history.acknowledged then '1' else '0') :: '|' :: history.record.text))

def parse (raw : Text) : Option BlockedHistory :=
  if ProcessChain.maxBytes + 36 + maxIdBytes < Text.len raw then none
  else
    match raw.splitOn '|' with
    | [processes, episode, acknowledged, record] => do
      let processes ← ProcessChain.parse processes
      let episode ← Token.parse episode
      let acknowledged ← if acknowledged = ['0'] then some false
        else if acknowledged = ['1'] then some true
        else none
      let record ← RecordId.ofText record
      some { processes, episode, acknowledged, record }
    | _ => none

end BlockedHistory

/-- Only normalized consumption markers are transferred by an independently validated
recovery. -/
inductive ResultHistory
  | retain
  | reset
  | rebind (acknowledged notified : Bool)
deriving DecidableEq

def ResultHistory.isRebind : ResultHistory → Bool
  | .rebind _ _ => true
  | _ => false

/-! ## Edits -/

/-- The edit that decides an option, if any names it. -/
def lastEdit (edits : List OptionEdit) (key : OptionKey) : Option OptionEdit :=
  edits.reverse.find? fun edit => edit.key = key

/-- `render_publish_advisory`: the tuple's edits. A stored `since` is kept while the state is,
unless a clock step stranded it in the future. -/
def renderPublishAdvisory (p : Publish) (prevState : Option AgentState) (prevSince : Nat) : List OptionEdit :=
  let since :=
    if !p.episodeReset && prevState == some p.state && !sinceClockStepped prevSince p.stampedAt then prevSince
    else p.since
  let detail := match p.detail with
    | some d => .set Opt.detail d.token.toList
    | none => .unset Opt.detail
  let attention :=
    if p.setAttention then [.set Opt.attention ['1']]
    else if p.episodeReset then [.unset Opt.attention]
    else []
  [.set Opt.since (Text.decimal since), .set Opt.state p.state.token, detail, .set Opt.source p.source.token,
      .set Opt.evidenceAt (Text.decimal p.evidenceAt)] ++ attention ++
    (if p.episodeReset then [.unset Opt.notifiedAt, .unset Opt.turnAt] else []) ++
    p.hash.toList.map (fun hash => .set Opt.hash (Text.decimal hash)) ++ [.set Opt.pid (Text.decimal p.pid)] ++
    (if p.name.isEmpty then [] else [.set Opt.name p.name]) ++ [.set Opt.stampedAt (Text.decimal p.stampedAt)]

/-- The tokens a publication draws, by what they are for. -/
structure FreshTokens where
  episode : Token
  legacy : Token
  blocked : Token
  claim : Token
  commit : Token

/-- `final_value`: what an option is once the edits are applied to what was read. -/
def finalValue (observed : PaneRead) (edits : List OptionEdit) (key : OptionKey) : Text :=
  (lastEdit edits key).elim (observed.value key) fun edit => edit.value.getD []

/-- The closed episode-reset renderer clears both clocks while it publishes a present state. -/
def resetsEpisode (edits : List OptionEdit) : Bool :=
  edits.any (fun edit => edit.key == Opt.state && edit.value.isSome) &&
    [Opt.turnAt, Opt.notifiedAt].all fun key => edits.any fun edit => edit.key == key && edit.value.isNone

/-- `add_episode`: what a change of the tuple does to the attention episode and the markers. -/
def addEpisode (observed : PaneRead) (edits : List OptionEdit) (fresh : FreshTokens) : List OptionEdit :=
  let final := finalValue observed edits
  let reset := resetsEpisode edits
  let retired :=
    if reset || edits.any (fun edit => edit.key == Opt.state && edit.value == some AgentState.working.token) then
      [ProgramOpt.result, ProgramOpt.ack, ProgramOpt.notified, ProgramOpt.invalidated].map OptionEdit.unset
    else []
  if edits.any fun edit => edit.key == Opt.state && edit.value.isNone then
    retired ++ [ProgramOpt.attentionEpisode, ProgramOpt.episodeNotified, ProgramOpt.blockedHistory, ProgramOpt.result,
      ProgramOpt.ack, ProgramOpt.notified, ProgramOpt.invalidated, ProgramOpt.markerClaim].map OptionEdit.unset
  else
    let blocked := final Opt.state == AgentState.blocked.token
    let stateChanged := reset || final Opt.state != observed.value Opt.state || final Opt.pid != observed.value Opt.pid
    let explicitTurn := edits.any (fun edit => edit.key == Opt.turnAt && edit.value.isSome) &&
      observed.value Opt.attention != ['1']
    let episode :=
      if !(final Opt.state).isEmpty &&
          (stateChanged || explicitTurn || (Token.parse (observed.value ProgramOpt.attentionEpisode)).isNone) then
        .set ProgramOpt.attentionEpisode fresh.episode.text ::
          -- The first migration of an unchanged legacy run keeps a marker already spent.
          if !stateChanged && !explicitTurn && !observed.program.programOrigin &&
              (readStamp (StampedState.fromOptions observed.options)).any (fun stamp =>
                stamp.notifiedAt.any fun notified => decide (stamp.episodeAt ≤ notified)) then
            [.set ProgramOpt.episodeNotified
              (fresh.legacy.text ++ "|legacy|".toList ++ fresh.episode.text)]
          else []
      else []
    retired ++ (if reset || stateChanged && !blocked then [.unset ProgramOpt.blockedHistory] else []) ++
      (if !stateChanged && blocked && observed.value Opt.attention != ['1'] then [.unset Opt.attention] else []) ++
      episode

/-- The blocked episode a publication goes on with. -/
def sameBlocked (observed : PaneRead) (processes : ProcessChain) : Option BlockedHistory :=
  (BlockedHistory.parse (observed.value ProgramOpt.blockedHistory)).filter fun history =>
    history.processes == processes && observed.value Opt.state == AgentState.blocked.token &&
      observed.value ProgramOpt.attentionEpisode == history.episode.text

/-- The edits of a blocked state, which keep its episode and whether it was acknowledged. -/
def blockedEdits (observed : PaneRead) (owner : PaneOwner) (tuple : List OptionEdit) (record : Option RecordId)
    (fresh : FreshTokens) : List OptionEdit :=
  let same := sameBlocked observed owner.processes
  let episode := same.elim fresh.blocked BlockedHistory.episode
  let attention := (lastEdit tuple Opt.attention).elim (observed.value Opt.attention == ['1']) fun edit =>
    edit.value == some ['1']
  let acknowledged := same.any BlockedHistory.acknowledged || !attention
  [.set ProgramOpt.attentionEpisode episode.text,
    if acknowledged then .unset Opt.attention else .set Opt.attention ['1'],
    .set ProgramOpt.blockedHistory
      (BlockedHistory.encode { processes := owner.processes, episode, acknowledged, record := record.getD .root })]

/-- The tuple's edits, with the owner's markers before and the companions after. -/
def tupleEdits (observed : PaneRead) (owner : PaneOwner) (publish : Publish) (companions : List OptionEdit) :
    List OptionEdit :=
  let previous := readStamp (StampedState.fromOptions observed.options)
  let commands := renderPublishAdvisory { publish with source := .hook, guard := .unconditional }
    (previous.map StampedState.state) (previous.elim 0 StampedState.since)
  [.unset ProgramOpt.commit, .set ProgramOpt.origin ['1'], .set ProgramOpt.owner owner.encode] ++
    commands.filter (fun edit => !metadataKeys.contains edit.key) ++ companions

/-- What follows the tuple: the attention episode, and what becomes of the result's markers. -/
def markerEdits (observed : PaneRead) (owner : PaneOwner) (publish : Publish) (result : Option PersistedResult)
    (tuple : List OptionEdit) (history : ResultHistory) (blockedRecord : Option RecordId) (fresh : FreshTokens) :
    List OptionEdit :=
  let blocked :=
    if publish.state = .blocked then blockedEdits observed owner tuple blockedRecord fresh
    else [.unset ProgramOpt.blockedHistory]
  let forgotten :=
    if history = .reset ∨ publish.episodeReset = true then
      [ProgramOpt.result, ProgramOpt.ack, ProgramOpt.notified].map OptionEdit.unset
    else []
  let retained := match result with
    | none => []
    | some result =>
      [.set ProgramOpt.result result.encode, .unset ProgramOpt.invalidated] ++
        match history with
        | .rebind acknowledged notified =>
          [if acknowledged then .set ProgramOpt.ack result.encode else .unset ProgramOpt.ack,
            if notified then .set ProgramOpt.notified (NotificationClaim.encode { token := fresh.claim, result })
            else .unset ProgramOpt.notified]
        | _ => []
  addEpisode observed tuple fresh ++ blocked ++ forgotten ++ retained

/-- A complete publication, its commit marker last. -/
def programEdits (observed : PaneRead) (owner : PaneOwner) (publish : Publish) (result : Option PersistedResult)
    (companions : List OptionEdit) (history : ResultHistory) (blockedRecord : Option RecordId) (fresh : FreshTokens) :
    List OptionEdit :=
  let tuple := tupleEdits observed owner publish companions
  tuple ++ markerEdits observed owner publish result tuple history blockedRecord fresh ++
    (if result.any fun result => observed.program.acknowledged == some result then [.unset Opt.attention] else []) ++
    [.set ProgramOpt.commit (CommitMarker.encode { write := fresh.commit, owner })]

/-- The result belongs to this publication: only a rebind may show one behind another state. -/
def publishesResult (owner : PaneOwner) (publish : Publish) (history : ResultHistory) (r : PersistedResult) : Bool :=
  r.owner == owner && r.identity.owner == owner.episode && PersistedResult.parse r.encode == some r &&
    (history.isRebind || publish.state == .idle) &&
    (history.isRebind || r.kind != .failure || publish.detail.map Detail.token == some "error")

/-- `publish_program_with_history`, up to its transaction. -/
def publishProgramWithHistory (observed : PaneRead) (owner : PaneOwner) (publish : Publish)
    (result : Option PersistedResult) (companions : List OptionEdit) (history : ResultHistory)
    (blockedRecord : Option RecordId) (fresh : FreshTokens) (now : Nat) : Except PersistenceError Request :=
  if publish.pid ≠ owner.processes.agent.pid ∨ !result.all (publishesResult owner publish history) then
    .error (.invalid "publication owner/pane mismatch")
  else if companions.any fun edit => paneKeys.contains edit.key || edit.key == ProgramOpt.collector then
    .error (.invalid "private marker edits require their ownership API")
  else if companions.any fun edit => !companionKeys.contains edit.key then
    .error (.invalid "independent or tuple field in program companions")
  else if history.isRebind && result.isNone then .error (.invalid "history rebind needs normalized result")
  else
    .ok
      { observed
        ownership := .program owner now
        guard := .unconditional
        extra := [ProgramOpt.ack, ProgramOpt.result, ProgramOpt.invalidated, ProgramOpt.notified,
            ProgramOpt.blockedHistory, ProgramOpt.attentionEpisode, ProgramOpt.episodeNotified, Opt.attention].foldl
          (fun predicate key => Predicate.and predicate (Predicate.equal key (observed.value key))) Predicate.always
        edits := programEdits observed owner publish result companions history blockedRecord fresh
        hint := none }

end TmuxAgents
