import QiForge.JsonText

/-!
# The context guard

`createContextGuardMiddleware`: the request of one model call goes through up
to four passes, each on the messages the one before left.  Old tool results
become stubs, then large ones become placeholders and repeated ones
references, then the same harder, and once more harder when the provider
finds the request too long.
-/

namespace QiForge
namespace ContextGuard

def str (text : String) : JsString := utf16 text.toList

def decimal (n : ℕ) : JsString := str (toString n)

/-- A message's content: text, or blocks as `JSON.stringify` writes them (the
empty text for blocks it cannot write). -/
inductive Content where
  | text (value : JsString)
  | blocks (json : JsString) (images : ℕ) (rest : Option JsString)
deriving DecidableEq

def textOf : Content → JsString
  | .text value => value
  | .blocks json _ _ => json

def imageBlockTokens : ℕ := 3300

def estimateTokensApprox (text : JsString) : ℕ := (text.length + 3) / 4

def estimateContentTokens : Content → ℕ
  | .text value => estimateTokensApprox value
  | .blocks _ images rest =>
      images * imageBlockTokens + (rest.map estimateTokensApprox).getD 0

inductive Reason where
  | pruned
  | duplicate
  | stale
deriving DecidableEq, Repr

inductive ToolStatus where
  | success
  | error
deriving DecidableEq, Repr

/-- A tool result.  `capped` is `cappedMetaOf` with the id of the saved copy,
`usageCarried` the plugins whose usage the result carries, and `pruned` what
the guard wrote into the message's arguments. -/
structure ToolMessage where
  id : Option JsString
  toolCallId : JsString
  name : Option JsString
  status : Option ToolStatus
  content : Content
  capped : Option (Option JsString)
  usageCarried : List JsString
  pruned : Option Reason
deriving DecidableEq

/-- A human message.  `turnCarry` says that it has a list of carried calls. -/
structure HumanMessage where
  id : Option JsString
  content : Content
  lcSource : Option JsString
  turnCarry : Bool
  timestamp : Option JsString
deriving DecidableEq

inductive Message where
  | human (message : HumanMessage)
  | ai (id : Option JsString) (content : Content)
      (toolCalls : Option JsString)
  | tool (message : ToolMessage)
  | other (id : Option JsString) (content : Content)
deriving DecidableEq

namespace Message

def content : Message → Content
  | .human message => message.content
  | .ai _ content _ => content
  | .tool message => message.content
  | .other _ content => content

def id : Message → Option JsString
  | .human message => message.id
  | .ai id _ _ => id
  | .tool message => message.id
  | .other id _ => id

end Message

/-! ## Turns -/

def summaryPrefix : JsString :=
  str "Here is a summary of the conversation to date:"

def isSummarizationMessage (message : HumanMessage) : Bool :=
  message.lcSource = some (str "summarization") ||
    match message.content with
    | .text value => summaryPrefix.isPrefixOf value
    | .blocks _ _ _ => false

def isAttachmentViewMessage (message : HumanMessage) : Bool :=
  message.lcSource = some (str "attachment_view")

/-- A summary opens a turn only when it carries the calls of one. -/
def opensTurn : Message → Bool
  | .human message =>
      if isSummarizationMessage message then message.turnCarry
      else !isAttachmentViewMessage message
  | .ai _ _ _ | .tool _ | .other _ _ => false

def turnOpenings (messages : List Message) : List ℕ :=
  messages.findIdxs opensTurn

section Time

variable (dateParse : JsString → Option ℤ)

/-- When a message was sent; `none` where the source has `NaN`. -/
def sentAt : Option Message → Option ℤ
  | some (.human message) => message.timestamp.bind dateParse
  | _ => none

/-- The comparison of two times is false when either is missing. -/
def coldBetween (messages : List Message) (coldGapMs : ℤ)
    (opening previous : ℕ) : Bool :=
  match sentAt dateParse messages[opening]?,
    sentAt dateParse messages[previous]? with
  | some now, some before => coldGapMs ≤ now - before
  | _, _ => false

/-- The loop over the turns, from the one before this bound backwards. -/
def cutoffBelow (messages : List Message) (openings : List ℕ)
    (keepTurns coldGapMs : ℤ) : ℕ → ℕ
  | 0 => 0
  | turn + 1 =>
      if (turn : ℤ) < max keepTurns 1 then 0
      else
        match openings[turn]?, openings[turn - 1]? with
        | some opening, some previous =>
            if coldBetween dateParse messages coldGapMs opening previous then
              (openings[turn - keepTurns.toNat]?).getD 0
            else cutoffBelow messages openings keepTurns coldGapMs turn
        | _, _ => cutoffBelow messages openings keepTurns coldGapMs turn

def staleResultCutoff (messages : List Message)
    (keepTurns coldGapMs : ℤ) : ℕ :=
  if keepTurns ≤ 0 then 0
  else
    cutoffBelow dateParse messages (turnOpenings messages) keepTurns coldGapMs
      (turnOpenings messages).length

end Time

/-! ## Rewriting one result -/

/-- What the source writes as `message.name ?? 'tool'`. -/
def ToolMessage.nameOr (message : ToolMessage) : JsString :=
  message.name.getD (str "tool")

/-- An empty id is dropped with a missing one. -/
def placeholder (message : ToolMessage) (reason : Reason)
    (body : JsString) : ToolMessage :=
  { message with
    id := message.id.filter fun id => id ≠ []
    name := some message.nameOr
    content := .text body
    pruned := some reason }

/-- The saved copy's id where it is not empty. -/
def ToolMessage.savedId (message : ToolMessage) : Option JsString :=
  message.capped.join.filter fun id => id ≠ []

def prunedBody (message : ToolMessage) (text : JsString) : JsString :=
  str "[" ++ message.nameOr ++ str " result (" ++ decimal text.length ++
    str " characters) pruned from context" ++
    (match message.savedId with
      | some id =>
          str "; the full result is saved as " ++ id ++
            str " — read_result(\x7b id: \"" ++ id ++ str "\" \x7d) reads it"
      | none => []) ++
    str "]"

def duplicateBody (message : ToolMessage) : JsString :=
  str "[" ++ message.nameOr ++ str " result: identical to a later " ++
    message.nameOr ++ str " result, omitted]"

/-- The id a stub gives to read the result back: the saved copy's, else the
tool call's. -/
def ToolMessage.readBackId (message : ToolMessage) : JsString :=
  message.capped.join.getD message.toolCallId

def staleBody (message : ToolMessage) (text : JsString)
    (readResultChars : Option ℕ) : JsString :=
  str "[" ++ message.nameOr ++ str " result from an earlier turn (" ++
    decimal text.length ++ str " characters) removed from context; " ++
    (match readResultChars with
      | none => str "call the tool again if you need it"
      | some length =>
          str "read_result(\x7b id: \"" ++ message.readBackId ++
            str "\", length: " ++ decimal length ++ str " \x7d) reads it back") ++
    str "]"

/-! ## The two passes -/

/-- What a pass returns. -/
structure Pruned where
  messages : List Message
  pruned : ℕ

structure TrimOptions where
  demoteMinChars : ℕ
  readResultChars : Option ℕ
  keep : ToolMessage → Bool

/-- The stub for a result before the cutoff, or `none` for one left alone. -/
def staleStub (options : TrimOptions) : Message → Option ToolMessage
  | .tool message =>
      if options.keep message then none
      else if (textOf message.content).length ≤ options.demoteMinChars then
        none
      else
        some (placeholder message .stale
          (staleBody message (textOf message.content) options.readResultChars))
  | .human _ | .ai _ _ _ | .other _ _ => none

def trimStaleResults (messages : List Message) (cutoff : ℕ)
    (options : TrimOptions) : Pruned :=
  let stubbed := (messages.take cutoff).map (staleStub options)
  { messages :=
      messages.take cutoff |>.map
        (fun message => ((staleStub options message).map .tool).getD message)
        |> (· ++ messages.drop cutoff)
    pruned := stubbed.countP Option.isSome }

structure PruneOptions where
  /-- Messages at the end that are never touched. -/
  keepTail : ℕ
  /-- Tool results shorter than this are left alone. -/
  demoteMinChars : ℕ

def pruneSoft : PruneOptions := ⟨10, 600⟩

def pruneHard : PruneOptions := ⟨4, 200⟩

/-- The shortest text that can be a duplicate. -/
def duplicateMinChars : ℕ := 40

/-- Where the backward loop stands: what it has written, the texts it has
seen, and how many results it has replaced. -/
structure Sweep where
  out : List Message
  seenLater : List JsString
  pruned : ℕ

namespace Sweep

def pass (sweep : Sweep) (message : Message) : Sweep :=
  { sweep with out := message :: sweep.out }

def saw (sweep : Sweep) (text : JsString) : Sweep :=
  if duplicateMinChars ≤ text.length then
    { sweep with seenLater := text :: sweep.seenLater }
  else sweep

def replace (sweep : Sweep) (message : ToolMessage) : Sweep := { sweep with
    out := .tool message :: sweep.out
    pruned := sweep.pruned + 1 }

end Sweep

/-- One turn of the loop: the result at `index`, after those behind it. -/
def sweepResult (options : PruneOptions) (cutoff index : ℕ)
    (message : ToolMessage) (later : Sweep) : Sweep :=
  let text := textOf message.content
  if cutoff ≤ index then (later.saw text).pass (.tool message)
  else if duplicateMinChars ≤ text.length ∧ text ∈ later.seenLater then
    later.replace (placeholder message .duplicate (duplicateBody message))
  else if options.demoteMinChars < text.length then
    (later.saw text).replace
      (placeholder message .pruned (prunedBody message text))
  else (later.saw text).pass (.tool message)

/-- The loop from the last message back to the one at `index`. -/
def sweepFrom (options : PruneOptions) (keep : ToolMessage → Bool)
    (cutoff : ℕ) : ℕ → List Message → Sweep
  | _, [] => ⟨[], [], 0⟩
  | index, message :: rest =>
      let later := sweepFrom options keep cutoff (index + 1) rest
      match message with
      | .tool result =>
          if keep result then later.pass message
          else sweepResult options cutoff index result later
      | .human _ | .ai _ _ _ | .other _ _ => later.pass message

def pruneToolResults (messages : List Message) (options : PruneOptions)
    (keep : ToolMessage → Bool) : Pruned :=
  let sweep :=
    sweepFrom options keep (messages.length - options.keepTail) 0 messages
  ⟨sweep.out, sweep.pruned⟩

/-! ## One guarded call -/

structure ContextBudget where
  windowTokens : ℤ
  pruneAtTokens : ℤ
  requestCapTokens : ℤ
  staleResultTurns : ℤ
  cacheColdMs : ℤ

/-- What the guard reads of a request besides its messages. -/
structure Request where
  messages : List Message
  systemTokens : ℕ
  schemaTokens : ℕ
  loadedPlugins : Option (List JsString)

def messageTokens (message : Message) : ℕ :=
  estimateContentTokens message.content + 4 +
    match message with
    | .ai _ _ (some toolCalls) => estimateTokensApprox toolCalls
    | _ => 0

def estimateRequestTokens (systemTokens schemaTokens : ℕ)
    (messages : List Message) : ℕ :=
  systemTokens + schemaTokens + (messages.map messageTokens).sum

/-- The load result of a plugin that is still loaded stays. -/
def keepLoaded (loadedPlugins : Option (List JsString))
    (message : ToolMessage) : Bool :=
  match loadedPlugins with
  | none => false
  | some loaded => message.usageCarried.any fun plugin => loaded.contains plugin

inductive Stage where
  | stale
  | soft
  | hard
  | overflow
deriving DecidableEq, Repr

inductive GuardEvent where
  | prune (stage : Stage) (pruned beforeTokens afterTokens : ℕ)
  | overflowRetry (learnedWindow : Option ℕ)
  | refused (tokens : ℕ)
deriving DecidableEq, Repr

/-- A pass the guard made over the request. -/
structure Applied where
  stage : Stage
  before : List Message
  after : List Message

/-- The guard's variables, with the passes made so far, the latest first. -/
structure Guarding where
  messages : List Message
  tokens : ℕ
  events : List GuardEvent
  applied : List Applied

/-- What the provider makes of a request. -/
inductive Answer (R F : Type) where
  | response (response : R)
  | overflow (learned : Option ℕ)
  | failure (failure : F)

inductive Outcome (R F : Type) where
  | returned (response : R)
  | failed (failure : F)
  | contextOverflow (message : JsString)

/-- A guarded call as it ended, with the requests that were sent. -/
structure Guarded (R F : Type) where
  outcome : Outcome R F
  sent : List (List Message)
  guarding : Guarding

def refusedMessage (tokens : ℕ) (windowTokens : ℤ) : JsString :=
  str "The conversation no longer fits the model's context window (about " ++
    decimal tokens ++ str " of " ++ str (toString windowTokens) ++
    str " tokens even after trimming old tool results). Start a new session or ask for a shorter answer."

def nothingMoreMessage : JsString :=
  str "The conversation no longer fits the model's context window and nothing more could be trimmed. Start a new session."

def evenAfterTrimmingMessage : JsString :=
  str "The conversation no longer fits the model's context window, even after trimming. Start a new session."

/-- The second request; a provider that finds it too long ends the call. -/
def retry {R F : Type} (again : Answer R F) (first : List Message)
    (guarding : Guarding) : Guarded R F :=
  let outcome : Outcome R F :=
    match again with
    | .response response => .returned response
    | .failure failure => .failed failure
    | .overflow _ => .contextOverflow evenAfterTrimmingMessage
  ⟨outcome, [first, guarding.messages], guarding⟩

section Guard

variable (dateParse : JsString → Option ℤ) (budget : ContextBudget)
  (readResultChars : Option ℕ)

namespace Request

variable (request : Request)

def size (messages : List Message) : ℕ :=
  estimateRequestTokens request.systemTokens request.schemaTokens messages

def keep : ToolMessage → Bool := keepLoaded request.loadedPlugins

def trimOptions : TrimOptions :=
  ⟨pruneSoft.demoteMinChars, readResultChars, request.keep⟩

def cutoff : ℕ :=
  staleResultCutoff dateParse request.messages budget.staleResultTurns
    budget.cacheColdMs

/-- The first pass; `staleReported` when an earlier call of the turn has
reported it. -/
def stale (staleReported : Bool) : Guarding :=
  let trimmed :=
    trimStaleResults request.messages (request.cutoff dateParse budget)
      (request.trimOptions readResultChars)
  let tokens := request.size trimmed.messages
  { messages := trimmed.messages
    tokens
    events :=
      if 0 < trimmed.pruned ∧ staleReported = false then
        [.prune .stale trimmed.pruned (request.size request.messages) tokens]
      else []
    applied := [⟨.stale, request.messages, trimmed.messages⟩] }

def shrink (options : PruneOptions) (stage : Stage)
    (guarding : Guarding) : Guarding :=
  let result := pruneToolResults guarding.messages options request.keep
  let tokens := request.size result.messages
  { messages := result.messages
    tokens
    events :=
      if 0 < result.pruned then
        guarding.events ++ [.prune stage result.pruned guarding.tokens tokens]
      else guarding.events
    applied :=
      ⟨stage, guarding.messages, result.messages⟩ :: guarding.applied }

def shrinkAbove (limit : ℤ) (options : PruneOptions) (stage : Stage)
    (guarding : Guarding) : Guarding :=
  if limit < guarding.tokens then request.shrink options stage guarding
  else guarding

/-- The request's messages when it is first sent, or refused. -/
def prepare (staleReported : Bool) : Guarding :=
  request.stale dateParse budget readResultChars staleReported
    |> request.shrinkAbove budget.pruneAtTokens pruneSoft .soft
    |> request.shrinkAbove budget.requestCapTokens pruneHard .hard

/-- The provider found the request too long. -/
def overflow (learned : Option ℕ) (guarding : Guarding) : Guarding :=
  request.shrink pruneHard .overflow
    { guarding with events := guarding.events ++ [.overflowRetry learned] }

def wrapModelCall {R F : Type} (staleReported : Bool)
    (answer again : Answer R F) : Guarded R F :=
  let ready := request.prepare dateParse budget readResultChars staleReported
  if budget.requestCapTokens < ready.tokens then
    ⟨.contextOverflow (refusedMessage ready.tokens budget.windowTokens), [],
      { ready with events := ready.events ++ [.refused ready.tokens] }⟩
  else
    match answer with
    | .response response => ⟨.returned response, [ready.messages], ready⟩
    | .failure failure => ⟨.failed failure, [ready.messages], ready⟩
    | .overflow learned =>
        let harder := request.overflow learned ready
        if ready.tokens ≤ harder.tokens then
          ⟨.contextOverflow nothingMoreMessage, [ready.messages], harder⟩
        else retry again ready.messages harder

end Request

end Guard

end ContextGuard
end QiForge
