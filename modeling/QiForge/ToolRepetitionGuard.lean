import QiForge.JsonText

/-!
# The tool repetition guard and the turn boundary

The messages of a thread, where its current turn starts, the calls a summary
written mid-turn carries, and the guard's decision on a tool call.  A turn is a
machine of its own: the model responds, every call of the response gets its
result, and a summary may replace a prefix of the messages between two
responses.  The machine keeps the messages no summary has touched beside the
real ones, so that the two decisions can be compared.
-/

namespace QiForge
namespace RepetitionGuard

/-- The arguments of a call.  A number is the text `JSON.stringify` gives it. -/
inductive Args where
  | null
  | bool (b : Bool)
  | num (text : String)
  | str (s : String)
  | arr (items : List Args)
  | obj (fields : List (String × Args))

def hexDigit (n : ℕ) : Char :=
  if n < 10 then Char.ofNat (48 + n) else Char.ofNat (87 + n)

def escapeChar (c : Char) : List Char :=
  if c = '"' then ['\\', '"']
  else if c = '\\' then ['\\', '\\']
  else if c.toNat = 8 then ['\\', 'b']
  else if c.toNat = 9 then ['\\', 't']
  else if c.toNat = 10 then ['\\', 'n']
  else if c.toNat = 12 then ['\\', 'f']
  else if c.toNat = 13 then ['\\', 'r']
  else if c.toNat < 32 then
    ['\\', 'u', '0', '0', hexDigit (c.toNat / 16), hexDigit (c.toNat % 16)]
  else [c]

/-- `JSON.stringify` of a string. -/
def quote (s : String) : String :=
  String.ofList ('"' :: s.toList.flatMap escapeChar ++ ['"'])

def sortKeys (fields : List (String × String)) : List (String × String) :=
  fields.insertionSort fun a b => utf16 a.1.toList ≤ utf16 b.1.toList

mutual

def canonicalArgsKey : Args → String
  | .null => "null"
  | .bool b => if b then "true" else "false"
  | .num text => text
  | .str s => quote s
  | .arr items => "[" ++ ",".intercalate (itemKeys items) ++ "]"
  | .obj fields =>
      "\x7b" ++ ",".intercalate ((sortKeys (fieldKeys fields)).map fun field =>
        quote field.1 ++ ":" ++ field.2) ++ "\x7d"

def itemKeys : List Args → List String
  | [] => []
  | item :: items => canonicalArgsKey item :: itemKeys items

def fieldKeys : List (String × Args) → List (String × String)
  | [] => []
  | (name, value) :: fields =>
      (name, canonicalArgsKey value) :: fieldKeys fields

end

structure ToolCall where
  id : String
  name : String
  args : Args

inductive ResultStatus where
  | success
  | error
  | gateRefused
  | notRun
deriving DecidableEq, Repr

namespace ResultStatus

/-- A gate's refusal and a result that was not run are error results. -/
def isError : ResultStatus → Bool
  | .success => false
  | .error | .gateRefused | .notRun => true

def isCapabilityGateRefusal (status : ResultStatus) : Bool :=
  decide (status = .gateRefused)

def isToolNotRun (status : ResultStatus) : Bool :=
  decide (status = .notRun)

end ResultStatus

/-- A tool call of the current turn that a mid-turn summary condensed away. -/
structure CarriedToolCall where
  name : String
  args : Args
  failed : Bool

inductive HumanKind where
  | user
  | attachmentView
  | summary (carry : Option (List CarriedToolCall))

inductive Message where
  | human (id : String) (kind : HumanKind)
  | ai (id : String) (toolCalls : List ToolCall)
  | tool (id : String) (name : Option String) (toolCallId : String)
      (status : ResultStatus)

namespace Message

def id : Message → String
  | .human id _ | .ai id _ | .tool id _ _ _ => id

def toolCalls : Message → List ToolCall
  | .ai _ toolCalls => toolCalls
  | .human _ _ | .tool _ _ _ _ => []

/-- The id of the call the message is a result of. -/
def answers : Message → List String
  | .tool _ _ toolCallId _ => [toolCallId]
  | .human _ _ | .ai _ _ => []

/-- The calls the message carries when it is a summary written mid-turn. -/
def turnCarryOf : Message → Option (List CarriedToolCall)
  | .human _ (.summary carry) => carry
  | .human _ .user | .human _ .attachmentView | .ai _ _ |
      .tool _ _ _ _ => none

/-- A turn opens at a user's message, or at a summary that carries the calls
of a turn it condensed. -/
def opensTurn : Message → Bool
  | .human _ .user => true
  | .human _ .attachmentView => false
  | .human _ (.summary carry) => carry.isSome
  | .ai _ _ | .tool _ _ _ _ => false

end Message

/-- Index of the message that opens the current turn; 0 when there is none. -/
def turnStart (messages : List Message) : ℕ :=
  ((List.range messages.length).reverse.find? fun i =>
    (messages[i]?).any Message.opensTurn).getD 0

def discoveryToolNames : List String :=
  ["list_capabilities", "list_skills", "search_skills"]

def isDiscovery (name : String) : Bool := decide (name ∈ discoveryToolNames)

def maxDiscoveryCalls : ℕ := 6

def isDiscoveryResult : Message → Bool
  | .tool _ name _ _ => name.any isDiscovery
  | .human _ _ | .ai _ _ => false

def discoveryCallsInTurn (messages : List Message) : ℕ :=
  (messages.drop (turnStart messages)).countP isDiscoveryResult

/-- The arguments of the call with this id; the last one counts. -/
def toolCallArgs (messages : List Message) (id : String) : Option Args :=
  ((messages.flatMap Message.toolCalls).reverse.find? fun call =>
    decide (call.id = id) && !decide (call.id = "")).map ToolCall.args

/-- The calls that precede the call in the response that issued it. -/
def stepCallsBefore (messages : List Message) (callId : String) :
    List ToolCall :=
  if callId = "" then []
  else
    match messages.reverse.find? fun message =>
        message.toolCalls.any fun call => decide (call.id = callId) with
    | some message =>
        message.toolCalls.takeWhile fun call => !decide (call.id = callId)
    | none => []

inductive Effect where
  | read
  | write
deriving DecidableEq, Repr

structure Options where
  lookback : Option ℕ
  effectOf : String → Effect
  maxIdenticalReads : ℕ
  maxIdenticalWrites : ℕ

def Options.cap (options : Options) (name : String) : ℕ :=
  match options.effectOf name with
  | .read => options.maxIdenticalReads
  | .write => options.maxIdenticalWrites

inductive Decision where
  | run
  | earlierFailure
  | identicalCap
  | discoveryCap
deriving DecidableEq, Repr

/-- The result of a call with the same name and arguments. -/
def isIdentical (window : List Message) (call : ToolCall) : Message → Bool
  | .tool _ name toolCallId _ =>
      decide (name = some call.name) &&
        (toolCallArgs window toolCallId).any fun args =>
          decide (canonicalArgsKey args = canonicalArgsKey call.args)
  | .human _ _ | .ai _ _ => false

def isFailure : Message → Bool
  | .tool _ _ _ status =>
      status.isError &&
        !(status.isCapabilityGateRefusal || status.isToolNotRun)
  | .human _ _ | .ai _ _ => false

def isSuccess : Message → Bool
  | .tool _ _ _ status => !status.isError
  | .human _ _ | .ai _ _ => false

def sameCall (call other : ToolCall) : Bool :=
  decide (other.name = call.name) &&
    decide (canonicalArgsKey other.args = canonicalArgsKey call.args)

def CarriedToolCall.same (call : ToolCall) (carried : CarriedToolCall) :
    Bool :=
  decide (carried.name = call.name) &&
    decide (canonicalArgsKey carried.args = canonicalArgsKey call.args)

def Options.start (options : Options) (messages : List Message) : ℕ :=
  match options.lookback with
  | none => turnStart messages
  | some lookback => max (turnStart messages) (messages.length - lookback)

/-- The identical calls a mid-turn summary condensed away, while the lookback
still reaches the summary. -/
def carriedCalls (options : Options) (messages : List Message)
    (call : ToolCall) : List CarriedToolCall :=
  if options.start messages = turnStart messages then
    (((messages[turnStart messages]?).bind Message.turnCarryOf).getD
      []).filter (CarriedToolCall.same call)
  else []

/-- What the guard does with a call of the last response. -/
def decision (options : Options) (messages : List Message)
    (call : ToolCall) : Decision :=
  let window := messages.drop (options.start messages)
  let carried := carriedCalls options messages call
  if isDiscovery call.name ∧
      maxDiscoveryCalls ≤ discoveryCallsInTurn messages then
    .discoveryCap
  else if (window.any fun message =>
        isFailure message && isIdentical window call message) ||
      carried.any CarriedToolCall.failed then
    .earlierFailure
  else
    let identical := (carried.countP fun carried => !carried.failed) +
        (window.countP fun message =>
          isSuccess message && isIdentical window call message) +
        (stepCallsBefore window call.id).countP (sameCall call)
    if identical < options.cap call.name then .run else .identicalCap

/-- The calls of the removed messages that got a result, oldest first; `seen`
are the calls met so far. -/
def condensedCalls (keptIds : List String) :
    List ToolCall → List Message → List CarriedToolCall
  | _, [] => []
  | seen, message :: messages =>
      if message.id ∈ keptIds then condensedCalls keptIds seen messages
      else
        match message with
        | .ai _ toolCalls =>
            condensedCalls keptIds (seen ++ toolCalls) messages
        | .human _ _ => condensedCalls keptIds seen messages
        | .tool _ name toolCallId status =>
            if status.isCapabilityGateRefusal || status.isToolNotRun then
              condensedCalls keptIds seen messages
            else
              match seen.reverse.find? fun call =>
                  decide (call.id = toolCallId) && !decide (call.id = "") with
              | none => condensedCalls keptIds seen messages
              | some call =>
                  ⟨name.getD call.name, call.args, status.isError⟩ ::
                    condensedCalls keptIds seen messages

/-- The calls of the current turn that a summary would remove; `none` when the
turn's opening is kept. -/
def carriedCallsOfTurn (before : List Message) (keptIds : List String) :
    Option (List CarriedToolCall) :=
  match before[turnStart before]? with
  | some (.human id kind) =>
      if id ∈ keptIds then none
      else
        some ((Message.turnCarryOf (.human id kind)).getD [] ++
          condensedCalls keptIds [] (before.drop (turnStart before)))
  | some (.ai _ _) | some (.tool _ _ _ _) | none => none

/-- What becomes of a call of a response. -/
inductive CallFate where
  | refusedBefore (status : ResultStatus)
  | reaches (status : ResultStatus)
deriving DecidableEq, Repr

/-- The result of a call: its message and what becomes of the call. -/
structure StepResult where
  messageId : String
  name : Option String
  callId : String
  fate : CallFate
deriving DecidableEq, Repr

structure Turn where
  /-- The messages of the thread. -/
  messages : List Message
  /-- The messages of the same thread without any summary of the turn. -/
  full : List Message
  ids : List String
  callIds : List String
  /-- The guard's decisions, each beside the one without summaries. -/
  decided : List (Decision × Decision)
  /-- The calls that ran, for each response. -/
  ran : List (List ToolCall)

inductive TurnEvent where
  | responds (messageId : String) (toolCalls : List ToolCall)
      (results : List StepResult)
  | reattaches (messageId : String)
  | summarizes (messageId : String) (removed : ℕ)

namespace Turn

/-- A turn of a thread, at the user's message. -/
def opening (history : List Message) (messageId : String) : Turn :=
  let messages := history ++ [.human messageId .user]
  ⟨messages, messages, messages.map Message.id, history.flatMap fun message =>
      message.answers ++ message.toolCalls.map ToolCall.id,
    [], []⟩

/-- The result a call gets, and whether it ran. -/
def resultOf (decided : ToolCall → Decision) (call : ToolCall)
    (result : StepResult) : Message × Bool :=
  match result.fate with
  | .refusedBefore status =>
      (.tool result.messageId result.name call.id status, false)
  | .reaches status =>
      if decided call = .run then
        (.tool result.messageId result.name call.id status,
          !(status.isCapabilityGateRefusal || status.isToolNotRun))
      else (.tool result.messageId (some call.name) call.id .error, false)

/-- The results of a response, in the order they are recorded. -/
def stepResults (decided : ToolCall → Decision) (toolCalls : List ToolCall)
    (results : List StepResult) : List (ToolCall × Message × Bool) :=
  results.filterMap fun result =>
    (toolCalls.find? fun call => decide (call.id = result.callId)).map
      fun call => (call, resultOf decided call result)

/-- Every call of the response has a fresh id and exactly one result. -/
def Answers (s : Turn) (messageId : String) (toolCalls : List ToolCall)
    (results : List StepResult) : Prop :=
  (messageId :: results.map StepResult.messageId).Nodup ∧
    (∀ id ∈ messageId :: results.map StepResult.messageId, id ∉ s.ids) ∧
    (toolCalls.map ToolCall.id).Nodup ∧
    (∀ id ∈ toolCalls.map ToolCall.id, id ∉ s.callIds ∧ id ≠ "") ∧
    (results.map StepResult.callId).Perm (toolCalls.map ToolCall.id)

instance (s : Turn) (messageId : String) (toolCalls : List ToolCall)
    (results : List StepResult) :
    Decidable (s.Answers messageId toolCalls results) :=
  inferInstanceAs (Decidable (_ ∧ _))

def responds (options : Options) (s : Turn) (messageId : String)
    (toolCalls : List ToolCall) (results : List StepResult) : Turn :=
  let messages := s.messages ++ [.ai messageId toolCalls]
  let full := s.full ++ [.ai messageId toolCalls]
  let step := stepResults (decision options messages) toolCalls results
  let answers := step.map fun entry => entry.2.1
  { messages := messages ++ answers
    full := full ++ answers
    ids := s.ids ++ messageId :: results.map StepResult.messageId
    callIds := s.callIds ++ toolCalls.map ToolCall.id
    decided := s.decided ++ toolCalls.map fun call =>
      (decision options messages call, decision options full call)
    ran := s.ran ++ [step.filterMap fun entry =>
      if entry.2.2 then some entry.1 else none] }

/-- No result of the kept messages has its call among the removed ones. -/
def Unsplit (removed kept : List Message) : Prop :=
  ∀ message ∈ kept, ∀ id ∈ message.answers,
    ∀ call ∈ removed.flatMap Message.toolCalls, call.id ≠ id

instance (removed kept : List Message) : Decidable (Unsplit removed kept) :=
  inferInstanceAs (Decidable (∀ message ∈ kept, ∀ id ∈ message.answers,
    ∀ call ∈ removed.flatMap Message.toolCalls, call.id ≠ id))

/-- A summary takes the place of the first messages. -/
def summarizes (s : Turn) (messageId : String) (removed : ℕ) : Turn :=
  let kept := s.messages.drop removed
  { s with
    messages := .human messageId (.summary
      (carriedCallsOfTurn s.messages (kept.map Message.id))) :: kept
    ids := s.ids ++ [messageId] }

def step (options : Options) (s : Turn) : TurnEvent → Option Turn
  | .responds messageId toolCalls results =>
      if s.Answers messageId toolCalls results then
        some (s.responds options messageId toolCalls results)
      else none
  | .reattaches messageId =>
      if messageId ∈ s.ids then none
      else
        some { s with
          messages := s.messages ++ [.human messageId .attachmentView]
          full := s.full ++ [.human messageId .attachmentView]
          ids := s.ids ++ [messageId] }
  | .summarizes messageId removed =>
      if messageId ∉ s.ids ∧
          Unsplit (s.messages.take removed) (s.messages.drop removed) then
        some (s.summarizes messageId removed)
      else none

end Turn

end RepetitionGuard
end QiForge
