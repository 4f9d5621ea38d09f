import QiForge.OrderedMap
import QiForge.Shaper

/-!
# The frames of a turn

`runTurnFrames` consumes the graph events of one turn and pushes its frames.
A tool run that starts takes the id of the model's call where one with its
name is pending; every frame of the call carries that id.  Whatever is still
running when the turn ends is settled before `done`.
-/

namespace QiForge
namespace TurnFrames

open Shaper

/-! ## Frames -/

inductive CallStatus where
  | isRunning
  | done
  | error
deriving DecidableEq, Repr

/-- A tool's arguments on the wire, with its name among them. -/
structure ToolArgs (Args : Type) where
  args : Args
  toolName : String

structure ToolCallPayload (Args : Type) where
  toolName : String
  args : ToolArgs Args
  status : CallStatus
  output : Option JsString
  error : Option JsString
  eventId : String

structure ActionCallPayload (Args : Type) where
  toolCallId : String
  toolName : String
  args : Args
  status : CallStatus
  output : Option JsString
  error : Option JsString

structure ReasoningDetail where
  type : String
  text : JsString

inductive DoneFlag where
  | failed
  | aborted

/-- A frame's event and payload; the session, the request and the time in it
are left out. -/
inductive Frame (Args Notice Limit Fault : Type) where
  | run (runId : String)
  | routerUpdate (step : String) (runId : Option String)
  | toolCall (payload : ToolCallPayload Args)
  | actionCall (payload : ActionCallPayload Args)
  | reasoning (reasoning : JsString) (details : Option (List ReasoningDetail))
      (isComplete : Bool)
  | message (content : JsString)
  | notice (notice : Notice)
  | limitError (limit : Limit)
  | error (fault : Fault)
  | done (runId messageId : Option String) (flag : Option DoneFlag)

/-! ## Events -/

/-- Where a model event comes from. -/
structure EventOrigin where
  source : Option String
  tags : List String

def isInternalModelEvent (origin : EventOrigin) : Bool :=
  origin.source = some "summarization" ||
    origin.tags.any fun tag => tag = "summarization" || tag = "internal"

structure ModelCall (Args : Type) where
  id : Option String
  name : String
  args : Args

/-- A tool message the tools node returns. -/
structure ToolMessage where
  toolCallId : String
  name : Option String
  text : JsString
  failed : Bool

/-- A field of an action's result: a string, another value that counts as
true, or neither. -/
inductive ResultField where
  | text (text : JsString)
  | truthy
  | falsy

structure ActionResult where
  successIsFalse : Bool
  error : ResultField
  unknownOutcome : Bool

/-- What a tool run ended with. -/
structure ToolOutput where
  text : JsString
  parsed : Option ActionResult
  name : Option String
  failed : Bool

structure ModelChunk where
  deltaReasoning : Option JsString
  contentReasoning : JsString
  reasoningDetails : Option (List ReasoningDetail)
  text : JsString

inductive TurnEvent (Args Notice : Type) where
  | byoFallback (notice : Option Notice)
  | chatModelEnd (origin : EventOrigin) (toolCalls : List (ModelCall Args))
  | toolsEnd (messages : List ToolMessage)
  | toolStart (runId : String) (name : Option String) (args : Args)
  | toolEnd (runId : String) (output : ToolOutput)
  | toolError (runId : String) (message : JsString)
  | chatModelStream (origin : EventOrigin) (chunk : Option ModelChunk)
  | other

variable {Args Notice Limit Fault : Type}

/-! ## The state of a turn -/

structure PendingCall (Args : Type) where
  toolName : String
  args : Args

structure TurnState (Args Notice Limit Fault : Type) where
  toolCalls : OrderedMap String (ToolCallPayload Args)
  actionCalls : OrderedMap String (ActionCallPayload Args)
  pendingCalls : OrderedMap String (PendingCall Args)
  fullContent : JsString
  frames : List (Frame Args Notice Limit Fault)

/-- What a turn is given: `thrown` where the event source throws behind its
events, `abortTime` the number of events handled before the signal fires. -/
structure TurnInput (Args Notice Limit Fault Err : Type) where
  runId : Option String
  resumed : Bool
  toolOutputCapChars : Option ℕ
  isAction : String → Bool
  thinkingPhrase : String
  messageId : Option String
  events : List (TurnEvent Args Notice)
  thrown : Option Err
  abortTime : Option ℕ
  abortLimit : Option Limit
  completeError : Option Err
  harnessLimitOf : Err → Option Limit
  classified : Err → Fault

/-! ## Writing -/

def digits (n : ℤ) : JsString := utf16 (toString n).toList

/-- `text.slice(from)`. -/
def sliceFrom (text : JsString) (start : ℤ) : JsString :=
  if start < 0 then text.drop (text.length - start.natAbs)
  else text.drop start.toNat

/-- A long output is shortened on the wire. -/
def capOutput (cap : ℕ) (output : JsString) : JsString :=
  if output.length ≤ cap then output
  else
    let budget := max 200 (cap - 200)
    let head := budget * 2 / 5
    let tail := budget - head
    output.take head ++ utf16 "\n\n… [".toList ++
      digits ((output.length : ℤ) - head - tail) ++
      utf16 " characters omitted on the wire] …\n\n".toList ++
      sliceFrom output ((output.length : ℤ) - tail)

def wireCap (cap : Option ℕ) (output : Option JsString) : Option JsString :=
  match cap with
  | none | some 0 => output
  | some (cap + 1) => output.map (capOutput (cap + 1))

def wireFrame (cap : Option ℕ) :
    Frame Args Notice Limit Fault → Frame Args Notice Limit Fault
  | .toolCall payload =>
      .toolCall { payload with output := wireCap cap payload.output }
  | .actionCall payload =>
      .actionCall { payload with output := wireCap cap payload.output }
  | frame => frame

namespace TurnState

def start : TurnState Args Notice Limit Fault :=
  ⟨.empty, .empty, .empty, [], []⟩

variable (cap : Option ℕ)

def write (state : TurnState Args Notice Limit Fault)
    (frame : Frame Args Notice Limit Fault) :
    TurnState Args Notice Limit Fault :=
  { state with frames := state.frames ++ [wireFrame cap frame] }

def writeAll (state : TurnState Args Notice Limit Fault)
    (frames : List (Frame Args Notice Limit Fault)) :
    TurnState Args Notice Limit Fault :=
  frames.foldl (write cap) state

/-- What a call still running is settled with. -/
def orphanAction (payload : ActionCallPayload Args) :
    Frame Args Notice Limit Fault :=
  .actionCall { payload with
      status := .error
      error := some (utf16 "Action did not complete".toList) }

def orphanTool (payload : ToolCallPayload Args) :
    Frame Args Notice Limit Fault :=
  .toolCall { payload with
      status := .done
      output := some (utf16 "⏱️ Tool did not complete".toList) }

def flushOrphans (state : TurnState Args Notice Limit Fault) :
    TurnState Args Notice Limit Fault :=
  let actions := state.actionCalls.entries.map fun entry =>
    orphanAction entry.2
  let tools := state.toolCalls.entries.map fun entry => orphanTool entry.2
  { (state.writeAll cap actions).writeAll cap tools with
    actionCalls := .empty
    toolCalls := .empty }

/-! ## One event -/

/-- The id of the first pending call with this name, and the calls left. -/
def takePendingCall (state : TurnState Args Notice Limit Fault)
    (toolName : String) :
    Option String × TurnState Args Notice Limit Fault :=
  match state.pendingCalls.entries.find? fun entry =>
      entry.2.toolName = toolName with
  | none => (none, state)
  | some (id, _) =>
      (some id, { state with pendingCalls := state.pendingCalls.delete id })

def onModelCall (state : TurnState Args Notice Limit Fault)
    (call : ModelCall Args) : TurnState Args Notice Limit Fault :=
  match call.id.filter fun id => id ≠ "" with
  | none => state
  | some id =>
      { state with
        pendingCalls := state.pendingCalls.set id ⟨call.name, call.args⟩ }

/-- A call that never started is reported from its tool message. -/
def onToolMessage (state : TurnState Args Notice Limit Fault)
    (message : ToolMessage) : TurnState Args Notice Limit Fault :=
  match state.pendingCalls.get? message.toolCallId with
  | none => state
  | some call =>
      let toolName := message.name.getD call.toolName
      let rejected := utf16 "Tool call rejected".toList
      { state with
        pendingCalls := state.pendingCalls.delete message.toolCallId
      }.write cap <| .toolCall
        { toolName := toolName
          args := ⟨call.args, toolName⟩
          status := if message.failed then .error else .done
          output := some message.text
          error :=
            if message.failed then
              some (if message.text = [] then rejected else message.text)
            else none
          eventId := message.toolCallId }

def onToolStart (isAction : String → Bool)
    (state : TurnState Args Notice Limit Fault) (runId : String)
    (name : Option String) (args : Args) :
    TurnState Args Notice Limit Fault :=
  let toolName := name.getD "tool"
  let taken := state.takePendingCall toolName
  let callId := taken.1.getD runId
  if isAction toolName then
    let payload : ActionCallPayload Args :=
      ⟨callId, toolName, args, .isRunning, none, none⟩
    { taken.2 with
      actionCalls := taken.2.actionCalls.set runId payload
    }.write cap (.actionCall payload)
  else
    let payload : ToolCallPayload Args :=
      ⟨toolName, ⟨args, toolName⟩, .isRunning, none, none, callId⟩
    { taken.2 with
      toolCalls := taken.2.toolCalls.set runId payload
    }.write cap (.toolCall payload)

/-- An action whose result says that it failed.  An unknown outcome is not a
failure: the action may have run. -/
def actionFailed (parsed : Option ActionResult) : Bool :=
  match parsed with
  | none => false
  | some result =>
      !result.unknownOutcome && (result.successIsFalse ||
          match result.error with
          | .text text => text ≠ []
          | .truthy => true
          | .falsy => false)

def actionError (parsed : Option ActionResult) : JsString :=
  match parsed.map ActionResult.error with
  | some (.text text) => text
  | some .truthy | some .falsy | none => utf16 "Action failed".toList

/-- The frame of a call that ends, and the state without the call. -/
def settleAction (state : TurnState Args Notice Limit Fault)
    (runId : String) (payload : ActionCallPayload Args) :
    TurnState Args Notice Limit Fault :=
  let written := state.write cap (.actionCall payload)
  { written with actionCalls := written.actionCalls.delete runId }

def settleTool (state : TurnState Args Notice Limit Fault)
    (runId : String) (payload : ToolCallPayload Args) :
    TurnState Args Notice Limit Fault :=
  let written := state.write cap (.toolCall payload)
  { written with toolCalls := written.toolCalls.delete runId }

def onToolEnd (state : TurnState Args Notice Limit Fault)
    (runId : String) (output : ToolOutput) :
    TurnState Args Notice Limit Fault :=
  match state.actionCalls.get? runId with
  | some action =>
      let failed := actionFailed output.parsed
      state.settleAction cap runId { action with
          output := some output.text
          status := if failed then .error else .done
          error :=
            if failed then some (actionError output.parsed)
            else action.error }
  | none =>
      match state.toolCalls.get? runId with
      | none => state
      | some tool =>
          let reason :=
            if output.text = [] then utf16 "Tool failed".toList
            else output.text
          state.settleTool cap runId { tool with
              status := if output.failed then .error else .done
              output := some output.text
              error := if output.failed then some reason else tool.error
              args := ⟨tool.args.args, output.name.getD tool.toolName⟩ }

def onToolError (state : TurnState Args Notice Limit Fault)
    (runId : String) (message : JsString) :
    TurnState Args Notice Limit Fault :=
  match state.actionCalls.get? runId with
  | some action =>
      state.settleAction cap runId { action with
          output := some message
          status := .error
          error := some message }
  | none =>
      match state.toolCalls.get? runId with
      | none => state
      | some tool =>
          state.settleTool cap runId { tool with
              status := .done
              output := some (utf16 "⚠️ ".toList ++ message) }

def chunkReasoning (chunk : ModelChunk) : JsString :=
  match chunk.deltaReasoning.filter fun delta => trim delta ≠ [] with
  | some delta => delta
  | none => chunk.contentReasoning

def chunkDetails (chunk : ModelChunk) : Option (List ReasoningDetail) :=
  chunk.reasoningDetails.map fun details =>
    details.filter fun detail => trim detail.text ≠ []

def onReasoning (state : TurnState Args Notice Limit Fault)
    (chunk : ModelChunk) : TurnState Args Notice Limit Fault :=
  if trim (chunkReasoning chunk) = [] then state
  else
    state.write cap
      (.reasoning (chunkReasoning chunk) (chunkDetails chunk) false)

def onText (state : TurnState Args Notice Limit Fault)
    (text : JsString) : TurnState Args Notice Limit Fault :=
  if text = [] then state
  else
    { state with
      fullContent := state.fullContent ++ text
    }.write cap (.message text)

def onChunk (state : TurnState Args Notice Limit Fault)
    (chunk : ModelChunk) : TurnState Args Notice Limit Fault :=
  (state.onReasoning cap chunk).onText cap chunk.text

def onEvent (isAction : String → Bool)
    (state : TurnState Args Notice Limit Fault) :
    TurnEvent Args Notice → TurnState Args Notice Limit Fault
  | .byoFallback none => state
  | .byoFallback (some notice) => state.write cap (.notice notice)
  | .chatModelEnd origin toolCalls =>
      if isInternalModelEvent origin then state
      else toolCalls.foldl onModelCall state
  | .toolsEnd messages =>
      let told := messages.foldl (onToolMessage cap) state
      { told with pendingCalls := .empty }
  | .toolStart runId name args =>
      state.onToolStart cap isAction runId name args
  | .toolEnd runId output => state.onToolEnd cap runId output
  | .toolError runId message => state.onToolError cap runId message
  | .chatModelStream origin chunk =>
      match chunk with
      | none => state
      | some chunk =>
          if isInternalModelEvent origin then state
          else state.onChunk cap chunk
  | .other => state

end TurnState

/-! ## The turn -/

inductive TurnStatus where
  | completed
  | aborted
  | failed

structure TurnOutcome (Args Notice Limit Fault : Type) where
  frames : List (Frame Args Notice Limit Fault)
  status : TurnStatus
  fullText : JsString

section Run

variable {Err : Type} (input : TurnInput Args Notice Limit Fault Err)

/-- The signal has fired when this many events have been handled. -/
def TurnInput.fired (handled : ℕ) : Bool :=
  input.abortTime.any fun time => time ≤ handled

def opening : List (Frame Args Notice Limit Fault) := (if input.resumed then []
    else (input.runId.map .run).toList) ++
    [.routerUpdate input.thinkingPhrase input.runId]

/-- The events up to the abort, and whether it stopped them. -/
def consume (handled : ℕ) (state : TurnState Args Notice Limit Fault) :
    List (TurnEvent Args Notice) → TurnState Args Notice Limit Fault × Bool
  | [] => (state, false)
  | event :: events =>
      if input.fired handled then (state, true)
      else
        consume (handled + 1)
          (state.onEvent input.toolOutputCapChars input.isAction event) events

def doneFrame (flag : Option DoneFlag) : Frame Args Notice Limit Fault :=
  .done input.runId input.messageId flag

/-- The frames behind the last event, then `done`. -/
def finish (state : TurnState Args Notice Limit Fault)
    (frames : List (Frame Args Notice Limit Fault)) (flag : Option DoneFlag)
    (status : TurnStatus) : TurnOutcome Args Notice Limit Fault :=
  let cap := input.toolOutputCapChars
  let ended := ((state.flushOrphans cap).writeAll cap frames).write cap
      (doneFrame input flag)
  ⟨ended.frames, status, ended.fullContent⟩

def reasoningEnd : Frame Args Notice Limit Fault := .reasoning [] none true

def limitFailure (state : TurnState Args Notice Limit Fault)
    (limit : Limit) : TurnOutcome Args Notice Limit Fault :=
  finish input state [reasoningEnd, .limitError limit] (some .failed) .failed

def aborted (state : TurnState Args Notice Limit Fault) :
    TurnOutcome Args Notice Limit Fault :=
  finish input state [] (some .aborted) .aborted

/-- The signal is read again behind every event and the end of the turn. -/
def onThrown (state : TurnState Args Notice Limit Fault) (error : Err) :
    TurnOutcome Args Notice Limit Fault :=
  let fired := input.fired (input.events.length + 1)
  match (input.harnessLimitOf error).or
      (if fired then input.abortLimit else none) with
  | some limit => limitFailure input state limit
  | none =>
      if fired then aborted input state
      else
        finish input state [reasoningEnd, .error (input.classified error)]
          (some .failed) .failed

/-- The turn's end where nothing stopped it: its callback may still throw. -/
def completed (state : TurnState Args Notice Limit Fault) :
    TurnOutcome Args Notice Limit Fault :=
  match input.completeError with
  | none => finish input state [reasoningEnd] none .completed
  | some error =>
      let cap := input.toolOutputCapChars
      onThrown input ((state.flushOrphans cap).write cap reasoningEnd) error

def onEnded (state : TurnState Args Notice Limit Fault) :
    TurnOutcome Args Notice Limit Fault :=
  if !input.fired input.events.length then completed input state
  else
    match input.abortLimit with
    | some limit => limitFailure input state limit
    | none => aborted input state

def runTurnFrames : TurnOutcome Args Notice Limit Fault :=
  let opened :=
    TurnState.start.writeAll input.toolOutputCapChars (opening input)
  let (state, stopped) := consume input 0 opened input.events
  match input.thrown with
  | none => onEnded input state
  | some error =>
      if stopped then onEnded input state else onThrown input state error

end Run

end TurnFrames
end QiForge
