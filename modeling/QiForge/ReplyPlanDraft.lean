import QiForge.ReplyPlan

/-!
# The draft of a Reply Plan

The steps of a finished run become parts in order.  The text a run had
streamed before a reset, its continuation, is put back where the steps the
checkpoint kept end.  A short line of narration before a tool call is dropped
where the reply goes on.
-/

namespace QiForge
namespace ReplyPlan

open Shaper

structure ToolCall (Args : Type) where
  id : String
  name : String
  args : Args

structure TurnStep (Args : Type) where
  text : JsString
  toolCalls : List (ToolCall Args)

/-! ## Narration -/

def narrationMaxChars : ℕ := 200

def includes (needle text : JsString) : Bool :=
  text.tails.any fun tail => needle.isPrefixOf tail

/-- Where `^` matches behind, with the flag `m`. -/
def endsLine (c : UInt16) : Bool :=
  c = 10 || c = 13 || c = 0x2028 || c = 0x2029

def isDigit (c : UInt16) : Bool := 48 ≤ c && c ≤ 57

def startsWithSpace (text : JsString) : Bool := text.head?.any isSpace

/-- `\s*([-*+]|\d+[.)])\s` at the front of a text. -/
def opensListItem (text : JsString) : Bool :=
  match text.dropWhile isSpace with
  | [] => false
  | c :: rest =>
      if c = 45 || c = 42 || c = 43 then startsWithSpace rest
      else isDigit c &&
        match rest.dropWhile isDigit with
        | [] => false
        | mark :: rest => (mark = 46 || mark = 41) && startsWithSpace rest

def hasListItem (lineStart : Bool) : JsString → Bool
  | [] => false
  | c :: rest =>
      (lineStart && opensListItem (c :: rest)) || hasListItem (endsLine c) rest

/-- One short paragraph of prose: what a model says before it calls a tool. -/
def isNarration (text : JsString) : Bool :=
  text.length ≤ narrationMaxChars && !includes blankLine text &&
    !includes ticks text && !hasListItem true text

/-! ## The continuation -/

section Continuation

variable {Args : Type}

def trimStart (text : JsString) : JsString := text.dropWhile isSpace

structure PendingContinuation where
  text : JsString
  step : ℕ
  after : Bool

/-- What is left of a text behind the steps it starts with, and their
number. -/
def matchSteps (rest : JsString) (step : ℕ) :
    List (TurnStep Args) → JsString × ℕ
  | [] => (rest, step)
  | next :: steps =>
      if next.text.isPrefixOf (trimStart rest) then
        matchSteps ((trimStart rest).drop next.text.length) (step + 1) steps
      else (rest, step)

def pendingContinuation (continuation : JsString)
    (steps : List (TurnStep Args)) : PendingContinuation :=
  let found := matchSteps continuation 0 steps
  if found.2 < steps.length then ⟨found.1, found.2, false⟩
  else ⟨found.1, steps.length - 1, true⟩

/-- A step with the text it delivers. -/
def withContinuation (pending : Option PendingContinuation) (index : ℕ)
    (step : TurnStep Args) : TurnStep Args :=
  match pending with
  | none => step
  | some pending =>
      if index ≠ pending.step || isBlank pending.text then step
      else if pending.after then
        { step with text := trim (step.text ++ pending.text) }
      else { step with text := trim (pending.text ++ step.text) }

/-- The steps of a plan: a run with no step of its own delivers its
continuation alone. -/
def planSteps (steps : List (TurnStep Args))
    (continuation : Option JsString) : List (TurnStep Args) :=
  match continuation.filter fun text => text ≠ [] with
  | none => steps
  | some continuation =>
      if steps = [] then [⟨trim continuation, []⟩]
      else steps.mapIdx
        (withContinuation (some (pendingContinuation continuation steps)))

end Continuation

/-! ## The parts of a step -/

def createArtifactTool : String := "create_artifact"

def sendFileTool : String := "send_file"

/-- A run's results, and what the parsers of the artifact, action, Hub and file
results read in them. -/
structure TurnResults (Args Handed A F R H : Type) where
  toolResults : String → Option JsString
  toolArtifacts : String → Option Handed
  createArtifactArgs : Args → Option (JsString × Option JsString)
  createArtifactResult : JsString → Option A
  preparedReference : JsString → Option H
  preparedSummary : JsString → Option JsString
  title : H → JsString
  preparedAction : JsString → Option R
  sentFile : Handed → Option (String × F)

/-- How the plan's chat surface shapes a step. -/
structure Surface where
  segmenters : Segmenters
  lexer : JsString → List Token
  limits : ChatLimits
  canSpill : Bool

section Draft

variable {Args Handed A F R H : Type}
  (results : TurnResults Args Handed A F R H) (surface : Surface)

def resultRef (raw : Option JsString) : Option A :=
  (raw.filter fun raw => raw ≠ []).bind results.createArtifactResult

/-- What one call delivered, from its arguments and its result. -/
def createArtifactParts (args : Args) (result : Option JsString) :
    List (ReplyContent A F R H) :=
  let parsed := results.createArtifactArgs args
  (parsed.map fun parsed => .text parsed.1).toList ++
    ((resultRef results result).map .artifact).toList ++
    ((parsed.bind (·.2)).filter (fun followUp => followUp ≠ []) |>.map
      .text).toList

/-- A call's result, `null` where it has none. -/
def resultText (call : ToolCall Args) : JsString :=
  (results.toolResults call.id).getD (utf16 "null".toList)

def hubParts (call : ToolCall Args) : List (ReplyContent A F R H) :=
  let result := resultText results call
  match results.preparedReference result, results.preparedSummary result with
  | some reference, some summary =>
      if summary = results.title reference then
        [.hubAction reference summary]
      else []
  | _, _ => []

def actionParts (call : ToolCall Args) : List (ReplyContent A F R H) :=
  ((results.preparedAction (resultText results call)).map .action).toList

/-- A file, once for each path, and the paths sent so far. -/
def fileParts (sentPaths : List String) (call : ToolCall Args) :
    List (ReplyContent A F R H) × List String :=
  match (results.toolArtifacts call.id).bind results.sentFile with
  | none => ([], sentPaths)
  | some (path, file) =>
      if path ∈ sentPaths then ([], sentPaths)
      else ([.file file], path :: sentPaths)

def isHubCall (call : ToolCall Args) : Bool :=
  call.name = "request_hub_action" ||
    call.name = "request_chain_transaction" || call.name = "yoma_form"

def callParts (sentPaths : List String) (call : ToolCall Args) :
    List (ReplyContent A F R H) × List String :=
  let hub := if isHubCall call then hubParts results call else []
  let action :=
    if call.name = "prepare_action" then actionParts results call else []
  let created :=
    if call.name = createArtifactTool then
      createArtifactParts results call.args (results.toolResults call.id)
    else []
  let sent :=
    if call.name = sendFileTool then fileParts results sentPaths call
    else ([], sentPaths)
  (hub ++ action ++ created ++ sent.1, sent.2)

def callsParts (sentPaths : List String) :
    List (ToolCall Args) → List (ReplyContent A F R H) × List String
  | [] => ([], sentPaths)
  | call :: calls =>
      let first := callParts results sentPaths call
      let others := callsParts first.2 calls
      (first.1 ++ others.1, others.2)

def createsArtifact (step : TurnStep Args) : Bool :=
  step.toolCalls.any fun call => call.name = createArtifactTool

/-- A step that speaks to the user. -/
def speaks (step : TurnStep Args) : Bool :=
  !isBlank step.text || createsArtifact step

/-- The parts of a step's text.  `saysMore`: the reply goes on after it. -/
def textParts (index : ℕ) (saysMore : Bool) (step : TurnStep Args) :
    List (DraftPart A F R H) :=
  let narration := step.toolCalls ≠ [] ∧ saysMore = true ∧
    isNarration step.text = true
  if isBlank step.text = true ∨ narration then []
  else
    match shapeStep surface.segmenters surface.lexer surface.limits
        surface.canSpill step.text with
    | .messages messages =>
        messages.map fun message => .content (.text message)
    | .spill spill => [.spill ("step-" ++ toString index) spill]

/-- The parts of the steps from this index on, with the paths sent so far.
`later`: something speaks to the user after them. -/
def draftFrom (later : Bool) (index : ℕ) (sentPaths : List String) :
    List (TurnStep Args) → List (DraftPart A F R H)
  | [] => []
  | step :: steps =>
      let saysMore := (later || steps.any speaks) || createsArtifact step
      let called := callsParts results sentPaths step.toolCalls
      textParts surface index saysMore step ++ called.1.map .content ++
        draftFrom later (index + 1) called.2 steps

def draftReplyPlan (steps : List (TurnStep Args))
    (continuation : Option JsString) : List (DraftPart A F R H) :=
  draftFrom results surface false 0 [] (planSteps steps continuation)

end Draft

end ReplyPlan
end QiForge
