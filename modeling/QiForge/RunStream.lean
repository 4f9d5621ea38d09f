import QiForge.SseStream

/-!
# The client of a durable run

`streamRun` reads the response of a turn and re-joins the run after a drop.
The user does not abort and `onEvent` does not throw; a join is what
`withAuthRenewal` ends with.  `handed` lists the frames given to `onEvent`.
-/

namespace QiForge

namespace Json

def asString : Json → Option JsString
  | .str s => some s
  | _ => none

/-- The integer `slice` makes of a number. -/
def asInteger : Json → Option ℤ
  | .num mantissa exponent =>
      some (if 0 ≤ exponent then mantissa * 10 ^ exponent.toNat
        else mantissa.tdiv (10 ^ (-exponent).toNat))
  | _ => none

def truthy : Json → Bool
  | .null => false
  | .bool b => b
  | .num mantissa _ => mantissa != 0
  | .str s => s != []
  | .arr _ | .obj _ => true

def getString (json : Json) (name : String) : Option JsString :=
  (json.get? name).bind asString

end Json

structure RunStreamState where
  requestId : Option JsString
  runId : Option JsString
  lastId : ℕ
  text : JsString
  resumed : ℕ
deriving DecidableEq, Repr

namespace SSEEvent

/-- A `message` frame's `content`, which is a string. -/
def content (event : SSEEvent) : JsString :=
  (event.data.getString "content").getD []

/-- The text a `done` frame of an unfinished run puts in place of the one
shown. -/
def replacedText (event : SSEEvent) : Option JsString :=
  if (event.data.getString "status") = some (utf16 "finished".toList) then
    none
  else event.data.getString "partialText"

def isResumed (event : SSEEvent) : Bool :=
  (event.data.get? "resumed").any Json.truthy

end SSEEvent

def moveCursor (state : RunStreamState) (event : SSEEvent) :
    RunStreamState :=
  match event.id with
  | some id =>
      if state.lastId < id then { state with lastId := id } else state
  | none => state

def applyData (state : RunStreamState) (event : SSEEvent) :
    RunStreamState :=
  match event.event with
  | .run =>
      let state := { state with
        runId := state.runId <|> event.data.getString "runId"
        requestId := state.requestId <|> event.data.getString "requestId" }
      if event.isResumed then
        { state with
          resumed := state.resumed + 1
          text :=
            match (event.data.get? "partialLength").bind Json.asInteger with
            | some length => state.text.take length.toNat
            | none => state.text }
      else state
  | .message => { state with text := state.text ++ event.content }
  | .done =>
      match event.replacedText with
      | some text => { state with text := text }
      | none => state
  | _ => state

def applyFrame (state : RunStreamState) (event : SSEEvent) :
    RunStreamState :=
  applyData (moveCursor state event) event

/-- How reading one response went: the state, the frames handed out, and the
data of the `done` frame if it arrived. -/
structure Consumed where
  state : RunStreamState
  handed : List SSEEvent
  done : Option Json

def consumeEvents (state : RunStreamState) : List SSEEvent → Consumed
  | [] => ⟨state, [], none⟩
  | event :: events =>
      if event.id.any fun id => decide (id ≤ state.lastId) then
        consumeEvents state events
      else
        let next := applyFrame state event
        if event.event = .done then ⟨next, [event], some event.data⟩
        else
          let rest := consumeEvents next events
          { rest with handed := event :: rest.handed }

structure SseResponse where
  status : ℕ
  requestId : Option JsString
  runId : Option JsString
  body : Option SseBody

def SseResponse.ok (response : SseResponse) : Bool :=
  decide (200 ≤ response.status ∧ response.status ≤ 299)

def consume (response : SseResponse) (state : RunStreamState) : Consumed :=
  match response.body with
  | none => ⟨state, [], none⟩
  | some body => consumeEvents state (parseSSEStream body)

/-- What a re-join comes to; `none` is an error of the network. -/
abbrev JoinAnswer := Option SseResponse

/-- `join` is told which re-join it is, the first one of a resumed run being
number 0. -/
structure StreamRunInput where
  start : SseResponse
  join : (attempt : ℕ) → (runId : JsString) → (after : ℕ) → JoinAnswer
  maxRejoins : ℕ
  resume : Option (JsString × ℕ)

inductive StreamRunEnded where
  | done
  | disconnected
  | error
  | unauthorized
deriving DecidableEq, Repr

inductive StreamRunError where
  | startRefused (status : ℕ)
  | joinFailed
deriving DecidableEq, Repr

def SseResponse.isAuthRefusal (response : SseResponse) : Bool :=
  decide (response.status = 401 ∨ response.status = 403)

structure StreamRunResult where
  state : RunStreamState
  handed : List SSEEvent
  done : Option Json
  ended : StreamRunEnded

/-- The re-joins still allowed, after `attempt` of them. -/
def rejoinLoop (input : StreamRunInput) (attempt : ℕ) :
    ℕ → Consumed → StreamRunResult
  | left, consumed =>
      match consumed.done with
      | some done => ⟨consumed.state, consumed.handed, some done, .done⟩
      | none =>
          let disconnected : StreamRunResult :=
            ⟨consumed.state, consumed.handed, none, .disconnected⟩
          match left, consumed.state.runId.filter fun r => decide (r ≠ []) with
          | 0, _ => disconnected
          | _, none => disconnected
          | left + 1, some runId =>
              match input.join (attempt + 1) runId consumed.state.lastId with
              | none => rejoinLoop input (attempt + 1) left consumed
              | some response =>
                  if response.isAuthRefusal then
                    { disconnected with ended := .unauthorized }
                  else if response.status = 404 then disconnected
                  else if response.ok then
                    let state := { consumed.state with
                      requestId :=
                        response.requestId <|> consumed.state.requestId }
                    let next := consume response state
                    rejoinLoop input (attempt + 1) left
                      { next with handed := consumed.handed ++ next.handed }
                  else rejoinLoop input (attempt + 1) left consumed

def streamRun (input : StreamRunInput) :
    Except StreamRunError StreamRunResult :=
  match input.resume with
  | some (runId, after) =>
      let state : RunStreamState := ⟨none, some runId, after, [], 0⟩
      match input.join 0 runId after with
      | none => .error .joinFailed
      | some response =>
          if response.isAuthRefusal then
            .ok ⟨state, [], none, .unauthorized⟩
          else
            let state := { state with requestId := response.requestId }
            if response.ok then
              .ok (rejoinLoop input 0 input.maxRejoins
                (consume response state))
            else .ok ⟨state, [], none, .error⟩
  | none =>
      if input.start.ok then
        let state : RunStreamState :=
          ⟨input.start.requestId, input.start.runId, 0, [], 0⟩
        .ok (rejoinLoop input 0 input.maxRejoins (consume input.start state))
      else .error (.startRefused input.start.status)

end QiForge
