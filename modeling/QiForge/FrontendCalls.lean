import Mathlib.Tactic

/-!
# Frontend calls of one realtime endpoint

The registry of the calls that wait for a browser, the hub of the sockets, and
the endpoint that parks calls and sends them.  An event of the endpoint is one
synchronous step of it; whether the n-th send throws is a parameter.  The last
fields of the endpoint are a history: the ids of all calls, the sends of an
invocation that succeeded, and how each promise settled.
-/

namespace QiForge

inductive FrontendCallKind where
  | browser
  | agui
deriving DecidableEq, Repr

/-- A WebSocket object. -/
abbrev WebSocket := ℕ

/-- The socket an invocation was sent to, as its attachment identifies it. -/
structure FrontendExecutor where
  sid : String
  sessionId : String
  userDid : String
deriving DecidableEq, Repr

inductive FrontendCallNotSentReason where
  | aborted
  | parkDeadline
  | noBrowser
  | tableFull
deriving DecidableEq, Repr

/-- What a client's result says. -/
inductive ReportedResult where
  | failure (error : Option String)
  | unknownOutcome
  | other
deriving DecidableEq, Repr

inductive Settlement where
  | resolved (by' : WebSocket) (result : ReportedResult)
  | failed (by' : WebSocket) (error : String)
  | outcomeUnknown
  | notSent (reason : FrontendCallNotSentReason)
deriving DecidableEq, Repr

structure PendingCall where
  toolCallId : String
  kind : FrontendCallKind
  toolName : String
  sessionId : String
  startedAt : ℕ
  executor : Option FrontendExecutor
  signal : Option ℕ
deriving DecidableEq, Repr

/-- A frontend call to send. -/
structure OutgoingFrontendCall where
  toolCallId : String
  kind : FrontendCallKind
  toolName : String
  sessionId : String
deriving DecidableEq, Repr

structure CompletedCall where
  toolCallId : String
  finishedAt : ℕ
deriving DecidableEq, Repr

structure SocketAttachment where
  sid : String
  sessionId : String
  routedUserDid : String
  userDid : Option String
  openedAt : ℕ
  lastPongAt : ℕ
  lastActiveAt : Option ℕ
  /-- The tools of a background executor; a foreground socket has none. -/
  background : Option (List String)
deriving DecidableEq, Repr

structure HubEntry where
  socket : WebSocket
  attachment : SocketAttachment
deriving DecidableEq, Repr

structure FrontendLimits where
  maxPending : ℕ
  maxCompleted : ℕ
  completedTtlMs : ℕ

structure RealtimeEndpoint where
  pending : List PendingCall
  completed : List CompletedCall
  sockets : List HubEntry
  authenticating : List WebSocket
  parked : String → List OutgoingFrontendCall
  parkExpired : List String
  /-- Calls whose promise has the reactions that unpark them. -/
  watched : List OutgoingFrontendCall
  aborted : List ℕ
  sends : ℕ
  opened : List (WebSocket × String)
  called : List String
  sent : List (String × WebSocket)
  settled : List (String × Settlement)

namespace SocketAttachment

def canRunTool (attachment : SocketAttachment) (kind : FrontendCallKind)
    (toolName : String) : Bool :=
  match attachment.background with
  | none => true
  | some tools => decide (kind = .browser) && decide (toolName ∈ tools)

def recency (attachment : SocketAttachment) : ℕ :=
  attachment.lastActiveAt.getD attachment.openedAt

def serves (attachment : SocketAttachment) (sessionId : String) : Bool :=
  attachment.userDid.isSome && decide (attachment.sessionId = sessionId)

end SocketAttachment

/-- The most recent of the entries; of equal ones the last. -/
def mostRecent (entries : List HubEntry) : Option HubEntry :=
  entries.foldl (fun best entry =>
    match best with
    | none => some entry
    | some old =>
        if old.attachment.recency ≤ entry.attachment.recency then some entry
        else some old) none

/-- The socket of the session a call runs on: a foreground one first. -/
def executorFor (sockets : List HubEntry) (sessionId : String)
    (kind : FrontendCallKind) (toolName : String) : Option HubEntry :=
  let serving := sockets.filter fun entry => entry.attachment.serves sessionId
  (mostRecent (serving.filter fun entry =>
      entry.attachment.background.isNone)).or
    (mostRecent (serving.filter fun entry =>
      entry.attachment.background.isSome &&
        entry.attachment.canRunTool kind toolName))

/-- Drops finished records past their age, then the oldest beyond the bound. -/
def pruneCompleted (limits : FrontendLimits) (now : ℕ) :
    List CompletedCall → List CompletedCall
  | [] => []
  | record :: records =>
      if now < record.finishedAt + limits.completedTtlMs ∧
          (record :: records).length ≤ limits.maxCompleted then
        record :: records
      else pruneCompleted limits now records

namespace RealtimeEndpoint

def empty : RealtimeEndpoint where
  pending := []
  completed := []
  sockets := []
  authenticating := []
  parked := fun _ => []
  parkExpired := []
  watched := []
  aborted := []
  sends := 0
  opened := []
  called := []
  sent := []
  settled := []

variable (limits : FrontendLimits) (throws : ℕ → Bool)

def find (s : RealtimeEndpoint) (id : String) : Option PendingCall :=
  s.pending.find? fun entry => decide (entry.toolCallId = id)

def isParked (s : RealtimeEndpoint) (id : String) : Bool :=
  (s.find id).any fun entry => entry.executor.isNone

def attachmentOf (s : RealtimeEndpoint) (ws : WebSocket) :
    Option SocketAttachment :=
  (s.sockets.find? fun entry => decide (entry.socket = ws)).map
    HubEntry.attachment

/-- Moves a pending call to the finished records and settles its promise. -/
def finish (s : RealtimeEndpoint) (now : ℕ) (id : String)
    (outcome : Settlement) : RealtimeEndpoint :=
  match s.find id with
  | none => s
  | some _ =>
      { s with
        pending := s.pending.filter fun entry =>
          !decide (entry.toolCallId = id)
        completed := pruneCompleted limits now (s.completed ++ [⟨id, now⟩])
        settled := s.settled ++ [(id, outcome)] }

/-- The calls sent to a socket that is gone end with an unknown outcome. -/
def executorGone (s : RealtimeEndpoint) (now : ℕ) (sid : String) :
    RealtimeEndpoint :=
  ((s.pending.filter fun entry =>
      entry.executor.any fun executor => decide (executor.sid = sid)).map
    PendingCall.toolCallId).foldl
    (fun s id => s.finish limits now id .outcomeUnknown) s

def removeSocket (s : RealtimeEndpoint) (ws : WebSocket) :
    RealtimeEndpoint :=
  { s with
    sockets := s.sockets.filter fun entry => !decide (entry.socket = ws) }

/-- Removes the socket and ends its calls; also `forget` and the heartbeat's
drop. -/
def dropSocket (s : RealtimeEndpoint) (now : ℕ) (ws : WebSocket) :
    RealtimeEndpoint :=
  match s.attachmentOf ws with
  | none => s.removeSocket ws
  | some attachment =>
      (s.removeSocket ws).executorGone limits now attachment.sid

/-- A send; a socket whose send throws is dropped. -/
def trySend (s : RealtimeEndpoint) (now : ℕ) (ws : WebSocket) :
    Bool × RealtimeEndpoint :=
  let next := { s with sends := s.sends + 1 }
  if throws s.sends then (false, next.dropSocket limits now ws)
  else (true, next)

def update (s : RealtimeEndpoint) (ws : WebSocket)
    (change : SocketAttachment → SocketAttachment) : RealtimeEndpoint :=
  { s with
    sockets := s.sockets.map fun entry =>
      if entry.socket = ws then ⟨ws, change entry.attachment⟩ else entry }

/-- Binds a pending call to the one socket it was sent to. -/
def dispatched (s : RealtimeEndpoint) (id : String)
    (executor : FrontendExecutor) : RealtimeEndpoint :=
  { s with
    pending := s.pending.map fun entry =>
      if entry.toolCallId = id ∧ entry.executor = none then
        { entry with executor := some executor }
      else entry }

def bind (s : RealtimeEndpoint) (call : OutgoingFrontendCall)
    (ws : WebSocket) (sid userDid : String) : RealtimeEndpoint :=
  { s.dispatched call.toolCallId ⟨sid, call.sessionId, userDid⟩ with
    sent := s.sent ++ [(call.toolCallId, ws)] }

/-- Sends the call to the socket that runs it; each failing send removes a
socket, so `fuel` is their number. -/
def dispatch (now : ℕ) (call : OutgoingFrontendCall) :
    ℕ → RealtimeEndpoint → Bool × RealtimeEndpoint
  | 0, s => (false, s)
  | fuel + 1, s =>
      match executorFor s.sockets call.sessionId call.kind call.toolName with
      | none => (false, s)
      | some target =>
          match target.attachment.userDid with
          | none => (false, s)
          | some userDid =>
              match s.trySend limits throws now target.socket with
              | (false, s) => dispatch now call fuel s
              | (true, s) =>
                  (true, s.bind call target.socket target.attachment.sid
                    userDid)

def unpark (s : RealtimeEndpoint) (call : OutgoingFrontendCall) :
    RealtimeEndpoint :=
  { s with
    parked := Function.update s.parked call.sessionId
      ((s.parked call.sessionId).erase call) }

/-- Sends the parked calls the socket can run, oldest first. -/
def dispatchQueue (now : ℕ) (ws : WebSocket) (attachment : SocketAttachment)
    (userDid : String) :
    List OutgoingFrontendCall → RealtimeEndpoint → RealtimeEndpoint
  | [], s => s
  | call :: queue, s =>
      if s.isParked call.toolCallId = false then
        dispatchQueue now ws attachment userDid queue (s.unpark call)
      else if attachment.canRunTool call.kind call.toolName = false then
        dispatchQueue now ws attachment userDid queue s
      else
        match s.trySend limits throws now ws with
        | (false, s) => s
        | (true, s) =>
            dispatchQueue now ws attachment userDid queue
              ((s.bind call ws attachment.sid userDid).unpark call)

def dispatchParked (s : RealtimeEndpoint) (now : ℕ) (ws : WebSocket) :
    RealtimeEndpoint :=
  match s.attachmentOf ws with
  | none => s
  | some attachment =>
      match attachment.userDid with
      | none => s
      | some userDid =>
          let s := { s with
            parkExpired := s.parkExpired.filter fun sessionId =>
              !decide (sessionId = attachment.sessionId) }
          s.dispatchQueue limits throws now ws attachment userDid
            (s.parked attachment.sessionId)

/-- A call that never reaches the registry. -/
def refuseCall (s : RealtimeEndpoint) (id : String)
    (reason : FrontendCallNotSentReason) : RealtimeEndpoint :=
  { s with
    called := s.called ++ [id]
    settled := s.settled ++ [(id, .notSent reason)] }

inductive OpenRefusal where
  | alreadyIssued
  | tableFull
deriving DecidableEq, Repr

/-- The registry's `open`. -/
def openCall (s : RealtimeEndpoint) (now : ℕ) (call : OutgoingFrontendCall)
    (signal : Option ℕ) : Except OpenRefusal RealtimeEndpoint :=
  let s := { s with completed := pruneCompleted limits now s.completed }
  if (s.find call.toolCallId).isSome ∨
      call.toolCallId ∈ s.completed.map CompletedCall.toolCallId then
    .error .alreadyIssued
  else if limits.maxPending ≤ s.pending.length then .error .tableFull
  else
    let s := { s with
      pending := s.pending ++ [⟨call.toolCallId, call.kind, call.toolName,
        call.sessionId, now, none, signal⟩]
      called := s.called ++ [call.toolCallId] }
    if signal.any fun signal => decide (signal ∈ s.aborted) then
      .ok (s.finish limits now call.toolCallId (.notSent .aborted))
    else .ok s

/-- One frontend invocation, from the call to its park. -/
def call (s : RealtimeEndpoint) (now : ℕ) (call : OutgoingFrontendCall)
    (signal : Option ℕ) : RealtimeEndpoint :=
  if call.sessionId ∈ s.parkExpired ∧
      executorFor s.sockets call.sessionId call.kind call.toolName = none then
    s.refuseCall call.toolCallId .noBrowser
  else
    match s.openCall limits now call signal with
    | .error .tableFull =>
        { s with completed := pruneCompleted limits now s.completed }.refuseCall
          call.toolCallId .tableFull
    | .error .alreadyIssued => s
    | .ok s =>
        if (s.find call.toolCallId).isNone then s
        else
          match s.dispatch limits throws now call s.sockets.length with
          | (true, s) => s
          | (false, s) =>
              { s with
                parked := Function.update s.parked call.sessionId
                  (s.parked call.sessionId ++ [call])
                watched := s.watched ++ [call] }

/-- What a matching result does to the promise. -/
def settlementOf (kind : FrontendCallKind) (ws : WebSocket)
    (result : ReportedResult) (error : Option String) : Settlement :=
  match error with
  | some error => .failed ws error
  | none =>
      match kind, result with
      | .agui, .failure error => .failed ws (error.getD "Action failed")
      | _, _ => .resolved ws result

/-- A result that arrived on a socket. -/
def settle (s : RealtimeEndpoint) (now : ℕ) (ws : WebSocket)
    (source : FrontendExecutor) (kind : FrontendCallKind) (id : String)
    (result : ReportedResult) (error : Option String) : RealtimeEndpoint :=
  match s.find id with
  | none => { s with completed := pruneCompleted limits now s.completed }
  | some entry =>
      if entry.kind ≠ kind then s
      else if entry.executor ≠ some source then s
      else s.finish limits now id (settlementOf kind ws result error)

def noteActivity (s : RealtimeEndpoint) (now : ℕ) (ws : WebSocket) :
    RealtimeEndpoint :=
  s.update ws fun attachment => { attachment with lastActiveAt := some now }

/-- A result frame: routing comes from the socket alone. -/
def resultFrame (s : RealtimeEndpoint) (now : ℕ) (ws : WebSocket)
    (claimed : Option String) (kind : FrontendCallKind) (id : String)
    (result : ReportedResult) (error : Option String) : RealtimeEndpoint :=
  match s.attachmentOf ws with
  | none => s
  | some attachment =>
      match attachment.userDid with
      | none =>
          (s.trySend limits throws now ws).2.dropSocket limits now ws
      | some userDid =>
          let s := s.noteActivity now ws
          if claimed.any fun sessionId =>
              decide (sessionId ≠ attachment.sessionId) then s
          else
            s.settle limits now ws
              ⟨attachment.sid, attachment.sessionId, userDid⟩ kind id result
              error

/-- Any other event frame, with its reply. -/
def eventFrame (s : RealtimeEndpoint) (now : ℕ) (ws : WebSocket) :
    RealtimeEndpoint :=
  match s.attachmentOf ws with
  | none => s
  | some attachment =>
      if attachment.userDid.isNone then
        (s.trySend limits throws now ws).2.dropSocket limits now ws
      else ((s.noteActivity now ws).trySend limits throws now ws).2

def connectFrame (s : RealtimeEndpoint) (now : ℕ) (ws : WebSocket) :
    RealtimeEndpoint :=
  match s.attachmentOf ws with
  | none => s
  | some attachment =>
      if attachment.userDid.isSome then (s.trySend limits throws now ws).2
      else if ws ∈ s.authenticating then s
      else { s with authenticating := s.authenticating ++ [ws] }

/-- The answer of a CONNECT's validation: refused, or the executor fields. -/
inductive ConnectOutcome where
  | refused
  | accepted (background : Option (List String))
deriving DecidableEq, Repr

def connectAnswered (s : RealtimeEndpoint) (now : ℕ) (ws : WebSocket)
    (outcome : ConnectOutcome) : RealtimeEndpoint :=
  let s := { s with
    authenticating := s.authenticating.filter fun socket =>
      !decide (socket = ws) }
  match outcome with
  | .refused => (s.trySend limits throws now ws).2.dropSocket limits now ws
  | .accepted background =>
      match s.attachmentOf ws with
      | none => s
      | some _ =>
          let s := s.update ws fun attachment =>
            { attachment with
              userDid := some attachment.routedUserDid
              background := background }
          let s := (s.trySend limits throws now ws).2
          let s := (s.trySend limits throws now ws).2
          s.dispatchParked limits throws now ws

/-- The turn's abort ends the calls that listen to its signal, oldest first. -/
def abort (s : RealtimeEndpoint) (now signal : ℕ) : RealtimeEndpoint :=
  (s.pending.filter fun entry =>
      decide (entry.signal = some signal)).foldl
    (fun s entry =>
      s.finish limits now entry.toolCallId
        (if entry.executor.isSome then .outcomeUnknown
          else .notSent .aborted))
    { s with aborted := s.aborted ++ [signal] }

/-- A pending call's deadline: the park deadline until it is sent. -/
def timer (s : RealtimeEndpoint) (now : ℕ) (id : String) :
    RealtimeEndpoint :=
  match s.find id with
  | none => s
  | some entry =>
      s.finish limits now id (if entry.executor.isSome then .outcomeUnknown
          else .notSent .parkDeadline)

/-- The reaction of a settled call that was parked. -/
def react (s : RealtimeEndpoint) (call : OutgoingFrontendCall)
    (outcome : Settlement) : RealtimeEndpoint :=
  let s := { s.unpark call with watched := s.watched.erase call }
  if outcome = .notSent .parkDeadline then
    { s with parkExpired := s.parkExpired ++ [call.sessionId] }
  else s

/-- One heartbeat round over the sockets there were. -/
def heartbeat (now limit : ℕ) :
    List HubEntry → RealtimeEndpoint → RealtimeEndpoint
  | [], s => s
  | entry :: entries, s =>
      if entry.attachment.lastPongAt + limit < now then
        heartbeat now limit entries (s.dropSocket limits now entry.socket)
      else
        heartbeat now limit entries
          (s.trySend limits throws now entry.socket).2

end RealtimeEndpoint

inductive RealtimeEvent where
  | upgrade (ws : WebSocket) (sid sessionId routedUserDid : String)
  | connect (ws : WebSocket)
  | connectAnswered (ws : WebSocket)
      (outcome : RealtimeEndpoint.ConnectOutcome)
  | pong (ws : WebSocket)
  | eventFrame (ws : WebSocket)
  | mirroredFrame (ws : WebSocket)
  | result (ws : WebSocket) (claimed : Option String)
      (kind : FrontendCallKind) (id : String) (result : ReportedResult)
      (error : Option String)
  | gone (ws : WebSocket)
  | heartbeat (limit : ℕ)
  | call (call : OutgoingFrontendCall) (signal : Option ℕ)
  | abort (signal : ℕ)
  | timer (id : String)
  | react (id : String)
deriving DecidableEq, Repr

namespace RealtimeEndpoint

variable (limits : FrontendLimits) (throws : ℕ → Bool)

/-- One event at a time of the clock.  An id of a call, of a socket and a sid
are new. -/
def step (s : RealtimeEndpoint) (at' : ℕ × RealtimeEvent) :
    Option RealtimeEndpoint :=
  let now := at'.1
  match at'.2 with
  | .upgrade ws sid sessionId routedUserDid =>
      if ws ∈ s.opened.map Prod.fst ∨ sid ∈ s.opened.map Prod.snd then none
      else
        some { s with
          sockets := s.sockets ++ [⟨ws, sid, sessionId, routedUserDid, none,
            now, now, none, none⟩]
          opened := s.opened ++ [(ws, sid)] }
  | .connect ws => some (s.connectFrame limits throws now ws)
  | .connectAnswered ws outcome =>
      if ws ∈ s.authenticating then
        some (s.connectAnswered limits throws now ws outcome)
      else none
  | .pong ws =>
      some (s.update ws fun attachment =>
        { attachment with lastPongAt := now })
  | .eventFrame ws => some (s.eventFrame limits throws now ws)
  | .mirroredFrame ws => some (s.trySend limits throws now ws).2
  | .result ws claimed kind id result error =>
      some (s.resultFrame limits throws now ws claimed kind id result error)
  | .gone ws =>
      some { s.dropSocket limits now ws with
        authenticating := s.authenticating.filter fun socket =>
          !decide (socket = ws) }
  | .heartbeat limit =>
      some (RealtimeEndpoint.heartbeat limits throws now limit s.sockets s)
  | .call outgoing signal =>
      if outgoing.toolCallId ∈ s.called then none
      else some (s.call limits throws now outgoing signal)
  | .abort signal =>
      if signal ∈ s.aborted then none else some (s.abort limits now signal)
  | .timer id => some (s.timer limits now id)
  | .react id =>
      match s.watched.find? fun call => decide (call.toolCallId = id),
          s.settled.find? fun entry => decide (entry.1 = id) with
      | some call, some (_, outcome) => some (s.react call outcome)
      | _, _ => none

end RealtimeEndpoint

end QiForge
