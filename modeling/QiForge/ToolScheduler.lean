import QiForge.Transition

/-!
# The tool scheduler

Bounded tool concurrency for one user object.  A call of `run` takes its lane
and tries to acquire a slot before its first wait; afterwards it is one of the
phases below, and each event is the code between two waits.  The abort event
of a signal runs its listeners at once.  Calls are numbered in the order they
arrive.
-/

namespace QiForge

inductive ToolLane where
  | read
  | write
  | frontend
  | subagent
deriving DecidableEq, Repr

namespace ToolLane

def name : ToolLane → String
  | .read => "read"
  | .write => "write"
  | .frontend => "frontend"
  | .subagent => "subagent"

def isSessionLane : ToolLane → Bool
  | .frontend | .subagent => true
  | .read | .write => false

end ToolLane

def sessionLaneKey (lane : ToolLane) (sessionId : String) : String :=
  lane.name ++ ":" ++ sessionId

inductive CallPhase where
  | queued
  | granted
  | running
  | rejected
  | settled
  | thrown
deriving DecidableEq, Repr

/-- `waiting` holds the calls waiting for a slot. -/
structure Lane where
  capacity : ℕ
  active : ℕ
  waiting : List ℕ
deriving DecidableEq, Repr

namespace Lane

def empty (capacity : ℕ) : Lane := ⟨capacity, 0, []⟩

/-- `acquire` of the call, and what its promise is. -/
def acquire (lane : Lane) (aborted : Bool) (call : ℕ) : Lane × CallPhase :=
  if aborted then (lane, .rejected)
  else if lane.active < lane.capacity then
    ({ lane with active := lane.active + 1 }, .granted)
  else ({ lane with waiting := lane.waiting ++ [call] }, .queued)

/-- `release`, and the call whose promise it resolves. -/
def release (lane : Lane) : Lane × Option ℕ :=
  match lane.waiting with
  | [] => ({ lane with active := lane.active - 1 }, none)
  | next :: rest => ({ lane with waiting := rest }, some next)

def idle (lane : Lane) : Bool := lane.active == 0 && lane.waiting.isEmpty

end Lane

/-- A lane object: the `created`-th one made for a session's key. -/
inductive LaneRef where
  | read
  | write
  | session (key : String) (created : ℕ)
deriving DecidableEq, Repr

structure ToolCall where
  lane : ToolLane
  sessionId : Option String
  signal : Option ℕ
  slot : LaneRef
  phase : CallPhase
deriving DecidableEq, Repr

def laneKey (lane : ToolLane) (sessionId : Option String) : Option String :=
  if lane.isSessionLane then sessionId.map (sessionLaneKey lane) else none

def ToolCall.key (call : ToolCall) : Option String :=
  laneKey call.lane call.sessionId

def ToolCall.listens (signal : ℕ) (call : ToolCall) : Bool :=
  decide (call.signal = some signal)

/-- What the abort event of the signal does to a call. -/
def ToolCall.onAbort (signal : ℕ) (call : ToolCall) : ToolCall :=
  if call.phase = .queued && call.listens signal then
    { call with phase := .rejected }
  else call

structure ToolScheduler where
  maxReads : ℕ
  maxSubagents : ℕ
  lanes : LaneRef → Lane
  created : ℕ
  sessionLanes : String → Option ℕ
  aborted : ℕ → Bool
  calls : List ToolCall

inductive SchedulerEvent where
  | run (lane : ToolLane) (sessionId : Option String) (signal : Option ℕ)
  | start (call : ℕ)
  | settle (call : ℕ)
  | abort (signal : ℕ)
  | leave (call : ℕ)
deriving DecidableEq, Repr

namespace ToolScheduler

def new (maxReads maxSubagents : ℕ) : ToolScheduler where
  maxReads := maxReads
  maxSubagents := maxSubagents
  lanes
    | .read => .empty maxReads
    | .write => .empty 1
    | .session _ _ => .empty 0
  created := 0
  sessionLanes := fun _ => none
  aborted := fun _ => false
  calls := []

def laneFor (s : ToolScheduler) (lane : ToolLane) (key : Option String) :
    LaneRef × ToolScheduler :=
  match key with
  | none => (if lane = .read then .read else .write, s)
  | some key =>
      match s.sessionLanes key with
      | some existing => (.session key existing, s)
      | none =>
          let slot := LaneRef.session key s.created
          let capacity := if lane = .frontend then 1 else s.maxSubagents
          (slot, { s with
            lanes := Function.update s.lanes slot (.empty capacity)
            created := s.created + 1
            sessionLanes :=
              Function.update s.sessionLanes key (some s.created) })

def dropIfIdle (s : ToolScheduler) (key : Option String) (slot : LaneRef) :
    ToolScheduler :=
  match key with
  | none => s
  | some key =>
      if (s.lanes slot).idle &&
          decide ((s.sessionLanes key).map (.session key) = some slot) then
        { s with sessionLanes := Function.update s.sessionLanes key none }
      else s

def setPhase (s : ToolScheduler) (call : ℕ) (phase : CallPhase) :
    ToolScheduler :=
  { s with
    calls := s.calls.modify call fun c => { c with phase := phase } }

/-- A call acquires a slot of the lane object. -/
def enter (s : ToolScheduler) (lane : ToolLane) (sessionId : Option String)
    (signal : Option ℕ) (slot : LaneRef) : ToolScheduler :=
  let (entered, phase) :=
    (s.lanes slot).acquire (signal.any s.aborted) s.calls.length
  { s with
    lanes := Function.update s.lanes slot entered
    calls := s.calls ++ [⟨lane, sessionId, signal, slot, phase⟩] }

/-- `run` up to its first wait; a per-session lane without a session
throws. -/
def run (s : ToolScheduler) (lane : ToolLane) (sessionId : Option String)
    (signal : Option ℕ) : ToolScheduler :=
  if lane.isSessionLane && sessionId.isNone then s
  else
    let (slot, s) := s.laneFor lane (laneKey lane sessionId)
    s.enter lane sessionId signal slot

def release (s : ToolScheduler) (slot : LaneRef) : ToolScheduler :=
  let (released, next) := (s.lanes slot).release
  let s := { s with lanes := Function.update s.lanes slot released }
  match next with
  | none => s
  | some next => s.setPhase next .granted

/-- The abort event of a signal: every waiter that listens to it leaves its
queue and rejects. -/
def abort (s : ToolScheduler) (signal : ℕ) : ToolScheduler :=
  if s.aborted signal then s
  else
    { s with
      aborted := Function.update s.aborted signal true
      lanes := fun slot =>
        { s.lanes slot with
          waiting := (s.lanes slot).waiting.filter fun call =>
            !(s.calls[call]?.any (ToolCall.listens signal)) }
      calls := s.calls.map (ToolCall.onAbort signal) }

def step (s : ToolScheduler) : SchedulerEvent → Option ToolScheduler
  | .run lane sessionId signal => some (s.run lane sessionId signal)
  | .start call =>
      s.calls[call]?.bind fun c =>
        if c.phase = .granted then some (s.setPhase call .running) else none
  | .settle call =>
      s.calls[call]?.bind fun c =>
        if c.phase = .running then
          some (((s.setPhase call .settled).release c.slot).dropIfIdle c.key
            c.slot)
        else none
  | .abort signal => some (s.abort signal)
  | .leave call =>
      s.calls[call]?.bind fun c =>
        if c.phase = .rejected then
          some ((s.setPhase call .thrown).dropIfIdle c.key c.slot)
        else none

end ToolScheduler
end QiForge
