import Mathlib.Tactic

/-!
# Group memory

What a group room says is captured into a buffer, whether or not the bot
answers.  A compaction turns the oldest buffered messages of a room into one
chunk: it reads them, waits for their summary, and then stores the chunk and
takes them out of the buffer.  A reset loses what is in memory, and with it
the compactions that wait.
-/

namespace QiForge

structure ObservedMessage where
  eventId : String
  threadId : String
  senderDid : String
  senderMatrixUserId : String
  senderDisplayName : String
  body : String
  timestamp : ℤ
deriving DecidableEq, Repr

structure BufferRow where
  roomId : String
  message : ObservedMessage
deriving DecidableEq, Repr

structure ChannelMemoryChunk where
  id : String
  roomId : String
  summary : String
  fromEventId : String
  toEventId : String
  fromTimestamp : ℤ
  toTimestamp : ℤ
  messageCount : ℕ
  participants : List String
  threadIds : List String
  tier : ℕ
  createdAt : ℕ
deriving DecidableEq, Repr

/-- A stored chunk, and which events its summary was made of. -/
structure StoredChunk where
  chunk : ChannelMemoryChunk
  events : List String
deriving DecidableEq, Repr

inductive CompactPhase where
  | summarizing (drained : List ObservedMessage)
  | settled
deriving DecidableEq, Repr

structure CompactRun where
  roomId : String
  phase : CompactPhase
deriving DecidableEq, Repr

structure CompactBackoff where
  untilMs : ℕ
  delayMs : ℕ
deriving DecidableEq, Repr

inductive SummaryOutcome where
  | text (summary : String)
  | nothing
  | threw
deriving DecidableEq, Repr

def compactBufferThreshold : ℕ := 20

def compactJitMin : ℕ := 5

/-- The oldest messages one summary covers at most. -/
def compactBatchMax : ℕ := 50

def compactRetryMinMs : ℕ := 60000

def compactRetryMaxMs : ℕ := 30 * 60000

/-- The tables and the maps of the object.  `running` are the compactions that
have not ended, and `observed` is every event that was captured. -/
structure GroupMemory where
  buffer : List BufferRow
  chunks : List StoredChunk
  compacting : String → Bool
  compactBackoff : String → Option CompactBackoff
  running : List CompactRun
  observed : List (String × String)

inductive GroupEvent where
  | observe (roomId : String) (message : ObservedMessage) (now : ℕ)
  | compactJustInTime (roomId : String) (now : ℕ)
  | summarized (run : ℕ) (outcome : SummaryOutcome) (now : ℕ)
      (newId : String)
  | ends (run : ℕ)
  | reset
deriving DecidableEq, Repr

namespace GroupMemory

def empty : GroupMemory where
  buffer := []
  chunks := []
  compacting := fun _ => false
  compactBackoff := fun _ => none
  running := []
  observed := []

def isBuffered (s : GroupMemory) (eventId : String) : Bool :=
  s.buffer.any fun row => decide (row.message.eventId = eventId)

/-- A duplicate of a buffered event is ignored. -/
def bufferAppend (s : GroupMemory) (roomId : String)
    (message : ObservedMessage) : GroupMemory :=
  if s.isBuffered message.eventId then s
  else { s with buffer := s.buffer ++ [⟨roomId, message⟩] }

def bufferCount (s : GroupMemory) (roomId : String) : ℕ :=
  s.buffer.countP fun row => decide (row.roomId = roomId)

/-- The room's buffered messages, oldest first. -/
def bufferRows (s : GroupMemory) (roomId : String) : List ObservedMessage :=
  (((s.buffer.filter fun row => decide (row.roomId = roomId)).insertionSort
    fun a b => a.message.timestamp ≤ b.message.timestamp).take
      compactBatchMax).map BufferRow.message

def bufferDelete (s : GroupMemory) (eventIds : List String) : GroupMemory :=
  { s with
    buffer := s.buffer.filter fun row =>
      !decide (row.message.eventId ∈ eventIds) }

def compactDue (s : GroupMemory) (roomId : String) (now : ℕ) : Bool :=
  match s.compactBackoff roomId with
  | none => true
  | some backoff => decide (backoff.untilMs ≤ now)

def noteCompactFailure (s : GroupMemory) (roomId : String) (now : ℕ) :
    GroupMemory :=
  let delayMs := match s.compactBackoff roomId with
    | some previous => min (previous.delayMs * 2) compactRetryMaxMs
    | none => compactRetryMinMs
  { s with
    compactBackoff := Function.update s.compactBackoff roomId
      (some ⟨now + delayMs, delayMs⟩) }

/-- One compaction of a room at a time.  With nothing to drain it is over at
once. -/
def compact (s : GroupMemory) (roomId : String) : GroupMemory :=
  if s.compacting roomId then s
  else
    let drained := s.bufferRows roomId
    let phase := if drained = [] then CompactPhase.settled
      else .summarizing drained
    { s with
      compacting := Function.update s.compacting roomId true
      running := s.running ++ [⟨roomId, phase⟩] }

/-- What a gate call in a group room captures. -/
def observe (s : GroupMemory) (roomId : String) (message : ObservedMessage)
    (now : ℕ) : GroupMemory :=
  let event := (roomId, message.eventId)
  let seen := { s with
    observed := if event ∈ s.observed then s.observed
      else s.observed ++ [event] }
  if s.isBuffered message.eventId then seen
  else
    let s := seen.bufferAppend roomId message
    if s.compactDue roomId now ∧
        compactBufferThreshold ≤ s.bufferCount roomId then
      s.compact roomId
    else s

def compactJustInTime (s : GroupMemory) (roomId : String) (now : ℕ) :
    GroupMemory :=
  if s.compactDue roomId now = false then s
  else if s.bufferCount roomId < compactJitMin then s
  else s.compact roomId

/-- A compaction has its summary; without one its messages stay buffered. -/
def settle (s : GroupMemory) (roomId : String)
    (drained : List ObservedMessage) (outcome : SummaryOutcome) (now : ℕ)
    (newId : String) : GroupMemory :=
  match outcome, drained.head?, drained.getLast? with
  | .text summary, some first, some last =>
      if summary = "" then s.noteCompactFailure roomId now
      else
        let chunk : ChannelMemoryChunk :=
          { id := newId
            roomId := roomId
            summary := summary
            fromEventId := first.eventId
            toEventId := last.eventId
            fromTimestamp := first.timestamp
            toTimestamp := last.timestamp
            messageCount := drained.length
            participants := (drained.map ObservedMessage.senderDid).eraseDups
            threadIds := (drained.map ObservedMessage.threadId).eraseDups
            tier := 1
            createdAt := now }
        let events := drained.map ObservedMessage.eventId
        let stored : GroupMemory := { s with
          compactBackoff := Function.update s.compactBackoff roomId none
          chunks := s.chunks ++ [⟨chunk, events⟩] }
        stored.bufferDelete events
  | _, _, _ => s.noteCompactFailure roomId now

def summarized (s : GroupMemory) (run : ℕ) (outcome : SummaryOutcome)
    (now : ℕ) (newId : String) : Option GroupMemory :=
  match s.running[run]? with
  | some ⟨roomId, .summarizing drained⟩ =>
      let s := s.settle roomId drained outcome now newId
      some { s with running := s.running.set run ⟨roomId, .settled⟩ }
  | some ⟨_, .settled⟩ | none => none

/-- The compaction's promise has settled. -/
def ends (s : GroupMemory) (run : ℕ) : Option GroupMemory :=
  match s.running[run]? with
  | some ⟨roomId, .settled⟩ =>
      some { s with
        compacting := Function.update s.compacting roomId false
        running := s.running.eraseIdx run }
  | some ⟨_, .summarizing _⟩ | none => none

def reset (s : GroupMemory) : GroupMemory := { s with
    compacting := fun _ => false
    compactBackoff := fun _ => none
    running := [] }

def step (s : GroupMemory) : GroupEvent → Option GroupMemory
  | .observe roomId message now => some (s.observe roomId message now)
  | .compactJustInTime roomId now => some (s.compactJustInTime roomId now)
  | .summarized run outcome now newId => s.summarized run outcome now newId
  | .ends run => s.ends run
  | .reset => some s.reset

end GroupMemory

end QiForge
