import QiForge.Transcript
import QiForge.OrderedMap
import QiForge.RangeLog
import QiForge.Transition

/-!
# The session history indexer

One session: its transcript and stored count, the passes that read the tail
page by page and upload it in chunks, and what the indexer remembers of the
session between passes.  Every awaited call may fail; cursors and backoffs may
be forgotten.
-/

namespace QiForge

structure HistoryMessage where
  type : String
  content : String
  notConversation : Bool
deriving DecidableEq, Repr

structure SpeakerLabels where
  user : String
  oracle : String
deriving DecidableEq, Repr

structure MemoryEngineMessage where
  content : String
  roleType : String
  role : String
  sourceDescription : String
deriving DecidableEq, Repr

/-- The message is sent: the engine rejects empty episodes, and has no tool
role. -/
def HistoryMessage.hasMemoryForm (m : HistoryMessage) : Bool :=
  m.type != "tool" && !m.notConversation && !isBlank m.content

def HistoryMessage.memoryForm (title : String) (labels : SpeakerLabels)
    (m : HistoryMessage) : MemoryEngineMessage :=
  let (roleType, label) :=
    match m.type with
    | "human" => ("user", labels.user)
    | "ai" => ("assistant", labels.oracle)
    | "system" => ("system", "System")
    | _ => ("user", labels.user)
  { content := m.content
    roleType := roleType
    role := label
    sourceDescription := "Chat Session: " ++ title }

def transformMessages (messages : List HistoryMessage) (title : String)
    (labels : SpeakerLabels) : List MemoryEngineMessage :=
  (messages.filter HistoryMessage.hasMemoryForm).map
    (HistoryMessage.memoryForm title labels)

/-- A message and the cursor after it. -/
structure HistoryEntry where
  message : HistoryMessage
  cursor : ℕ
deriving DecidableEq, Repr

structure HistoryPage where
  entries : List HistoryEntry
  more : Bool
deriving DecidableEq, Repr

/-- Up to `limit` entries of the transcript from a position on. -/
def entriesFrom (transcript : List HistoryMessage) : ℕ → ℕ → List HistoryEntry
  | _, 0 => []
  | position, limit + 1 =>
      match transcript[position]? with
      | none => []
      | some message =>
          ⟨message, position + 1⟩ ::
            entriesFrom transcript (position + 1) limit

structure IndexerConfig where
  enabled : Bool
  chunkMaxMessages : ℕ
  chunkMaxBytes : ℕ
  maxRetries : ℕ
  backoffInitialMs : ℕ
  backoffMaxMs : ℕ
deriving DecidableEq, Repr

/-- `tailReader`, with the chunk it is collecting. -/
structure TailReader where
  cursor : Option ℕ
  skip : ℕ
  consumed : ℕ
  exhausted : Bool
  chunk : List HistoryEntry
  bytes : ℕ
deriving DecidableEq, Repr

namespace TailReader

def start (known : Option (ℕ × ℕ)) (watermark : ℕ) : TailReader :=
  let cursor := (known.filter fun k => k.1 == watermark).map Prod.snd
  { cursor := cursor
    skip := if cursor.isNone then watermark else 0
    consumed := watermark
    exhausted := false
    chunk := []
    bytes := 0 }

/-- The chunk is handed out. -/
def handOut (r : TailReader) : List HistoryEntry × TailReader := (r.chunk,
    { r with consumed := r.consumed + r.chunk.length, chunk := [], bytes := 0 })

/-- The entries of a page; a full chunk is handed out before the entry that
does not fit. -/
def takeEntries (cfg : IndexerConfig) (r : TailReader) :
    List HistoryEntry → Option (List HistoryEntry) × TailReader
  | [] => (none, r)
  | entry :: rest =>
      if 0 < r.skip then
        takeEntries cfg
          { r with skip := r.skip - 1, cursor := some entry.cursor } rest
      else if r.chunk ≠ [] ∧ (cfg.chunkMaxMessages ≤ r.chunk.length ∨
          cfg.chunkMaxBytes < r.bytes + entry.message.content.utf8ByteSize) then
        (some r.handOut.1, r.handOut.2)
      else
        takeEntries cfg { r with
            chunk := r.chunk ++ [entry]
            bytes := r.bytes + entry.message.content.utf8ByteSize
            cursor := some entry.cursor } rest

/-- An answer of `readMessages`: the chunk is ready, or one more page is
read.  A lost cursor starts the scan over. -/
def readPage (cfg : IndexerConfig) (r : TailReader) :
    Option HistoryPage → Option (List HistoryEntry) × TailReader
  | none =>
      if r.cursor.isNone then
        (some r.handOut.1, { r.handOut.2 with exhausted := true })
      else
        (none,
          { r with cursor := none, skip := r.consumed, chunk := [], bytes := 0 })
  | some page =>
      match takeEntries cfg r page.entries with
      | (some chunk, r) => (some chunk, r)
      | (none, r) =>
          if !page.more || page.entries.isEmpty then
            (some r.handOut.1, { r.handOut.2 with exhausted := true })
          else (none, r)

end TailReader

/-- What a pass has of its session, and how far it got. -/
structure IndexWork where
  title : String
  labels : Option SpeakerLabels
  memoryDid : Bool
  reader : TailReader
  count : ℕ
  uploaded : Bool

/-- What a pass awaits. -/
inductive IndexPhase where
  | session
  | room (title : String) (watermark : ℕ)
  | reading (work : IndexWork)
  | serviceDid (work : IndexWork) (chunk : List HistoryEntry)
  | labels (work : IndexWork) (chunk : List HistoryEntry)
  | minting (work : IndexWork) (labels : SpeakerLabels)
      (chunk : List HistoryEntry)
  | uploading (work : IndexWork) (labels : SpeakerLabels)
      (chunk : List HistoryEntry)
  | writing (work : IndexWork) (chunk : List HistoryEntry)
  | sleeping

structure IndexPass where
  attempt : ℕ
  phase : IndexPhase

/-- What the awaited call answers. -/
inductive IndexAnswer where
  | failed
  | session (row : Option (String × Bool))
  | room (found : Bool)
  | page (limit : ℕ) (more : Bool)
  | lost
  | serviceDid (found : Bool)
  | labels (labels : SpeakerLabels)
  | minted
  | response (ok : Bool)
  | written
  | awake
deriving DecidableEq, Repr

inductive IndexOutcome where
  | processed
  | skipped
  | failed
deriving DecidableEq, Repr

/-- A range of the transcript worked on: its messages, what was sent of them,
and the engine's answer where something was. -/
structure ChunkMark where
  messages : List HistoryMessage
  body : List MemoryEngineMessage
  accepted : Option Bool

/-- What happened to the requests for passes: joined to a running one,
refused by the backoff, or followed by a read of the session. -/
inductive IndexerNote where
  | asked
  | refused
  | reads
deriving DecidableEq, Repr

structure IndexerState where
  transcript : List HistoryMessage
  stored : ℕ
  signingKey : Bool
  passes : OrderedMap ℕ IndexPass
  nextPass : ℕ
  inFlight : Option ℕ
  rerun : Option Bool
  cursor : Option (ℕ × ℕ)
  backoff : Option (ℕ × ℕ)
  quiet : Bool
  log : List (RangeEntry ChunkMark)
  notes : List IndexerNote

inductive IndexerEvent where
  | append (messages : List HistoryMessage)
  | signingKey (available : Bool)
  | process (now : ℕ) (ignoreBackoff : Bool)
  | afterQuiet (now : ℕ) (delayed : Bool)
  | quietOver (now : ℕ)
  | advance (n now : ℕ) (answer : IndexAnswer)
  | forgetCursor
  | forgetBackoff

namespace IndexerState

def init (transcript : List HistoryMessage) : IndexerState where
  transcript := transcript
  stored := 0
  signingKey := false
  passes := OrderedMap.empty
  nextPass := 0
  inFlight := none
  rerun := none
  cursor := none
  backoff := none
  quiet := false
  log := []
  notes := []

/-- `process`. -/
def process (cfg : IndexerConfig) (now : ℕ) (ignoreBackoff : Bool)
    (s : IndexerState) : IndexerState :=
  if !cfg.enabled then s
  else if s.inFlight.isSome then
    { s with
      rerun := some (s.rerun.any id || ignoreBackoff)
      notes := .asked :: s.notes }
  else if !ignoreBackoff && s.backoff.any fun b => decide (now < b.1) then
    { s with notes := .refused :: s.notes }
  else
    { s with
      quiet := false
      passes := s.passes.push s.nextPass ⟨1, .session⟩
      nextPass := s.nextPass + 1
      inFlight := some s.nextPass
      notes := .reads :: s.notes }

/-- The end of a pass: the session is free, and asked for again if a call
came while it ran. -/
def endPass (cfg : IndexerConfig) (now n : ℕ) (s : IndexerState) :
    IndexerState :=
  let s := { s with passes := s.passes.delete n, inFlight := none }
  match s.rerun with
  | none => s
  | some ignoreBackoff =>
      process cfg now ignoreBackoff { s with rerun := none }

/-- `attempts` answers an outcome. -/
def finish (cfg : IndexerConfig) (now n : ℕ) (outcome : IndexOutcome)
    (s : IndexerState) : IndexerState :=
  match outcome with
  | .processed => endPass cfg now n { s with backoff := none }
  | .skipped => endPass cfg now n s
  | .failed =>
      let delayMs :=
        match s.backoff with
        | some previous => min (previous.2 * 2) cfg.backoffMaxMs
        | none => cfg.backoffInitialMs
      endPass cfg now n { s with backoff := some (now + delayMs, delayMs) }

def toPhase (n : ℕ) (p : IndexPass) (phase : IndexPhase) (s : IndexerState) :
    IndexerState :=
  { s with passes := s.passes.set n { p with phase := phase } }

/-- The attempt threw. -/
def throwAttempt (cfg : IndexerConfig) (now n : ℕ) (p : IndexPass)
    (s : IndexerState) : IndexerState :=
  if p.attempt < cfg.maxRetries then s.toPhase n p .sleeping
  else s.finish cfg now n .failed

/-- The range of a chunk enters the log. -/
def note (chunk : List HistoryEntry) (count : ℕ)
    (body : List MemoryEngineMessage) (accepted : Option Bool)
    (s : IndexerState) : IndexerState :=
  { s with
    log :=
      { start := count
        stop := count + chunk.length
        recorded := false
        mark :=
          { messages := chunk.map HistoryEntry.message
            body := body
            accepted := accepted } } :: s.log }

/-- No invocation for a chunk: the pass is skipped, unless it has uploaded. -/
def unminted (cfg : IndexerConfig) (now n : ℕ) (p : IndexPass) (work : IndexWork)
    (s : IndexerState) : IndexerState :=
  if work.uploaded then s.throwAttempt cfg now n p
  else s.finish cfg now n .skipped

/-- The head of the upload loop. -/
def takeChunk (cfg : IndexerConfig) (now n : ℕ) (p : IndexPass) (work : IndexWork)
    (labels : SpeakerLabels) (chunk : List HistoryEntry) (s : IndexerState) :
    IndexerState :=
  if chunk = [] then s.finish cfg now n .processed
  else
    let messages := chunk.map HistoryEntry.message
    if transformMessages messages work.title labels = [] then
      (s.note chunk work.count [] none).toPhase n p (.writing work chunk)
    else if work.memoryDid then s.toPhase n p (.minting work labels chunk)
    else s.unminted cfg now n p work

/-- A chunk was handed out: the first is checked for the prerequisites. -/
def gotChunk (cfg : IndexerConfig) (now n : ℕ) (p : IndexPass) (work : IndexWork)
    (chunk : List HistoryEntry) (s : IndexerState) : IndexerState :=
  match work.labels with
  | some labels => s.takeChunk cfg now n p work labels chunk
  | none =>
      if chunk = [] then s.finish cfg now n .skipped
      else if !s.signingKey then s.finish cfg now n .skipped
      else s.toPhase n p (.serviceDid work chunk)

/-- `tail.next`, where no page is needed any more. -/
def nextChunk (cfg : IndexerConfig) (now n : ℕ) (p : IndexPass) (work : IndexWork)
    (s : IndexerState) : IndexerState :=
  if work.reader.exhausted then s.gotChunk cfg now n p work []
  else s.toPhase n p (.reading work)

def startReading (n : ℕ) (p : IndexPass) (title : String) (watermark : ℕ)
    (s : IndexerState) : IndexerState :=
  s.toPhase n p (.reading
    { title := title
      labels := none
      memoryDid := false
      reader := TailReader.start s.cursor watermark
      count := watermark
      uploaded := false })

/-- A page, or the loss of the cursor. -/
def gotPage (cfg : IndexerConfig) (now n : ℕ) (p : IndexPass) (work : IndexWork)
    (page : Option HistoryPage) (s : IndexerState) : IndexerState :=
  let s :=
    if page.isNone && work.reader.cursor.isSome then { s with cursor := none }
    else s
  match work.reader.readPage cfg page with
  | (none, reader) => s.toPhase n p (.reading { work with reader := reader })
  | (some chunk, reader) =>
      s.gotChunk cfg now n p { work with reader := reader } chunk

/-- The count write of a chunk landed. -/
def wrote (cfg : IndexerConfig) (now n : ℕ) (p : IndexPass) (work : IndexWork)
    (chunk : List HistoryEntry) (s : IndexerState) : IndexerState :=
  let count := work.count + chunk.length
  let s := { s with
      stored := count
      log :=
        match s.log with
        | [] => []
        | e :: log => { e with recorded := true } :: log
      cursor := chunk.getLast?.map fun entry : HistoryEntry =>
        (count, entry.cursor) }
  s.nextChunk cfg now n p { work with count := count }

/-- The engine's answer to an upload. -/
def responded (cfg : IndexerConfig) (now n : ℕ) (p : IndexPass) (work : IndexWork)
    (labels : SpeakerLabels) (chunk : List HistoryEntry) (ok : Bool)
    (s : IndexerState) : IndexerState :=
  let body :=
    transformMessages (chunk.map HistoryEntry.message) work.title labels
  let s := s.note chunk work.count body (some ok)
  if ok then s.toPhase n p (.writing { work with uploaded := true } chunk)
  else s.throwAttempt cfg now n p

/-- The answer of the call a pass awaits; a failed resolution and a failed
mint are caught, any other failure is thrown. -/
def advance (cfg : IndexerConfig) (now n : ℕ) (p : IndexPass)
    (s : IndexerState) (answer : IndexAnswer) : Option IndexerState :=
  match p.phase with
  | .session =>
      match answer with
      | .session none => some (s.finish cfg now n .skipped)
      | .session (some (title, hasRoom)) =>
          some (if hasRoom then s.startReading n p title s.stored
            else s.toPhase n p (.room title s.stored))
      | .failed => some (s.throwAttempt cfg now n p)
      | _ => none
  | .room title watermark =>
      match answer with
      | .room found =>
          some (if found then s.startReading n p title watermark
            else s.finish cfg now n .skipped)
      | .failed => some (s.throwAttempt cfg now n p)
      | _ => none
  | .reading work =>
      match answer with
      | .page limit more =>
          some (s.gotPage cfg now n p work
            (some ⟨entriesFrom s.transcript (work.reader.cursor.getD 0) limit,
              more⟩))
      | .lost => some (s.gotPage cfg now n p work none)
      | .failed => some (s.throwAttempt cfg now n p)
      | _ => none
  | .serviceDid work chunk =>
      match answer with
      | .serviceDid found =>
          some (s.toPhase n p (.labels { work with memoryDid := found } chunk))
      | .failed =>
          some (s.toPhase n p (.labels { work with memoryDid := false } chunk))
      | _ => none
  | .labels work chunk =>
      match answer with
      | .labels labels =>
          some (s.takeChunk cfg now n p { work with labels := some labels }
            labels chunk)
      | .failed => some (s.throwAttempt cfg now n p)
      | _ => none
  | .minting work labels chunk =>
      match answer with
      | .minted => some (s.toPhase n p (.uploading work labels chunk))
      | .failed => some (s.unminted cfg now n p work)
      | _ => none
  | .uploading work labels chunk =>
      match answer with
      | .response ok => some (s.responded cfg now n p work labels chunk ok)
      | .failed => some (s.responded cfg now n p work labels chunk false)
      | _ => none
  | .writing work chunk =>
      match answer with
      | .written => some (s.wrote cfg now n p work chunk)
      | .failed => some (s.throwAttempt cfg now n p)
      | _ => none
  | .sleeping =>
      match answer with
      | .awake =>
          some { s with
              passes := s.passes.set n ⟨p.attempt + 1, .session⟩
              notes := .reads :: s.notes }
      | _ => none

def step (cfg : IndexerConfig) (s : IndexerState) :
    IndexerEvent → Option IndexerState
  | .append messages =>
      some { s with transcript := s.transcript ++ messages }
  | .signingKey available => some { s with signingKey := available }
  | .process now ignoreBackoff => some (s.process cfg now ignoreBackoff)
  | .afterQuiet now delayed =>
      some (if !delayed || !cfg.enabled then s.process cfg now false
        else { s with quiet := true })
  | .quietOver now =>
      if s.quiet then some (process cfg now false { s with quiet := false })
      else none
  | .advance n now answer =>
      (s.passes.get? n).bind fun p => s.advance cfg now n p answer
  | .forgetCursor => some { s with cursor := none }
  | .forgetBackoff => some { s with backoff := none }

end IndexerState

end QiForge
