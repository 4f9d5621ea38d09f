import QiForge.Utf8Stream
import QiForge.JsonText

/-!
# The frames of a run on the wire

`formatSSE` writes a frame, `parseSSEStream` reads the body of a response:
chunks of bytes, then the end of the body or a failed read.  A frame's data is
the text of a JSON object.
-/

namespace QiForge

inductive SseEventType where
  | message
  | toolCall
  | actionCall
  | error
  | done
  | run
  | routerUpdate
  | renderComponent
  | browserToolCall
  | messageCacheInvalidation
  | reasoning
deriving DecidableEq, Repr

namespace SseEventType

def name : SseEventType → String
  | .message => "message"
  | .toolCall => "tool_call"
  | .actionCall => "action_call"
  | .error => "error"
  | .done => "done"
  | .run => "run"
  | .routerUpdate => "router.update"
  | .renderComponent => "render_component"
  | .browserToolCall => "browser_tool_call"
  | .messageCacheInvalidation => "message_cache_invalidation"
  | .reasoning => "reasoning"

def all : List SseEventType :=
  [.message, .toolCall, .actionCall, .error, .done, .run, .routerUpdate,
    .renderComponent, .browserToolCall, .messageCacheInvalidation,
    .reasoning]

end SseEventType

/-- `isValidSSEEventType`, with the type found. -/
def sseEventType? (eventType : List Char) : Option SseEventType :=
  SseEventType.all.find? fun known => decide (known.name.toList = eventType)

structure SSEEvent where
  event : SseEventType
  data : Json
  id : Option ℕ

/-- The fields of the frame being read. -/
structure SseFields where
  event : List Char
  data : List (List Char)
  id : Option ℕ

namespace SseFields

def empty : SseFields := ⟨[], [], none⟩

def dispatch (f : SseFields) : Option SSEEvent :=
  let payload := List.intercalate ['\n'] f.data
  if f.event = [] ∨ payload = [] then none
  else
    (sseEventType? f.event).bind fun event =>
      (Json.parse payload).map fun data => ⟨event, data, f.id⟩

end SseFields

/-- The white space `trim` removes. -/
def isJsSpace (c : Char) : Bool :=
  (0x09 ≤ c.toNat && c.toNat ≤ 0x0D) || c.toNat = 0x20 || c.toNat = 0xA0 ||
    c.toNat = 0x1680 || (0x2000 ≤ c.toNat && c.toNat ≤ 0x200A) ||
    c.toNat = 0x2028 || c.toNat = 0x2029 || c.toNat = 0x202F ||
    c.toNat = 0x205F || c.toNat = 0x3000 || c.toNat = 0xFEFF

def trim (s : List Char) : List Char :=
  ((s.dropWhile isJsSpace).reverse.dropWhile isJsSpace).reverse

/-- `Number` of the decimal numerals frame ids are; other spellings of a
number are not ids of any frame. -/
def idNumber (s : List Char) : Option ℕ :=
  if s.all Char.isDigit then some (Json.natOf s) else none

def eventField : List Char := ['e', 'v', 'e', 'n', 't', ':']

def dataField : List Char := ['d', 'a', 't', 'a', ':']

def idField : List Char := ['i', 'd', ':']

def stripPrefix (word line : List Char) : Option (List Char) :=
  if word.isPrefixOf line then some (line.drop word.length) else none

/-- One line of the stream, and the frame it completes. -/
def SseFields.onLine (f : SseFields) (rawLine : List Char) :
    SseFields × Option SSEEvent :=
  let line :=
    if rawLine.getLast? = some '\r' then rawLine.dropLast else rawLine
  if line = [] then (.empty, f.dispatch)
  else if line.head? = some ':' then (f, none)
  else
    match stripPrefix eventField line with
    | some rest => ({ f with event := trim rest }, none)
    | none =>
        match stripPrefix dataField line with
        | some rest =>
            let value := if rest.head? = some ' ' then rest.tail else rest
            ({ f with data := f.data ++ [value] }, none)
        | none =>
            match stripPrefix idField line with
            | some rest =>
                match idNumber (trim rest) with
                | some n => ({ f with id := some n }, none)
                | none => (f, none)
            | none => (f, none)

/-- The complete lines of the buffer, and what is left of it. -/
def splitLines : List Char → List (List Char) × List Char
  | [] => ([], [])
  | c :: s =>
      if c = '\n' then ([] :: (splitLines s).1, (splitLines s).2)
      else
        match splitLines s with
        | ([], rest) => ([], c :: rest)
        | (line :: lines, rest) => ((c :: line) :: lines, rest)

structure SseReader where
  decoder : Utf8Decoder
  buffer : List Char
  fields : SseFields

namespace SseReader

def start : SseReader := ⟨.start, [], .empty⟩

def onLines (f : SseFields) : List (List Char) → SseFields × List SSEEvent
  | [] => (f, [])
  | line :: lines =>
      let (next, event) := f.onLine line
      let (last, events) := onLines next lines
      (last, event.toList ++ events)

def readText (r : SseReader) (text : List Char) : SseReader × List SSEEvent :=
  let (lines, buffer) := splitLines (r.buffer ++ text)
  let (fields, events) := onLines r.fields lines
  ({ r with buffer := buffer, fields := fields }, events)

/-- A chunk that has arrived. -/
def readChunk (r : SseReader) (chunk : List ℕ) : SseReader × List SSEEvent :=
  let (decoder, text) := r.decoder.feed chunk
  { r with decoder := decoder }.readText text

/-- The end of the body: the last frame is closed. -/
def readEnd (r : SseReader) : List SSEEvent :=
  (r.readText (r.decoder.flush ++ ['\n', '\n'])).2

def readChunks (r : SseReader) : List (List ℕ) → SseReader × List SSEEvent
  | [] => (r, [])
  | chunk :: chunks =>
      let (next, events) := r.readChunk chunk
      let (last, more) := readChunks next chunks
      (last, events ++ more)

end SseReader

/-- A response body: what arrived, and whether it was ended or a read
failed. -/
structure SseBody where
  chunks : List (List ℕ)
  ended : Bool

/-- The events the stream yields before it is over. -/
def parseSSEStream (body : SseBody) : List SSEEvent :=
  let (reader, events) := SseReader.start.readChunks body.chunks
  if body.ended then events ++ reader.readEnd else events

/-- A frame as the runtime writes it. -/
structure RunFrame where
  event : List Char
  id : ℕ
  payload : List Char
  fields : List (JsString × Json)
  event_plain : ∀ c ∈ event, isJsSpace c = false
  payload_line : ∀ c ∈ payload, c ≠ '\n' ∧ c ≠ '\r'
  payload_parses : Json.parse payload = some (.obj fields)

/-- A decimal numeral. -/
def numeral (n : ℕ) : List Char := Nat.toDigits 10 n

def RunFrame.formatSSE (frame : RunFrame) : List Char :=
  eventField ++ ' ' :: frame.event ++ ['\n'] ++
    (if 0 < frame.id then idField ++ ' ' :: numeral frame.id ++ ['\n']
    else []) ++
    dataField ++ ' ' :: frame.payload ++ ['\n', '\n']

def heartbeat : List Char :=
  [':', ' ', 'h', 'e', 'a', 'r', 't', 'b', 'e', 'a', 't', '\n', '\n']

/-- What the runtime writes to a subscriber. -/
inductive SseWrite where
  | frame (f : RunFrame)
  | heartbeat

def SseWrite.text : SseWrite → List Char
  | .frame f => f.formatSSE
  | .heartbeat => QiForge.heartbeat

def RunFrame.toEvent? (frame : RunFrame) : Option SSEEvent :=
  (sseEventType? frame.event).map fun event =>
    ⟨event, .obj frame.fields, if 0 < frame.id then some frame.id else none⟩

def SseWrite.toEvent? : SseWrite → Option SSEEvent
  | .frame f => f.toEvent?
  | .heartbeat => none

end QiForge
