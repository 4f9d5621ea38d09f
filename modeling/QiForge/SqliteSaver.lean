import QiForge.RowidTable
import QiForge.Transition

/-!
# The message rows of the checkpoint saver

One thread of the `SqliteSaver`: the `messages` table, the ids of the
checkpoints put so far and the blobs remembered for message objects.  A
message is an object with what a call finds behind it: its id, its
fingerprint and the bytes that serializing and compressing it gives at that
moment.  The columns a checkpoint is not read back from are left out, and so
is pruning, which keeps the newest checkpoint and every message row.
-/

namespace QiForge

abbrev Blob := List UInt8

/-- What `===` tells apart. -/
abbrev Ref := ℕ

abbrev CheckpointId := ℕ

structure MessageFingerprint where
  id : Option String
  type : String
  content : Ref
  toolCalls : Ref
  invalidToolCalls : Ref
  artifact : Ref
  responseMetadata : Ref
  usageMetadata : Ref
  name : Option String
  toolCallId : Option String
  status : Option String
  kwargs : String
deriving DecidableEq

structure MessageState where
  object : Ref
  id : String
  fingerprint : MessageFingerprint
  encoding : Blob

structure EncodedMessage where
  fingerprint : MessageFingerprint
  blob : Blob

structure EncodedMessageRow where
  messageId : String
  message : Blob
  unchanged : Bool

structure StoredMessage where
  checkpointId : CheckpointId
  message : Blob

abbrev MessageTable := RowidTable String StoredMessage

abbrev MessageRowid := NewRowid String StoredMessage

/-- A message object built from a row, and whether its blob is remembered:
the row holds bytes and no inline payload. -/
structure LoadedMessage where
  object : Ref
  fingerprint : MessageFingerprint
  remembered : Bool

def sameFingerprint (a b : MessageFingerprint) : Bool :=
  decide (a.id = b.id) && decide (a.type = b.type) &&
    decide (a.content = b.content) && decide (a.toolCalls = b.toolCalls) &&
    decide (a.invalidToolCalls = b.invalidToolCalls) &&
    decide (a.artifact = b.artifact) &&
    decide (a.responseMetadata = b.responseMetadata) &&
    decide (a.usageMetadata = b.usageMetadata) &&
    decide (a.name = b.name) && decide (a.toolCallId = b.toolCallId) &&
    decide (a.status = b.status) && decide (a.kwargs = b.kwargs)

/-- The blobs remembered for message objects. -/
abbrev EncodedMessages := Ref → Option EncodedMessage

/-- The blob the object is remembered with, when its fingerprint still
matches. -/
def EncodedMessages.matching (encoded : EncodedMessages)
    (m : MessageState) : Option Blob :=
  match encoded m.object with
  | none => none
  | some e =>
      if sameFingerprint e.fingerprint m.fingerprint then some e.blob
      else none

def encodeMessageRow (encoded : EncodedMessages) (m : MessageState) :
    EncodedMessageRow :=
  match encoded.matching m with
  | some blob => { messageId := m.id, message := blob, unchanged := true }
  | none => { messageId := m.id, message := m.encoding, unchanged := false }

/-- The messages of one call are all looked up before the first of them is
remembered. -/
def EncodedMessages.remember (encoded : EncodedMessages)
    (messages : List MessageState) : EncodedMessages :=
  messages.foldl (fun next m =>
    if (encoded.matching m).isSome then next
    else Function.update next m.object (some ⟨m.fingerprint, m.encoding⟩))
    encoded

def EncodedMessages.forget (encoded : EncodedMessages)
    (messages : List MessageState) : EncodedMessages :=
  messages.foldl (fun next m => Function.update next m.object none) encoded

structure RowWriter where
  table : MessageTable
  lastRowid : ℤ
  appending : Bool
  rekey : List String

def writeRow (new : MessageRowid) (existing : String → Option ℤ)
    (checkpointId : CheckpointId) (w : RowWriter) (r : EncodedMessageRow) :
    RowWriter :=
  let kept := (existing r.messageId).filter fun rowid =>
    !w.appending && decide (w.lastRowid < rowid)
  match kept with
  | some rowid =>
      if r.unchanged then
        { w with lastRowid := rowid, rekey := w.rekey ++ [r.messageId] }
      else
        { w with
          lastRowid := rowid
          table := w.table.upsert new r.messageId ⟨checkpointId, r.message⟩ }
  | none =>
      { w with
        appending := true
        table := w.table.replace new r.messageId ⟨checkpointId, r.message⟩ }

/-- The `UPDATE` that moves unchanged rows to the checkpoint. -/
def rekeyRows (table : MessageTable) (rekey : List String)
    (checkpointId : CheckpointId) : MessageTable :=
  table.mapValues fun key value =>
    if key ∈ rekey then { value with checkpointId := checkpointId }
    else value

def writeMessageRows (new : MessageRowid) (table : MessageTable)
    (checkpointId : CheckpointId) (encoded : List EncodedMessageRow) :
    MessageTable :=
  let existing := fun key => (table.find key).map TableRow.rowid
  let w := encoded.foldl (writeRow new existing checkpointId)
      { table := table, lastRowid := -1, appending := false, rekey := [] }
  rekeyRows w.table w.rekey checkpointId

section Known

variable {P : StoredMessage → Prop} {checkpointId : CheckpointId}

theorem all_writeRow {new : MessageRowid} {existing : String → Option ℤ}
    {w : RowWriter} {r : EncodedMessageRow}
    (hnew : ∀ message, P ⟨checkpointId, message⟩)
    (h : w.table.All P) :
    (writeRow new existing checkpointId w r).table.All P := by
  unfold writeRow
  dsimp only
  split
  · split_ifs
    · exact h
    · exact h.upsert (hnew _)
  · exact h.replace (hnew _)

theorem all_writeMessageRows {new : MessageRowid} {table : MessageTable}
    {encoded : List EncodedMessageRow}
    (hnew : ∀ message, P ⟨checkpointId, message⟩) (h : table.All P) :
    (writeMessageRows new table checkpointId encoded).All P := by
  unfold writeMessageRows
  have hloop : ∀ w : RowWriter, w.table.All P → (encoded.foldl (writeRow new
        (fun key => (table.find key).map TableRow.rowid) checkpointId)
        w).table.All P := by
    induction encoded with
    | nil => exact fun _ hw => hw
    | cons r rest ih =>
        intro w hw
        exact ih _ (all_writeRow hnew hw)
  apply RowidTable.All.mapValues (hloop _ h)
  intro key value hvalue
  split_ifs
  · exact hnew value.message
  · exact hvalue

end Known

/-- Every message row belongs to a checkpoint that was put. -/
structure SqliteSaver where
  table : MessageTable
  checkpoints : List CheckpointId
  encoded : EncodedMessages
  known : table.All fun message => message.checkpointId ∈ checkpoints

inductive SaverEvent where
  | put (id : CheckpointId) (messages : List MessageState)
  | putFails (messages : List MessageState)
  | appendTurnMessages (id : CheckpointId) (messages : List MessageState)
  | appendFails (messages : List MessageState)
  | load (id : CheckpointId) (objects : List LoadedMessage)

namespace SqliteSaver

/-- A saver over an empty database. -/
def setup : SqliteSaver where
  table := RowidTable.empty
  checkpoints := []
  encoded := fun _ => none
  known := fun _ hmem => absurd hmem List.not_mem_nil

/-- The rows of the checkpoint in the order of their rowids. -/
def checkpointRows (s : SqliteSaver) (id : CheckpointId) :
    List (TableRow String StoredMessage) :=
  s.table.rows.filter fun row => decide (row.value.checkpointId = id)

/-- The blobs the messages of the checkpoint are decoded from. -/
def loadCheckpointMessages (s : SqliteSaver) (id : CheckpointId) : List Blob :=
  (s.checkpointRows id).map fun row => row.value.message

def put (new : MessageRowid) (s : SqliteSaver) (id : CheckpointId)
    (messages : List MessageState) : SqliteSaver where
  table := writeMessageRows new s.table id
      (messages.map (encodeMessageRow s.encoded))
  checkpoints := s.checkpoints.insert id
  encoded := s.encoded.remember messages
  known := by
    apply all_writeMessageRows
    · intro message
      exact List.mem_insert_self
    · intro row hmem
      exact List.mem_insert_of_mem (s.known row hmem)

/-- The transaction of a `put` throws. -/
def putFails (s : SqliteSaver) (messages : List MessageState) :
    SqliteSaver :=
  { s with
    encoded := (s.encoded.remember messages).forget messages }

def appendRow (new : MessageRowid) (id : CheckpointId)
    (table : MessageTable) (r : EncodedMessageRow) : MessageTable :=
  table.insertOrIgnore new r.messageId ⟨id, r.message⟩

theorem all_appendRows {P : StoredMessage → Prop} {new : MessageRowid}
    {id : CheckpointId} {rows : List EncodedMessageRow}
    {table : MessageTable} (hnew : ∀ message, P ⟨id, message⟩)
    (h : table.All P) : (rows.foldl (appendRow new id) table).All P := by
  induction rows generalizing table with
  | nil => exact h
  | cons r rest ih => exact ih (h.insertOrIgnore (hnew r.message))

/-- Append to the newest checkpoint; without one the messages are put under
the id of a new one. -/
def appendTurnMessages (new : MessageRowid) (s : SqliteSaver)
    (id : CheckpointId) (messages : List MessageState) : SqliteSaver :=
  match hnewest : s.checkpoints.max? with
  | none => s.put new id messages
  | some existing =>
      { s with
        table := (messages.map (encodeMessageRow s.encoded)).foldl
            (appendRow new existing) s.table
        encoded := s.encoded.remember messages
        known := by
          apply all_appendRows
          · intro message
            exact List.max?_mem hnewest
          · exact s.known }

/-- The transaction of `appendTurnMessages` throws. -/
def appendFails (s : SqliteSaver) (messages : List MessageState) :
    SqliteSaver :=
  match s.checkpoints.max? with
  | none => s.putFails messages
  | some _ => { s with encoded := s.encoded.remember messages }

def rememberLoaded (encoded : EncodedMessages)
    (entry : TableRow String StoredMessage × LoadedMessage) :
    EncodedMessages :=
  if entry.2.remembered then
    Function.update encoded entry.2.object
      (some ⟨entry.2.fingerprint, entry.1.value.message⟩)
  else encoded

/-- Read a checkpoint's messages into new objects. -/
def load (s : SqliteSaver) (id : CheckpointId)
    (objects : List LoadedMessage) : SqliteSaver :=
  { s with
    encoded :=
      ((s.checkpointRows id).zip objects).foldl rememberLoaded s.encoded }

def step (new : MessageRowid) (s : SqliteSaver) :
    SaverEvent → Option SqliteSaver
  | .put id messages => some (s.put new id messages)
  | .putFails messages => some (s.putFails messages)
  | .appendTurnMessages id messages =>
      some (s.appendTurnMessages new id messages)
  | .appendFails messages => some (s.appendFails messages)
  | .load id objects => some (s.load id objects)

end SqliteSaver
end QiForge
