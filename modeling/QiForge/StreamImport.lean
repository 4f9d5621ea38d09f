import QiForge.DoVfs

/-!
# Importing a whole file

The tables of the VFS across files, and the two ways to replace a file that is
not open: `importFile` writes the bytes in one transaction, and
`importFromStream` stages the chunks of a stream under another name as they
arrive and swaps them in at the end.  A stream may fail, and the object may
stop while it waits for the stream or just before the swap.
-/

namespace QiForge

open PageTier

namespace StreamImport

def flushBatchRows : ℕ := 16

def vacuumFileSuffix : String := ".vacuum"

def importFileSuffix : String := ".importing"

/-- `SQLite format 3\0`. -/
def sqliteHeaderMagic : List UInt8 :=
  [83, 81, 76, 105, 116, 101, 32, 102, 111, 114, 109, 97, 116, 32, 51, 0]

def startsWith (bytes : List UInt8) : Bool :=
  sqliteHeaderMagic.isPrefixOf bytes

/-- Header bytes 18 and 19 are 2 for WAL-mode databases. -/
def walFlagged (bytes : List UInt8) : Bool :=
  bytes[18]? = some 2 || bytes[19]? = some 2

def rollbackMode (bytes : List UInt8) : List UInt8 := (bytes.set 18 1).set 19 1

def normalizeJournalModeHeader (bytes : List UInt8) : List UInt8 :=
  if bytes.length < 100 || !startsWith bytes then bytes
  else if walFlagged bytes then rollbackMode bytes
  else bytes

/-- The bytes at the start of a buffer of zeros. -/
def chunkOf (bytes : List UInt8) : Bytes := fun i => bytes.getD i 0

structure FileRow where
  size : ℕ
  gen : ℕ

/-- The tier's map of every file; a queued key is a file, a segment and a
generation. -/
structure TierState where
  rows : String → TierRows
  memory : String → TierFile
  pendingDeletes : List (String × ℕ × ℕ)

/-- No snapshot is open before the schema is ready: opening one makes it so. -/
structure Vfs where
  files : OrderedMap String FileRow
  chunks : String → ℕ → Option MaskedChunk
  tier : Option TierState
  persistentByName : List String
  snapshots : List String
  schemaReady : Bool
  snapshotsReady : schemaReady = false → snapshots = []

def TierState.dropFile (t : TierState) (file : String) : TierState :=
  let (rows, memory, keys) := PageTier.dropFile (t.rows file) (t.memory file)
  let queued := keys.map fun key => (file, key.1, key.2)
  { rows := Function.update t.rows file rows
    memory := Function.update t.memory file memory
    pendingDeletes :=
      t.pendingDeletes ++ queued.filter (· ∉ t.pendingDeletes) }

namespace Vfs

/-- The transaction of `deletePersistent`. -/
def dropRows (v : Vfs) (name : String) : Vfs := { v with
    chunks := Function.update v.chunks name fun _ => none
    files := v.files.delete name
    tier := v.tier.map (TierState.dropFile · name) }

def deletePersistent (v : Vfs) (name : String) : Except String Vfs :=
  if name ∈ v.snapshots then
    .error s!"cannot delete '{name}' while a snapshot is open"
  else .ok (v.dropRows name)

def isLeftover (name : String) : Bool :=
  importFileSuffix.toList.isSuffixOf name.toList ||
    vacuumFileSuffix.toList.isSuffixOf name.toList

/-- The leftovers are found in `vfs2_files`.  Deleting one cannot meet a
snapshot here. -/
def ensureSchema (v : Vfs) : Vfs :=
  if v.schemaReady then v
  else
    let cleaned := (v.files.keys.filter isLeftover).foldl dropRows v
    { cleaned with schemaReady := true, snapshotsReady := nofun }

def upsert (v : Vfs) (name : String) (rows : List (ℕ × MaskedChunk)) : Vfs :=
  { v with
    chunks := Function.update v.chunks name
      (DoVfs.upsertChunks (v.chunks name) rows) }

/-- `INSERT … ON CONFLICT(file) DO UPDATE SET size, gen = gen + 1`. -/
def setSize (v : Vfs) (name : String) (size : ℕ) : Vfs :=
  let gen :=
    match v.files.get? name with
    | none => 1
    | some row => row.gen + 1
  { v with files := v.files.set name ⟨size, gen⟩ }

def assertImportable (v : Vfs) (name : String) : Except String Unit :=
  if name ∈ v.persistentByName then
    .error s!"cannot import into '{name}' while it is open"
  else if name ∈ v.snapshots then
    .error s!"cannot import into '{name}' while a snapshot is open"
  else .ok ()

def badHeader : String :=
  "import rejected: not a SQLite 3 database (bad header magic)"

def cut (bytes : List UInt8) (chunkno : ℕ) : List UInt8 :=
  (bytes.drop (chunkno * chunkSize)).take chunkSize

def fullRow (bytes : List UInt8) : MaskedChunk := ⟨chunkOf bytes, fullMask⟩

def importRows (bytes : List UInt8) : List (ℕ × MaskedChunk) :=
  (List.range (chunksOf bytes.length)).map fun chunkno =>
    (chunkno, fullRow (cut bytes chunkno))

/-- The transaction of `importFile`. -/
def replaceFile (v : Vfs) (name : String) (bytes : List UInt8) : Vfs :=
  let emptied := { v with
      chunks := Function.update v.chunks name fun _ => none
      tier := v.tier.map (TierState.dropFile · name) }
  (emptied.setSize name bytes.length).upsert name (importRows bytes)

def importFile (v : Vfs) (name : String) (bytes : List UInt8) :
    Vfs × Except String Unit :=
  match v.assertImportable name with
  | .error message => (v, .error message)
  | .ok () =>
      if 100 ≤ bytes.length && !startsWith bytes then
        (v, .error badHeader)
      else
        let normalized := normalizeJournalModeHeader bytes
        (v.ensureSchema.replaceFile name normalized, .ok ())

/-! ## The stream -/

def checkHeader (headerChecked : Bool) (chunk : List UInt8) :
    Except String (List UInt8) :=
  if headerChecked then .ok chunk
  else if 100 ≤ chunk.length && !startsWith chunk then .error badHeader
  else if 100 ≤ chunk.length && walFlagged chunk then
    .ok (rollbackMode chunk)
  else .ok chunk

/-- The local variables of `importFromStream`; `pending` is the filled part
of the buffer. -/
@[ext] structure Import where
  vfs : Vfs
  pending : List UInt8
  fits : pending.length < chunkSize
  chunkno : ℕ
  total : ℕ
  headerChecked : Bool
  rows : List (ℕ × MaskedChunk)

namespace Import

def start (v : Vfs) : Import where
  vfs := v
  pending := []
  fits := chunkSize_pos
  chunkno := 0
  total := 0
  headerChecked := false
  rows := []

def flushRows (s : Import) (staging : String) : Import :=
  if s.rows = [] then s
  else { s with vfs := s.vfs.upsert staging s.rows, rows := [] }

/-- Queue a chunk row, the first one once its header is checked. -/
def push (s : Import) (chunk : List UInt8) : Except (Vfs × String) Import :=
  let checked :=
    if s.chunkno = 0 then checkHeader s.headerChecked chunk else .ok chunk
  match checked with
  | .error message => .error (s.vfs, message)
  | .ok chunk =>
      .ok { s with
          headerChecked := s.headerChecked || s.chunkno = 0
          rows := s.rows ++ [(s.chunkno, fullRow chunk)]
          chunkno := s.chunkno + 1
          pending := []
          fits := chunkSize_pos }

def flushBatch (s : Import) (staging : String) : Import :=
  if s.rows.length = flushBatchRows then s.flushRows staging else s

/-- How much of a value the buffer takes. -/
def room (s : Import) (value : List UInt8) : ℕ :=
  min (chunkSize - s.pending.length) value.length

def filled (s : Import) (value : List UInt8) : List UInt8 :=
  s.pending ++ value.take (s.room value)

def count (s : Import) (value : List UInt8) : Import :=
  { s with total := s.total + s.room value }

theorem length_filled_le (s : Import) (value : List UInt8) :
    (s.filled value).length ≤ chunkSize := by
  have hfits := s.fits
  have htake := List.length_take_le (s.room value) value
  rw [filled, List.length_append]
  simp only [room] at htake ⊢
  omega

def keep (s : Import) (value : List UInt8)
    (hmore : (s.filled value).length ≠ chunkSize) : Import :=
  { s with
    pending := s.filled value
    fits := lt_of_le_of_ne (s.length_filled_le value) hmore }

/-- One value of the stream. -/
def feed (staging : String) (s : Import) (value : List UInt8) :
    Except (Vfs × String) Import :=
  if value = [] then .ok s
  else if hfull : (s.filled value).length = chunkSize then
    match (s.count value).push (s.filled value) with
    | .error error => .error error
    | .ok pushed =>
        feed staging (pushed.flushBatch staging) (value.drop (s.room value))
  else
    feed staging ((s.count value).keep value hfull) (value.drop (s.room value))
termination_by value.length
decreasing_by
  all_goals
    have := List.length_pos_of_ne_nil ‹_›
    have := s.fits
    simp only [List.length_drop, room]
    omega

/-- What follows the last value. -/
def finish (staging : String) (s : Import) : Except (Vfs × String) Import :=
  if 0 < s.pending.length then
    (s.push s.pending).map fun s => s.flushRows staging
  else .ok (s.flushRows staging)

end Import

/-- The transaction that puts the staged rows in place. -/
def swapIn (v : Vfs) (name staging : String) (total : ℕ) : Vfs :=
  let moved := { v with
      chunks := Function.update
        (Function.update v.chunks name (v.chunks staging)) staging
          fun _ => none
      tier := v.tier.map (TierState.dropFile · name) }
  let sized := moved.setSize name total
  { sized with files := sized.files.delete staging }

/-- Where the object may stop during an import: before the staging file is
cleared, while it waits for the stream, or before the swap. -/
inductive CrashPoint where
  | clearing
  | reading
  | swapping

inductive Ending where
  | done
  | error (message : String)
  | crash (point : CrashPoint)

def stagingOf (name : String) : String := name ++ importFileSuffix

/-- The `catch` of `importFromStream`: an error of the clean-up is not the
one worth reporting. -/
def abandon (v : Vfs) (staging message : String) : Vfs × Except String ℕ :=
  match v.deletePersistent staging with
  | .error _ => (v, .error message)
  | .ok v => (v, .error message)

/-- Reads the values up to where the stream ends; `none` when the object
stops there, and the tables are what the next one finds. -/
def readStream (v : Vfs) (name : String) (chunks : List (List UInt8))
    (ending : Ending) : Vfs × Option (Except String ℕ) :=
  let staging := stagingOf name
  let reject := fun (error : Vfs × String) =>
    let (v, outcome) := abandon error.1 staging error.2
    (v, some outcome)
  match chunks.foldlM (Import.feed staging) (Import.start v), ending with
  | .error error, _ => reject error
  | .ok s, .error message => reject (s.vfs, message)
  | .ok s, .crash .clearing => (s.vfs, none)
  | .ok s, .crash .reading => (s.vfs, none)
  | .ok s, .crash .swapping =>
      match s.finish staging with
      | .error error => reject error
      | .ok s => (s.vfs, none)
  | .ok s, .done =>
      match s.finish staging with
      | .error error => reject error
      | .ok s => (s.vfs.swapIn name staging s.total, some (.ok s.total))

def importFromStream (v : Vfs) (name : String)
    (chunks : List (List UInt8)) (ending : Ending) :
    Vfs × Option (Except String ℕ) :=
  match v.assertImportable name with
  | .error message => (v, some (.error message))
  | .ok () =>
      let v := v.ensureSchema
      match ending with
      | .crash .clearing => (v, none)
      | _ =>
          match v.deletePersistent (stagingOf name) with
          | .error message => (v, some (.error message))
          | .ok v => v.readStream name chunks ending

/-- The object starts again on the tables it left: nothing is open and the
tier's map is read from its rows. -/
def restart (v : Vfs) : Vfs where
  files := v.files
  chunks := v.chunks
  tier := v.tier.map fun t =>
    { rows := t.rows
      memory := fun file => ⟨(t.rows file).segments, none⟩
      pendingDeletes := [] }
  persistentByName := []
  snapshots := []
  schemaReady := false
  snapshotsReady := fun _ => rfl

end Vfs
end StreamImport
end QiForge
