import QiForge.PageTier
import QiForge.Transition

/-!
# The segment objects of the tier

What becomes of the objects in R2: the durable map of every file, its copy in
memory with the generation counters, the queue of keys to delete, and the
eviction passes, deletions and orphan sweeps in flight.  Each event is what
runs between two awaits.  Which rows a pass evicts and which slots an upload
fills is left open here, and so is whether the file a pass planned for is
still the open, unlocked one; a transaction either commits or rolls back,
and then keeps what it did to memory.
-/

namespace QiForge

open PageTier

/-- The key `<prefix>/<file>/<segno>.<gen>`. -/
structure SegmentKey (File : Type) where
  file : File
  segno : ℕ
  gen : ℕ
deriving DecidableEq

inductive SweepStep where
  | none
  | step
  | full
deriving DecidableEq, Repr

inductive MaintenancePhase (File : Type) where
  | deleting (rest : List (SegmentKey File))
  | listing
  | listed (page : List (SegmentKey File)) (complete : Bool)
  | sweeping (orphans : List (SegmentKey File)) (complete : Bool)

/-- One call of `maintenance` in flight; `pass` is the pass awaiting it. -/
structure Maintenance (File : Type) where
  keys : List (SegmentKey File)
  sweep : SweepStep
  phase : MaintenancePhase File
  pass : Option ℕ

structure SegmentPut where
  segno : ℕ
  entry : Option SegmentEntry
  gen : ℕ
  mask : SlotMask

inductive PassPhase where
  | starting
  | between
  | read (segno : ℕ) (entry : Option SegmentEntry)
  | uploading (put : SegmentPut)
  | uploaded (put : SegmentPut)
  | closing
  | maintaining

structure PassInFlight (File : Type) where
  file : File
  epoch : ℕ
  remaining : List ℕ
  phase : PassPhase

structure TierObjects (File : Type) where
  rows : File → TierRows
  bucket : SegmentKey File → Bool
  segments : File → Option SegmentMap
  maxGen : File → Option ℕ
  pendingDeletes : List (SegmentKey File)
  snapshots : List File
  windowReaders : ℤ
  readers : ℕ
  layoutEpoch : ℕ
  passes : OrderedMap ℕ (PassInFlight File)
  tierPass : Option ℕ
  maintenances : OrderedMap ℕ (Maintenance File)
  tierSweep : Option ℕ

/-- How far `dropFile` came before its transaction threw. -/
inductive DropProgress where
  | before
  | queued
  | cleared
deriving DecidableEq, Repr

/-- The operations that forget every segment of their target. -/
inductive Replacement (File : Type) where
  | importFile (name : File)
  | importFromStream (name : File)
  | renameFile (source target : File)
  | deleteFile (name : File)
  | materialize (name : File)

inductive TierObjectsEvent (File : Type) where
  | load (file : File)
  | flush (file : File) (keepChunks : ℕ)
  | flushRollsBack (file : File) (keepChunks : ℕ) (touched : ℕ → Bool)
      (failing : Option ℕ)
  | replace (op : Replacement File)
  | replaceRollsBack (op : Replacement File) (progress : DropProgress)
  | openSnapshot (file : File)
  | closeSnapshot (file : File)
  | startReader
  | endReader
  | attach
  | tierFlush (id : ℕ) (file : File)
  | plan (id : ℕ) (todo : Option (List ℕ))
  | readSegment (id : ℕ) (fileKept : Bool)
  | getSegment (id : ℕ) (mask : SlotMask)
  | getFails (id : ℕ) (fileKept : Bool)
  | putSegment (id : ℕ)
  | putFails (id : ℕ) (stored : Bool)
  | commitSegment (id : ℕ) (fileKept : Bool)
  | commitRollsBack (id : ℕ) (fileKept set : Bool)
  | closePass (id maintenance : ℕ) (due : Bool)
  | tierMaintenance (maintenance : ℕ) (sweep due : Bool)
  | deleteBatch (maintenance : ℕ)
  | deleteFails (maintenance : ℕ) (taken : Bool)
  | listPage (maintenance : ℕ) (page : List (SegmentKey File))
      (complete : Bool)
  | listFails (maintenance : ℕ)
  | examinePage (maintenance : ℕ)

def r2DeleteBatch : ℕ := 1000

/-- The map has this generation of the segment. -/
def refers (segments : SegmentMap) (segno gen : ℕ) : Bool :=
  match segments.get? segno with
  | none => false
  | some entry => decide (entry.gen = gen)

namespace Maintenance

variable {File : Type}

/-- The keys a sweep has found unreferenced and is deleting. -/
def orphans (x : Maintenance File) : List (SegmentKey File) :=
  match x.phase with
  | .sweeping orphans _ => orphans
  | _ => []

end Maintenance

namespace PassInFlight

variable {File : Type}

/-- The pass may still allocate, upload or commit. -/
def running (pass : PassInFlight File) : Bool :=
  match pass.phase with
  | .maintaining => false
  | _ => true

/-- The key handed out for the upload in flight. -/
def upload (pass : PassInFlight File) : Option (SegmentKey File) :=
  match pass.phase with
  | .uploading put | .uploaded put => some ⟨pass.file, put.segno, put.gen⟩
  | _ => none

def withPhase (pass : PassInFlight File) (phase : PassPhase) :
    PassInFlight File :=
  { pass with phase := phase }

end PassInFlight

def Replacement.target {File : Type} : Replacement File → File
  | .importFile name | .importFromStream name | .renameFile _ name
  | .deleteFile name | .materialize name => name

/-- The swap of a streamed import and the last step of `materialize` do not
look for snapshots again. -/
def Replacement.assertsNoSnapshot {File : Type} : Replacement File → Bool
  | .importFile _ | .renameFile _ _ | .deleteFile _ => true
  | .importFromStream _ | .materialize _ => false

namespace TierObjects

variable {File : Type} [DecidableEq File]

/-- The VFS just constructed over its storage. -/
def opened (rows : File → TierRows) (bucket : SegmentKey File → Bool) :
    TierObjects File where
  rows := rows
  bucket := bucket
  segments := fun _ => none
  maxGen := fun _ => none
  pendingDeletes := []
  snapshots := []
  windowReaders := 0
  readers := 0
  layoutEpoch := 0
  passes := OrderedMap.empty
  tierPass := none
  maintenances := OrderedMap.empty
  tierSweep := none

/-- The map in memory, loaded from the durable rows on first use. -/
def segmentsOf (m : TierObjects File) (file : File) : SegmentMap :=
  (m.segments file).getD (m.rows file).segments

def tierOf (m : TierObjects File) (file : File) : TierFile where
  segments := m.segmentsOf file
  maxGen := m.maxGen file

def references (m : TierObjects File) (key : SegmentKey File) : Bool :=
  refers (m.rows key.file).segments key.segno key.gen

def setFile (m : TierObjects File) (file : File) (rows : TierRows)
    (tier : TierFile) : TierObjects File :=
  { m with
    rows := Function.update m.rows file rows
    segments := Function.update m.segments file (some tier.segments)
    maxGen := Function.update m.maxGen file tier.maxGen }

def queueDelete (m : TierObjects File) (key : SegmentKey File) :
    TierObjects File :=
  { m with
    pendingDeletes :=
      if key ∈ m.pendingDeletes then m.pendingDeletes
      else m.pendingDeletes ++ [key] }

def queueDeletes (m : TierObjects File) (file : File)
    (keys : List (ℕ × ℕ)) : TierObjects File :=
  keys.foldl (fun m key => m.queueDelete ⟨file, key.1, key.2⟩) m

def load (m : TierObjects File) (file : File) : TierObjects File :=
  m.setFile file (m.rows file) (m.tierOf file)

/-- A flush that truncates; any other leaves the tier alone. -/
def flush (m : TierObjects File) (file : File) (keepChunks : ℕ) :
    TierObjects File :=
  let (rows, tier, keys) := truncate (m.rows file) (m.tierOf file) keepChunks
  { (m.setFile file rows tier).queueDeletes file keys with
    layoutEpoch := m.layoutEpoch + 1 }

/-- The keys the loop of `truncate` has queued once it reached the entries in
`reached`. -/
def reachedKeys (reached : ℕ → Bool) (segments : SegmentMap)
    (keepChunks : ℕ) : List (ℕ × ℕ) :=
  (segments.entries.filter fun entry =>
    reached entry.1 && segmentDropped keepChunks entry.1).map
      fun entry => (entry.1, entry.2.gen)

/-- The entries the loop of `truncate` went through, with the one whose
statement threw. -/
def reached (touched : ℕ → Bool) (failing : Option ℕ) (segno : ℕ) : Bool :=
  touched segno || decide (failing = some segno)

/-- The transaction of a flush throws in the loop of `truncate` or after it.
An entry is queued before its statement and leaves the memory after it. -/
def flushRollsBack (m : TierObjects File) (file : File) (keepChunks : ℕ)
    (touched : ℕ → Bool) (failing : Option ℕ) : TierObjects File :=
  let segments := m.segmentsOf file
  (m.setFile file (m.rows file)
    { segments := truncateTouched touched segments keepChunks
      maxGen := m.maxGen file }).queueDeletes file
        (reachedKeys (reached touched failing) segments keepChunks)

def replace (m : TierObjects File) (file : File) : TierObjects File :=
  let (rows, tier, keys) := dropFile (m.rows file) (m.tierOf file)
  { (m.setFile file rows tier).queueDeletes file keys with
    layoutEpoch := m.layoutEpoch + 1 }

/-- The transaction of a replacement throws. -/
def replaceRollsBack (m : TierObjects File) (file : File) :
    DropProgress → TierObjects File
  | .before => m
  | .queued =>
      let (_, _, keys) := dropFile (m.rows file) (m.tierOf file)
      (m.load file).queueDeletes file keys
  | .cleared =>
      let (_, tier, keys) := dropFile (m.rows file) (m.tierOf file)
      (m.setFile file (m.rows file) tier).queueDeletes file keys

/-- Re-bind to the storage of a new instance: the memory of the old one is
forgotten, the queue of keys to delete and what is in flight are not. -/
def attach (m : TierObjects File) : TierObjects File := { m with
    segments := fun _ => none
    maxGen := fun _ => none
    snapshots := []
    windowReaders := 0
    layoutEpoch := m.layoutEpoch + 1
    tierPass := none
    tierSweep := none }

def setPass (m : TierObjects File) (id : ℕ) (pass : PassInFlight File) :
    TierObjects File :=
  { m with passes := m.passes.set id pass }

def endPass (m : TierObjects File) (id : ℕ) : TierObjects File := { m with
    passes := m.passes.delete id
    tierPass := if m.tierPass = some id then none else m.tierPass }

def tierFlush (m : TierObjects File) (id : ℕ) (file : File) :
    Option (TierObjects File) :=
  if m.tierPass.isSome || m.tierSweep.isSome || m.passes.has id then none
  else
    some ({ m with tierPass := some id }.setPass id
        { file := file, epoch := 0, remaining := [], phase := .starting })

/-- `todo` is `none` when the pass is skipped or its flush throws. -/
def planPass (m : TierObjects File) (id : ℕ) (pass : PassInFlight File)
    (todo : Option (List ℕ)) : TierObjects File :=
  match todo with
  | none => m.endPass id
  | some todo =>
      if pass.file ∈ m.snapshots then m.endPass id
      else
        m.setPass id { pass with
            epoch := m.layoutEpoch
            remaining := todo
            phase := .between }

def tierPassStillValid (m : TierObjects File) (pass : PassInFlight File)
    (fileKept : Bool) : Bool :=
  decide (m.layoutEpoch = pass.epoch) && decide (pass.file ∉ m.snapshots) &&
    fileKept

def readSegment (m : TierObjects File) (id : ℕ)
    (pass : PassInFlight File) (fileKept : Bool) : TierObjects File :=
  match pass.remaining with
  | [] => m.setPass id (pass.withPhase .closing)
  | segno :: rest =>
      if m.tierPassStillValid pass fileKept then
        (m.load pass.file).setPass id { pass with
            remaining := rest
            phase := .read segno ((m.segmentsOf pass.file).get? segno) }
      else m.setPass id (pass.withPhase .closing)

def getSegment (m : TierObjects File) (id : ℕ) (pass : PassInFlight File)
    (segno : ℕ) (entry : Option SegmentEntry) (mask : SlotMask) :
    TierObjects File :=
  let (gen, tier) := allocateGen (m.rows pass.file) (m.tierOf pass.file)
  (m.setFile pass.file (m.rows pass.file) tier).setPass id
    (pass.withPhase (.uploading ⟨segno, entry, gen, mask⟩))

def getFails (m : TierObjects File) (id : ℕ) (pass : PassInFlight File)
    (fileKept : Bool) : TierObjects File :=
  if m.tierPassStillValid pass fileKept then m.endPass id
  else m.setPass id (pass.withPhase .closing)

def storeObject (m : TierObjects File) (key : SegmentKey File) :
    TierObjects File :=
  { m with bucket := Function.update m.bucket key true }

def putSegment (m : TierObjects File) (id : ℕ) (pass : PassInFlight File)
    (put : SegmentPut) : TierObjects File :=
  (m.storeObject ⟨pass.file, put.segno, put.gen⟩).setPass id
    (pass.withPhase (.uploaded put))

def putFails (m : TierObjects File) (id : ℕ) (pass : PassInFlight File)
    (put : SegmentPut) (stored : Bool) : TierObjects File :=
  if stored then
    (m.storeObject ⟨pass.file, put.segno, put.gen⟩).endPass id
  else m.endPass id

/-- The commit step finds the pass valid and the entry it read. -/
def commits (m : TierObjects File) (pass : PassInFlight File)
    (put : SegmentPut) (fileKept : Bool) : Bool :=
  m.tierPassStillValid pass fileKept &&
    decide ((m.segmentsOf pass.file).get? put.segno = put.entry)

def abandonUpload (m : TierObjects File) (id : ℕ)
    (pass : PassInFlight File) (put : SegmentPut) : TierObjects File :=
  (m.queueDelete ⟨pass.file, put.segno, put.gen⟩).setPass id
    (pass.withPhase .closing)

def commitSegment (m : TierObjects File) (id : ℕ)
    (pass : PassInFlight File) (put : SegmentPut) (fileKept : Bool) :
    TierObjects File :=
  if m.commits pass put fileKept then
    let (rows, tier) :=
      setSegment (m.rows pass.file) (m.tierOf pass.file) put.segno
        ⟨put.gen, put.mask⟩
    let m := (m.setFile pass.file rows tier).setPass id
      (pass.withPhase .between)
    match put.entry with
    | none => m
    | some entry =>
        if entry.gen = put.gen then m
        else m.queueDelete ⟨pass.file, put.segno, entry.gen⟩
  else m.abandonUpload id pass put

/-- The commit transaction throws, before or after it set the entry. -/
def commitRollsBack (m : TierObjects File) (id : ℕ)
    (pass : PassInFlight File) (put : SegmentPut) (fileKept set : Bool) :
    TierObjects File :=
  if m.commits pass put fileKept then
    if set then
      let (_, tier) :=
        setSegment (m.rows pass.file) (m.tierOf pass.file) put.segno
          ⟨put.gen, put.mask⟩
      (m.setFile pass.file (m.rows pass.file) tier).endPass id
    else m.endPass id
  else m.abandonUpload id pass put

def setMaintenance (m : TierObjects File) (id : ℕ)
    (x : Maintenance File) : TierObjects File :=
  { m with maintenances := m.maintenances.set id x }

/-- Take the queued keys along; a call that sweeps holds the token. -/
def startMaintenance (m : TierObjects File) (id : ℕ) (sweep : SweepStep)
    (pass : Option ℕ) : TierObjects File :=
  { m with
    pendingDeletes := []
    tierSweep := if sweep = .none then m.tierSweep else some id
    maintenances := m.maintenances.set id
        { keys := m.pendingDeletes
          sweep := sweep
          phase := .deleting m.pendingDeletes
          pass := pass } }

/-- Nothing is deleted while a reader may fetch a superseded object. -/
def readersOpen (m : TierObjects File) : Bool :=
  !m.snapshots.isEmpty || decide (0 < m.windowReaders)

def closePass (m : TierObjects File) (id : ℕ) (pass : PassInFlight File)
    (maintenance : ℕ) (due : Bool) : Option (TierObjects File) :=
  if m.maintenances.has maintenance then none
  else if m.readersOpen then some (m.endPass id)
  else
    let sweep : SweepStep :=
      if m.tierSweep.isNone && due then .step else .none
    some ((m.startMaintenance maintenance sweep (some id)).setPass id
      (pass.withPhase .maintaining))

def tierMaintenance (m : TierObjects File) (maintenance : ℕ)
    (sweep due : Bool) : Option (TierObjects File) :=
  if m.maintenances.has maintenance then none
  else if m.readersOpen then some m
  else
    let alone := m.tierPass.isNone && m.tierSweep.isNone
    let next : SweepStep :=
      if !alone then .none
      else if sweep then .full
      else if due then .step
      else .none
    some (m.startMaintenance maintenance next none)

/-- The call returns: its token is handed back and the pass awaiting it
ends. -/
def finishMaintenance (m : TierObjects File) (id : ℕ)
    (x : Maintenance File) : TierObjects File :=
  let m := { m with
      maintenances := m.maintenances.delete id
      tierSweep :=
        if x.sweep ≠ .none ∧ m.tierSweep = some id then none
        else m.tierSweep }
  match x.pass with
  | none => m
  | some pass => m.endPass pass

def deleteObjects (m : TierObjects File) (keys : List (SegmentKey File)) :
    TierObjects File :=
  { m with bucket := fun key => m.bucket key && decide (key ∉ keys) }

/-- What follows the deletion of the queued keys. -/
def afterDeletes (m : TierObjects File) (id : ℕ) (x : Maintenance File) :
    TierObjects File :=
  if x.sweep = .none then m.finishMaintenance id x
  else m.setMaintenance id { x with phase := .listing }

/-- What follows the deletion of the orphans of one page. -/
def afterSweepStep (m : TierObjects File) (id : ℕ) (x : Maintenance File)
    (complete : Bool) : TierObjects File :=
  if x.sweep = .step ∨ complete then m.finishMaintenance id x
  else m.setMaintenance id { x with phase := .listing }

def deleteBatch (m : TierObjects File) (id : ℕ) (x : Maintenance File) :
    Option (TierObjects File) :=
  match x.phase with
  | .deleting [] => some (m.afterDeletes id x)
  | .deleting rest =>
      some ((m.deleteObjects (rest.take r2DeleteBatch)).setMaintenance id
        { x with phase := .deleting (rest.drop r2DeleteBatch) })
  | .sweeping [] complete => some (m.afterSweepStep id x complete)
  | .sweeping orphans complete =>
      some ((m.deleteObjects (orphans.take r2DeleteBatch)).setMaintenance id
        { x with
          phase := .sweeping (orphans.drop r2DeleteBatch) complete })
  | _ => none

/-- A delete request throws; it may have been carried out.  The queued keys go
back to the queue, all of them. -/
def deleteFails (m : TierObjects File) (id : ℕ) (x : Maintenance File)
    (taken : Bool) : Option (TierObjects File) :=
  match x.phase with
  | .deleting rest =>
      let m :=
        if taken then m.deleteObjects (rest.take r2DeleteBatch) else m
      some ((x.keys.foldl queueDelete m).afterDeletes id x)
  | .sweeping orphans _ =>
      let m :=
        if taken then m.deleteObjects (orphans.take r2DeleteBatch) else m
      some (m.finishMaintenance id x)
  | _ => none

/-- The page a listing answers holds segment objects that are there. -/
def listPage (m : TierObjects File) (id : ℕ) (x : Maintenance File)
    (page : List (SegmentKey File)) (complete : Bool) :
    Option (TierObjects File) :=
  match x.phase with
  | .listing =>
      if page.all m.bucket then
        some (m.setMaintenance id { x with phase := .listed page complete })
      else none
  | _ => none

def examinePage (m : TierObjects File) (id : ℕ) (x : Maintenance File) :
    Option (TierObjects File) :=
  match x.phase with
  | .listed page complete =>
      some (m.setMaintenance id { x with
          phase := .sweeping (page.filter fun key => !m.references key)
              complete })
  | _ => none

/-- What a pass in flight does next. -/
def stepPass (m : TierObjects File) (id : ℕ) (pass : PassInFlight File) :
    TierObjectsEvent File → Option (TierObjects File)
  | .plan _ todo =>
      match pass.phase with
      | .starting => some (m.planPass id pass todo)
      | _ => none
  | .readSegment _ fileKept =>
      match pass.phase with
      | .between => some (m.readSegment id pass fileKept)
      | _ => none
  | .getSegment _ mask =>
      match pass.phase with
      | .read segno entry => some (m.getSegment id pass segno entry mask)
      | _ => none
  | .getFails _ fileKept =>
      match pass.phase with
      | .read _ _ => some (m.getFails id pass fileKept)
      | _ => none
  | .putSegment _ =>
      match pass.phase with
      | .uploading put => some (m.putSegment id pass put)
      | _ => none
  | .putFails _ stored =>
      match pass.phase with
      | .uploading put => some (m.putFails id pass put stored)
      | _ => none
  | .commitSegment _ fileKept =>
      match pass.phase with
      | .uploaded put => some (m.commitSegment id pass put fileKept)
      | _ => none
  | .commitRollsBack _ fileKept set =>
      match pass.phase with
      | .uploaded put => some (m.commitRollsBack id pass put fileKept set)
      | _ => none
  | .closePass _ maintenance due =>
      match pass.phase with
      | .closing => m.closePass id pass maintenance due
      | _ => none
  | _ => none

def step (m : TierObjects File) (e : TierObjectsEvent File) :
    Option (TierObjects File) :=
  match e with
  | .load file => some (m.load file)
  | .flush file keepChunks => some (m.flush file keepChunks)
  | .flushRollsBack file keepChunks touched failing =>
      some (m.flushRollsBack file keepChunks touched failing)
  | .replace op =>
      if op.assertsNoSnapshot && decide (op.target ∈ m.snapshots) then none
      else some (m.replace op.target)
  | .replaceRollsBack op progress =>
      if op.assertsNoSnapshot && decide (op.target ∈ m.snapshots) then none
      else some (m.replaceRollsBack op.target progress)
  | .openSnapshot file =>
      if file ∈ m.snapshots then none
      else
        some { m.load file with snapshots := file :: m.snapshots }
  | .closeSnapshot file =>
      some { m with snapshots := m.snapshots.erase file }
  | .startReader =>
      some { m with
          windowReaders := m.windowReaders + 1
          readers := m.readers + 1 }
  | .endReader =>
      if m.readers = 0 then none
      else
        some { m with
            windowReaders := m.windowReaders - 1
            readers := m.readers - 1 }
  | .attach => some m.attach
  | .tierFlush id file => m.tierFlush id file
  | .plan id _ | .readSegment id _ | .getSegment id _ | .getFails id _
  | .putSegment id | .putFails id _ | .commitSegment id _
  | .commitRollsBack id _ _ | .closePass id _ _ =>
      (m.passes.get? id).bind fun pass => m.stepPass id pass e
  | .tierMaintenance maintenance sweep due =>
      m.tierMaintenance maintenance sweep due
  | .deleteBatch id => (m.maintenances.get? id).bind (m.deleteBatch id)
  | .deleteFails id taken =>
      (m.maintenances.get? id).bind fun x => m.deleteFails id x taken
  | .listPage id page complete =>
      (m.maintenances.get? id).bind fun x => m.listPage id x page complete
  | .listFails id =>
      (m.maintenances.get? id).bind fun x =>
        match x.phase with
        | .listing => some (m.finishMaintenance id x)
        | _ => none
  | .examinePage id => (m.maintenances.get? id).bind (m.examinePage id)

end TierObjects
end QiForge
