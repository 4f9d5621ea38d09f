import QiForge.DoVfsRefinement

/-!
# One eviction pass among flushes, resolves and snapshots

A pass plans, and then for each planned segment reads the rows, fetches the
previous object, uploads the new one and commits.  Planning, reading and
committing run while no statement of the connection is in flight; flushes,
cold-miss resolves, reads and snapshots may run between any two of the steps.
A machine state is the file with the pass in flight, if any.
-/

namespace QiForge

open PageTier

structure TierPassPlan where
  totalChunks : ℕ
  bySegment : ℕ → List ℕ
  todo : List ℕ
  epoch : ℕ

/-- What the read step of a segment took away with it. -/
structure SegmentRead where
  segno : ℕ
  entry : Option SegmentEntry
  byChunk : ℕ → Option MaskedChunk

structure SegmentUpload where
  gen : ℕ
  seg : Bytes
  mask : SlotMask

inductive TierPhase where
  | between
  | read (read : SegmentRead)
  | uploading (read : SegmentRead) (upload : SegmentUpload)
  | uploaded (read : SegmentRead) (upload : SegmentUpload)

structure TierPass where
  plan : TierPassPlan
  remaining : List ℕ
  phase : TierPhase

structure TierMachine where
  vfs : DoVfs
  pass : Option TierPass

/-- What a page-aligned transaction does before its commit flushes. -/
inductive PageItem where
  | write (request : PageWrite)
  | truncate (iSize : PageSize)

def PageItem.event : PageItem → FileEvent
  | .write request => .write request
  | .truncate iSize => .truncate iSize

/-- How an upload ends: a failed one may have stored its object. -/
inductive PutOutcome where
  | done
  | failed (stored : Bool)

inductive TierEvent where
  | plan (recent : ℕ → Bool) (force : Bool) (cap : ℕ)
  | readSegment
  | getSegment (reached : Bool)
  | putSegment (outcome : PutOutcome)
  | commitSegment
  | flush (items : List PageItem)
  | resolve (totalChunks segno : ℕ) (reached : Bool)
  | read (pData : Bytes) (iOffset want : ℕ)
  | releasePins
  | evict (chunkno : ℕ)
  | openSnapshot
  | closeSnapshot

namespace DoVfs

def setWrittenSince (v : DoVfs) (written : Option (List ℕ)) : DoVfs :=
  v.modifyFile fun file => { file with tierWrittenSince := written }

/-- The rows a pass may move: chunk 0 holds the header and stays hot. -/
def evictable (v : DoVfs) (recent : ℕ → Bool) (force : Bool)
    (chunkno : ℕ) : Bool :=
  (v.storage.rows chunkno).isSome && decide (chunkno ≠ 0) &&
    (force || !recent chunkno)

def planTierPass (v : DoVfs) (recent : ℕ → Bool) (force : Bool) (cap : ℕ) :
    Option (TierPassPlan × DoVfs) :=
  if v.snapshot.isSome then none
  else if lockExclusive ≤ v.file.lock then none
  else
    let v := v.flush
    let totalChunks := chunksOf v.file.size
    let bySegment := fun segno =>
      (segmentRange totalChunks segno).filter (v.evictable recent force)
    let segments :=
      (List.range (ceilDiv totalChunks segmentChunks)).filter fun segno =>
        !(bySegment segno).isEmpty
    some
      ({ totalChunks := totalChunks
         bySegment := bySegment
         todo := segments.take cap
         epoch := v.layoutEpoch },
        v.setWrittenSince (some []))

def tierPassStillValid (v : DoVfs) (plan : TierPassPlan) : Bool :=
  decide (v.layoutEpoch = plan.epoch) && v.snapshot.isNone &&
    decide (v.file.lock < lockExclusive)

def openSnapshot (v : DoVfs) : Option DoVfs :=
  if v.snapshot.isSome then none
  else if lockExclusive ≤ v.file.lock then none
  else
    let v := v.flush
    some { v with
        snapshot := some
            { size := v.file.size
              totalChunks := chunksOf v.file.size
              shadow := OrderedMap.empty
              segments := v.tier.segments } }

def closeSnapshot (v : DoVfs) : DoVfs := { v with snapshot := none }

/-- A write transaction of page-aligned changes: SQLite holds the exclusive
lock while it writes, and releasing it flushes. -/
def transact (v : DoVfs) (items : List PageItem) : DoVfs :=
  (items.foldl (fun v item => v.react item.event)
    (v.xLock lockExclusive)).xUnlock 0

end DoVfs

def slotOfEntry (entry : Option SegmentEntry) (chunkno : ℕ) : Bool :=
  match entry with
  | none => false
  | some entry => entry.mask.getLsbD (slotOf chunkno)

/-- The old object is needed for every slot a full hot row does not cover. -/
def needOld (totalChunks : ℕ) (read : SegmentRead) : Bool :=
  (DoVfs.segmentRange totalChunks read.segno).any fun chunkno =>
    slotOfEntry read.entry chunkno &&
      match read.byChunk chunkno with
      | none => true
      | some row => decide (row.mask ≠ fullMask)

def rewriteSlot (read : SegmentRead) (old : Option Bytes) (chunkno : ℕ) :
    Bytes :=
  let slot : Bytes :=
    match old with
    | none => zeroBytes
    | some old =>
        if slotOfEntry read.entry chunkno then slotSlice old chunkno
        else zeroBytes
  overRow (read.byChunk chunkno) slot

/-- The new object: the rewritten slots of the segment below `totalChunks`,
zeros after them. -/
def rewriteSegment (totalChunks : ℕ) (read : SegmentRead)
    (old : Option Bytes) : Bytes := fun p =>
  let chunkno := read.segno * segmentChunks + p / chunkSize
  if chunkno < totalChunks then rewriteSlot read old chunkno (p % chunkSize)
  else 0

def rewriteMask (totalChunks : ℕ) (read : SegmentRead) : SlotMask :=
  (((DoVfs.segmentRange totalChunks read.segno).filter fun chunkno =>
      (read.byChunk chunkno).isSome || slotOfEntry read.entry chunkno).map
    slotOf).foldl (fun mask slot => mask ||| (1#16 <<< slot)) 0#16

namespace TierMachine

def endPass (m : TierMachine) : TierMachine :=
  { vfs := m.vfs.setWrittenSince none, pass := none }

def withPhase (m : TierMachine) (pass : TierPass) (phase : TierPhase) :
    TierMachine :=
  { m with pass := some { pass with phase := phase } }

def readSegment (m : TierMachine) (pass : TierPass) : TierMachine :=
  match pass.remaining with
  | [] => m.endPass
  | segno :: rest =>
      if m.vfs.tierPassStillValid pass.plan then
        m.withPhase { pass with remaining := rest } (.read
            { segno := segno
              entry := m.vfs.tier.segments.get? segno
              byChunk := fun chunkno =>
                if chunkno ∈
                    DoVfs.segmentRange pass.plan.totalChunks segno then
                  m.vfs.storage.rows chunkno
                else none })
      else m.endPass

/-- The GET resolves and the new object is put together; a fresh generation
is taken for it. -/
def getSegment (m : TierMachine) (pass : TierPass) (read : SegmentRead)
    (reached : Bool) : TierMachine :=
  let fetched : Option (Option Bytes) :=
    match read.entry with
    | none => some none
    | some entry =>
        if entry.mask ≠ 0#16 ∧ needOld pass.plan.totalChunks read then
          if reached then (m.vfs.bucket read.segno entry.gen).map some
          else none
        else some none
  match fetched with
  | none => m.endPass
  | some old =>
      let (gen, tier) := allocateGen m.vfs.storage.tier m.vfs.tier
      { vfs := { m.vfs with tier := tier }
        pass := some { pass with
              phase := .uploading read
                  { gen := gen
                    seg := rewriteSegment pass.plan.totalChunks read old
                    mask := rewriteMask pass.plan.totalChunks read } } }

def storeObject (v : DoVfs) (segno gen : ℕ) (seg : Bytes) : DoVfs := { v with
    bucket := fun s g =>
      if s = segno ∧ g = gen then some seg else v.bucket s g }

def putSegment (m : TierMachine) (pass : TierPass) (read : SegmentRead)
    (upload : SegmentUpload) (outcome : PutOutcome) : TierMachine :=
  let stored :=
    { m with vfs := storeObject m.vfs read.segno upload.gen upload.seg }
  match outcome with
  | .done => stored.withPhase pass (.uploaded read upload)
  | .failed true => stored.endPass
  | .failed false => m.endPass

/-- The rows the commit deletes: candidates no flush wrote meanwhile. -/
def evicted (v : DoVfs) (plan : TierPassPlan) (segno : ℕ) : List ℕ :=
  (plan.bySegment segno).filter fun chunkno =>
    match v.file.tierWrittenSince with
    | none => true
    | some written => decide (chunkno ∉ written)

def commitRewrite (v : DoVfs) (plan : TierPassPlan) (segno : ℕ)
    (upload : SegmentUpload) : DoVfs :=
  let evict := evicted v plan segno
  let (tierRows, tier) :=
    setSegment v.storage.tier v.tier segno ⟨upload.gen, upload.mask⟩
  { v with
    storage := { v.storage with
        tier := tierRows
        rows := fun chunkno =>
          if chunkno ∈ evict then none else v.storage.rows chunkno }
    tier := tier }

def commitSegment (m : TierMachine) (pass : TierPass) (read : SegmentRead)
    (upload : SegmentUpload) : TierMachine :=
  if m.vfs.tierPassStillValid pass.plan &&
      decide (m.vfs.tier.segments.get? read.segno = read.entry) then
    { vfs := commitRewrite m.vfs pass.plan read.segno upload
      pass := some { pass with phase := .between } }
  else m.endPass

def withVfs (m : TierMachine) (v : DoVfs) : TierMachine := { m with vfs := v }

def step (m : TierMachine) : TierEvent → Option TierMachine
  | .plan recent force cap =>
      match m.pass with
      | some _ => none
      | none =>
          (m.vfs.planTierPass recent force cap).map fun planned =>
            { vfs := planned.2
              pass := some
                  { plan := planned.1
                    remaining := planned.1.todo
                    phase := .between } }
  | .readSegment =>
      match m.pass with
      | some ⟨plan, remaining, .between⟩ =>
          some (m.readSegment ⟨plan, remaining, .between⟩)
      | _ => none
  | .getSegment reached =>
      match m.pass with
      | some ⟨plan, remaining, .read read⟩ =>
          some (m.getSegment ⟨plan, remaining, .read read⟩ read reached)
      | _ => none
  | .putSegment outcome =>
      match m.pass with
      | some ⟨plan, remaining, .uploading read upload⟩ =>
          some (m.putSegment ⟨plan, remaining, .uploading read upload⟩ read
            upload outcome)
      | _ => none
  | .commitSegment =>
      match m.pass with
      | some ⟨plan, remaining, .uploaded read upload⟩ =>
          some (m.commitSegment ⟨plan, remaining, .uploaded read upload⟩ read
            upload)
      | _ => none
  | .flush items => some (m.withVfs (m.vfs.transact items))
  | .resolve totalChunks segno reached =>
      some (m.withVfs (m.vfs.resolveSegment totalChunks segno reached).2)
  | .read pData iOffset want =>
      some (m.withVfs (m.vfs.xRead pData iOffset want).2)
  | .releasePins => some (m.withVfs m.vfs.releasePins)
  | .evict chunkno =>
      some (m.withVfs (m.vfs.withCache (m.vfs.cache.dropChunk chunkno)))
  | .openSnapshot => m.vfs.openSnapshot.map m.withVfs
  | .closeSnapshot => some (m.withVfs m.vfs.closeSnapshot)

end TierMachine
end QiForge
