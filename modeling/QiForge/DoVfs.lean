import QiForge.PageTier

/-!
# One persistent file of the VFS

The synchronous path as the source computes it: chunks are looked up in the
pins, the clean cache and the stored rows, writes collect in dirty chunks, and
a flush moves them to storage in one transaction.  The `dirty` map carries the
mask of each buffer, which the source keeps in a second map with the same
keys.  A file without a tier is one whose segment map is empty and whose rows
are all full.

The transaction of a flush either commits (`flush`) or rolls back
(`flushRollsBack`), which leaves storage as it was but keeps what the
abandoned statements did to the map in memory.
-/

namespace QiForge

open PageTier

structure MaskedChunk where
  data : Bytes
  mask : PageMask

/-- The pages of a row over what lies below it. -/
def overRow (row : Option MaskedChunk) (below : Bytes) : Bytes :=
  match row with
  | none => below
  | some row => placeMasked below row.data row.mask

inductive BaseImage where
  | chunk (image : MaskedChunk)
  | sparse
  | cold

structure ChunkCache where
  capacity : ℕ
  entries : OrderedMap ℕ Bytes

structure Storage where
  size : ℕ
  gen : ℕ
  rows : ℕ → Option MaskedChunk
  tier : TierRows

structure PersistentFile where
  size : ℕ
  gen : ℕ
  lock : ℕ
  dirty : OrderedMap ℕ MaskedChunk
  base : OrderedMap ℕ BaseImage
  tierWrittenSince : Option (List ℕ)
  truncateToPages : Option ℕ
  sizeDirty : Bool
  spill : Bool

structure SnapshotState where
  size : ℕ
  totalChunks : ℕ
  shadow : OrderedMap ℕ MaskedChunk
  segments : SegmentMap

structure DoVfs where
  storage : Storage
  bucket : Bucket
  file : PersistentFile
  tier : TierFile
  cache : ChunkCache
  pinned : OrderedMap ℕ Bytes
  missPinBytes : ℕ
  misses : List ℕ
  snapshot : Option SnapshotState
  layoutEpoch : ℕ

inductive SqliteCode where
  | ok
  | shortRead
  | ioerrRead
  | ioerrWrite
  | ioerrTruncate
deriving DecidableEq, Repr

def spillChunks : ℕ := 32

def lockExclusive : ℕ := 4

namespace ChunkCache

def refresh (cache : ChunkCache) (chunkno : ℕ) : ChunkCache :=
  match cache.entries.get? chunkno with
  | none => cache
  | some chunk => { cache with entries := cache.entries.push chunkno chunk }

def evict (cache : ChunkCache) : ChunkCache := { cache with
    entries := cache.entries.dropOldest (cache.entries.size - cache.capacity) }

def set (cache : ChunkCache) (chunkno : ℕ) (chunk : Bytes) : ChunkCache :=
  { cache with entries := cache.entries.push chunkno chunk }.evict

def setCapacity (cache : ChunkCache) (capacity : ℕ) : ChunkCache :=
  { cache with capacity := 1 ⊔ capacity }.evict

def dropFrom (cache : ChunkCache) (fromChunk : ℕ) : ChunkCache := { cache with
    entries := cache.entries.filter fun chunkno _ =>
      decide (chunkno < fromChunk) }

def dropChunk (cache : ChunkCache) (chunkno : ℕ) : ChunkCache :=
  { cache with entries := cache.entries.delete chunkno }

end ChunkCache

/-- One round of the read and write loops: bytes `[done, done + n)` of the
request are bytes `[inChunk, inChunk + n)` of the chunk. -/
structure Span where
  chunkno : ℕ
  inChunk : ℕ
  n : ℕ
  done : ℕ

def spansFrom (iOffset length : ℕ) : ℕ → ℕ → List Span
  | 0, _ => []
  | fuel + 1, done =>
      if done < length then
        let pos := iOffset + done
        let chunkno := pos / chunkSize
        let inChunk := pos - chunkno * chunkSize
        let n := (chunkSize - inChunk) ⊓ (length - done)
        ⟨chunkno, inChunk, n, done⟩ :: spansFrom iOffset length fuel (done + n)
      else []

def spans (iOffset length : ℕ) : List Span := spansFrom iOffset length length 0

namespace DoVfs

/-- The file record `xOpen` makes. -/
def openFile (storage : Storage) (spill : Bool) : PersistentFile where
  size := storage.size
  gen := storage.gen
  lock := 0
  dirty := OrderedMap.empty
  base := OrderedMap.empty
  tierWrittenSince := none
  truncateToPages := none
  sizeDirty := false
  spill := spill

/-- The file just opened over what storage and bucket hold. -/
def opened (storage : Storage) (bucket : Bucket) (spill : Bool)
    (capacity missPinBytes : ℕ) : DoVfs where
  storage := storage
  bucket := bucket
  file := openFile storage spill
  tier := { segments := storage.tier.segments, maxGen := none }
  cache := { capacity := 1 ⊔ capacity, entries := OrderedMap.empty }
  pinned := OrderedMap.empty
  missPinBytes := missPinBytes
  misses := []
  snapshot := none
  layoutEpoch := 0

def modifyFile (v : DoVfs) (f : PersistentFile → PersistentFile) : DoVfs :=
  { v with file := f v.file }

def withCache (v : DoVfs) (cache : ChunkCache) : DoVfs :=
  { v with cache := cache }

def pastTruncation (v : DoVfs) (chunkno : ℕ) : Bool :=
  match v.file.truncateToPages with
  | none => false
  | some keepPages => decide (keepPages ≤ chunkno * pagesPerChunk)

def inR2 (v : DoVfs) (chunkno : ℕ) : Bool := slotInR2 v.tier.segments chunkno

def lookupLocal (v : DoVfs) (chunkno : ℕ) : Option MaskedChunk × DoVfs :=
  match v.pinned.get? chunkno with
  | some pin => (some ⟨pin, fullMask⟩, v)
  | none =>
      match v.cache.entries.get? chunkno with
      | some cached =>
          (some ⟨cached, fullMask⟩, v.withCache (v.cache.refresh chunkno))
      | none =>
          if v.pastTruncation chunkno then (none, v)
          else
            match v.storage.rows chunkno with
            | none => (none, v)
            | some row =>
                (some row,
                  if row.mask = fullMask then
                    v.withCache (v.cache.set chunkno row.data)
                  else v)

def setDirty (v : DoVfs) (chunkno : ℕ) (chunk : MaskedChunk) : DoVfs :=
  v.modifyFile fun file =>
    { file with dirty := file.dirty.set chunkno chunk }

def setBase (v : DoVfs) (chunkno : ℕ) (image : BaseImage) : DoVfs :=
  v.modifyFile fun file =>
    { file with base := file.base.set chunkno image }

inductive Loaded where
  | data (bytes : Bytes)
  | sparse
  | coldMiss

def loadDirty (v : DoVfs) (chunkno : ℕ) (wanted : PageMask)
    (dirty : MaskedChunk) : Loaded × DoVfs :=
  if dirty.mask = fullMask then (.data dirty.data, v)
  else
    match (v.pinned.get? chunkno).or (v.cache.entries.get? chunkno) with
    | some cold =>
        let full := placeMasked dirty.data cold (~~~dirty.mask)
        (.data full, (if v.pinned.has chunkno then v
            else v.withCache (v.cache.refresh chunkno)).setDirty chunkno
              ⟨full, fullMask⟩)
    | none =>
        if !v.inR2 chunkno then
          (.data dirty.data, v.setDirty chunkno ⟨dirty.data, fullMask⟩)
        else if wanted &&& ~~~dirty.mask = 0#16 then (.data dirty.data, v)
        else (.coldMiss, v)

def loadClean (v : DoVfs) (chunkno : ℕ) (wanted : PageMask) : Loaded × DoVfs :=
  match v.lookupLocal chunkno with
  | (none, v) =>
      if v.inR2 chunkno then (.coldMiss, v) else (.sparse, v)
  | (some chunk, v) =>
      if chunk.mask = fullMask then (.data chunk.data, v)
      else if v.inR2 chunkno then
        if wanted &&& ~~~chunk.mask = 0#16 then (.data chunk.data, v)
        else (.coldMiss, v)
      else
        (.data chunk.data, v.withCache (v.cache.set chunkno chunk.data))

def loadChunk (v : DoVfs) (chunkno : ℕ) (wanted : PageMask) : Loaded × DoVfs :=
  match v.file.dirty.get? chunkno with
  | some dirty => v.loadDirty chunkno wanted dirty
  | none => v.loadClean chunkno wanted

def dirtyChunk (v : DoVfs) (chunkno : ℕ) : MaskedChunk × DoVfs :=
  match v.file.dirty.get? chunkno with
  | some chunk => (chunk, v)
  | none =>
      match v.lookupLocal chunkno with
      | (some image, v) =>
          (image, (v.setBase chunkno (.chunk image)).setDirty chunkno image)
      | (none, v) =>
          let cold := v.inR2 chunkno
          let chunk : MaskedChunk :=
            ⟨zeroBytes, if cold then 0#16 else fullMask⟩
          (chunk,
            (v.setBase chunkno (if cold then .cold else .sparse)).setDirty
              chunkno chunk)

/-- The bytes of the request once the round filled its part. -/
def Span.fill (span : Span) (out chunk : Bytes) : Bytes := fun p =>
  if span.done ≤ p ∧ p < span.done + span.n then
    chunk (span.inChunk + (p - span.done))
  else out p

/-- `false` when a chunk of the request is a cold miss. -/
def readSpans : List Span → Bytes → DoVfs → Bool × Bytes × DoVfs
  | [], out, v => (true, out, v)
  | span :: rest, out, v =>
      match v.loadChunk span.chunkno (pagesOf span.inChunk span.n) with
      | (.data chunk, v) => readSpans rest (Span.fill span out chunk) v
      | (.sparse, v) => readSpans rest (Span.fill span out zeroBytes) v
      | (.coldMiss, v) =>
          (false, out, { v with
              misses :=
                if span.chunkno ∈ v.misses then v.misses
                else v.misses ++ [span.chunkno] })

structure ReadAnswer where
  code : SqliteCode
  data : Bytes

/-- `xRead` of `want` bytes; `pData` is what the caller's buffer held. -/
def xRead (v : DoVfs) (pData : Bytes) (iOffset want : ℕ) :
    ReadAnswer × DoVfs :=
  let available := want ⊓ (v.file.size - iOffset)
  match readSpans (spans iOffset available) pData v with
  | (false, out, v) => (⟨.ioerrRead, out⟩, v)
  | (true, out, v) =>
      if available < want then
        (⟨.shortRead, fun p => if available ≤ p then 0 else out p⟩, v)
      else (⟨.ok, out⟩, v)

/-- Overwrite bytes `[inChunk, inChunk + n)` with the request's bytes from
`done` on. -/
def Span.splice (span : Span) (chunk pData : Bytes) : Bytes := fun p =>
  if span.inChunk ≤ p ∧ p < span.inChunk + span.n then
    pData (span.done + (p - span.inChunk))
  else chunk p

/-- One round of the write loop; `false` when it throws. -/
def writeSpan (v : DoVfs) (pData : Bytes) (span : Span) : Bool × DoVfs :=
  let (chunk, v) := v.dirtyChunk span.chunkno
  let data := Span.splice span chunk.data pData
  if chunk.mask = fullMask then
    (true, v.setDirty span.chunkno ⟨data, fullMask⟩)
  else if span.inChunk % vfsPageSize ≠ 0 ∨ span.n % vfsPageSize ≠ 0 then
    (false, v.setDirty span.chunkno ⟨data, chunk.mask⟩)
  else
    (true, v.setDirty span.chunkno ⟨data,
          markPages chunk.mask (span.inChunk / vfsPageSize)
            ((span.inChunk + span.n) / vfsPageSize)⟩)

def writeSpans : List Span → Bytes → DoVfs → Bool × DoVfs
  | [], _, v => (true, v)
  | span :: rest, pData, v =>
      match v.writeSpan pData span with
      | (true, v) => writeSpans rest pData v
      | (false, v) => (false, v)

def growTo (v : DoVfs) (bound : ℕ) : DoVfs :=
  if v.file.size < bound then
    v.modifyFile fun file => { file with size := bound, sizeDirty := true }
  else v

def shadowDirtyPreImage (file : PersistentFile) (snapshot : SnapshotState)
    (chunkno : ℕ) : SnapshotState :=
  if snapshot.totalChunks ≤ chunkno ∨ snapshot.shadow.has chunkno then
    snapshot
  else
    let image : MaskedChunk :=
      match file.base.get? chunkno with
      | none => ⟨zeroBytes, fullMask⟩
      | some .sparse => ⟨zeroBytes, fullMask⟩
      | some .cold => ⟨zeroBytes, 0#16⟩
      | some (.chunk image) => image
    { snapshot with shadow := snapshot.shadow.set chunkno image }

def shadowStoredPreImage (rows : ℕ → Option MaskedChunk)
    (state : SnapshotState × ChunkCache) (chunkno : ℕ) :
    SnapshotState × ChunkCache :=
  let (snapshot, cache) := state
  if snapshot.totalChunks ≤ chunkno ∨ snapshot.shadow.has chunkno then
    (snapshot, cache)
  else
    let image : MaskedChunk :=
      match cache.entries.get? chunkno with
      | some cached => ⟨cached, fullMask⟩
      | none =>
          match rows chunkno with
          | some row => row
          | none => ⟨zeroBytes, 0#16⟩
    ({ snapshot with shadow := snapshot.shadow.set chunkno image },
      cache.refresh chunkno)

/-- The dirty chunks in the order the flush writes them. -/
def sortedDirty (file : PersistentFile) : List (ℕ × MaskedChunk) :=
  file.dirty.entries.insertionSort fun a b => a.1 ≤ b.1

/-- Pin the pre-image of everything the flush overwrites or deletes. -/
def shadowPreImages (v : DoVfs) (snapshot : SnapshotState) :
    SnapshotState × ChunkCache :=
  let snapshot :=
    ((sortedDirty v.file).map Prod.fst).foldl (shadowDirtyPreImage v.file)
      snapshot
  match v.file.truncateToPages with
  | none => (snapshot, v.cache)
  | some keepPages =>
      (List.range' (chunkFloor keepPages)
          (snapshot.totalChunks - chunkFloor keepPages)).foldl
        (shadowStoredPreImage v.storage.rows) (snapshot, v.cache)

def shadowed (v : DoVfs) : DoVfs :=
  match v.snapshot with
  | none => v
  | some snapshot =>
      let (snapshot, cache) := v.shadowPreImages snapshot
      { v with snapshot := some snapshot, cache := cache }

def upsertChunks (rows : ℕ → Option MaskedChunk)
    (chunks : List (ℕ × MaskedChunk)) : ℕ → Option MaskedChunk :=
  chunks.foldl (fun rows chunk => Function.update rows chunk.1 (some chunk.2))
    rows

def deleteFrom (rows : ℕ → Option MaskedChunk) (keepChunks : ℕ) :
    ℕ → Option MaskedChunk :=
  fun chunkno => if keepChunks ≤ chunkno then none else rows chunkno

/-- The storage transaction of a flush. -/
def commitFlush (v : DoVfs) : DoVfs :=
  match v.file.truncateToPages with
  | none =>
      { v with
        storage := { v.storage with
            size := v.file.size
            gen := v.storage.gen + 1
            rows := upsertChunks v.storage.rows (sortedDirty v.file) } }
  | some keepPages =>
      let (tierRows, tier, _) :=
        truncate v.storage.tier v.tier (chunkFloor keepPages)
      { v with
        storage :=
          { size := v.file.size
            gen := v.storage.gen + 1
            rows :=
              upsertChunks (deleteFrom v.storage.rows (chunkFloor keepPages))
                (sortedDirty v.file)
            tier := tierRows }
        tier := tier
        layoutEpoch := v.layoutEpoch + 1 }

/-- What a flush does to the cache and the pins for one written chunk. -/
def refreshWritten (v : DoVfs) (written : ℕ × MaskedChunk) : DoVfs :=
  let (chunkno, chunk) := written
  { v with
    cache :=
      if chunk.mask = fullMask then v.cache.set chunkno chunk.data
      else v.cache.dropChunk chunkno
    pinned :=
      if v.pinned.has chunkno then
        if chunk.mask = fullMask then v.pinned.set chunkno chunk.data
        else v.pinned.delete chunkno
      else v.pinned
    file := { v.file with
        tierWrittenSince := v.file.tierWrittenSince.map fun written =>
          if chunkno ∈ written then written else written ++ [chunkno] } }

def clearPending (file : PersistentFile) : PersistentFile := { file with
    gen := file.gen + 1
    dirty := OrderedMap.empty
    base := OrderedMap.empty
    truncateToPages := none
    sizeDirty := false }

def flushIdle (v : DoVfs) : Bool :=
  v.file.dirty.entries.isEmpty && v.file.truncateToPages.isNone &&
    !v.file.sizeDirty

def flush (v : DoVfs) : DoVfs :=
  if v.flushIdle then v
  else
    ((sortedDirty v.file).foldl refreshWritten
      v.shadowed.commitFlush).modifyFile clearPending

/-- A flush whose transaction throws: `touched` are the segments the
truncation of the map had reached. -/
def flushRollsBack (v : DoVfs) (touched : ℕ → Bool) : DoVfs :=
  if v.flushIdle then v
  else
    match v.file.truncateToPages with
    | none => v.shadowed
    | some keepPages =>
        { v.shadowed with
          tier := { v.tier with
              segments := truncateTouched touched v.tier.segments
                  (chunkFloor keepPages) } }

def spillFlush (v : DoVfs) : DoVfs :=
  if v.file.spill && decide (spillChunks ≤ v.file.dirty.size) then v.flush
  else v

/-- `xWrite` of `length` bytes. -/
def xWrite (v : DoVfs) (pData : Bytes) (iOffset length : ℕ) :
    SqliteCode × DoVfs :=
  match writeSpans (spans iOffset length) pData v with
  | (true, v) => (.ok, (v.growTo (iOffset + length)).spillFlush)
  | (false, v) => (.ioerrWrite, v)

def dropPast (v : DoVfs) (keepChunks : ℕ) : DoVfs := { v with
    file := { v.file with
        dirty := v.file.dirty.filter fun chunkno _ =>
          decide (chunkno < keepChunks)
        base := v.file.base.filter fun chunkno _ =>
          decide (chunkno < keepChunks) }
    cache := v.cache.dropFrom keepChunks
    pinned := v.pinned.filter fun chunkno _ => decide (chunkno < keepChunks) }

def noteTruncation (v : DoVfs) (keepPages iSize : ℕ) : DoVfs :=
  v.modifyFile fun file =>
    { file with
      truncateToPages :=
        match file.truncateToPages with
        | none => some keepPages
        | some pending => some (pending ⊓ keepPages)
      size := iSize
      sizeDirty := true }

/-- Zero the bytes of the last surviving chunk from `tail` on; `false` when
the truncation throws. -/
def zeroTail (v : DoVfs) (chunkno tail : ℕ) : Bool × DoVfs :=
  let (chunk, v) := v.dirtyChunk chunkno
  let data : Bytes := fun p => if tail ≤ p then 0 else chunk.data p
  if chunk.mask = fullMask then
    (true, v.setDirty chunkno ⟨data, fullMask⟩)
  else if tail % vfsPageSize ≠ 0 then
    (false, v.setDirty chunkno ⟨data, chunk.mask⟩)
  else
    (true, v.setDirty chunkno
        ⟨data, markPages chunk.mask (tail / vfsPageSize) pagesPerChunk⟩)

def xTruncate (v : DoVfs) (iSize : ℕ) : SqliteCode × DoVfs :=
  if v.file.size ≤ iSize then (.ok, v)
  else
    let keepPages := ceilDiv iSize vfsPageSize
    let keepChunks := ceilDiv keepPages pagesPerChunk
    let v := (v.dropPast keepChunks).noteTruncation keepPages iSize
    let tail := iSize - (keepChunks - 1) * chunkSize
    if 0 < keepChunks ∧ tail < chunkSize then
      match v.zeroTail (keepChunks - 1) tail with
      | (true, v) => (.ok, v)
      | (false, v) => (.ioerrTruncate, v)
    else (.ok, v)

def xLock (v : DoVfs) (lock : ℕ) : DoVfs :=
  v.modifyFile fun file => { file with lock := lock }

def xSync (v : DoVfs) : DoVfs := v.flush

def releasesExclusive (v : DoVfs) (lock : ℕ) : Bool :=
  decide (lockExclusive ≤ v.file.lock) && decide (lock < lockExclusive)

def xUnlock (v : DoVfs) (lock : ℕ) : DoVfs :=
  if v.releasesExclusive lock then (v.xLock lock).flush else v.xLock lock

/-- A resolve has something to pin: a partial row, or a slot without row. -/
def pinnable (v : DoVfs) (chunkno : ℕ) : Bool :=
  match v.storage.rows chunkno with
  | some row => decide (row.mask ≠ fullMask)
  | none => v.inR2 chunkno

def fetchedSlot (v : DoVfs) (seg : Option Bytes) (chunkno : ℕ) : Bytes :=
  match seg with
  | none => zeroBytes
  | some seg => if v.inR2 chunkno then slotSlice seg chunkno else zeroBytes

/-- The hot row pages over the fetched slot. -/
def pinImage (v : DoVfs) (seg : Option Bytes) (chunkno : ℕ) : Bytes :=
  overRow (v.storage.rows chunkno) (v.fetchedSlot seg chunkno)

/-- Add the pin of one chunk of a fetched segment; `none` when the pin budget
is spent. -/
def pinChunk (v : DoVfs) (seg : Option Bytes) (chunkno : ℕ) : Option DoVfs :=
  if v.pinned.has chunkno || !v.pinnable chunkno then some v
  else if v.missPinBytes < v.pinned.size * chunkSize + chunkSize then none
  else
    some { v with pinned := v.pinned.set chunkno (v.pinImage seg chunkno) }

/-- Pin the chunks in order; `false` when one of them throws. -/
def pinChunks (seg : Option Bytes) : List ℕ → DoVfs → Bool × DoVfs
  | [], v => (true, v)
  | chunkno :: rest, v =>
      match v.pinChunk seg chunkno with
      | some v => pinChunks seg rest v
      | none => (false, v)

/-- The chunks of a segment below `totalChunks`. -/
def segmentRange (totalChunks segno : ℕ) : List ℕ :=
  List.range' (segno * segmentChunks)
    (totalChunks ⊓ (segno * segmentChunks + segmentChunks) -
      segno * segmentChunks)

/-- The object the map points at: `none` when the GET throws, `some none`
when the map has no slot of the segment. -/
def currentSegment (v : DoVfs) (segno : ℕ) (reached : Bool) :
    Option (Option Bytes) :=
  match v.tier.segments.get? segno with
  | none => some none
  | some entry =>
      if entry.mask = 0#16 then some none
      else if reached then (v.bucket segno entry.gen).map some
      else none

/-- The part of a resolve that belongs to one segment; `false` when it
throws. -/
def resolveSegment (v : DoVfs) (totalChunks segno : ℕ) (reached : Bool) :
    Bool × DoVfs :=
  let chunks := segmentRange totalChunks segno
  if chunks.any fun chunkno =>
      !v.pinned.has chunkno && v.inR2 chunkno then
    match v.currentSegment segno reached with
    | none => (false, v)
    | some seg => pinChunks seg chunks v
  else (true, v)

def resolveSegments (totalChunks : ℕ) (reached : ℕ → Bool) :
    List ℕ → DoVfs → Bool × DoVfs
  | [], v => (true, v)
  | segno :: rest, v =>
      match v.resolveSegment totalChunks segno (reached segno) with
      | (true, v) => resolveSegments totalChunks reached rest v
      | (false, v) => (false, v)

/-- The segments of the missed chunks, each with its read-ahead. -/
def missedSegments (v : DoVfs) : List ℕ :=
  let lastSegment := segmentOf (chunksOf v.file.size - 1)
  (v.misses.flatMap fun chunkno =>
    let segno := segmentOf chunkno
    if segno + 1 ≤ lastSegment then [segno, segno + 1]
    else [segno]).eraseDups

/-- `resolveMisses`; `reached` says which segments the bucket answers for. -/
def resolveMisses (v : DoVfs) (reached : ℕ → Bool) : Bool × DoVfs :=
  if v.misses = [] then (true, v)
  else
    resolveSegments (chunksOf v.file.size) reached v.missedSegments
      { v with misses := [] }

def clearMisses (v : DoVfs) : DoVfs := { v with misses := [] }

def releasePins (v : DoVfs) : DoVfs := { v with
    cache := v.pinned.entries.foldl
      (fun cache pin => cache.set pin.1 pin.2) v.cache
    pinned := OrderedMap.empty }

end DoVfs
end QiForge
