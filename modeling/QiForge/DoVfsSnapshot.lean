import QiForge.TierEviction

/-!
# Streams of an open snapshot

A snapshot shadows the pre-image of what later flushes overwrite, and its
streams read window by window: the stored rows of a window are taken when it
is pulled, its chunks are put together later, one after the other, from the
shadow of that moment, the rows taken and the segment map of the snapshot.
Writes, truncations, flushes that commit or roll back, resolves and attempts
to evict or materialize run between any two of these steps.
-/

namespace QiForge

open PageTier

def snapshotWindowChunks : ℕ := 16

/-- A window in the making; `out` holds its chunks below `next`. -/
structure SnapshotWindow where
  start : ℕ
  stop : ℕ
  rows : ℕ → Option MaskedChunk
  segmentBytes : OrderedMap ℕ Bytes
  next : ℕ
  out : Bytes

structure SnapshotStream where
  cursor : ℕ
  window : Option SnapshotWindow
  length : ℕ
  out : Bytes

structure SnapshotMachine where
  vfs : DoVfs
  streams : ℕ → Option SnapshotStream

/-- What happens to the file while streams are read.  `touched` are the
segments an abandoned transaction had reached. -/
inductive VfsEvent where
  | write (pData : Bytes) (iOffset length : ℕ)
  | writeSpillFails (pData : Bytes) (iOffset length : ℕ) (touched : ℕ → Bool)
  | truncate (iSize : ℕ)
  | read (pData : Bytes) (iOffset want : ℕ)
  | lock (lock : ℕ)
  | unlock (lock : ℕ)
  | unlockFails (lock : ℕ) (touched : ℕ → Bool)
  | sync
  | syncFails (touched : ℕ → Bool)
  | resolve (reached : ℕ → Bool)
  | releasePins
  | clearMisses
  | evict (chunkno : ℕ)
  | configureCache (capacity : ℕ)
  | tierFlush (recent : ℕ → Bool) (force : Bool) (cap : ℕ)
  | materialize (reached : ℕ → Bool)

inductive SnapshotEvent where
  | vfs (e : VfsEvent)
  | open (stream : ℕ)
  | pull (stream : ℕ)
  | place (stream : ℕ) (reached : Bool)
  | enqueue (stream : ℕ)

namespace DoVfs

def spillFlushFails (v : DoVfs) (touched : ℕ → Bool) : DoVfs :=
  if v.file.spill && decide (spillChunks ≤ v.file.dirty.size) then
    v.flushRollsBack touched
  else v

/-- A write whose spill flush, if one is due, throws. -/
def xWriteSpillFails (v : DoVfs) (pData : Bytes) (iOffset length : ℕ)
    (touched : ℕ → Bool) : DoVfs :=
  match writeSpans (spans iOffset length) pData v with
  | (true, v) => (v.growTo (iOffset + length)).spillFlushFails touched
  | (false, v) => v

def xUnlockFails (v : DoVfs) (lock : ℕ) (touched : ℕ → Bool) : DoVfs :=
  if v.releasesExclusive lock then (v.xLock lock).flushRollsBack touched
  else v.xLock lock

/-- The full rows `materialize` writes for one fetched segment. -/
def materializedRows (v : DoVfs) (segno : ℕ) (entry : SegmentEntry)
    (seg : Bytes) : ℕ → Option MaskedChunk := fun chunkno =>
  if chunkno ∈ segmentRange (chunksOf v.file.size) segno then
    let slot :=
      if entry.mask.getLsbD (slotOf chunkno) then slotSlice seg chunkno
      else zeroBytes
    match v.storage.rows chunkno with
    | some row =>
        if row.mask = fullMask then some row
        else some ⟨placeMasked slot row.data row.mask, fullMask⟩
    | none =>
        if entry.mask.getLsbD (slotOf chunkno) then some ⟨slot, fullMask⟩
        else none
  else v.storage.rows chunkno

/-- Bring the mapped segments back one by one; `false` when a GET throws. -/
def materializeSegments (reached : ℕ → Bool) :
    List (ℕ × SegmentEntry) → DoVfs → Bool × DoVfs
  | [], v => (true, v)
  | (segno, entry) :: rest, v =>
      if entry.mask = 0#16 then materializeSegments reached rest v
      else
        match v.bucket segno entry.gen with
        | none => (false, v)
        | some seg =>
            if reached segno then
              materializeSegments reached rest { v with
                  storage := { v.storage with
                      rows := v.materializedRows segno entry seg } }
            else (false, v)

def materialize (v : DoVfs) (reached : ℕ → Bool) : Bool × DoVfs :=
  if v.snapshot.isSome then (false, v)
  else
    let v := v.flush
    match materializeSegments reached v.tier.segments.entries v with
    | (false, v) => (false, v)
    | (true, v) =>
        let (tierRows, tier, _) := dropFile v.storage.tier v.tier
        (true, { v with
            storage := { v.storage with tier := tierRows }
            tier := tier
            layoutEpoch := v.layoutEpoch + 1
            cache := { v.cache with entries := OrderedMap.empty } })

def tierFlushAttempt (v : DoVfs) (recent : ℕ → Bool) (force : Bool)
    (cap : ℕ) : DoVfs :=
  match v.planTierPass recent force cap with
  | none => v
  | some (_, v) => v

def respond (v : DoVfs) : VfsEvent → DoVfs
  | .write pData iOffset length => (v.xWrite pData iOffset length).2
  | .writeSpillFails pData iOffset length touched =>
      v.xWriteSpillFails pData iOffset length touched
  | .truncate iSize => (v.xTruncate iSize).2
  | .read pData iOffset want => (v.xRead pData iOffset want).2
  | .lock lock => v.xLock lock
  | .unlock lock => v.xUnlock lock
  | .unlockFails lock touched => v.xUnlockFails lock touched
  | .sync => v.xSync
  | .syncFails touched => v.flushRollsBack touched
  | .resolve reached => (v.resolveMisses reached).2
  | .releasePins => v.releasePins
  | .clearMisses => v.clearMisses
  | .evict chunkno => v.withCache (v.cache.dropChunk chunkno)
  | .configureCache capacity => v.withCache (v.cache.setCapacity capacity)
  | .tierFlush recent force cap => v.tierFlushAttempt recent force cap
  | .materialize reached => (v.materialize reached).2

end DoVfs

def SnapshotStream.opened : SnapshotStream where
  cursor := 0
  window := none
  length := 0
  out := zeroBytes

namespace SnapshotState

def byteEnd (s : SnapshotState) (chunkno : ℕ) : ℕ :=
  s.size ⊓ (chunkno * chunkSize)

end SnapshotState

namespace SnapshotWindow

/-- A window starts with the rows as stored when it is pulled. -/
def taken (rows : ℕ → Option MaskedChunk) (start stop : ℕ) :
    SnapshotWindow where
  start := start
  stop := stop
  rows := fun chunkno =>
    if start ≤ chunkno ∧ chunkno < stop then rows chunkno else none
  segmentBytes := OrderedMap.empty
  next := start
  out := zeroBytes

/-- The slot of a chunk with the segments fetched so far; `none` when the
GET throws. -/
def slotBytes (w : SnapshotWindow) (segments : SegmentMap) (bucket : Bucket)
    (chunkno : ℕ) (reached : Bool) :
    Option (Option Bytes × OrderedMap ℕ Bytes) :=
  let segno := segmentOf chunkno
  match segments.get? segno with
  | none => some (none, w.segmentBytes)
  | some entry =>
      if entry.mask.getLsbD (slotOf chunkno) then
        match w.segmentBytes.get? segno with
        | some seg => some (some (slotSlice seg chunkno), w.segmentBytes)
        | none =>
            if reached then
              (bucket segno entry.gen).map fun seg =>
                (some (slotSlice seg chunkno), w.segmentBytes.set segno seg)
            else none
      else some (none, w.segmentBytes)

def placeChunk (w : SnapshotWindow) (chunk : Bytes) : SnapshotWindow :=
  let offset := w.next * chunkSize - w.start * chunkSize
  { w with
    next := w.next + 1
    out := fun p =>
      if offset ≤ p ∧ p < offset + chunkSize then chunk (p - offset)
      else w.out p }

/-- One round of the window loop: a pre-image wins, then the row, then the
slot, else zeros. -/
def place (w : SnapshotWindow) (s : SnapshotState) (bucket : Bucket)
    (reached : Bool) : Option SnapshotWindow :=
  let image := (s.shadow.get? w.next).or (w.rows w.next)
  let mask :=
    match image with
    | none => 0#16
    | some image => image.mask
  let hot := overRow image zeroBytes
  if mask = fullMask then some (w.placeChunk hot)
  else
    match w.slotBytes s.segments bucket w.next reached with
    | none => none
    | some (none, _) => some (w.placeChunk hot)
    | some (some cold, segmentBytes) =>
        some ({ w with segmentBytes := segmentBytes }.placeChunk
            (placeMasked hot cold (~~~mask)))

end SnapshotWindow

namespace SnapshotStream

/-- The next window, up to sixteen chunks of what is left. -/
def pull (stream : SnapshotStream) (s : SnapshotState)
    (rows : ℕ → Option MaskedChunk) : SnapshotStream :=
  if s.totalChunks ≤ stream.cursor then stream
  else
    { stream with
      window := some (SnapshotWindow.taken rows stream.cursor
            (s.totalChunks ⊓ (stream.cursor + snapshotWindowChunks))) }

/-- Hand the finished window to the consumer, cut at the file's size. -/
def enqueue (stream : SnapshotStream) (s : SnapshotState)
    (w : SnapshotWindow) : SnapshotStream where
  cursor := w.stop
  window := none
  length := stream.length + (s.byteEnd w.stop - w.start * chunkSize)
  out := fun p =>
    if p < stream.length then stream.out p else w.out (p - stream.length)

end SnapshotStream

namespace SnapshotMachine

def setStream (m : SnapshotMachine) (i : ℕ)
    (stream : Option SnapshotStream) : SnapshotMachine :=
  { m with streams := Function.update m.streams i stream }

def step (m : SnapshotMachine) : SnapshotEvent → Option SnapshotMachine
  | .vfs e => some { m with vfs := m.vfs.respond e }
  | .open i =>
      match m.streams i with
      | some _ => none
      | none => some (m.setStream i (some SnapshotStream.opened))
  | .pull i =>
      match m.vfs.snapshot, m.streams i with
      | some s, some stream =>
          if stream.window.isSome then none
          else
            some (m.setStream i (some (stream.pull s m.vfs.storage.rows)))
      | _, _ => none
  | .place i reached =>
      match m.vfs.snapshot, m.streams i with
      | some s, some stream =>
          match stream.window with
          | none => none
          | some w =>
              if w.next < w.stop then
                some (m.setStream i
                  ((w.place s m.vfs.bucket reached).map fun w =>
                    { stream with window := some w }))
              else none
      | _, _ => none
  | .enqueue i =>
      match m.vfs.snapshot, m.streams i with
      | some s, some stream =>
          match stream.window with
          | none => none
          | some w =>
              if w.next = w.stop then
                some (m.setStream i (some (stream.enqueue s w)))
              else none
      | _, _ => none

end SnapshotMachine
end QiForge
