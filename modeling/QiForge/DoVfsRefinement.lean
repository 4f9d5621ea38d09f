import QiForge.Transition
import QiForge.DoVfsWrites
import QiForge.DoVfsResolve

/-!
# The file refines a flat byte array

The reference is a byte array whose growth zero-fills.  Every event of the
synchronous path keeps the relation `Refines`, except a resolve that runs
while a truncation is pending and pins a chunk past it: the map still claims
the truncated slot, and the pin then hides the zeros a later grow has to read.
-/

namespace QiForge

open PageTier

structure FlatFile where
  size : ℕ
  bytes : Bytes
  zeroPast : ∀ p, size ≤ p → bytes p = 0

namespace FlatFile

def write (f : FlatFile) (offset length : ℕ) (data : Bytes) : FlatFile where
  size := f.size ⊔ (offset + length)
  bytes := overwrite f.bytes offset length data
  zeroPast := by
    intro p hp
    have hboth := sup_le_iff.mp hp
    unfold overwrite
    rw [if_neg (by omega)]
    exact f.zeroPast p hboth.1

def truncate (f : FlatFile) (iSize : ℕ) : FlatFile :=
  if f.size ≤ iSize then f
  else
    { size := iSize
      bytes := cutAt f.bytes iSize
      zeroPast := fun _ hp => if_neg (Nat.not_lt.mpr hp) }

end FlatFile

/-- SQLite writes its main database in whole pages. -/
structure PageWrite where
  offset : ℕ
  length : ℕ
  data : Bytes
  offset_aligned : offset % vfsPageSize = 0
  length_aligned : length % vfsPageSize = 0

structure PageSize where
  size : ℕ
  aligned : size % vfsPageSize = 0

inductive FileEvent where
  | write (request : PageWrite)
  | truncate (iSize : PageSize)
  | read (pData : Bytes) (iOffset want : ℕ)
  | lock (lock : ℕ)
  | unlock (lock : ℕ)
  | sync
  | resolve (reached : ℕ → Bool)
  | releasePins
  | clearMisses
  | evict (chunkno : ℕ)
  | configureCache (capacity : ℕ)

namespace DoVfs

def react (v : DoVfs) : FileEvent → DoVfs
  | .write request =>
      (v.xWrite request.data request.offset request.length).2
  | .truncate iSize => (v.xTruncate iSize.size).2
  | .read pData iOffset want => (v.xRead pData iOffset want).2
  | .lock lock => v.xLock lock
  | .unlock lock => v.xUnlock lock
  | .sync => v.xSync
  | .resolve reached => (v.resolveMisses reached).2
  | .releasePins => v.releasePins
  | .clearMisses => v.clearMisses
  | .evict chunkno => v.withCache (v.cache.dropChunk chunkno)
  | .configureCache capacity => v.withCache (v.cache.setCapacity capacity)

def step (v : DoVfs) (e : FileEvent) : Option DoVfs := some (v.react e)

def applyFlat (ref : FlatFile) : FileEvent → FlatFile
  | .write request => ref.write request.offset request.length request.data
  | .truncate iSize => ref.truncate iSize.size
  | _ => ref

/-- The events that end in a flush of the file. -/
def flushes (v : DoVfs) : FileEvent → Bool
  | .sync => true
  | .unlock lock => v.releasesExclusive lock
  | _ => false

/-- No resolve pins a chunk past a pending truncation. -/
def ResolveKept (v : DoVfs) : FileEvent → Prop
  | .resolve reached => v.resolvesTruncated reached = false
  | _ => True

instance ResolveKept.decidable (v : DoVfs) :
    (e : FileEvent) → Decidable (v.ResolveKept e)
  | .resolve reached =>
      inferInstanceAs (Decidable (v.resolvesTruncated reached = false))
  | .write _ | .truncate _ | .read _ _ _ | .lock _ | .unlock _ | .sync
  | .releasePins | .clearMisses | .evict _ | .configureCache _ =>
      isTrue trivial

structure Refines (v : DoVfs) (ref : FlatFile) : Prop where
  coherent : v.Coherent ref.bytes
  inSync : v.InSync
  size : v.file.size = ref.size
  storedSize : v.file.sizeDirty = false → v.storage.size = v.file.size

variable {v : DoVfs} {ref : FlatFile}

/-- A file just opened refines the effective content of its storage. -/
theorem opened_refines {storage : Storage} {bucket : Bucket}
    (hstored : ∀ chunkno,
      Agree (effective storage.rows storage.tier.segments bucket chunkno)
        (chunkOf ref.bytes chunkno))
    (hblank : ∀ chunkno row, storage.rows chunkno = some row → row.Blank)
    (hsize : storage.size = ref.size) (spill : Bool)
    (capacity missPinBytes : ℕ) :
    (opened storage bucket spill capacity missPinBytes).Refines ref where
  size := hsize
  storedSize := fun _ => rfl
  inSync := fun _ => rfl
  coherent := by
    refine ⟨?_, OrderedMap.all_empty _, OrderedMap.all_empty _, hblank,
      OrderedMap.all_empty _⟩
    intro chunkno
    rw [view_of_clean rfl, cleanView_of_kept rfl]
    exact hstored chunkno

theorem Refines.flush (h : v.Refines ref) : v.flush.Refines ref where
  coherent := h.coherent.flush.coherent
  inSync := h.inSync.flush
  size := v.flush_size.trans h.size
  storedSize := by
    intro _
    rw [v.flush_size]
    exact v.flush_storedSize h.storedSize

/-- A page-aligned write never throws. -/
theorem Refines.writeGrown (h : v.Refines ref) (request : PageWrite) :
    ∃ v', writeSpans (spans request.offset request.length) request.data v =
        (true, v') ∧ WritesDiffer v v' ∧
      (v'.growTo (request.offset + request.length)).Refines
        (ref.write request.offset request.length request.data) := by
  have haligned := spansFrom_aligned request.offset_aligned
    request.length_aligned request.length 0 (Nat.zero_mod _)
  rcases h.coherent.writeSpans
      (tiles_spans request.offset request.length) haligned request.data with
    ⟨hcompleted, hcoherent⟩
  have hwrites := writeSpans_writes (spans request.offset request.length)
    request.data v
  have hbytes : overwrite ref.bytes (request.offset + 0)
      (request.length - 0) (fun p => request.data (0 + p)) =
      (ref.write request.offset request.length request.data).bytes := by
    simp [FlatFile.write]
  rw [hbytes] at hcoherent
  cases hwrite : writeSpans (spans request.offset request.length)
      request.data v with
  | mk completed v' =>
      rw [hwrite] at hcompleted hcoherent hwrites
      dsimp only at hcompleted hcoherent
      subst hcompleted
      refine ⟨v', rfl, hwrites, ?_⟩
      rcases hwrites with ⟨cache, dirty, base, rfl⟩
      refine ⟨hcoherent.growTo _, ?_, ?_, ?_⟩
      · unfold DoVfs.growTo
        split_ifs
        · exact h.inSync
        · exact h.inSync
      · rw [growTo_size, h.size]
        rfl
      · unfold DoVfs.growTo
        split_ifs
        · intro hclean
          exact absurd hclean Bool.noConfusion
        · exact h.storedSize

theorem Refines.write (h : v.Refines ref) (request : PageWrite) :
    (v.xWrite request.data request.offset request.length).1 = .ok ∧
      (v.xWrite request.data request.offset request.length).2.Refines
        (ref.write request.offset request.length request.data) := by
  rcases h.writeGrown request with ⟨v', hwrite, -, hgrown⟩
  unfold xWrite
  rw [hwrite]
  refine ⟨rfl, ?_⟩
  change (DoVfs.spillFlush _).Refines _
  unfold DoVfs.spillFlush
  split_ifs
  · exact hgrown.flush
  · exact hgrown

/-- Where the last surviving chunk of a truncated file ends. -/
theorem truncatedTail {iSize keepChunks : ℕ}
    (hkeep : keepChunks = ceilDiv (ceilDiv iSize vfsPageSize) pagesPerChunk)
    (haligned : iSize % vfsPageSize = 0) :
    (keepChunks = 0 → iSize = 0) ∧ (0 < keepChunks →
        (keepChunks - 1) * chunkSize < iSize ∧
          iSize ≤ keepChunks * chunkSize) := by
  unfold ceilDiv at hkeep
  unfold chunkSize
  unfold vfsPageSize pagesPerChunk at *
  omega

theorem Refines.truncate (h : v.Refines ref) (iSize : PageSize) :
    (v.xTruncate iSize.size).1 = .ok ∧
      (v.xTruncate iSize.size).2.Refines (ref.truncate iSize.size) := by
  unfold xTruncate FlatFile.truncate
  rw [h.size]
  split_ifs with hgrow
  · exact ⟨rfl, h⟩
  · dsimp only
    generalize hkeep :
      ceilDiv (ceilDiv iSize.size vfsPageSize) pagesPerChunk = keepChunks
    rcases truncatedTail hkeep.symm iSize.aligned with ⟨hzero, hpos⟩
    have hdropped := h.coherent.dropPast iSize.size hkeep.symm
    by_cases htail : 0 < keepChunks ∧
        iSize.size - (keepChunks - 1) * chunkSize < chunkSize
    · rw [if_pos htail]
      have hlast := hpos htail.1
      have hmod : (iSize.size - (keepChunks - 1) * chunkSize) %
          vfsPageSize = 0 := by
        have haligned := iSize.aligned
        rw [chunkSize_eq] at *
        rw [vfsPageSize_eq] at *
        omega
      have hafter : ∀ p, (keepChunks - 1 + 1) * chunkSize ≤ p →
          cutAt ref.bytes (keepChunks * chunkSize) p = 0 := by
        intro p hp
        rw [Nat.sub_add_cancel htail.1] at hp
        exact if_neg (Nat.not_lt.mpr hp)
      rcases hdropped.zeroTail (keepChunks - 1) hmod hafter with
        ⟨hcompleted, hcoherent⟩
      have hwrites := zeroTail_writes ((v.dropPast keepChunks).noteTruncation
        (ceilDiv iSize.size vfsPageSize) iSize.size) (keepChunks - 1)
        (iSize.size - (keepChunks - 1) * chunkSize)
      have hbytes : cutAt (cutAt ref.bytes (keepChunks * chunkSize))
          ((keepChunks - 1) * chunkSize +
            (iSize.size - (keepChunks - 1) * chunkSize)) =
          cutAt ref.bytes iSize.size := by
        funext p
        unfold cutAt
        rw [Nat.add_sub_cancel' hlast.1.le]
        by_cases hp : p < iSize.size
        · rw [if_pos hp, if_pos hp, if_pos (by omega)]
        · rw [if_neg hp, if_neg hp]
      rw [hbytes] at hcoherent
      cases hzeroed : ((v.dropPast keepChunks).noteTruncation
          (ceilDiv iSize.size vfsPageSize) iSize.size).zeroTail
            (keepChunks - 1)
            (iSize.size - (keepChunks - 1) * chunkSize) with
      | mk completed v' =>
          rw [hzeroed] at hcompleted hcoherent hwrites
          dsimp only at hcompleted hcoherent
          subst hcompleted
          rcases hwrites with ⟨cache, dirty, base, rfl⟩
          exact ⟨rfl, hcoherent, h.inSync, rfl,
            fun hclean => absurd hclean Bool.noConfusion⟩
    · rw [if_neg htail]
      have hbytes : cutAt ref.bytes (keepChunks * chunkSize) =
          cutAt ref.bytes iSize.size := by
        have hend : keepChunks * chunkSize = iSize.size := by
          rw [chunkSize_eq] at *
          omega
        rw [hend]
      rw [hbytes] at hdropped
      exact ⟨rfl, hdropped, h.inSync, rfl,
        fun hclean => absurd hclean Bool.noConfusion⟩

theorem Refines.read (h : v.Refines ref) (pData : Bytes)
    (iOffset want : ℕ) : (v.xRead pData iOffset want).2.Refines ref := by
  have hdiffer := readSpans_differs
    (spans iOffset (want ⊓ (v.file.size - iOffset))) pData v
  have hcoherent := h.coherent.xRead_state pData iOffset want
  rw [xRead_state] at hcoherent ⊢
  refine ⟨hcoherent, ?_, ?_, ?_⟩
  · rcases hdiffer with ⟨cache, dirty, misses, heq⟩
    rw [heq]
    exact h.inSync
  · rcases hdiffer with ⟨cache, dirty, misses, heq⟩
    rw [heq]
    exact h.size
  · rcases hdiffer with ⟨cache, dirty, misses, heq⟩
    rw [heq]
    exact h.storedSize

theorem Refines.resolve {reached : ℕ → Bool} (h : v.Refines ref)
    (hsafe : v.resolvesTruncated reached = false) :
    (v.resolveMisses reached).2.Refines ref := by
  have hcoherent := h.coherent.resolveMisses hsafe
  rcases resolveMisses_pins v reached with ⟨pins, misses, heq⟩
  rw [heq] at hcoherent ⊢
  exact { h with coherent := hcoherent }

theorem Refines.withCache {cache : ChunkCache} (h : v.Refines ref)
    (hcache : cache.entries.All v.Clean) : (v.withCache cache).Refines ref :=
  { h with coherent := h.coherent.withCache hcache }

theorem Refines.xLock (h : v.Refines ref) (lock : ℕ) :
    (v.xLock lock).Refines ref := by
  have hc := h.coherent
  exact { h with coherent := { hc with } }

theorem Refines.xUnlock (h : v.Refines ref) (lock : ℕ) :
    (v.xUnlock lock).Refines ref := by
  unfold DoVfs.xUnlock
  split_ifs
  · exact (h.xLock lock).flush
  · exact h.xLock lock

theorem Refines.react {e : FileEvent} (h : v.Refines ref)
    (hkept : v.ResolveKept e) :
    (v.react e).Refines (applyFlat ref e) := by
  cases e with
  | write request => exact (h.write request).2
  | truncate iSize => exact (h.truncate iSize).2
  | read pData iOffset want => exact h.read pData iOffset want
  | lock lock => exact h.xLock lock
  | unlock lock => exact h.xUnlock lock
  | sync => exact h.flush
  | resolve reached => exact h.resolve hkept
  | releasePins => exact { h with coherent := h.coherent.releasePins }
  | clearMisses => exact { h with coherent := h.coherent.clearMisses }
  | evict chunkno =>
      exact h.withCache (OrderedMap.All.delete
        (h.coherent.cached.mono fun _ _ hclean _ => hclean))
  | configureCache capacity =>
      exact h.withCache (h.coherent.cached.dropOldest _)

theorem Refines.run {es : List FileEvent} {v' : DoVfs} (h : v.Refines ref)
    (hkept : Transition.Meets step ResolveKept v es)
    (hrun : Transition.run step v es = some v') :
    v'.Refines (es.foldl applyFlat ref) := by
  apply Transition.run_simulates (R := Refines) _ hkept h hrun
  intro s s' a e hs hcond hstep
  obtain rfl : s.react e = s' := by simpa [step] using hstep
  exact hs.react hcond

theorem Refines.durable_flush (h : v.Refines ref) :
    (∀ chunkno, Agree (v.flush.durable chunkno) (chunkOf ref.bytes chunkno)) ∧
      v.flush.storage.size = ref.size := by
  constructor
  · intro chunkno
    rw [h.inSync.flush.durable_eq]
    exact h.coherent.flush.stored chunkno
  · exact (v.flush_storedSize h.storedSize).trans h.size

theorem Refines.flushed {e : FileEvent} (h : v.Refines ref)
    (hflushes : v.flushes e = true) :
    (∀ chunkno, Agree ((v.react e).durable chunkno)
        (chunkOf ref.bytes chunkno)) ∧
      (v.react e).storage.size = ref.size := by
  cases e with
  | sync => exact h.durable_flush
  | unlock lock =>
      have hexclusive : v.react (.unlock lock) = (v.xLock lock).flush :=
        if_pos hflushes
      rw [hexclusive]
      exact (h.xLock lock).durable_flush
  | _ => exact absurd hflushes Bool.false_ne_true

/-- In a run whose resolves pin nothing past a pending truncation, a read
that is no recorded miss fills its buffer with the reference's bytes, and
after a flush durable storage and R2 alone spell the reference. -/
theorem reads_spell_reference {es : List FileEvent} {v' : DoVfs}
    (hstart : v.Refines ref)
    (hkept : Transition.Meets step ResolveKept v es)
    (hrun : Transition.run step v es = some v') :
    (∀ pData iOffset want, (v'.xRead pData iOffset want).1.code = .ok ∨
          (v'.xRead pData iOffset want).1.code = .shortRead →
        ∀ p, p < want → (v'.xRead pData iOffset want).1.data p =
            (es.foldl applyFlat ref).bytes (iOffset + p)) ∧
      ∀ e, v'.flushes e = true →
        (∀ chunkno, Agree ((v'.react e).durable chunkno)
            (chunkOf (es.foldl applyFlat ref).bytes chunkno)) ∧
          (v'.react e).storage.size = (es.foldl applyFlat ref).size := by
  have hend := hstart.run hkept hrun
  constructor
  · intro pData iOffset want hcode
    apply hend.coherent.xRead_data
    · rw [hend.size]
      exact (es.foldl applyFlat ref).zeroPast
    · rcases hcode with hcode | hcode <;> simp [hcode]
  · intro e hflushes
    exact hend.flushed hflushes

section ColdTail

/-- Two chunks: the first hot and blank, the second in R2 only, all 7. -/
def coldTailStorage : Storage where
  size := 2 * chunkSize
  gen := 0
  rows := fun chunkno =>
    if chunkno = 0 then some ⟨zeroBytes, fullMask⟩ else none
  tier :=
    { segments := OrderedMap.empty.set 0 ⟨1, 2#16⟩
      maxGen := some 1 }

def coldTailBucket : Bucket := fun segno gen =>
  if segno = 0 ∧ gen = 1 then some fun _ => 7 else none

def coldTail : DoVfs := opened coldTailStorage coldTailBucket false 64 67108864

def coldTailFile : FlatFile where
  size := 2 * chunkSize
  bytes := fun p => if chunkSize ≤ p ∧ p < 2 * chunkSize then 7 else 0
  zeroPast := fun p hp => if_neg (by omega)

theorem coldTail_refines : coldTail.Refines coldTailFile := by
  have hmask : ∀ slot < 16, slot ≠ 1 → (2#16).getLsbD slot = false := by
    decide
  apply opened_refines
  · intro chunkno offset hlt
    have hoffset : chunkno * chunkSize + offset < (chunkno + 1) * chunkSize :=
      by rw [Nat.add_one_mul]; omega
    rcases Nat.lt_trichotomy chunkno 1 with hzero | rfl | hbeyond
    · obtain rfl : chunkno = 0 := by omega
      have hrow : coldTailStorage.rows 0 = some ⟨zeroBytes, fullMask⟩ := rfl
      rw [effective_of_some hrow, placeMasked_fullMask _ _ offset hlt]
      exact (if_neg (by omega)).symm
    · have hslot : slotBytes coldTailStorage.tier.segments coldTailBucket 1
          offset = 7 := rfl
      rw [effective_of_none rfl, hslot]
      exact (if_pos (by omega)).symm
    · have hrow : coldTailStorage.rows chunkno = none := if_neg (by omega)
      have hunmapped :
          slotInR2 coldTailStorage.tier.segments chunkno = false := by
        unfold slotInR2 coldTailStorage
        rw [OrderedMap.get?_set]
        by_cases hsegment : segmentOf chunkno = 0
        · rw [if_pos hsegment]
          apply hmask
          · exact slotOf_lt chunkno
          · unfold slotOf
            rw [hsegment]
            omega
        · rw [if_neg hsegment]
          rfl
      rw [effective_of_none hrow,
        slotBytes_of_not_slotInR2 coldTailBucket hunmapped]
      refine (if_neg ?_).symm
      intro hin
      have hmul : 2 * chunkSize ≤ chunkno * chunkSize :=
        Nat.mul_le_mul_right _ (by omega)
      omega
  · intro chunkno row hrow
    unfold coldTailStorage at hrow
    dsimp only at hrow
    split_ifs at hrow
    rw [Option.some.injEq] at hrow
    exact hrow ▸ MaskedChunk.blank_full zeroBytes
  · rfl

def truncateTail : FileEvent := .truncate ⟨chunkSize, by decide⟩

def growTail : FileEvent := .write
    { offset := chunkSize + vfsPageSize
      length := vfsPageSize
      data := fun _ => 1
      offset_aligned := by decide
      length_aligned := by decide }

def readTail : FileEvent := .read zeroBytes chunkSize vfsPageSize

/-- A cold read, its resolve, then a truncation, a grow and the flush. -/
def tailRegrown : List FileEvent :=
  [readTail, .resolve fun _ => true, readTail, .releasePins, truncateTail,
    growTail, .sync]

theorem reads_spell_reference_tailRegrown :
    Transition.run step coldTail tailRegrown =
        some (tailRegrown.foldl react coldTail) ∧
      ∀ p, p < vfsPageSize →
        ((tailRegrown.foldl react coldTail).xRead zeroBytes chunkSize
          vfsPageSize).1.data p =
            (tailRegrown.foldl applyFlat coldTailFile).bytes (chunkSize + p) :=
  ⟨rfl, (reads_spell_reference coldTail_refines
    (by decide +kernel) rfl).1 zeroBytes chunkSize vfsPageSize
      (Or.inl (by decide +kernel))⟩

/-- The same grow with the resolve between truncation and flush. -/
def tailResurrected : List FileEvent :=
  [truncateTail, growTail, readTail, .resolve fun _ => true]

/-- The truncated byte comes back: the read answers 7 where the reference
holds a zero. -/
theorem read_resurrects_truncated : ∃ v ref es v', DoVfs.Refines v ref ∧
      Transition.run step v es = some v' ∧
      (v'.xRead zeroBytes chunkSize vfsPageSize).1.code = .ok ∧
      (v'.xRead zeroBytes chunkSize vfsPageSize).1.data 0 = 7 ∧
      (es.foldl applyFlat ref).bytes chunkSize = 0 :=
  ⟨coldTail, coldTailFile, tailResurrected,
    tailResurrected.foldl react coldTail, coldTail_refines, rfl,
    by decide +kernel, by decide +kernel, by decide +kernel⟩

end ColdTail

end DoVfs
end QiForge
