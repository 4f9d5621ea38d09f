import QiForge.ChunkLayout
import QiForge.OrderedMap

/-!
# The segment map of the page tier

What the tier knows about one file, twice: `TierRows` are the durable rows of
`vfs2_tier_segments` and `vfs2_tier_meta`, `TierFile` is the copy in memory
with the generation counter.  The operations that change both run inside a
storage transaction of the caller; `truncateTouched` is what a transaction
that throws half-way leaves behind in memory.
-/

namespace QiForge

/-- Segment objects of one file by segment number and generation. -/
abbrev Bucket := ℕ → ℕ → Option Bytes

abbrev SlotMask := BitVec 16

structure SegmentEntry where
  gen : ℕ
  mask : SlotMask
deriving DecidableEq, Repr

abbrev SegmentMap := OrderedMap ℕ SegmentEntry

structure TierRows where
  segments : SegmentMap
  maxGen : Option ℕ

structure TierFile where
  segments : SegmentMap
  maxGen : Option ℕ

namespace PageTier

def slotInR2 (segments : SegmentMap) (chunkno : ℕ) : Bool :=
  match segments.get? (segmentOf chunkno) with
  | none => false
  | some entry => entry.mask.getLsbD (slotOf chunkno)

/-- The bytes of a chunk inside a fetched segment object. -/
def slotSlice (seg : Bytes) (chunkno : ℕ) : Bytes :=
  fun offset => seg (slotOf chunkno * chunkSize + offset)

/-- The bytes of the slot the map claims for a chunk, zeros when it claims
none. -/
def slotBytes (segments : SegmentMap) (bucket : Bucket) (chunkno : ℕ) :
    Bytes :=
  match segments.get? (segmentOf chunkno) with
  | none => zeroBytes
  | some entry =>
      if entry.mask.getLsbD (slotOf chunkno) then
        match bucket (segmentOf chunkno) entry.gen with
        | none => zeroBytes
        | some seg => slotSlice seg chunkno
      else zeroBytes

def allocateGen (rows : TierRows) (tier : TierFile) : ℕ × TierFile :=
  let max :=
    match tier.maxGen with
    | some max => max
    | none =>
        tier.segments.entries.foldl (fun max entry => max ⊔ entry.2.gen)
          (rows.maxGen.getD 0)
  (max + 1, { tier with maxGen := some (max + 1) })

def setSegment (rows : TierRows) (tier : TierFile) (segno : ℕ)
    (entry : SegmentEntry) : TierRows × TierFile :=
  let max := tier.maxGen.getD 0 ⊔ entry.gen
  let metaGen :=
    match rows.maxGen with
    | none => max
    | some stored => stored ⊔ max
  ({ segments := rows.segments.set segno entry, maxGen := some metaGen },
    { segments := tier.segments.set segno entry, maxGen := some max })

/-- Forget every segment; the keys of the third component are queued for
deletion. -/
def dropFile (rows : TierRows) (tier : TierFile) :
    TierRows × TierFile × List (ℕ × ℕ) :=
  ({ rows with segments := OrderedMap.empty },
    { tier with segments := OrderedMap.empty },
    tier.segments.entries.map fun entry => (entry.1, entry.2.gen))

/-- A truncation to `keepChunks` drops the whole segment. -/
def segmentDropped (keepChunks segno : ℕ) : Bool :=
  decide (segmentOf keepChunks < segno) ||
    (decide (segno = segmentOf keepChunks) &&
      decide (keepChunks % segmentChunks = 0))

/-- The mask a surviving segment keeps. -/
def narrowedMask (keepChunks segno : ℕ) (mask : SlotMask) : SlotMask :=
  if segno = segmentOf keepChunks then
    mask &&&
      ((1#16 <<< (keepChunks - segmentOf keepChunks * segmentChunks)) - 1#16)
  else mask

/-- The map in memory once the entries in `touched` went through the loop of
`truncate`. -/
def truncateTouched (touched : ℕ → Bool) (segments : SegmentMap)
    (keepChunks : ℕ) : SegmentMap :=
  (segments.filter fun segno _ =>
      !(touched segno && segmentDropped keepChunks segno)).mapValues
    fun segno entry =>
      if touched segno then
        { entry with mask := narrowedMask keepChunks segno entry.mask }
      else entry

def truncateMap (segments : SegmentMap) (keepChunks : ℕ) : SegmentMap :=
  truncateTouched (fun _ => true) segments keepChunks

/-- The durable rows after the loop of `truncate`: the statements are issued
for the entries of the map in memory, and an unchanged mask issues none. -/
def truncateRows (rows segments : SegmentMap) (keepChunks : ℕ) : SegmentMap :=
  (rows.filter fun segno _ =>
      !(segments.has segno && segmentDropped keepChunks segno)).mapValues
    fun segno row =>
      match segments.get? segno with
      | none => row
      | some entry =>
          let mask := narrowedMask keepChunks segno entry.mask
          if mask = entry.mask then row else { row with mask := mask }

def truncate (rows : TierRows) (tier : TierFile) (keepChunks : ℕ) :
    TierRows × TierFile × List (ℕ × ℕ) :=
  ({ rows with
      segments := truncateRows rows.segments tier.segments keepChunks },
    { tier with segments := truncateMap tier.segments keepChunks },
    (tier.segments.entries.filter fun entry =>
      segmentDropped keepChunks entry.1).map
        fun entry => (entry.1, entry.2.gen))

theorem slotOf_lt (chunkno : ℕ) : slotOf chunkno < segmentChunks := by
  unfold slotOf segmentOf segmentChunks
  omega

theorem segmentDropped_iff {keepChunks segno : ℕ} :
    segmentDropped keepChunks segno = true ↔
      keepChunks ≤ segno * segmentChunks := by
  unfold segmentDropped segmentOf segmentChunks
  simp only [Bool.or_eq_true, Bool.and_eq_true, decide_eq_true_eq]
  omega

theorem getLsbD_lowMask : ∀ keepSlots < 16, ∀ slot < 16,
      ((1#16 <<< keepSlots) - 1#16).getLsbD slot =
        decide (slot < keepSlots) := by
  decide +kernel

variable {keepChunks chunkno : ℕ}

/-- Of the chunks of a surviving segment a truncation keeps the slots of
those below the boundary. -/
theorem getLsbD_narrowedMask (mask : SlotMask)
    (hkept : segmentDropped keepChunks (segmentOf chunkno) = false) :
    (narrowedMask keepChunks (segmentOf chunkno) mask).getLsbD
        (slotOf chunkno) =
      (mask.getLsbD (slotOf chunkno) && decide (chunkno < keepChunks)) := by
  have hslot := slotOf_lt chunkno
  have hnot : ¬ keepChunks ≤ segmentOf chunkno * segmentChunks := by
    rw [← segmentDropped_iff, hkept]
    exact Bool.false_ne_true
  unfold narrowedMask
  by_cases hboundary : segmentOf chunkno = segmentOf keepChunks
  · rw [if_pos hboundary, BitVec.getLsbD_and, getLsbD_lowMask]
    · congr 1
      rw [decide_eq_decide]
      unfold slotOf segmentOf segmentChunks at *
      omega
    · unfold segmentOf segmentChunks
      omega
    · exact hslot
  · rw [if_neg hboundary]
    have hlt : chunkno < keepChunks := by
      unfold segmentOf segmentChunks at *
      omega
    simp [hlt]

theorem get?_truncateTouched (touched : ℕ → Bool) (segments : SegmentMap)
    (keepChunks segno : ℕ) :
    (truncateTouched touched segments keepChunks).get? segno =
      if touched segno then
        if segmentDropped keepChunks segno then none
        else (segments.get? segno).map fun entry =>
          { entry with mask := narrowedMask keepChunks segno entry.mask }
      else segments.get? segno := by
  unfold truncateTouched
  rw [OrderedMap.get?_mapValues, OrderedMap.get?_filter]
  cases segments.get? segno with
  | none => simp
  | some entry =>
      cases htouched : touched segno <;>
        cases hdropped : segmentDropped keepChunks segno <;>
        simp [Option.filter]

/-- Below the boundary a truncation, whole or partial, leaves every slot as
it is. -/
theorem slotBytes_truncateTouched_of_lt (touched : ℕ → Bool)
    (segments : SegmentMap) (bucket : Bucket)
    (h : chunkno < keepChunks) :
    slotBytes (truncateTouched touched segments keepChunks) bucket chunkno =
      slotBytes segments bucket chunkno := by
  have hkept : segmentDropped keepChunks (segmentOf chunkno) = false := by
    rw [Bool.eq_false_iff, ne_eq, segmentDropped_iff]
    unfold segmentOf segmentChunks
    omega
  unfold slotBytes
  rw [get?_truncateTouched, hkept]
  cases htouched : touched (segmentOf chunkno) with
  | false => simp
  | true =>
      cases hget : segments.get? (segmentOf chunkno) with
      | none => simp
      | some entry =>
          simp [getLsbD_narrowedMask entry.mask hkept, h]

theorem slotInR2_truncateTouched_of_lt (touched : ℕ → Bool)
    (segments : SegmentMap)
    (h : chunkno < keepChunks) :
    slotInR2 (truncateTouched touched segments keepChunks) chunkno =
      slotInR2 segments chunkno := by
  have hkept : segmentDropped keepChunks (segmentOf chunkno) = false := by
    rw [Bool.eq_false_iff, ne_eq, segmentDropped_iff]
    unfold segmentOf segmentChunks
    omega
  unfold slotInR2
  rw [get?_truncateTouched, hkept]
  cases htouched : touched (segmentOf chunkno) with
  | false => simp
  | true =>
      cases hget : segments.get? (segmentOf chunkno) with
      | none => simp
      | some entry =>
          simp [getLsbD_narrowedMask entry.mask hkept, h]

/-- At and past the boundary a truncation leaves no slot. -/
theorem slotInR2_truncateMap_of_le (segments : SegmentMap)
    (h : keepChunks ≤ chunkno) :
    slotInR2 (truncateMap segments keepChunks) chunkno = false := by
  unfold slotInR2 truncateMap
  rw [get?_truncateTouched]
  cases hdropped : segmentDropped keepChunks (segmentOf chunkno) with
  | true => simp
  | false =>
      cases hget : segments.get? (segmentOf chunkno) with
      | none => simp
      | some entry =>
          have hnot : ¬ chunkno < keepChunks := Nat.not_lt.mpr h
          simp [getLsbD_narrowedMask entry.mask hdropped, hnot]

theorem slotBytes_of_not_slotInR2 {segments : SegmentMap} (bucket : Bucket)
    {chunkno : ℕ} (h : slotInR2 segments chunkno = false) :
    slotBytes segments bucket chunkno = zeroBytes := by
  unfold slotInR2 at h
  unfold slotBytes
  cases hget : segments.get? (segmentOf chunkno) with
  | none => rfl
  | some entry =>
      rw [hget] at h
      simp only at h
      simp [h]

/-- Two maps that answer every lookup alike serve the same slots. -/
theorem slotBytes_congr {segments other : SegmentMap} (bucket : Bucket)
    {chunkno : ℕ}
    (h : segments.get? (segmentOf chunkno) = other.get? (segmentOf chunkno)) :
    slotBytes segments bucket chunkno = slotBytes other bucket chunkno := by
  unfold slotBytes
  rw [h]

/-- When the durable rows and the map in memory agree, a truncation keeps
them in agreement. -/
theorem truncateRows_eq_truncateMap {rows segments : SegmentMap}
    (h : ∀ segno, rows.get? segno = segments.get? segno)
    (keepChunks segno : ℕ) :
    (truncateRows rows segments keepChunks).get? segno =
      (truncateMap segments keepChunks).get? segno := by
  unfold truncateRows truncateMap
  rw [OrderedMap.get?_mapValues, OrderedMap.get?_filter,
    get?_truncateTouched, h segno, OrderedMap.has]
  cases hget : segments.get? segno with
  | none => simp
  | some entry =>
      cases hdropped : segmentDropped keepChunks segno with
      | true => simp [Option.filter]
      | false =>
          by_cases hmask :
              narrowedMask keepChunks segno entry.mask = entry.mask <;>
            simp [Option.filter, hmask]

theorem foldl_gens_le (entries : List (ℕ × SegmentEntry)) (start : ℕ) :
    start ≤ entries.foldl (fun max entry => max ⊔ entry.2.gen) start ∧
      ∀ entry ∈ entries, entry.2.gen ≤
        entries.foldl (fun max entry => max ⊔ entry.2.gen) start := by
  induction entries generalizing start with
  | nil => exact ⟨le_refl start, by simp⟩
  | cons first rest ih =>
      rcases ih (start ⊔ first.2.gen) with ⟨hstart, hrest⟩
      rw [List.foldl_cons]
      refine ⟨le_sup_left.trans hstart, ?_⟩
      intro entry hmem
      rcases List.mem_cons.mp hmem with rfl | hlater
      · exact le_sup_right.trans hstart
      · exact hrest entry hlater

end PageTier
end QiForge
