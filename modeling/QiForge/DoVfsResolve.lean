import QiForge.EffectiveContent

/-!
# Resolving cold misses

A resolve pins, for each chunk of a fetched segment, the hot row pages over
the slot, which is the stored content.  It adds pins and nothing else, so the
file stays coherent unless a pinned chunk lies past a pending truncation: the
map still claims its slot until the flush.
-/

namespace QiForge

open PageTier

theorem mem_segmentRange {totalChunks segno chunkno : ℕ} :
    chunkno ∈ DoVfs.segmentRange totalChunks segno ↔
      segmentOf chunkno = segno ∧ chunkno < totalChunks := by
  unfold DoVfs.segmentRange
  rw [List.mem_range'_1]
  unfold segmentOf segmentChunks
  omega

/-- Pins released into the cache one after the other. -/
theorem ChunkCache.all_foldl_set {P : ℕ → Bytes → Prop}
    (pins : List (ℕ × Bytes)) {cache : ChunkCache}
    (hpins : ∀ pin ∈ pins, P pin.1 pin.2) (hcache : cache.entries.All P) :
    (pins.foldl (fun cache pin => cache.set pin.1 pin.2)
      cache).entries.All P := by
  induction pins generalizing cache with
  | nil => exact hcache
  | cons pin rest ih =>
      apply ih
      · exact fun other hmem => hpins other (List.mem_cons_of_mem _ hmem)
      · exact ChunkCache.all_set_of_all hcache (hpins pin List.mem_cons_self)

namespace DoVfs

variable {v : DoVfs} {ref : Bytes} {chunkno : ℕ}

variable {seg : Option Bytes}

theorem fetchedSlot_eq {segno : ℕ} {reached : Bool}
    (hseg : v.currentSegment segno reached = some seg)
    (hsegment : segmentOf chunkno = segno) :
    v.fetchedSlot seg chunkno =
      slotBytes v.tier.segments v.bucket chunkno := by
  unfold currentSegment at hseg
  unfold fetchedSlot slotBytes inR2 slotInR2
  rw [hsegment]
  cases hentry : v.tier.segments.get? segno with
  | none =>
      rw [hentry] at hseg
      obtain rfl : none = seg := by simpa using hseg
      rfl
  | some entry =>
      simp only [hentry] at hseg ⊢
      by_cases hmask : entry.mask = 0#16
      · rw [if_pos hmask] at hseg
        obtain rfl : none = seg := by simpa using hseg
        simp [hmask]
      · rw [if_neg hmask] at hseg
        cases reached with
        | false => simp at hseg
        | true =>
            rw [if_pos rfl, Option.map_eq_some_iff] at hseg
            rcases hseg with ⟨bytes, hbytes, rfl⟩
            simp only [hbytes]

/-- The image a resolve pins is the stored content. -/
theorem pinImage_eq {segno : ℕ} {reached : Bool}
    (hseg : v.currentSegment segno reached = some seg)
    (hsegment : segmentOf chunkno = segno) :
    v.pinImage seg chunkno = v.stored chunkno := by
  unfold pinImage stored effective
  rw [fetchedSlot_eq hseg hsegment]

/-- Only pins are added. -/
def PinsDiffer (v w : DoVfs) : Prop := ∃ pins, w = { v with pinned := pins } ∧
    ∀ chunkno, v.pinned.has chunkno = true → pins.has chunkno = true

theorem PinsDiffer.refl (v : DoVfs) : PinsDiffer v v :=
  ⟨v.pinned, rfl, fun _ h => h⟩

theorem PinsDiffer.trans {u v w : DoVfs} (huv : PinsDiffer u v)
    (hvw : PinsDiffer v w) : PinsDiffer u w := by
  rcases huv with ⟨pins, rfl, hfirst⟩
  rcases hvw with ⟨pins', rfl, hsecond⟩
  exact ⟨pins', rfl, fun chunkno h => hsecond chunkno (hfirst chunkno h)⟩

theorem pinChunk_pins {v' : DoVfs}
    (h : v.pinChunk seg chunkno = some v') : PinsDiffer v v' := by
  unfold pinChunk at h
  split_ifs at h
  · cases h
    exact PinsDiffer.refl v
  · cases h
    refine ⟨_, rfl, fun other hother => ?_⟩
    rw [OrderedMap.has, OrderedMap.get?_set]
    split
    · rfl
    · exact hother

theorem pinChunks_pins (seg : Option Bytes) (chunks : List ℕ) (v : DoVfs) :
    PinsDiffer v (pinChunks seg chunks v).2 := by
  induction chunks generalizing v with
  | nil => exact PinsDiffer.refl v
  | cons chunkno rest ih =>
      rw [pinChunks]
      cases hpin : v.pinChunk seg chunkno with
      | none => exact PinsDiffer.refl v
      | some v' => exact (pinChunk_pins hpin).trans (ih v')

theorem resolveSegment_pins (v : DoVfs) (totalChunks segno : ℕ)
    (reached : Bool) :
    PinsDiffer v (v.resolveSegment totalChunks segno reached).2 := by
  unfold resolveSegment
  dsimp only
  split_ifs
  · cases v.currentSegment segno reached with
    | none => exact PinsDiffer.refl v
    | some seg => exact pinChunks_pins seg _ v
  · exact PinsDiffer.refl v

theorem resolveSegments_pins (totalChunks : ℕ) (reached : ℕ → Bool)
    (segnos : List ℕ) (v : DoVfs) :
    PinsDiffer v (resolveSegments totalChunks reached segnos v).2 := by
  induction segnos generalizing v with
  | nil => exact PinsDiffer.refl v
  | cons segno rest ih =>
      have hfirst := resolveSegment_pins v totalChunks segno (reached segno)
      rw [resolveSegments]
      cases hresolve : v.resolveSegment totalChunks segno (reached segno) with
      | mk completed v' =>
          rw [hresolve] at hfirst
          cases completed with
          | false => exact hfirst
          | true => exact hfirst.trans (ih v')

/-- A resolve changes the pins and forgets the misses. -/
theorem resolveMisses_pins (v : DoVfs) (reached : ℕ → Bool) :
    ∃ pins misses, (v.resolveMisses reached).2 =
      { v with pinned := pins, misses := misses } := by
  unfold resolveMisses
  split_ifs
  · exact ⟨v.pinned, v.misses, rfl⟩
  · rcases resolveSegments_pins (chunksOf v.file.size) reached
        v.missedSegments { v with misses := [] } with ⟨pins, heq, -⟩
    exact ⟨pins, [], heq⟩

/-- No chunk of the list that a resolve would pin lies past a pending
truncation. -/
def PinsKept (v : DoVfs) (chunks : List ℕ) : Prop :=
  ∀ chunkno ∈ chunks, v.pinned.has chunkno = false →
    v.pinnable chunkno = true → v.pastTruncation chunkno = false

theorem PinsDiffer.unpinned {w : DoVfs} (h : PinsDiffer v w)
    (hunpinned : w.pinned.has chunkno = false) :
    v.pinned.has chunkno = false := by
  rcases h with ⟨pins, rfl, hgrow⟩
  exact Bool.eq_false_iff.mpr fun hpinned =>
    Bool.eq_false_iff.mp hunpinned (hgrow chunkno hpinned)

theorem PinsKept.of_pinsDiffer {w : DoVfs} {chunks : List ℕ}
    (h : v.PinsKept chunks) (hdiffer : PinsDiffer v w) :
    w.PinsKept chunks := by
  intro chunkno hmem hunpinned
  have hkept := h chunkno hmem (hdiffer.unpinned hunpinned)
  rcases hdiffer with ⟨pins, rfl, -⟩
  exact hkept

theorem Coherent.pinChunk {v' : DoVfs} (h : v.Coherent ref)
    (hkept : v.pinned.has chunkno = false → v.pinnable chunkno = true →
      v.pastTruncation chunkno = false)
    (himage : v.pinImage seg chunkno = v.stored chunkno)
    (hpin : v.pinChunk seg chunkno = some v') : v'.Coherent ref := by
  unfold DoVfs.pinChunk at hpin
  by_cases hskip : (v.pinned.has chunkno || !v.pinnable chunkno) = true
  · rw [if_pos hskip] at hpin
    cases hpin
    exact h
  · rw [if_neg hskip] at hpin
    split_ifs at hpin
    cases hpin
    obtain ⟨hunpinned, hpinnable⟩ :
        v.pinned.has chunkno = false ∧ v.pinnable chunkno = true := by
      simpa using hskip
    refine ⟨h.view, h.cached, ?_, h.rows, h.dirty⟩
    apply OrderedMap.All.set
    · exact fun other bytes hget _ => h.pins other bytes hget
    · rw [himage]
      exact ⟨hkept hunpinned hpinnable, Agree.refl _⟩

theorem Coherent.pinChunks {chunks : List ℕ}
    (h : v.Coherent ref) (hkept : v.PinsKept chunks)
    (himage : ∀ chunkno ∈ chunks, v.pinImage seg chunkno = v.stored chunkno) :
    (pinChunks seg chunks v).2.Coherent ref := by
  induction chunks generalizing v with
  | nil => exact h
  | cons chunkno rest ih =>
      rw [DoVfs.pinChunks]
      cases hpin : v.pinChunk seg chunkno with
      | none => exact h
      | some v' =>
          have hcoherent := h.pinChunk (hkept chunkno List.mem_cons_self)
            (himage chunkno List.mem_cons_self) hpin
          have hdiffer := pinChunk_pins hpin
          have hrest : v.PinsKept rest := fun other hmem =>
            hkept other (List.mem_cons_of_mem _ hmem)
          apply ih hcoherent (hrest.of_pinsDiffer hdiffer)
          intro other hmem
          have heq := himage other (List.mem_cons_of_mem _ hmem)
          rcases hdiffer with ⟨pins, rfl, -⟩
          exact heq

/-- A segment is wanted if one of its chunks is neither pinned nor local. -/
def wants (v : DoVfs) (totalChunks segno : ℕ) : Bool :=
  (segmentRange totalChunks segno).any fun chunkno =>
    !v.pinned.has chunkno && v.inR2 chunkno

/-- The pins of a segment that is wanted and answered for are kept. -/
def SegmentKept (v : DoVfs) (totalChunks : ℕ) (reached : ℕ → Bool)
    (segno : ℕ) : Prop :=
  v.wants totalChunks segno = true →
    (v.currentSegment segno (reached segno)).isSome = true →
      v.PinsKept (segmentRange totalChunks segno)

section

variable {totalChunks segno : ℕ} {reached : ℕ → Bool}

theorem SegmentKept.of_pinsDiffer {w : DoVfs}
    (h : v.SegmentKept totalChunks reached segno)
    (hdiffer : PinsDiffer v w) :
    w.SegmentKept totalChunks reached segno := by
  intro hwants hanswered
  obtain ⟨chunkno, hmem, hwanted⟩ := List.any_eq_true.mp hwants
  obtain ⟨hunpinned, hcold⟩ :
      w.pinned.has chunkno = false ∧ w.inR2 chunkno = true := by
    simpa using hwanted
  have hunpinnedFirst := hdiffer.unpinned hunpinned
  refine (h ?_ ?_).of_pinsDiffer hdiffer
  · rcases hdiffer with ⟨pins, rfl, -⟩
    exact List.any_eq_true.mpr
      ⟨chunkno, hmem, by rw [hunpinnedFirst]; exact hcold⟩
  · rcases hdiffer with ⟨pins, rfl, -⟩
    exact hanswered

theorem Coherent.resolveSegment (h : v.Coherent ref)
    (hkept : v.SegmentKept totalChunks reached segno) :
    (v.resolveSegment totalChunks segno (reached segno)).2.Coherent
      ref := by
  unfold DoVfs.resolveSegment
  dsimp only
  split_ifs with hwants
  · cases hseg : v.currentSegment segno (reached segno) with
    | none => exact h
    | some seg =>
        exact h.pinChunks (hkept hwants (by rw [hseg]; rfl))
          fun chunkno hmem => pinImage_eq hseg (mem_segmentRange.mp hmem).1
  · exact h

theorem Coherent.resolveSegments {segnos : List ℕ} (h : v.Coherent ref)
    (hkept : ∀ segno ∈ segnos, v.SegmentKept totalChunks reached segno) :
    (resolveSegments totalChunks reached segnos v).2.Coherent ref := by
  induction segnos generalizing v with
  | nil => exact h
  | cons segno rest ih =>
      have hfirst := h.resolveSegment (hkept segno List.mem_cons_self)
      have hdiffer := resolveSegment_pins v totalChunks segno (reached segno)
      rw [DoVfs.resolveSegments]
      cases hresolve : v.resolveSegment totalChunks segno (reached segno) with
      | mk completed v' =>
          rw [hresolve] at hfirst hdiffer
          cases completed with
          | false => exact hfirst
          | true =>
              exact ih hfirst fun other hmem =>
                (hkept other (List.mem_cons_of_mem _ hmem)).of_pinsDiffer
                  hdiffer

end

theorem Coherent.clearMisses (h : v.Coherent ref) :
    v.clearMisses.Coherent ref :=
  { h with }

/-- The resolve pins a chunk past the pending truncation: in a segment that is
wanted and answered for, one that is not pinned yet. -/
def resolvesTruncated (v : DoVfs) (reached : ℕ → Bool) : Bool :=
  v.missedSegments.any fun segno =>
    v.wants (chunksOf v.file.size) segno &&
      (v.currentSegment segno (reached segno)).isSome &&
      (segmentRange (chunksOf v.file.size) segno).any fun chunkno =>
        !v.pinned.has chunkno && v.pinnable chunkno && v.pastTruncation chunkno

theorem segmentKept_of_not_resolvesTruncated {reached : ℕ → Bool}
    (h : v.resolvesTruncated reached = false) :
    ∀ segno ∈ v.missedSegments,
      v.SegmentKept (chunksOf v.file.size) reached segno := by
  intro segno hsegno hwants hanswered chunkno hchunk hunpinned hpinnable
  unfold resolvesTruncated at h
  rw [List.any_eq_false] at h
  have hsegment := h segno hsegno
  rw [hwants, hanswered, Bool.true_and, Bool.true_and, Bool.not_eq_true,
    List.any_eq_false] at hsegment
  have hpair := hsegment chunkno hchunk
  simpa [hunpinned, hpinnable] using hpair

theorem Coherent.resolveMisses {reached : ℕ → Bool} (h : v.Coherent ref)
    (hsafe : v.resolvesTruncated reached = false) :
    (v.resolveMisses reached).2.Coherent ref := by
  unfold DoVfs.resolveMisses
  split_ifs
  · exact h
  · exact h.clearMisses.resolveSegments
      fun segno hmem => segmentKept_of_not_resolvesTruncated hsafe segno hmem

theorem Coherent.releasePins (h : v.Coherent ref) :
    v.releasePins.Coherent ref := by
  have hcache := ChunkCache.all_foldl_set v.pinned.entries
    (fun pin hmem => h.pins pin.1 pin.2 (OrderedMap.mem_entries_iff.mp hmem))
    h.cached
  exact ⟨h.view, hcache, OrderedMap.all_empty _, h.rows, h.dirty⟩

end DoVfs
end QiForge
