import QiForge.EffectiveContent

/-!
# Flushing a coherent file

The transaction of a flush moves the view into storage: afterwards the stored
content alone spells the reference, and the refreshed cache and pins still
hold stored content only.
-/

namespace QiForge

open PageTier

theorem upsertChunks_of_not_mem {chunks : List (ℕ × MaskedChunk)}
    {rows : ℕ → Option MaskedChunk} {chunkno : ℕ}
    (hnot : chunkno ∉ chunks.map Prod.fst) :
    DoVfs.upsertChunks rows chunks chunkno = rows chunkno := by
  induction chunks generalizing rows with
  | nil => rfl
  | cons first rest ih =>
      rw [List.map_cons, List.mem_cons, not_or] at hnot
      rw [DoVfs.upsertChunks, List.foldl_cons]
      exact (ih hnot.2).trans (Function.update_of_ne hnot.1 _ _)

theorem upsertChunks_of_mem {chunks : List (ℕ × MaskedChunk)}
    {rows : ℕ → Option MaskedChunk} {chunkno : ℕ} {chunk : MaskedChunk}
    (hnodup : (chunks.map Prod.fst).Nodup)
    (hmem : (chunkno, chunk) ∈ chunks) :
    DoVfs.upsertChunks rows chunks chunkno = some chunk := by
  induction chunks generalizing rows with
  | nil => exact absurd hmem List.not_mem_nil
  | cons first rest ih =>
      rw [List.map_cons, List.nodup_cons] at hnodup
      rw [DoVfs.upsertChunks, List.foldl_cons]
      rcases List.mem_cons.mp hmem with rfl | hrest
      · exact (upsertChunks_of_not_mem hnodup.1).trans
          (Function.update_self _ _ _)
      · exact ih hnodup.2 hrest

theorem sortedDirty_perm (file : PersistentFile) :
    (DoVfs.sortedDirty file).Perm file.dirty.entries :=
  List.perm_insertionSort _ _

theorem mem_sortedDirty {file : PersistentFile} {chunkno : ℕ}
    {chunk : MaskedChunk} :
    (chunkno, chunk) ∈ DoVfs.sortedDirty file ↔
      file.dirty.get? chunkno = some chunk := by
  rw [(sortedDirty_perm file).mem_iff, OrderedMap.mem_entries_iff]

theorem nodup_sortedDirty (file : PersistentFile) :
    ((DoVfs.sortedDirty file).map Prod.fst).Nodup :=
  ((sortedDirty_perm file).map Prod.fst).nodup_iff.mpr file.dirty.nodup

theorem mem_keys_sortedDirty {file : PersistentFile} {chunkno : ℕ} :
    chunkno ∈ (DoVfs.sortedDirty file).map Prod.fst ↔
      ∃ chunk, file.dirty.get? chunkno = some chunk := by
  simp [mem_sortedDirty]

theorem upsertChunks_sortedDirty (rows : ℕ → Option MaskedChunk)
    (file : PersistentFile) (chunkno : ℕ) :
    DoVfs.upsertChunks rows (DoVfs.sortedDirty file) chunkno =
      (file.dirty.get? chunkno).or (rows chunkno) := by
  cases hdirty : file.dirty.get? chunkno with
  | some chunk =>
      exact upsertChunks_of_mem (nodup_sortedDirty file)
        (mem_sortedDirty.mpr hdirty)
  | none =>
      apply upsertChunks_of_not_mem
      rw [mem_keys_sortedDirty, hdirty]
      simp

namespace DoVfs

variable {v : DoVfs} {ref : Bytes} {chunkno : ℕ}

theorem pastTruncation_iff {keepPages : ℕ}
    (h : v.file.truncateToPages = some keepPages) (chunkno : ℕ) :
    v.pastTruncation chunkno = true ↔ chunkFloor keepPages ≤ chunkno := by
  rw [chunkFloor_le_iff]
  simp [pastTruncation, h]

theorem pastTruncation_of_none (h : v.file.truncateToPages = none) :
    v.pastTruncation chunkno = false := by
  simp [pastTruncation, h]

theorem commitFlush_rows (v : DoVfs) (chunkno : ℕ) :
    v.commitFlush.storage.rows chunkno = (v.file.dirty.get? chunkno).or
        (if v.pastTruncation chunkno then none
          else v.storage.rows chunkno) := by
  unfold commitFlush
  cases htrunc : v.file.truncateToPages with
  | none =>
      simp only [pastTruncation_of_none htrunc]
      exact upsertChunks_sortedDirty _ _ _
  | some keepPages =>
      have hiff := pastTruncation_iff htrunc chunkno
      simp only [hiff]
      exact upsertChunks_sortedDirty _ _ _

theorem commitFlush_slotBytes (v : DoVfs) (chunkno : ℕ) :
    slotBytes v.commitFlush.tier.segments v.commitFlush.bucket chunkno =
      if v.pastTruncation chunkno then zeroBytes
      else slotBytes v.tier.segments v.bucket chunkno := by
  unfold commitFlush
  cases htrunc : v.file.truncateToPages with
  | none => simp [pastTruncation_of_none htrunc]
  | some keepPages =>
      have hiff := pastTruncation_iff htrunc chunkno
      simp only [hiff, truncate]
      by_cases hpast : chunkFloor keepPages ≤ chunkno
      · rw [if_pos hpast]
        exact slotBytes_of_not_slotInR2 _
          (slotInR2_truncateMap_of_le v.tier.segments hpast)
      · rw [if_neg hpast]
        exact slotBytes_truncateTouched_of_lt _ _ _ (Nat.lt_of_not_le hpast)

/-- After the transaction storage alone spells what the file showed. -/
theorem Coherent.commitFlush_stored (h : v.Coherent ref) (chunkno : ℕ) :
    v.commitFlush.stored chunkno = v.view chunkno := by
  have hrow := commitFlush_rows v chunkno
  have hslot := commitFlush_slotBytes v chunkno
  cases hdirty : v.file.dirty.get? chunkno with
  | some dirty =>
      rw [hdirty, Option.some_or] at hrow
      rw [stored, effective_of_some hrow, hslot, view_of_dirty hdirty]
      cases hpast : v.pastTruncation chunkno with
      | true => rw [if_pos rfl, cleanView_of_past hpast]
      | false =>
          rw [cleanView_of_kept hpast, if_neg Bool.false_ne_true]
          cases hstored : v.storage.rows chunkno with
          | none => rw [stored, effective_of_none hstored]
          | some row =>
              have hclaims :=
                (h.dirty chunkno dirty hdirty).2 hpast row hstored
              rw [stored, effective_of_some hstored,
                placeMasked_placeMasked hclaims]
  | none =>
      rw [hdirty, Option.none_or] at hrow
      rw [view_of_clean hdirty]
      cases hpast : v.pastTruncation chunkno with
      | true =>
          rw [hpast, if_pos rfl] at hrow hslot
          rw [stored, effective_of_none hrow, hslot, cleanView_of_past hpast]
      | false =>
          rw [hpast, if_neg Bool.false_ne_true] at hrow hslot
          rw [cleanView_of_kept hpast]
          exact effective_congr hrow hslot

theorem InSync.commitFlush (h : v.InSync) : v.commitFlush.InSync := by
  intro segno
  unfold DoVfs.commitFlush
  cases htrunc : v.file.truncateToPages with
  | none => exact h segno
  | some keepPages =>
      exact truncateRows_eq_truncateMap h (chunkFloor keepPages) segno

theorem Coherent.commitFlush_blank (h : v.Coherent ref) {row : MaskedChunk}
    (hrow : v.commitFlush.storage.rows chunkno = some row) : row.Blank := by
  rw [commitFlush_rows] at hrow
  cases hdirty : v.file.dirty.get? chunkno with
  | some dirty =>
      rw [hdirty, Option.some_or, Option.some.injEq] at hrow
      exact hrow ▸ (h.dirty chunkno dirty hdirty).1
  | none =>
      rw [hdirty, Option.none_or] at hrow
      split_ifs at hrow
      exact h.rows chunkno row hrow

section Shadowing

variable {P : ℕ → Bytes → Prop}

theorem all_shadowStoredPreImage (rows : ℕ → Option MaskedChunk)
    {state : SnapshotState × ChunkCache} (h : state.2.entries.All P)
    (chunkno : ℕ) :
    (shadowStoredPreImage rows state chunkno).2.entries.All P := by
  rcases state with ⟨snapshot, cache⟩
  unfold shadowStoredPreImage
  dsimp only
  split_ifs
  · exact h
  · exact ChunkCache.all_refresh h chunkno

theorem all_foldl_shadowStored (rows : ℕ → Option MaskedChunk)
    (chunks : List ℕ) {state : SnapshotState × ChunkCache}
    (h : state.2.entries.All P) :
    (chunks.foldl (shadowStoredPreImage rows) state).2.entries.All P := by
  induction chunks generalizing state with
  | nil => exact h
  | cons chunkno rest ih => exact ih (all_shadowStoredPreImage rows h chunkno)

/-- Capturing pre-images touches the snapshot and the recency of the cache
only. -/
theorem shadowed_eq (h : v.cache.entries.All P) :
    ∃ snapshot cache, v.shadowed =
      { v with snapshot := snapshot, cache := cache } ∧
      cache.entries.All P := by
  cases hsnapshot : v.snapshot with
  | none =>
      have heq : v.shadowed = v := by simp [shadowed, hsnapshot]
      exact ⟨v.snapshot, v.cache, heq, h⟩
  | some snapshot =>
      refine ⟨some (v.shadowPreImages snapshot).1,
        (v.shadowPreImages snapshot).2, by simp [shadowed, hsnapshot], ?_⟩
      unfold shadowPreImages
      cases v.file.truncateToPages with
      | none => exact h
      | some keepPages => exact all_foldl_shadowStored _ _ h

end Shadowing

theorem Coherent.shadowed (h : v.Coherent ref) : v.shadowed.Coherent ref := by
  rcases shadowed_eq h.cached with ⟨snapshot, cache, heq, hcache⟩
  rw [heq]
  exact { h with cached := hcache }

/-- What the refresh of cache and pins leaves alone. -/
structure SameStore (v w : DoVfs) : Prop where
  storage : w.storage = v.storage
  bucket : w.bucket = v.bucket
  tier : w.tier = v.tier
  size : w.file.size = v.file.size
  snapshot : w.snapshot = v.snapshot
  layoutEpoch : w.layoutEpoch = v.layoutEpoch
  lock : w.file.lock = v.file.lock
  dirty : w.file.dirty = v.file.dirty

theorem refreshWritten_sameStore (v : DoVfs)
    (written : List (ℕ × MaskedChunk)) :
    SameStore v (written.foldl refreshWritten v) := by
  induction written generalizing v with
  | nil => exact ⟨rfl, rfl, rfl, rfl, rfl, rfl, rfl, rfl⟩
  | cons first rest ih =>
      have hrest := ih (v.refreshWritten first)
      exact { hrest with }

/-- Entries of chunks still to be refreshed may be stale; in the end none
is. -/
theorem refreshWritten_all {P : ℕ → Bytes → Prop}
    {written : List (ℕ × MaskedChunk)} {v : DoVfs}
    (hnew : ∀ chunkno chunk, (chunkno, chunk) ∈ written →
      chunk.mask = fullMask → P chunkno chunk.data)
    (hcache : v.cache.entries.All fun chunkno bytes =>
      chunkno ∉ written.map Prod.fst → P chunkno bytes)
    (hpins : v.pinned.All fun chunkno bytes =>
      chunkno ∉ written.map Prod.fst → P chunkno bytes) :
    (written.foldl refreshWritten v).cache.entries.All P ∧
      (written.foldl refreshWritten v).pinned.All P := by
  induction written generalizing v with
  | nil =>
      exact ⟨hcache.mono fun _ _ h => h List.not_mem_nil,
        hpins.mono fun _ _ h => h List.not_mem_nil⟩
  | cons first rest ih =>
      rcases first with ⟨chunkno, chunk⟩
      apply ih
      · intro other otherChunk hmem
        exact hnew other otherChunk (List.mem_cons_of_mem _ hmem)
      · have hothers : v.cache.entries.All fun other bytes =>
            other ≠ chunkno → other ∉ rest.map Prod.fst → P other bytes := by
          intro other bytes hget hne hnot
          exact hcache other bytes hget (by simp [hne, hnot])
        unfold refreshWritten
        dsimp only
        split_ifs with hfull
        · exact ChunkCache.all_set hothers fun _ =>
            hnew chunkno chunk List.mem_cons_self hfull
        · exact OrderedMap.All.delete hothers
      · have hothers : v.pinned.All fun other bytes =>
            other ≠ chunkno → other ∉ rest.map Prod.fst → P other bytes := by
          intro other bytes hget hne hnot
          exact hpins other bytes hget (by simp [hne, hnot])
        unfold refreshWritten
        dsimp only
        split_ifs with hhas hfull
        · exact OrderedMap.All.set hothers fun _ =>
            hnew chunkno chunk List.mem_cons_self hfull
        · exact OrderedMap.All.delete hothers
        · intro other bytes hget
          apply hothers other bytes hget
          rintro rfl
          exact hhas (OrderedMap.has_iff.mpr ⟨bytes, hget⟩)

theorem flushIdle_iff : v.flushIdle = true ↔
      v.file.dirty.entries = [] ∧ v.file.truncateToPages = none ∧
        v.file.sizeDirty = false := by
  simp [flushIdle, and_assoc]

theorem flush_of_busy (h : v.flushIdle = false) : v.flush =
      ((sortedDirty v.file).foldl refreshWritten
        v.shadowed.commitFlush).modifyFile clearPending := by
  simp [flush, h]

theorem view_of_idle (h : v.flushIdle = true) (chunkno : ℕ) :
    v.view chunkno = v.stored chunkno := by
  rcases flushIdle_iff.mp h with ⟨hdirty, htrunc, -⟩
  have hget : v.file.dirty.get? chunkno = none := by
    rw [OrderedMap.get?_eq_none_iff, OrderedMap.keys, hdirty]
    exact List.not_mem_nil
  rw [view_of_clean hget, cleanView_of_kept (pastTruncation_of_none htrunc)]

theorem shadowed_file (v : DoVfs) : v.shadowed.file = v.file := by
  unfold shadowed
  cases v.snapshot with
  | none => rfl
  | some snapshot => rfl

theorem commitFlush_size (v : DoVfs) :
    v.commitFlush.storage.size = v.file.size := by
  unfold commitFlush
  cases v.file.truncateToPages <;> rfl

theorem commitFlush_fileSize (v : DoVfs) :
    v.commitFlush.file.size = v.file.size := by
  unfold commitFlush
  cases v.file.truncateToPages <;> rfl

theorem commitFlush_caches (v : DoVfs) :
    v.commitFlush.cache = v.cache ∧ v.commitFlush.pinned = v.pinned := by
  unfold commitFlush
  cases v.file.truncateToPages <;> exact ⟨rfl, rfl⟩

/-- After a flush nothing is pending and storage spells the reference. -/
structure Flushed (v : DoVfs) (ref : Bytes) : Prop where
  coherent : v.Coherent ref
  stored : ∀ chunkno, Agree (v.stored chunkno) (chunkOf ref chunkno)
  noDirty : ∀ chunkno, v.file.dirty.get? chunkno = none
  noTruncation : v.file.truncateToPages = none

theorem Coherent.flush (h : v.Coherent ref) : v.flush.Flushed ref := by
  cases hidle : v.flushIdle with
  | true =>
      have hsame : v.flush = v := by simp [DoVfs.flush, hidle]
      rcases flushIdle_iff.mp hidle with ⟨hdirty, htrunc, -⟩
      rw [hsame]
      refine ⟨h, ?_, ?_, htrunc⟩
      · intro chunkno
        rw [← view_of_idle hidle]
        exact h.view chunkno
      · intro chunkno
        rw [OrderedMap.get?_eq_none_iff, OrderedMap.keys, hdirty]
        exact List.not_mem_nil
  | false =>
      rw [flush_of_busy hidle]
      have hs := h.shadowed
      have hstored : ∀ chunkno, Agree (v.shadowed.commitFlush.stored chunkno)
            (chunkOf ref chunkno) := by
        intro chunkno
        rw [hs.commitFlush_stored chunkno]
        exact hs.view chunkno
      have hfile := shadowed_file v
      have hcaches := commitFlush_caches v.shadowed
      -- a clean entry of a chunk that is not rewritten still shows the view
      have hold : ∀ chunkno bytes, v.shadowed.Clean chunkno bytes →
          chunkno ∉ (sortedDirty v.file).map Prod.fst →
          Agree bytes (chunkOf ref chunkno) := by
        intro chunkno bytes hclean hnot
        have hdirty : v.shadowed.file.dirty.get? chunkno = none := by
          rw [hfile, Option.eq_none_iff_forall_ne_some]
          exact fun chunk hget =>
            hnot (mem_keys_sortedDirty.mpr ⟨chunk, hget⟩)
        have hview := hs.view chunkno
        rw [view_of_clean hdirty, cleanView_of_kept hclean.1] at hview
        exact hclean.2.trans hview
      have hnew : ∀ chunkno chunk,
          (chunkno, chunk) ∈ sortedDirty v.file → chunk.mask = fullMask →
          Agree chunk.data (chunkOf ref chunkno) := by
        intro chunkno chunk hmem hfull
        have hview := hs.view chunkno
        rw [view_of_dirty (hfile ▸ mem_sortedDirty.mp hmem), hfull] at hview
        exact (placeMasked_fullMask _ _).symm.trans hview
      have hall := refreshWritten_all
        (P := fun chunkno bytes => Agree bytes (chunkOf ref chunkno))
        (v := v.shadowed.commitFlush) hnew
        (by
          rw [hcaches.1]
          exact hs.cached.mono hold)
        (by
          rw [hcaches.2]
          exact hs.pins.mono hold)
      have hsame := refreshWritten_sameStore v.shadowed.commitFlush
        (sortedDirty v.file)
      have hfinal : ∀ chunkno, (((sortedDirty v.file).foldl refreshWritten
            v.shadowed.commitFlush).modifyFile clearPending).stored chunkno =
            v.shadowed.commitFlush.stored chunkno := by
        intro chunkno
        unfold DoVfs.stored modifyFile
        rw [hsame.storage, hsame.bucket, hsame.tier]
      have hclean : ∀ chunkno bytes, Agree bytes (chunkOf ref chunkno) →
          (((sortedDirty v.file).foldl refreshWritten
            v.shadowed.commitFlush).modifyFile clearPending).Clean
              chunkno bytes := by
        intro chunkno bytes hagree
        refine ⟨rfl, ?_⟩
        rw [hfinal]
        exact hagree.trans (hstored chunkno).symm
      refine ⟨⟨?_, ?_, ?_, ?_, ?_⟩, ?_, fun _ => rfl, rfl⟩
      · intro chunkno
        rw [view_of_clean rfl, cleanView_of_kept rfl, hfinal]
        exact hstored chunkno
      · exact hall.1.mono hclean
      · exact hall.2.mono hclean
      · intro chunkno row hrow
        have hcommitted :
            v.shadowed.commitFlush.storage.rows chunkno = some row := by
          rw [← hsame.storage]
          exact hrow
        exact hs.commitFlush_blank hcommitted
      · exact OrderedMap.all_empty _
      · intro chunkno
        rw [hfinal]
        exact hstored chunkno

theorem shadowed_tiers (v : DoVfs) :
    v.shadowed.storage = v.storage ∧ v.shadowed.tier = v.tier := by
  unfold shadowed
  cases v.snapshot with
  | none => exact ⟨rfl, rfl⟩
  | some snapshot => exact ⟨rfl, rfl⟩

theorem InSync.flush (h : v.InSync) : v.flush.InSync := by
  cases hidle : v.flushIdle with
  | true =>
      have hsame : v.flush = v := by simp [DoVfs.flush, hidle]
      rw [hsame]
      exact h
  | false =>
      rw [flush_of_busy hidle]
      have hshadowed : v.shadowed.InSync := by
        intro segno
        rw [v.shadowed_tiers.1, v.shadowed_tiers.2]
        exact h segno
      have hsame := refreshWritten_sameStore v.shadowed.commitFlush
        (sortedDirty v.file)
      intro segno
      unfold modifyFile
      rw [hsame.storage, hsame.tier]
      exact hshadowed.commitFlush segno

theorem flush_size (v : DoVfs) : v.flush.file.size = v.file.size := by
  cases hidle : v.flushIdle with
  | true => simp [DoVfs.flush, hidle]
  | false =>
      rw [flush_of_busy hidle]
      have hsame := refreshWritten_sameStore v.shadowed.commitFlush
        (sortedDirty v.file)
      calc
        _ = v.shadowed.commitFlush.file.size := hsame.size
        _ = v.file.size := by rw [commitFlush_fileSize, shadowed_file]

/-- The stored length after a flush is the file's. -/
theorem flush_storedSize (v : DoVfs)
    (h : v.file.sizeDirty = false → v.storage.size = v.file.size) :
    v.flush.storage.size = v.file.size := by
  cases hidle : v.flushIdle with
  | true =>
      rcases flushIdle_iff.mp hidle with ⟨-, -, hsize⟩
      simp [DoVfs.flush, hidle, h hsize]
  | false =>
      rw [flush_of_busy hidle]
      have hsame := refreshWritten_sameStore v.shadowed.commitFlush
        (sortedDirty v.file)
      calc
        _ = v.shadowed.commitFlush.storage.size := by
          unfold modifyFile
          rw [hsame.storage]
        _ = v.file.size := by rw [commitFlush_size, shadowed_file]

end DoVfs
end QiForge
