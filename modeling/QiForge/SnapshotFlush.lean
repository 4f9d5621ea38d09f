import QiForge.SnapshotIsolation

/-!
# Pre-images of a flush

A flush first keeps the pre-image of every chunk it overwrites or deletes, so
the chunks still exposed after it are the ones it left alone, and a flush that
rolls back has kept its pre-images all the same.
-/

namespace QiForge

open PageTier

/-- Keep an image for the chunk, once. -/
def keepImage (image : ℕ → MaskedChunk) (s : SnapshotState)
    (chunkno : ℕ) : SnapshotState :=
  if s.totalChunks ≤ chunkno ∨ s.shadow.has chunkno then s
  else { s with shadow := s.shadow.set chunkno (image chunkno) }

/-- The image kept for a chunk a truncation deletes. -/
def storedImage (rows : ℕ → Option MaskedChunk) (cache : ChunkCache)
    (chunkno : ℕ) : MaskedChunk :=
  match cache.entries.get? chunkno with
  | some cached => ⟨cached, fullMask⟩
  | none =>
      match rows chunkno with
      | some row => row
      | none => ⟨zeroBytes, 0#16⟩

namespace SnapshotState

variable {s : SnapshotState} {bucket : Bucket} {content : ℕ → Bytes}
  {chunkno : ℕ}

theorem exposed_of_not_skipped
    (h : ¬(s.totalChunks ≤ chunkno ∨ s.shadow.has chunkno)) :
    s.Exposed chunkno := by
  rw [not_or, not_le, Bool.not_eq_true, OrderedMap.has,
    Option.isSome_eq_false_iff, Option.isNone_iff_eq_none] at h
  exact h

theorem not_exposed_of_skipped
    (h : s.totalChunks ≤ chunkno ∨ s.shadow.has chunkno) :
    ¬s.Exposed chunkno := by
  rintro ⟨hlt, hnone⟩
  rcases h with hle | hhas
  · omega
  · simp [OrderedMap.has, hnone] at hhas

theorem later_keepImage (image : ℕ → MaskedChunk) (s : SnapshotState)
    (chunkno : ℕ) : s.Later (keepImage image s chunkno) := by
  unfold keepImage
  split_ifs with hskip
  · exact Later.refl s
  · refine ⟨rfl, rfl, rfl, ?_⟩
    intro other kept hget
    have hnone := (exposed_of_not_skipped hskip).2
    have hother : other ≠ chunkno := by
      rintro rfl
      simp [hnone] at hget
    change (s.shadow.set chunkno (image chunkno)).get? other = some kept
    rw [OrderedMap.get?_set, if_neg hother]
    exact hget

theorem keepImage_covers (image : ℕ → MaskedChunk) (s : SnapshotState)
    (chunkno : ℕ) : ¬(keepImage image s chunkno).Exposed chunkno := by
  unfold keepImage
  split_ifs with hskip
  · exact not_exposed_of_skipped hskip
  · rintro ⟨-, hnone⟩
    simp at hnone

theorem keepImage_spells {image : ℕ → MaskedChunk}
    (h : s.shadow.All (s.Spells bucket content))
    (himage : s.Exposed chunkno →
      s.Spells bucket content chunkno (image chunkno)) :
    (keepImage image s chunkno).shadow.All
      ((keepImage image s chunkno).Spells bucket content) := by
  unfold keepImage
  split_ifs with hskip
  · exact h
  · apply OrderedMap.All.set
    · exact fun other kept hget _ => h other kept hget
    · exact himage (exposed_of_not_skipped hskip)

theorem later_keepImages (image : ℕ → MaskedChunk) (chunks : List ℕ)
    (s : SnapshotState) : s.Later (chunks.foldl (keepImage image) s) := by
  induction chunks generalizing s with
  | nil => exact Later.refl s
  | cons chunkno rest ih =>
      exact (later_keepImage image s chunkno).trans (ih _)

theorem keepImages_covers (image : ℕ → MaskedChunk) {chunks : List ℕ}
    (s : SnapshotState) (hmem : chunkno ∈ chunks) :
    ¬(chunks.foldl (keepImage image) s).Exposed chunkno := by
  induction chunks generalizing s with
  | nil => exact absurd hmem List.not_mem_nil
  | cons first rest ih =>
      rcases List.mem_cons.mp hmem with rfl | hrest
      · intro hexposed
        have hlater := later_keepImages image rest (keepImage image s chunkno)
        exact keepImage_covers image s chunkno (hexposed.of_later hlater)
      · exact ih _ hrest

theorem keepImages_spells {image : ℕ → MaskedChunk} (chunks : List ℕ)
    (h : s.shadow.All (s.Spells bucket content))
    (himage : ∀ chunkno ∈ chunks, s.Exposed chunkno →
      s.Spells bucket content chunkno (image chunkno)) :
    (chunks.foldl (keepImage image) s).shadow.All
      ((chunks.foldl (keepImage image) s).Spells bucket content) := by
  induction chunks generalizing s with
  | nil => exact h
  | cons chunkno rest ih =>
      have hlater := later_keepImage image s chunkno
      apply ih
      · exact keepImage_spells h (himage chunkno List.mem_cons_self)
      · intro other hmem hexposed
        exact (himage other (List.mem_cons_of_mem _ hmem)
          (hexposed.of_later hlater)).later hlater

end SnapshotState

namespace DoVfs

variable {v : DoVfs} {s : SnapshotState} {content : ℕ → Bytes} {chunkno : ℕ}

theorem shadowDirtyPreImage_eq (file : PersistentFile) :
    shadowDirtyPreImage file =
      keepImage fun chunkno => preImage (file.base.get? chunkno) := by
  funext s chunkno
  unfold shadowDirtyPreImage keepImage preImage
  beta_reduce
  cases file.base.get? chunkno with
  | none => split_ifs <;> rfl
  | some base => cases base <;> split_ifs <;> rfl

theorem shadowStored_eq (rows : ℕ → Option MaskedChunk) (cache : ChunkCache)
    (chunks : List ℕ) (state : SnapshotState × ChunkCache)
    (hcache : ∀ chunkno,
      state.2.entries.get? chunkno = cache.entries.get? chunkno) :
    (chunks.foldl (shadowStoredPreImage rows) state).1 =
      chunks.foldl (keepImage (storedImage rows cache)) state.1 := by
  induction chunks generalizing state with
  | nil => rfl
  | cons chunkno rest ih =>
      have hround : (shadowStoredPreImage rows state chunkno).1 =
          keepImage (storedImage rows cache) state.1 chunkno := by
        unfold shadowStoredPreImage keepImage storedImage
        dsimp only
        rw [hcache]
        split_ifs <;> rfl
      have hkept : ∀ other,
          (shadowStoredPreImage rows state chunkno).2.entries.get? other =
            cache.entries.get? other := by
        intro other
        unfold shadowStoredPreImage
        dsimp only
        split_ifs
        · exact hcache other
        · exact (ChunkCache.get?_refresh _ _ _).trans (hcache other)
      rw [List.foldl_cons, List.foldl_cons, ih _ hkept, hround]

theorem Isolated.later {s' : SnapshotState} (h : v.Isolated s content)
    (hlater : s.Later s')
    (hshadowed : s'.shadow.All (s'.Spells v.bucket content)) :
    v.Isolated s' content where
  shadowed := hshadowed
  rows := by
    intro chunkno hexposed
    rw [hlater.segments]
    exact h.rows chunkno (hexposed.of_later hlater)
  blank := fun chunkno hexposed =>
    h.blank chunkno (hexposed.of_later hlater)
  inR2 := by
    intro chunkno hexposed
    rw [hlater.segments]
    exact h.inR2 chunkno (hexposed.of_later hlater)
  slots := by
    intro chunkno hexposed
    rw [hlater.segments]
    exact h.slots chunkno (hexposed.of_later hlater)
  cached := h.cached.mono fun _ _ hshows => hshows.later hlater
  pins := h.pins.mono fun _ _ hshows => hshows.later hlater
  bases := fun chunkno hexposed hdirty =>
    (h.bases chunkno (hexposed.of_later hlater) hdirty).later hlater

theorem Isolated.storedImage_spells (h : v.Isolated s content)
    (hexposed : s.Exposed chunkno) :
    s.Spells v.bucket content chunkno
      (storedImage v.storage.rows v.cache chunkno) := by
  unfold storedImage
  cases hcached : v.cache.entries.get? chunkno with
  | some cached =>
      exact SnapshotState.spells_full
        (h.cached chunkno cached hcached hexposed)
  | none =>
      cases hrow : v.storage.rows chunkno with
      | some row => exact h.row_spells hexposed hrow
      | none =>
          have hcontent := h.rows chunkno hexposed
          rw [effective_of_none hrow] at hcontent
          intro offset hlt
          exact (placeMasked_of_not_covers (covers_zero offset)).trans
            (hcontent offset hlt)

/-- What the capture of pre-images before a flush achieves. -/
structure Shadowing (v : DoVfs) (s s' : SnapshotState)
    (content : ℕ → Bytes) : Prop where
  snapshot : v.shadowed.snapshot = some s'
  later : s.Later s'
  isolated : v.shadowed.Isolated s' content
  dirty : ∀ chunkno, v.file.dirty.get? chunkno ≠ none → ¬s'.Exposed chunkno
  truncated : ∀ chunkno, v.pastTruncation chunkno = true → ¬s'.Exposed chunkno

theorem Isolated.shadowed_dirty (h : v.Isolated s content) :
    let s' := ((sortedDirty v.file).map Prod.fst).foldl
      (shadowDirtyPreImage v.file) s
    s.Later s' ∧ v.Isolated s' content ∧
      ∀ chunkno, v.file.dirty.get? chunkno ≠ none → ¬s'.Exposed chunkno := by
  intro s'
  have hs' : s' = ((sortedDirty v.file).map Prod.fst).foldl
      (keepImage fun chunkno => preImage (v.file.base.get? chunkno)) s := by
    rw [← shadowDirtyPreImage_eq]
  have hlater : s.Later s' := by
    rw [hs']
    exact SnapshotState.later_keepImages _ _ _
  refine ⟨hlater, h.later hlater ?_, ?_⟩
  · rw [hs']
    apply SnapshotState.keepImages_spells _ h.shadowed
    intro chunkno hmem hexposed
    rcases mem_keys_sortedDirty.mp hmem with ⟨chunk, hget⟩
    exact h.bases chunkno hexposed (by simp [hget])
  · intro chunkno hdirty
    rw [hs']
    apply SnapshotState.keepImages_covers
    rw [mem_keys_sortedDirty]
    exact Option.ne_none_iff_exists'.mp hdirty

theorem Isolated.shadowing (h : v.Isolated s content)
    (hsnapshot : v.snapshot = some s) :
    ∃ s', v.Shadowing s s' content := by
  rcases h.shadowed_dirty with ⟨hlater, hisolated, hcovers⟩
  have hshadowed : v.shadowed = { v with
        snapshot := some (v.shadowPreImages s).1
        cache := (v.shadowPreImages s).2 } := by
    unfold DoVfs.shadowed
    rw [hsnapshot]
  cases htrunc : v.file.truncateToPages with
  | none =>
      have himages : v.shadowPreImages s =
          (((sortedDirty v.file).map Prod.fst).foldl
            (shadowDirtyPreImage v.file) s, v.cache) := by
        simp [shadowPreImages, htrunc]
      refine ⟨_, ?_, hlater, ?_, hcovers, ?_⟩
      · rw [hshadowed, himages]
      · rw [hshadowed, himages]
        exact { hisolated with }
      · intro chunkno hpast
        rw [pastTruncation_of_none htrunc] at hpast
        exact absurd hpast Bool.false_ne_true
  | some keepPages =>
      generalize hfirst : ((sortedDirty v.file).map Prod.fst).foldl
        (shadowDirtyPreImage v.file) s = s1 at hlater hisolated hcovers
      generalize hchunks : List.range' (chunkFloor keepPages)
        (s1.totalChunks - chunkFloor keepPages) = chunks
      have himages : v.shadowPreImages s =
          chunks.foldl (shadowStoredPreImage v.storage.rows)
            (s1, v.cache) := by
        simp [shadowPreImages, htrunc, hfirst, hchunks]
      have hstate := shadowStored_eq v.storage.rows v.cache chunks
        (s1, v.cache) (fun _ => rfl)
      have hlater' := SnapshotState.later_keepImages
        (storedImage v.storage.rows v.cache) chunks s1
      have hspells := SnapshotState.keepImages_spells chunks hisolated.shadowed
        fun chunkno _ hexposed => hisolated.storedImage_spells hexposed
      rw [← hstate, ← himages] at hlater' hspells
      have hcache : (v.shadowPreImages s).2.entries.All
          ((v.shadowPreImages s).1.Shows content) := by
        rw [himages]
        apply all_foldl_shadowStored
        rw [← himages]
        exact hisolated.cached.mono fun _ _ hshows => hshows.later hlater'
      refine ⟨_, by rw [hshadowed], hlater.trans hlater', ?_, ?_, ?_⟩
      · rw [hshadowed]
        have hkept := hisolated.later hlater' hspells
        exact { hkept with cached := hcache }
      · intro chunkno hdirty hexposed
        exact hcovers chunkno hdirty (hexposed.of_later hlater')
      · intro chunkno hpast hexposed
        have hfloor := (pastTruncation_iff htrunc chunkno).mp hpast
        have hlt : chunkno < s1.totalChunks := (hexposed.of_later hlater').1
        rw [himages, hstate] at hexposed
        apply SnapshotState.keepImages_covers _ _ _ hexposed
        rw [← hchunks, List.mem_range'_1]
        omega

theorem commitFlush_bucket (v : DoVfs) : v.commitFlush.bucket = v.bucket ∧
      v.commitFlush.snapshot = v.snapshot := by
  unfold commitFlush
  cases v.file.truncateToPages <;> exact ⟨rfl, rfl⟩

theorem commitFlush_inR2 (hkept : v.pastTruncation chunkno = false) :
    v.commitFlush.inR2 chunkno = v.inR2 chunkno := by
  unfold commitFlush
  cases htrunc : v.file.truncateToPages with
  | none => rfl
  | some keepPages =>
      apply slotInR2_truncateTouched_of_lt
      rw [← Nat.not_le, ← pastTruncation_iff htrunc, hkept]
      exact Bool.false_ne_true

/-- The transaction changes no chunk that is still exposed. -/
theorem Isolated.commitFlush (h : v.Isolated s content)
    (hdirty : ∀ chunkno, v.file.dirty.get? chunkno ≠ none → ¬s.Exposed chunkno)
    (htruncated : ∀ chunkno, v.pastTruncation chunkno = true →
      ¬s.Exposed chunkno) (chunkno : ℕ) (hexposed : s.Exposed chunkno) :
    v.commitFlush.storage.rows chunkno = v.storage.rows chunkno ∧
      v.commitFlush.inR2 chunkno = slotInR2 s.segments chunkno ∧
      slotBytes v.commitFlush.tier.segments v.commitFlush.bucket chunkno =
        slotBytes s.segments v.bucket chunkno := by
  have hclean : v.file.dirty.get? chunkno = none := by
    by_contra hsome
    exact hdirty chunkno hsome hexposed
  have hkept : v.pastTruncation chunkno = false := by
    rw [Bool.eq_false_iff]
    exact fun hpast => htruncated chunkno hpast hexposed
  refine ⟨?_, ?_, ?_⟩
  · rw [commitFlush_rows, hclean, hkept]
    rfl
  · rw [commitFlush_inR2 hkept]
    exact h.inR2 chunkno hexposed
  · rw [commitFlush_slotBytes, hkept, if_neg Bool.false_ne_true]
    exact h.slots chunkno hexposed

theorem shadowed_past (v : DoVfs) (chunkno : ℕ) :
    v.shadowed.pastTruncation chunkno = v.pastTruncation chunkno := by
  unfold pastTruncation
  rw [shadowed_file]

theorem shadowed_bucket (v : DoVfs) : v.shadowed.bucket = v.bucket := by
  unfold shadowed
  cases v.snapshot <;> rfl

/-- The snapshot is open with no fewer pre-images, and still isolated. -/
def Serves (v : DoVfs) (bucket : Bucket) (s : SnapshotState)
    (content : ℕ → Bytes) : Prop :=
  v.bucket = bucket ∧
    ∃ s', v.snapshot = some s' ∧ s.Later s' ∧ v.Isolated s' content

theorem Isolated.serves (h : v.Isolated s content)
    (hsnapshot : v.snapshot = some s) : v.Serves v.bucket s content :=
  ⟨rfl, s, hsnapshot, SnapshotState.Later.refl s, h⟩

theorem Isolated.flush (h : v.Isolated s content)
    (hsnapshot : v.snapshot = some s) :
    v.flush.Serves v.bucket s content := by
  cases hidle : v.flushIdle with
  | true =>
      have hsame : v.flush = v := by simp [DoVfs.flush, hidle]
      rw [hsame]
      exact h.serves hsnapshot
  | false =>
      rcases h.shadowing hsnapshot with ⟨s', hs⟩
      rw [flush_of_busy hidle]
      have hsame := refreshWritten_sameStore v.shadowed.commitFlush
        (sortedDirty v.file)
      rcases commitFlush_bucket v.shadowed with ⟨hbucket, hkeptSnapshot⟩
      rcases commitFlush_caches v.shadowed with ⟨hcache, hpinned⟩
      have hcommit := hs.isolated.commitFlush
        (by rw [shadowed_file]; exact hs.dirty)
        (fun chunkno hpast => hs.truncated chunkno
          ((shadowed_past v chunkno).symm.trans hpast))
      have hbuckets : (((sortedDirty v.file).foldl refreshWritten
          v.shadowed.commitFlush).modifyFile clearPending).bucket =
          v.shadowed.bucket := hsame.bucket.trans hbucket
      have hwritten : ∀ chunkno chunk,
          (chunkno, chunk) ∈ sortedDirty v.file → ¬s'.Exposed chunkno := by
        intro chunkno chunk hmem
        apply hs.dirty chunkno
        rw [mem_sortedDirty.mp hmem]
        exact Option.some_ne_none chunk
      have hall := refreshWritten_all (P := s'.Shows content)
        (v := v.shadowed.commitFlush)
        (fun chunkno chunk hmem _ hexposed =>
          absurd hexposed (hwritten chunkno chunk hmem))
        (by
          rw [hcache]
          exact hs.isolated.cached.mono fun _ _ hshows _ => hshows)
        (by
          rw [hpinned]
          exact hs.isolated.pins.mono fun _ _ hshows _ => hshows)
      refine ⟨hbuckets.trans (shadowed_bucket v), s', ?_, hs.later, ?_, ?_,
        ?_, ?_, ?_, hall.1, hall.2, ?_⟩
      · exact (hsame.snapshot.trans hkeptSnapshot).trans hs.snapshot
      · rw [hbuckets]
        exact hs.isolated.shadowed
      · intro chunkno hexposed
        have hrow := (hcommit chunkno hexposed).1
        have hcontent := hs.isolated.rows chunkno hexposed
        unfold effective at hcontent ⊢
        rw [← hrow] at hcontent
        unfold modifyFile
        rw [hsame.storage, hsame.bucket, hbucket]
        exact hcontent
      · intro chunkno hexposed row hget
        apply hs.isolated.blank chunkno hexposed
        rw [← (hcommit chunkno hexposed).1, ← hsame.storage]
        exact hget
      · intro chunkno hexposed
        have hin := (hcommit chunkno hexposed).2.1
        unfold DoVfs.inR2 modifyFile at *
        rw [hsame.tier]
        exact hin
      · intro chunkno hexposed
        have hslot := (hcommit chunkno hexposed).2.2
        unfold modifyFile
        rw [hsame.tier, hsame.bucket, hslot, hbucket]
      · intro chunkno _ hdirty
        exact absurd rfl hdirty

theorem Isolated.flushRollsBack (h : v.Isolated s content)
    (hsnapshot : v.snapshot = some s) (touched : ℕ → Bool) :
    (v.flushRollsBack touched).Serves v.bucket s content := by
  have hbucket := shadowed_bucket v
  unfold DoVfs.flushRollsBack
  split_ifs
  · exact h.serves hsnapshot
  · rcases h.shadowing hsnapshot with ⟨s', hs⟩
    cases htrunc : v.file.truncateToPages with
    | none => exact ⟨hbucket, s', hs.snapshot, hs.later, hs.isolated⟩
    | some keepPages =>
        have hbelow : ∀ chunkno, s'.Exposed chunkno →
            chunkno < chunkFloor keepPages := by
          intro chunkno hexposed
          rw [← Nat.not_le, ← pastTruncation_iff htrunc]
          exact fun hpast => hs.truncated chunkno hpast hexposed
        have hi := hs.isolated
        have htier := (shadowed_tiers v).2
        refine ⟨hbucket, s', hs.snapshot, hs.later, hi.shadowed, hi.rows,
          hi.blank, ?_, ?_, hi.cached, hi.pins, hi.bases⟩
        · intro chunkno hexposed
          have hin := hi.inR2 chunkno hexposed
          unfold DoVfs.inR2 at hin ⊢
          rw [htier] at hin
          rw [← hin]
          exact slotInR2_truncateTouched_of_lt _ _ (hbelow chunkno hexposed)
        · intro chunkno hexposed
          have hslot := hi.slots chunkno hexposed
          rw [htier] at hslot
          rw [← hslot]
          exact slotBytes_truncateTouched_of_lt _ _ _ (hbelow chunkno hexposed)

theorem Serves.trans {bucket : Bucket} {w : DoVfs}
    (h : v.Serves bucket s content)
    (hnext : ∀ s', v.snapshot = some s' → v.Isolated s' content →
      w.Serves v.bucket s' content) : w.Serves bucket s content := by
  rcases h with ⟨rfl, s', hsnapshot, hlater, hisolated⟩
  rcases hnext s' hsnapshot hisolated with ⟨hbucket, s'', hopen, hmore, hi⟩
  exact ⟨hbucket, s'', hopen, hlater.trans hmore, hi⟩

end DoVfs
end QiForge
