import QiForge.TierEviction

/-!
# What may happen between the steps of an eviction pass

`Progress v w` is all a pass relies on about the steps of others: a
truncation is visible in the layout epoch, and while the epoch stands the
segment map stays and every row that changed is in the pass's written set and
claims no fewer pages.  It is reflexive and transitive, and transactions,
resolves, reads and snapshots make progress.
-/

namespace QiForge

open PageTier

namespace DoVfs

def Tracking (v : DoVfs) : Prop :=
  ∃ written, v.file.tierWrittenSince = some written

def Written (v : DoVfs) (chunkno : ℕ) : Prop :=
  ∃ written, v.file.tierWrittenSince = some written ∧ chunkno ∈ written

/-- The entries of `w` carry generations of `v`, and none is handed out. -/
structure GensKept (v w : DoVfs) : Prop where
  maxGen : w.tier.maxGen = v.tier.maxGen
  entries : ∀ segno entry, w.tier.segments.get? segno = some entry →
    ∃ old, v.tier.segments.get? segno = some old ∧ old.gen = entry.gen

structure Progress (v w : DoVfs) : Prop where
  tracking : v.Tracking → w.Tracking
  bucket : w.bucket = v.bucket
  gens : GensKept v w
  epoch : v.layoutEpoch ≤ w.layoutEpoch
  tier : w.layoutEpoch = v.layoutEpoch → w.tier = v.tier
  rows : v.Tracking → w.layoutEpoch = v.layoutEpoch → ∀ chunkno,
    w.storage.rows chunkno = v.storage.rows chunkno ∨ (w.Written chunkno ∧
        RowGrows (v.storage.rows chunkno) (w.storage.rows chunkno))
  written : ∀ chunkno, v.Written chunkno → w.Written chunkno

variable {u v w : DoVfs}

theorem GensKept.trans (huv : GensKept u v) (hvw : GensKept v w) :
    GensKept u w := by
  refine ⟨hvw.maxGen.trans huv.maxGen, ?_⟩
  intro segno entry hget
  rcases hvw.entries segno entry hget with ⟨mid, hmid, hgen⟩
  rcases huv.entries segno mid hmid with ⟨old, hold, hgen'⟩
  exact ⟨old, hold, hgen'.trans hgen⟩

/-- Steps that leave storage, map and written set alone make progress. -/
theorem Progress.of_same (hstorage : w.storage = v.storage)
    (hbucket : w.bucket = v.bucket) (htier : w.tier = v.tier)
    (hepoch : w.layoutEpoch = v.layoutEpoch)
    (hwritten : w.file.tierWrittenSince = v.file.tierWrittenSince) :
    Progress v w where
  tracking := by
    unfold Tracking
    rw [hwritten]
    exact id
  bucket := hbucket
  gens := by
    refine ⟨by rw [htier], ?_⟩
    intro segno entry hget
    rw [htier] at hget
    exact ⟨entry, hget, rfl⟩
  epoch := hepoch.ge
  tier := fun _ => htier
  rows := by
    intro _ _ chunkno
    rw [hstorage]
    exact Or.inl rfl
  written := by
    intro chunkno h
    unfold Written
    rw [hwritten]
    exact h

theorem Progress.refl (v : DoVfs) : Progress v v :=
  Progress.of_same rfl rfl rfl rfl rfl

theorem Progress.trans (huv : Progress u v) (hvw : Progress v w) :
    Progress u w where
  tracking := fun ht => hvw.tracking (huv.tracking ht)
  bucket := hvw.bucket.trans huv.bucket
  gens := huv.gens.trans hvw.gens
  epoch := huv.epoch.trans hvw.epoch
  tier := by
    intro hsame
    have h := huv.epoch
    have h' := hvw.epoch
    rw [hvw.tier (by omega), huv.tier (by omega)]
  rows := by
    intro ht hsame chunkno
    have h := huv.epoch
    have h' := hvw.epoch
    have hlate := hvw.rows (huv.tracking ht) (by omega) chunkno
    have hearly := huv.rows ht (by omega) chunkno
    rcases hlate with hlate | ⟨hwritten, hgrows⟩
    · rw [hlate]
      rcases hearly with hearly | ⟨hwritten, hgrows⟩
      · exact Or.inl hearly
      · exact Or.inr ⟨hvw.written chunkno hwritten, hgrows⟩
    · rcases hearly with hearly | ⟨-, hgrows'⟩
      · rw [hearly] at hgrows
        exact Or.inr ⟨hwritten, hgrows⟩
      · exact Or.inr ⟨hwritten, hgrows'.trans hgrows⟩
  written := fun chunkno h => hvw.written chunkno (huv.written chunkno h)

theorem refreshWritten_written {written : List ℕ}
    (flushed : List (ℕ × MaskedChunk))
    (h : v.file.tierWrittenSince = some written) :
    ∃ written', (flushed.foldl refreshWritten v).file.tierWrittenSince =
        some written' ∧
      (∀ chunkno ∈ written, chunkno ∈ written') ∧
      ∀ chunk ∈ flushed, chunk.1 ∈ written' := by
  induction flushed generalizing v written with
  | nil => exact ⟨written, h, fun _ hmem => hmem, by simp⟩
  | cons first rest ih =>
      have hfirst : (v.refreshWritten first).file.tierWrittenSince =
          some (if first.1 ∈ written then written
            else written ++ [first.1]) := by
        unfold refreshWritten
        rw [h]
        rfl
      rcases ih hfirst with ⟨written', hget, hold, hnew⟩
      refine ⟨written', hget, ?_, ?_⟩
      · intro chunkno hmem
        apply hold
        split_ifs
        · exact hmem
        · exact List.mem_append_left _ hmem
      · intro chunk hmem
        rcases List.mem_cons.mp hmem with rfl | hrest
        · apply hold
          split_ifs with hin
          · exact hin
          · exact List.mem_append_right _ (List.mem_singleton_self _)
        · exact hnew chunk hrest

theorem commitFlush_epoch (v : DoVfs) : v.commitFlush.layoutEpoch =
      v.layoutEpoch + if v.file.truncateToPages.isSome then 1 else 0 := by
  unfold commitFlush
  cases v.file.truncateToPages <;> rfl

theorem commitFlush_tier (h : v.file.truncateToPages = none) :
    v.commitFlush.tier = v.tier := by
  unfold commitFlush
  rw [h]

theorem commitFlush_gens (v : DoVfs) : GensKept v v.commitFlush := by
  unfold commitFlush
  cases v.file.truncateToPages with
  | none => exact ⟨rfl, fun _ entry h => ⟨entry, h, rfl⟩⟩
  | some keepPages =>
      refine ⟨rfl, ?_⟩
      intro segno entry hget
      change (truncateTouched (fun _ => true) v.tier.segments
        (chunkFloor keepPages)).get? segno = some entry at hget
      rw [get?_truncateTouched, if_pos rfl] at hget
      split_ifs at hget
      rw [Option.map_eq_some_iff] at hget
      rcases hget with ⟨old, hold, rfl⟩
      exact ⟨old, hold, rfl⟩

theorem commitFlush_kept (v : DoVfs) : v.commitFlush.bucket = v.bucket ∧
      v.commitFlush.file = v.file ∧
      v.commitFlush.snapshot = v.snapshot := by
  unfold commitFlush
  cases v.file.truncateToPages <;> exact ⟨rfl, rfl, rfl⟩

theorem shadowed_kept (v : DoVfs) : v.shadowed.bucket = v.bucket ∧
      v.shadowed.layoutEpoch = v.layoutEpoch := by
  unfold shadowed
  cases v.snapshot with
  | none => exact ⟨rfl, rfl⟩
  | some snapshot => exact ⟨rfl, rfl⟩

variable {ref : Bytes}

theorem Coherent.flush_progress (h : v.Coherent ref) : Progress v v.flush := by
  cases hidle : v.flushIdle with
  | true =>
      have hsame : v.flush = v := by simp [DoVfs.flush, hidle]
      rw [hsame]
      exact Progress.refl v
  | false =>
      rw [flush_of_busy hidle]
      have hfile := v.shadowed_file
      rcases v.shadowed_tiers with ⟨hstorage, htier⟩
      rcases v.shadowed_kept with ⟨hbucket, hepoch⟩
      rcases v.shadowed.commitFlush_kept with ⟨hbucket', hfile', -⟩
      have hsame := refreshWritten_sameStore v.shadowed.commitFlush
        (sortedDirty v.file)
      have htracked : ∀ written, v.file.tierWrittenSince = some written →
          ∃ written', (((sortedDirty v.file).foldl refreshWritten
              v.shadowed.commitFlush).modifyFile
                clearPending).file.tierWrittenSince = some written' ∧
            (∀ chunkno ∈ written, chunkno ∈ written') ∧
            ∀ chunk ∈ sortedDirty v.file, chunk.1 ∈ written' := by
        intro written hwritten
        apply refreshWritten_written
        rw [hfile', hfile]
        exact hwritten
      have hepoch' := commitFlush_epoch v.shadowed
      rw [hfile, hepoch, ← hsame.layoutEpoch] at hepoch'
      refine ⟨?_, ?_, ?_, ?_, ?_, ?_, ?_⟩
      · rintro ⟨written, hwritten⟩
        rcases htracked written hwritten with ⟨written', hget, -⟩
        exact ⟨written', hget⟩
      · exact (hsame.bucket.trans hbucket').trans hbucket
      · have hgens := v.shadowed.commitFlush_gens
        refine ⟨?_, ?_⟩
        · change (List.foldl refreshWritten _ _).tier.maxGen = _
          rw [hsame.tier, hgens.maxGen, htier]
        · intro segno entry hentry
          change (List.foldl refreshWritten _ _).tier.segments.get? _ = _
            at hentry
          rw [hsame.tier] at hentry
          rw [← htier]
          exact hgens.entries segno entry hentry
      · change v.layoutEpoch ≤ (List.foldl refreshWritten _ _).layoutEpoch
        omega
      · intro hstill
        change (List.foldl refreshWritten _ _).layoutEpoch = _ at hstill
        have hnone : v.shadowed.file.truncateToPages = none := by
          rw [hfile]
          cases htrunc : v.file.truncateToPages with
          | none => rfl
          | some keepPages =>
              rw [htrunc] at hepoch'
              simp only [Option.isSome_some, if_true] at hepoch'
              omega
        change (List.foldl refreshWritten _ _).tier = _
        rw [hsame.tier, commitFlush_tier hnone, htier]
      · rintro ⟨written, hwritten⟩ hstill chunkno
        rcases htracked written hwritten with ⟨written', hget, -, hnew⟩
        change (List.foldl refreshWritten _ _).layoutEpoch = _ at hstill
        have hnone : v.file.truncateToPages = none := by
          cases htrunc : v.file.truncateToPages with
          | none => rfl
          | some keepPages =>
              rw [htrunc] at hepoch'
              simp only [Option.isSome_some, if_true] at hepoch'
              omega
        have hkept := @pastTruncation_of_none _ chunkno hnone
        have hrows := commitFlush_rows v.shadowed chunkno
        have hpast : v.shadowed.pastTruncation chunkno = false := by
          unfold pastTruncation at hkept ⊢
          rw [hfile]
          exact hkept
        rw [hpast, if_neg Bool.false_ne_true, hfile, hstorage,
          ← hsame.storage] at hrows
        change (List.foldl refreshWritten _ _).storage.rows _ = _ ∨ _
        cases hdirty : v.file.dirty.get? chunkno with
        | none =>
            rw [hdirty, Option.none_or] at hrows
            exact Or.inl hrows
        | some dirty =>
            rw [hdirty, Option.some_or] at hrows
            refine Or.inr ⟨⟨written', hget, ?_⟩, ?_⟩
            · exact hnew (chunkno, dirty) (mem_sortedDirty.mpr hdirty)
            · intro row hrow
              exact ⟨dirty, hrows,
                (h.dirty chunkno dirty hdirty).2 hkept row hrow⟩
      · rintro chunkno ⟨written, hwritten, hmem⟩
        rcases htracked written hwritten with ⟨written', hget, hold, -⟩
        exact ⟨written', hget, hold chunkno hmem⟩

theorem WritesDiffer.progress (h : WritesDiffer v w) : Progress v w := by
  rcases h with ⟨cache, dirty, base, rfl⟩
  exact Progress.of_same rfl rfl rfl rfl rfl

theorem ReadsDiffer.progress (h : ReadsDiffer v w) : Progress v w := by
  rcases h with ⟨cache, dirty, misses, rfl⟩
  exact Progress.of_same rfl rfl rfl rfl rfl

theorem PinsDiffer.progress (h : PinsDiffer v w) : Progress v w := by
  rcases h with ⟨pins, rfl, -⟩
  exact Progress.of_same rfl rfl rfl rfl rfl

end DoVfs
end QiForge
