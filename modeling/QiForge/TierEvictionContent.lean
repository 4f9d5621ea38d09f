import QiForge.TierEvictionProgress

/-!
# Eviction preserves the content

Between its read and its commit a pass holds a picture of one segment: while
the layout epoch stands the entry is still the mapped one, rows outside the
written set are the ones it read and rows inside it claim at least as much.
So the rewritten slots lie under every row exactly as the old slot with the
old row did, and the commit moves no byte.
-/

namespace QiForge

open PageTier

namespace DoVfs

def GensBelow (v : DoVfs) (gen : ℕ) : Prop :=
  ∀ segno entry, v.tier.segments.get? segno = some entry → entry.gen < gen

/-- The counter in memory is past every mapped generation. -/
def GenBound (v : DoVfs) : Prop :=
  ∀ max, v.tier.maxGen = some max → v.GensBelow (max + 1)

/-- Nothing is pending and the stored content is the reference. -/
structure Settled (v : DoVfs) (ref : FlatFile) : Prop where
  refines : v.Refines ref
  idle : v.flushIdle = true
  gens : v.GenBound

variable {v w : DoVfs} {ref : FlatFile} {chunkno : ℕ}

theorem GensKept.below {gen : ℕ} (h : GensKept v w) (hv : v.GensBelow gen) :
    w.GensBelow gen := by
  intro segno entry hget
  rcases h.entries segno entry hget with ⟨old, hold, hgen⟩
  exact hgen ▸ hv segno old hold

theorem GensKept.bound (h : GensKept v w) (hv : v.GenBound) : w.GenBound := by
  intro max hmax
  rw [h.maxGen] at hmax
  exact h.below (hv max hmax)

theorem Settled.stored (h : v.Settled ref) (chunkno : ℕ) :
    Agree (v.stored chunkno) (chunkOf ref.bytes chunkno) := by
  rw [← view_of_idle h.idle]
  exact h.refines.coherent.view chunkno

theorem Settled.durable (h : v.Settled ref) (chunkno : ℕ) :
    Agree (v.durable chunkno) (chunkOf ref.bytes chunkno) := by
  rw [h.refines.inSync.durable_eq]
  exact h.stored chunkno

theorem flushIdle_of_file (h : w.file.dirty = v.file.dirty)
    (htruncate : w.file.truncateToPages = v.file.truncateToPages)
    (hsize : w.file.sizeDirty = v.file.sizeDirty) :
    w.flushIdle = v.flushIdle := by
  unfold flushIdle
  rw [h, htruncate, hsize]

theorem flush_idle (v : DoVfs) : v.flush.flushIdle = true := by
  cases hidle : v.flushIdle with
  | true => simp [flush, hidle]
  | false =>
      rw [flush_of_busy hidle]
      rfl

theorem flush_lock (v : DoVfs) : v.flush.file.lock = v.file.lock := by
  cases hidle : v.flushIdle with
  | true => simp [flush, hidle]
  | false =>
      rw [flush_of_busy hidle]
      have hsame := refreshWritten_sameStore v.shadowed.commitFlush
        (sortedDirty v.file)
      have hfile := v.shadowed.commitFlush_kept.2.1
      calc
        _ = v.shadowed.commitFlush.file.lock := hsame.lock
        _ = v.file.lock := by rw [hfile, v.shadowed_file]

theorem Settled.noTruncation (h : v.Settled ref) (chunkno : ℕ) :
    v.pastTruncation chunkno = false :=
  pastTruncation_of_none (flushIdle_iff.mp h.idle).2.1

theorem Settled.noDirty (h : v.Settled ref) (chunkno : ℕ) :
    v.file.dirty.get? chunkno = none := by
  rw [OrderedMap.get?_eq_none_iff, OrderedMap.keys,
    (flushIdle_iff.mp h.idle).1]
  exact List.not_mem_nil

/-- A change of rows, map and bucket that moves no stored byte. -/
theorem Settled.of_stored (h : v.Settled ref) (hfile : w.file = v.file)
    (hcache : w.cache = v.cache) (hpinned : w.pinned = v.pinned)
    (hrows : ∀ chunkno row, w.storage.rows chunkno = some row →
      v.storage.rows chunkno = some row)
    (hsize : w.storage.size = v.storage.size)
    (hstored : ∀ chunkno, Agree (w.stored chunkno) (v.stored chunkno))
    (hsync : w.InSync) (hgens : w.GenBound) : w.Settled ref := by
  have hpast : ∀ chunkno, w.pastTruncation chunkno = false := by
    intro chunkno
    have hkept := h.noTruncation chunkno
    unfold pastTruncation at hkept ⊢
    rw [hfile]
    exact hkept
  have hclean : ∀ chunkno bytes, v.Clean chunkno bytes →
      w.Clean chunkno bytes := fun chunkno bytes hold =>
    ⟨hpast chunkno, hold.2.trans (hstored chunkno).symm⟩
  have hc := h.refines.coherent
  refine ⟨⟨⟨?_, ?_, ?_, ?_, ?_⟩, hsync, ?_, ?_⟩, ?_, hgens⟩
  · intro chunkno
    have hnone : w.file.dirty.get? chunkno = none := by
      rw [hfile]
      exact h.noDirty chunkno
    rw [view_of_clean hnone, cleanView_of_kept (hpast chunkno)]
    exact (hstored chunkno).trans (h.stored chunkno)
  · rw [hcache]
    exact hc.cached.mono hclean
  · rw [hpinned]
    exact hc.pins.mono hclean
  · exact fun chunkno row hrow => hc.rows chunkno row (hrows chunkno row hrow)
  · intro chunkno dirty hget
    rw [hfile, h.noDirty chunkno] at hget
    simp at hget
  · rw [hfile]
    exact h.refines.size
  · intro hclean
    rw [hfile] at hclean ⊢
    rw [hsize]
    exact h.refines.storedSize hclean
  · rw [flushIdle_of_file (v := v) (by rw [hfile]) (by rw [hfile])
      (by rw [hfile])]
    exact h.idle

theorem Settled.of_refines (h : v.Settled ref) (hrefines : w.Refines ref)
    (hdirty : w.file.dirty = v.file.dirty)
    (htruncate : w.file.truncateToPages = v.file.truncateToPages)
    (hsize : w.file.sizeDirty = v.file.sizeDirty) (htier : w.tier = v.tier) :
    w.Settled ref := by
  refine ⟨hrefines, ?_, ?_⟩
  · rw [flushIdle_of_file hdirty htruncate hsize]
    exact h.idle
  · unfold GenBound GensBelow
    rw [htier]
    exact h.gens

end DoVfs

/-- Where nothing of the row lies over it the mapped slot is blank. -/
def ZeroBelow (v : DoVfs) (chunkno : ℕ) : Prop :=
  ∀ offset, offset < chunkSize → (∀ row, v.storage.rows chunkno = some row →
      covers row.mask offset = false) →
    slotBytes v.tier.segments v.bucket chunkno offset = 0

structure Captured (v : DoVfs) (plan : TierPassPlan) (read : SegmentRead) :
    Prop where
  entry : v.tier.segments.get? read.segno = read.entry
  grows : ∀ chunkno ∈ DoVfs.segmentRange plan.totalChunks read.segno,
    RowGrows (read.byChunk chunkno) (v.storage.rows chunkno)
  unwritten : ∀ chunkno ∈ DoVfs.segmentRange plan.totalChunks read.segno,
    ¬ v.Written chunkno → v.storage.rows chunkno = read.byChunk chunkno

structure Rewritten (v : DoVfs) (plan : TierPassPlan) (read : SegmentRead)
    (upload : SegmentUpload) : Prop where
  seg : ∀ chunkno ∈ DoVfs.segmentRange plan.totalChunks read.segno,
    Agree (slotSlice upload.seg chunkno) (overRow (read.byChunk chunkno)
        (slotBytes v.tier.segments v.bucket chunkno))
  mask : ∀ chunkno, segmentOf chunkno = read.segno →
    upload.mask.getLsbD (slotOf chunkno) =
      (decide (chunkno < plan.totalChunks) &&
        ((read.byChunk chunkno).isSome || slotOfEntry read.entry chunkno))

def PhaseInv (v : DoVfs) (plan : TierPassPlan) : TierPhase → Prop
  | .between => True
  | .read read => v.layoutEpoch = plan.epoch → Captured v plan read
  | .uploading read upload =>
      v.GensBelow upload.gen ∧ (v.layoutEpoch = plan.epoch →
          Captured v plan read ∧ Rewritten v plan read upload)
  | .uploaded read upload =>
      v.bucket read.segno upload.gen = some upload.seg ∧
        v.GensBelow upload.gen ∧
        (v.layoutEpoch = plan.epoch →
          Captured v plan read ∧ Rewritten v plan read upload)

structure PassInv (v : DoVfs) (pass : TierPass) : Prop where
  tracking : v.Tracking
  epoch : pass.plan.epoch ≤ v.layoutEpoch
  past : v.layoutEpoch = pass.plan.epoch →
    ∀ chunkno, pass.plan.totalChunks ≤ chunkno → ZeroBelow v chunkno
  candidates : ∀ segno, ∀ chunkno ∈ pass.plan.bySegment segno,
    chunkno ∈ DoVfs.segmentRange pass.plan.totalChunks segno
  phase : PhaseInv v pass.plan pass.phase

variable {v w : DoVfs} {plan : TierPassPlan}

variable {read : SegmentRead}

theorem Captured.of_progress
    (h : Captured v plan read) (hp : v.Progress w) (ht : v.Tracking)
    (hepoch : w.layoutEpoch = v.layoutEpoch) : Captured w plan read where
  entry := by
    rw [hp.tier hepoch]
    exact h.entry
  grows := by
    intro chunkno hmem
    have hold := h.grows chunkno hmem
    rcases hp.rows ht hepoch chunkno with hsame | ⟨-, hgrows⟩
    · rw [hsame]
      exact hold
    · exact hold.trans hgrows
  unwritten := by
    intro chunkno hmem hnot
    rcases hp.rows ht hepoch chunkno with hsame | ⟨hwritten, -⟩
    · rw [hsame]
      exact h.unwritten chunkno hmem fun hw => hnot (hp.written chunkno hw)
    · exact absurd hwritten hnot

variable {upload : SegmentUpload}

theorem Rewritten.of_slots (h : Rewritten v plan read upload)
    (hslots : ∀ chunkno, slotBytes w.tier.segments w.bucket chunkno =
      slotBytes v.tier.segments v.bucket chunkno) :
    Rewritten w plan read upload where
  seg := by
    intro chunkno hmem
    rw [hslots]
    exact h.seg chunkno hmem
  mask := h.mask

theorem ZeroBelow.of_progress {chunkno : ℕ} (h : ZeroBelow v chunkno)
    (hp : v.Progress w) (ht : v.Tracking)
    (hepoch : w.layoutEpoch = v.layoutEpoch) : ZeroBelow w chunkno := by
  intro offset hlt hnone
  rw [hp.tier hepoch, hp.bucket]
  apply h offset hlt
  intro row hrow
  rcases hp.rows ht hepoch chunkno with hsame | ⟨-, hgrows⟩
  · exact hnone row (hsame.trans hrow)
  · rcases hgrows row hrow with ⟨row', hrow', hle⟩
    by_contra hne
    have hcov := hle offset (by simpa using hne)
    rw [hnone row' hrow'] at hcov
    exact Bool.noConfusion hcov

/-- The invariant of a pass survives whatever others do between its steps. -/
theorem PassInv.of_progress {pass : TierPass} (h : PassInv v pass)
    (hp : v.Progress w) : PassInv w pass := by
  have hback : w.layoutEpoch = pass.plan.epoch →
      w.layoutEpoch = v.layoutEpoch ∧ v.layoutEpoch = pass.plan.epoch := by
    intro hsame
    have h1 := h.epoch
    have h2 := hp.epoch
    omega
  have hslots : w.layoutEpoch = v.layoutEpoch → ∀ chunkno,
      slotBytes w.tier.segments w.bucket chunkno =
        slotBytes v.tier.segments v.bucket chunkno := by
    intro hepoch chunkno
    rw [hp.tier hepoch, hp.bucket]
  have ht := h.tracking
  refine ⟨hp.tracking ht, h.epoch.trans hp.epoch, ?_, h.candidates, ?_⟩
  · intro hsame chunkno hle
    rcases hback hsame with ⟨hepoch, hplan⟩
    exact (h.past hplan chunkno hle).of_progress hp ht hepoch
  · have hphase := h.phase
    cases hcase : pass.phase with
    | between => trivial
    | read read =>
        rw [hcase] at hphase
        intro hsame
        rcases hback hsame with ⟨hepoch, hplan⟩
        exact (hphase hplan).of_progress hp ht hepoch
    | uploading read upload =>
        rw [hcase] at hphase
        refine ⟨hp.gens.below hphase.1, ?_⟩
        intro hsame
        rcases hback hsame with ⟨hepoch, hplan⟩
        rcases hphase.2 hplan with ⟨hcaptured, hrewritten⟩
        exact ⟨hcaptured.of_progress hp ht hepoch,
          hrewritten.of_slots (hslots hepoch)⟩
    | uploaded read upload =>
        rw [hcase] at hphase
        refine ⟨?_, hp.gens.below hphase.2.1, ?_⟩
        · rw [hp.bucket]
          exact hphase.1
        · intro hsame
          rcases hback hsame with ⟨hepoch, hplan⟩
          rcases hphase.2.2 hplan with ⟨hcaptured, hrewritten⟩
          exact ⟨hcaptured.of_progress hp ht hepoch,
            hrewritten.of_slots (hslots hepoch)⟩

section Rewriting

variable {read : SegmentRead} {chunkno : ℕ}

theorem slotBytes_of_entry
    (hentry : v.tier.segments.get? read.segno = read.entry)
    (hsegment : segmentOf chunkno = read.segno) :
    slotBytes v.tier.segments v.bucket chunkno =
      match read.entry with
      | none => zeroBytes
      | some entry =>
          if entry.mask.getLsbD (slotOf chunkno) then
            match v.bucket read.segno entry.gen with
            | none => zeroBytes
            | some seg => slotSlice seg chunkno
          else zeroBytes := by
  unfold slotBytes
  rewrite [hsegment, hentry]
  cases read.entry with
  | none => rfl
  | some entry => rfl

/-- What the pass fetched for the captured entry. -/
def Fetched (v : DoVfs) (totalChunks : ℕ) (read : SegmentRead)
    (old : Option Bytes) : Prop :=
  match read.entry with
  | none => old = none
  | some entry =>
      if entry.mask ≠ 0#16 ∧ needOld totalChunks read = true then
        ∃ seg, v.bucket read.segno entry.gen = some seg ∧ old = some seg
      else old = none

variable {totalChunks : ℕ}

/-- A slot whose full row was read needs no old object. -/
theorem needOld_false (h : needOld totalChunks read = false)
    (hmem : chunkno ∈ DoVfs.segmentRange totalChunks read.segno)
    (hslot : slotOfEntry read.entry chunkno = true) :
    ∃ row, read.byChunk chunkno = some row ∧ row.mask = fullMask := by
  unfold needOld at h
  rw [List.any_eq_false] at h
  have hnot := h chunkno hmem
  rw [hslot, Bool.true_and] at hnot
  cases hrow : read.byChunk chunkno with
  | none => simp [hrow] at hnot
  | some row =>
      simp only [hrow, decide_eq_true_eq, not_not] at hnot
      exact ⟨row, rfl, hnot⟩

theorem rewriteSlot_agrees {old : Option Bytes}
    (hentry : v.tier.segments.get? read.segno = read.entry)
    (hmem : chunkno ∈ DoVfs.segmentRange totalChunks read.segno)
    (hfetched : Fetched v totalChunks read old) :
    Agree (rewriteSlot read old chunkno) (overRow (read.byChunk chunkno)
        (slotBytes v.tier.segments v.bucket chunkno)) := by
  have hsegment := (mem_segmentRange.mp hmem).1
  rw [slotBytes_of_entry hentry hsegment]
  unfold rewriteSlot
  unfold Fetched at hfetched
  cases hcase : read.entry with
  | none =>
      rw [hcase] at hfetched
      dsimp only at hfetched
      subst hfetched
      exact Agree.refl _
  | some entry =>
      rw [hcase] at hfetched
      dsimp only at hfetched ⊢
      split_ifs at hfetched with hneeded
      · rcases hfetched with ⟨seg, hseg, rfl⟩
        rw [hseg]
        exact Agree.refl _
      · subst hfetched
        dsimp only
        split_ifs with hslot
        · have hnot : needOld totalChunks read = false := by
            have hmask : entry.mask ≠ 0#16 := by
              rintro hzero
              rw [hzero] at hslot
              simp at hslot
            simpa [hmask] using hneeded
          have hclaimed : slotOfEntry read.entry chunkno = true := by
            rw [hcase]
            exact hslot
          rcases needOld_false hnot hmem hclaimed with ⟨row, hrow, hfull⟩
          rw [hrow]
          unfold overRow
          dsimp only
          rw [hfull]
          exact (placeMasked_fullMask _ _).trans
            (placeMasked_fullMask _ _).symm
        · exact Agree.refl _

theorem slotSlice_rewriteSegment (old : Option Bytes)
    (hmem : chunkno ∈ DoVfs.segmentRange totalChunks read.segno) :
    Agree (slotSlice (rewriteSegment totalChunks read old) chunkno)
      (rewriteSlot read old chunkno) := by
  intro offset hlt
  rcases mem_segmentRange.mp hmem with ⟨hsegment, hbelow⟩
  have hdiv : (slotOf chunkno * chunkSize + offset) / chunkSize =
      slotOf chunkno := by
    rw [chunkSize_eq] at *
    omega
  have hmod : (slotOf chunkno * chunkSize + offset) % chunkSize =
      offset := by
    rw [chunkSize_eq] at *
    omega
  have hchunk : read.segno * segmentChunks + slotOf chunkno = chunkno := by
    unfold slotOf
    rw [hsegment]
    unfold segmentOf segmentChunks at *
    omega
  unfold slotSlice rewriteSegment
  rw [hdiv, hmod, hchunk, if_pos hbelow]

theorem getLsbD_rewriteMask (hsegment : segmentOf chunkno = read.segno) :
    (rewriteMask totalChunks read).getLsbD (slotOf chunkno) =
      (decide (chunkno < totalChunks) && ((read.byChunk chunkno).isSome ||
          slotOfEntry read.entry chunkno)) := by
  unfold rewriteMask
  rw [getLsbD_foldl_or _ _ (slotOf_lt chunkno)]
  simp only [BitVec.getLsbD_zero, Bool.false_or]
  rw [Bool.eq_iff_iff, decide_eq_true_eq, List.mem_map]
  simp only [List.mem_filter, mem_segmentRange, Bool.and_eq_true,
    decide_eq_true_eq]
  constructor
  · rintro ⟨other, ⟨⟨hother, hbelow⟩, hclaim⟩, hslot⟩
    have heq : other = chunkno := by
      unfold slotOf segmentOf segmentChunks at *
      omega
    subst heq
    exact ⟨hbelow, hclaim⟩
  · rintro ⟨hbelow, hclaim⟩
    exact ⟨chunkno, ⟨⟨hsegment, hbelow⟩, hclaim⟩, rfl⟩

end Rewriting

section Generations

/-- A generation no mapped object carries. -/
theorem allocateGen_fresh (h : v.GenBound) :
    v.GensBelow (allocateGen v.storage.tier v.tier).1 := by
  intro segno entry hget
  unfold allocateGen
  cases hmax : v.tier.maxGen with
  | some max => exact h max hmax segno entry hget
  | none =>
      have hle := (foldl_gens_le v.tier.segments.entries
        (v.storage.tier.maxGen.getD 0)).2 (segno, entry)
          (OrderedMap.mem_entries_iff.mpr hget)
      exact Nat.lt_succ_of_le hle

end Generations

/-- The slot the commit maps for a chunk of the segment, over which its row
comes to lie. -/
theorem committedSlot_agrees {chunkno : ℕ} (hcaptured : Captured v plan read)
    (hrewritten : Rewritten v plan read upload)
    (hstored : v.bucket read.segno upload.gen = some upload.seg)
    (hmem : chunkno ∈ DoVfs.segmentRange plan.totalChunks read.segno) :
    Agree (slotBytes (v.tier.segments.set read.segno ⟨upload.gen, upload.mask⟩)
        v.bucket chunkno)
      (overRow (read.byChunk chunkno)
        (slotBytes v.tier.segments v.bucket chunkno)) := by
  rcases mem_segmentRange.mp hmem with ⟨hsegment, hbelow⟩
  have hmask := hrewritten.mask chunkno hsegment
  unfold slotBytes
  rw [hsegment, OrderedMap.get?_set, if_pos rfl]
  dsimp only
  rw [hmask, hstored]
  cases hclaim : (read.byChunk chunkno).isSome ||
      slotOfEntry read.entry chunkno with
  | true =>
      simp only [hbelow, decide_true, Bool.and_true, if_true]
      have hseg := hrewritten.seg chunkno hmem
      unfold slotBytes at hseg
      rw [hsegment] at hseg
      exact hseg
  | false =>
      simp only [Bool.and_false, Bool.false_eq_true, if_false]
      rw [Bool.or_eq_false_iff] at hclaim
      have hrow : read.byChunk chunkno = none := by simpa using hclaim.1
      rw [hrow, hcaptured.entry]
      have hslot := hclaim.2
      unfold slotOfEntry at hslot
      cases hentry : read.entry with
      | none => exact Agree.refl _
      | some entry =>
          rw [hentry] at hslot
          dsimp only at hslot ⊢
          rw [hslot]
          exact Agree.refl _

theorem commitRewrite_rows (v : DoVfs) (plan : TierPassPlan) (segno : ℕ)
    (upload : SegmentUpload) (chunkno : ℕ) :
    (TierMachine.commitRewrite v plan segno upload).storage.rows chunkno =
      if chunkno ∈ TierMachine.evicted v plan segno then none
      else v.storage.rows chunkno := rfl

theorem mem_evicted (ht : v.Tracking) {segno chunkno : ℕ}
    (h : chunkno ∈ TierMachine.evicted v plan segno) :
    chunkno ∈ plan.bySegment segno ∧ ¬ v.Written chunkno := by
  rcases ht with ⟨written, hwritten⟩
  unfold TierMachine.evicted at h
  rw [List.mem_filter, hwritten] at h
  refine ⟨h.1, ?_⟩
  rintro ⟨since, hsince, hmem⟩
  rw [hwritten, Option.some.injEq] at hsince
  subst hsince
  exact of_decide_eq_true h.2 hmem

/-- The commit moves no byte of the stored content. -/
theorem commitRewrite_stored {pass : TierPass} (h : PassInv v pass)
    (hepoch : v.layoutEpoch = pass.plan.epoch)
    (hcaptured : Captured v pass.plan read)
    (hrewritten : Rewritten v pass.plan read upload)
    (hstored : v.bucket read.segno upload.gen = some upload.seg)
    (chunkno : ℕ) :
    Agree ((TierMachine.commitRewrite v pass.plan read.segno upload).stored
        chunkno)
      (v.stored chunkno) := by
  have hrows := commitRewrite_rows v pass.plan read.segno upload chunkno
  change Agree (overRow ((TierMachine.commitRewrite v pass.plan read.segno
        upload).storage.rows chunkno)
      (slotBytes (v.tier.segments.set read.segno ⟨upload.gen, upload.mask⟩)
        v.bucket chunkno))
    (overRow (v.storage.rows chunkno)
      (slotBytes v.tier.segments v.bucket chunkno))
  rw [hrows]
  by_cases hmem : chunkno ∈ DoVfs.segmentRange pass.plan.totalChunks read.segno
  · have hslot := committedSlot_agrees hcaptured hrewritten hstored hmem
    by_cases hevict : chunkno ∈ TierMachine.evicted v pass.plan read.segno
    · have hsame := hcaptured.unwritten chunkno hmem
        (mem_evicted h.tracking hevict).2
      rw [if_pos hevict, hsame]
      exact hslot
    · rw [if_neg hevict]
      have hover := hslot.overRow (v.storage.rows chunkno)
      rw [overRow_overRow (hcaptured.grows chunkno hmem)] at hover
      exact hover
  · have hkept : chunkno ∉ TierMachine.evicted v pass.plan read.segno :=
      fun hevict => hmem (h.candidates read.segno chunkno
        (mem_evicted h.tracking hevict).1)
    rw [if_neg hkept]
    by_cases hsegment : segmentOf chunkno = read.segno
    · have hbeyond : pass.plan.totalChunks ≤ chunkno := by
        by_contra hlt
        exact hmem (mem_segmentRange.mpr ⟨hsegment, by omega⟩)
      have hmask := hrewritten.mask chunkno hsegment
      have hnew : slotBytes
          (v.tier.segments.set read.segno ⟨upload.gen, upload.mask⟩)
          v.bucket chunkno = zeroBytes := by
        unfold slotBytes
        rw [hsegment, OrderedMap.get?_set, if_pos rfl]
        dsimp only
        rw [hmask]
        simp [Nat.not_lt.mpr hbeyond]
      rw [hnew]
      have hzero := h.past hepoch chunkno hbeyond
      intro offset hlt
      cases hrow : v.storage.rows chunkno with
      | none =>
          exact (hzero offset hlt fun row hsome => by
            rw [hrow] at hsome
            simp at hsome).symm
      | some row =>
          change placeMasked zeroBytes row.data row.mask offset =
            placeMasked _ row.data row.mask offset
          cases hcov : covers row.mask offset with
          | true =>
              rw [placeMasked_of_covers hcov, placeMasked_of_covers hcov]
          | false =>
              rw [placeMasked_of_not_covers hcov,
                placeMasked_of_not_covers hcov]
              refine (hzero offset hlt ?_).symm
              intro other hother
              rw [hrow, Option.some.injEq] at hother
              exact hother ▸ hcov
    · have hsame : slotBytes
          (v.tier.segments.set read.segno ⟨upload.gen, upload.mask⟩)
          v.bucket chunkno =
          slotBytes v.tier.segments v.bucket chunkno := by
        apply slotBytes_congr
        rw [OrderedMap.get?_set, if_neg hsegment]
      rw [hsame]
      exact Agree.refl _

end QiForge
