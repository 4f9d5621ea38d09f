import QiForge.TierEvictionContent

/-!
# Runs of an eviction pass

Every step of the pass and every step of others keeps the file settled on the
flat reference, which only the flushes change.  Hence after each step of any
interleaving the effective content, in memory and recomputed from durable
storage, is the last flushed content.
-/

namespace QiForge

open PageTier

namespace DoVfs

variable {v : DoVfs} {ref : FlatFile}

theorem growTo_progress (v : DoVfs) (bound : ℕ) :
    Progress v (v.growTo bound) := by
  unfold growTo
  split_ifs
  · exact Progress.of_same rfl rfl rfl rfl rfl
  · exact Progress.refl v

theorem Refines.spillFlush_progress (h : v.Refines ref) :
    Progress v v.spillFlush := by
  unfold spillFlush
  split_ifs
  · exact h.coherent.flush_progress
  · exact Progress.refl v

theorem xTruncate_progress (v : DoVfs) (iSize : ℕ) :
    Progress v (v.xTruncate iSize).2 := by
  have hdropped : ∀ keepChunks keepPages,
      Progress v ((v.dropPast keepChunks).noteTruncation keepPages iSize) :=
    fun _ _ => Progress.of_same rfl rfl rfl rfl rfl
  unfold xTruncate
  split_ifs
  · exact Progress.refl v
  · dsimp only
    split_ifs
    · have hzeroed := (zeroTail_writes
        ((v.dropPast (ceilDiv (ceilDiv iSize vfsPageSize)
          pagesPerChunk)).noteTruncation (ceilDiv iSize vfsPageSize) iSize)
        (ceilDiv (ceilDiv iSize vfsPageSize) pagesPerChunk - 1)
        (iSize - (ceilDiv (ceilDiv iSize vfsPageSize) pagesPerChunk - 1) *
          chunkSize)).progress
      have hall := (hdropped (ceilDiv (ceilDiv iSize vfsPageSize)
        pagesPerChunk) (ceilDiv iSize vfsPageSize)).trans hzeroed
      split
      · next v' heq =>
          rw [heq] at hall
          exact hall
      · next v' heq =>
          rw [heq] at hall
          exact hall
    · exact hdropped _ _

theorem xTruncate_lock (v : DoVfs) (iSize : ℕ) :
    (v.xTruncate iSize).2.file.lock = v.file.lock := by
  unfold xTruncate
  split_ifs
  · rfl
  · dsimp only
    split_ifs
    · have hzeroed := zeroTail_writes
        ((v.dropPast (ceilDiv (ceilDiv iSize vfsPageSize)
          pagesPerChunk)).noteTruncation (ceilDiv iSize vfsPageSize) iSize)
        (ceilDiv (ceilDiv iSize vfsPageSize) pagesPerChunk - 1)
        (iSize - (ceilDiv (ceilDiv iSize vfsPageSize) pagesPerChunk - 1) *
          chunkSize)
      split
      · next v' heq =>
          rw [heq] at hzeroed
          rcases hzeroed with ⟨cache, dirty, base, rfl⟩
          rfl
      · next v' heq =>
          rw [heq] at hzeroed
          rcases hzeroed with ⟨cache, dirty, base, rfl⟩
          rfl
    · rfl

/-- What one item of a page-aligned transaction does. -/
structure ItemEffect (v w : DoVfs) (ref : FlatFile) : Prop where
  refines : w.Refines ref
  progress : Progress v w
  lock : w.file.lock = v.file.lock

theorem Refines.item (h : v.Refines ref) (item : PageItem) :
    ItemEffect v (v.react item.event) (applyFlat ref item.event) := by
  cases item with
  | write request =>
      refine ⟨(h.write request).2, ?_, ?_⟩
      · rcases h.writeGrown request with ⟨v', hwrite, hdiffer, hgrown⟩
        change Progress v (v.xWrite _ _ _).2
        unfold xWrite
        rw [hwrite]
        exact (hdiffer.progress.trans (growTo_progress v' _)).trans
          hgrown.spillFlush_progress
      · rcases h.writeGrown request with ⟨v', hwrite, hdiffer, -⟩
        change (v.xWrite _ _ _).2.file.lock = _
        unfold xWrite
        rw [hwrite]
        rcases hdiffer with ⟨cache, dirty, base, rfl⟩
        have hgrow : ∀ (w : DoVfs) (bound : ℕ),
            (w.growTo bound).file.lock = w.file.lock := by
          intro w bound
          unfold growTo
          split_ifs <;> rfl
        change (DoVfs.spillFlush _).file.lock = _
        unfold spillFlush
        split_ifs
        · rw [flush_lock, hgrow]
        · rw [hgrow]
  | truncate iSize =>
      exact ⟨(h.truncate iSize).2, xTruncate_progress v iSize.size,
        xTruncate_lock v iSize.size⟩

theorem Refines.items (items : List PageItem) (h : v.Refines ref) :
    ItemEffect v (items.foldl (fun v item => v.react item.event) v)
      (items.foldl (fun ref item => applyFlat ref item.event) ref) := by
  induction items generalizing v ref with
  | nil => exact ⟨h, Progress.refl v, rfl⟩
  | cons item rest ih =>
      have hfirst := h.item item
      have hrest := ih hfirst.refines
      exact ⟨hrest.refines, hfirst.progress.trans hrest.progress,
        hrest.lock.trans hfirst.lock⟩

theorem xLock_progress (v : DoVfs) (lock : ℕ) : Progress v (v.xLock lock) :=
  Progress.of_same rfl rfl rfl rfl rfl

theorem Settled.transact (h : v.Settled ref) (items : List PageItem) :
    (v.transact items).Settled
        (items.foldl (fun ref item => applyFlat ref item.event) ref) ∧
      Progress v (v.transact items) := by
  have hitems := (h.refines.xLock lockExclusive).items items
  have hlock : (items.foldl (fun v item => v.react item.event)
      (v.xLock lockExclusive)).file.lock = lockExclusive := hitems.lock
  have hflush : v.transact items =
      ((items.foldl (fun v item => v.react item.event)
        (v.xLock lockExclusive)).xLock 0).flush := by
    unfold DoVfs.transact xUnlock releasesExclusive
    rw [hlock]
    rfl
  rw [hflush]
  have hrefines := hitems.refines.xLock 0
  have hprogress := ((xLock_progress v lockExclusive).trans
    (hitems.progress.trans (xLock_progress _ 0))).trans
      hrefines.coherent.flush_progress
  exact ⟨⟨hrefines.flush, flush_idle _, hprogress.gens.bound h.gens⟩,
    hprogress⟩

theorem loadChunk_file {chunkno : ℕ} (v : DoVfs) (wanted : PageMask)
    (hclean : v.file.dirty.get? chunkno = none) :
    (v.loadChunk chunkno wanted).2.file = v.file := by
  rcases lookupLocal_cache v chunkno with ⟨cache, hcache⟩
  unfold loadChunk
  rw [hclean]
  change (v.loadClean chunkno wanted).2.file = v.file
  unfold loadClean
  cases hlookup : v.lookupLocal chunkno with
  | mk found v' =>
      rw [hlookup] at hcache
      dsimp only at hcache
      subst hcache
      cases found with
      | none =>
          dsimp only
          split_ifs <;> rfl
      | some image =>
          dsimp only
          split_ifs <;> rfl

theorem readSpans_file (rounds : List Span) (out : Bytes) (v : DoVfs)
    (hclean : ∀ chunkno, v.file.dirty.get? chunkno = none) :
    (readSpans rounds out v).2.2.file = v.file := by
  induction rounds generalizing out v with
  | nil => rfl
  | cons span rest ih =>
      have hload := loadChunk_file v (pagesOf span.inChunk span.n)
        (hclean span.chunkno)
      rw [readSpans]
      cases hanswer : v.loadChunk span.chunkno
          (pagesOf span.inChunk span.n) with
      | mk answer v' =>
          rw [hanswer] at hload
          dsimp only at hload
          have hclean' : ∀ chunkno, v'.file.dirty.get? chunkno = none := by
            rw [hload]
            exact hclean
          cases answer with
          | data chunk => exact (ih _ v' hclean').trans hload
          | sparse => exact (ih _ v' hclean').trans hload
          | coldMiss => exact hload

theorem Settled.read (h : v.Settled ref) (pData : Bytes) (iOffset want : ℕ) :
    (v.xRead pData iOffset want).2.Settled ref ∧
      Progress v (v.xRead pData iOffset want).2 := by
  have hrefines := h.refines.read pData iOffset want
  have hfile := readSpans_file
    (spans iOffset (want ⊓ (v.file.size - iOffset))) pData v h.noDirty
  have hdiffer := readSpans_differs
    (spans iOffset (want ⊓ (v.file.size - iOffset))) pData v
  rw [xRead_state] at hrefines ⊢
  refine ⟨h.of_refines hrefines ?_ ?_ ?_ ?_, hdiffer.progress⟩
  · rw [hfile]
  · rw [hfile]
  · rw [hfile]
  · rcases hdiffer with ⟨cache, dirty, misses, heq⟩
    rw [heq]

theorem Settled.resolveSegment (h : v.Settled ref)
    (totalChunks segno : ℕ) (reached : Bool) :
    (v.resolveSegment totalChunks segno reached).2.Settled ref ∧
      Progress v (v.resolveSegment totalChunks segno reached).2 := by
  have hkept : v.SegmentKept totalChunks (fun _ => reached) segno :=
    fun _ _ chunkno _ _ _ => h.noTruncation chunkno
  have hcoherent := h.refines.coherent.resolveSegment hkept
  have hdiffer := resolveSegment_pins v totalChunks segno reached
  refine ⟨?_, hdiffer.progress⟩
  rcases hdiffer with ⟨pins, heq, -⟩
  rw [heq] at hcoherent ⊢
  exact ⟨{ h.refines with coherent := hcoherent }, h.idle, h.gens⟩

theorem flush_of_idle (h : v.flushIdle = true) : v.flush = v := by
  simp [flush, h]

theorem Settled.withSnapshot (h : v.Settled ref)
    (snapshot : Option SnapshotState) :
    DoVfs.Settled { v with snapshot := snapshot } ref ∧
      Progress v { v with snapshot := snapshot } := by
  have hc := h.refines.coherent
  exact ⟨⟨{ h.refines with coherent := { hc with } }, h.idle,
    h.gens⟩, Progress.of_same rfl rfl rfl rfl rfl⟩

theorem Settled.openSnapshot {w : DoVfs} (h : v.Settled ref)
    (hopen : v.openSnapshot = some w) : w.Settled ref ∧ Progress v w := by
  unfold DoVfs.openSnapshot at hopen
  split_ifs at hopen
  rw [Option.some.injEq, flush_of_idle h.idle] at hopen
  subst hopen
  exact h.withSnapshot _

theorem Settled.setWrittenSince (h : v.Settled ref)
    (written : Option (List ℕ)) :
    (v.setWrittenSince written).Settled ref := by
  have hc := h.refines.coherent
  exact ⟨{ h.refines with coherent := { hc with } }, h.idle, h.gens⟩

/-- Past the end of a settled file the slots under its rows are blank. -/
theorem Settled.zeroBelow (h : v.Settled ref) {chunkno : ℕ}
    (hle : chunksOf v.file.size ≤ chunkno) : ZeroBelow v chunkno := by
  intro offset hlt hnone
  have hstored := h.stored chunkno offset hlt
  have hpast : chunkOf ref.bytes chunkno offset = 0 := by
    apply ref.zeroPast
    rw [← h.refines.size]
    unfold chunksOf ceilDiv at hle
    rw [chunkSize_eq] at *
    omega
  rw [hpast] at hstored
  rw [← hstored]
  unfold DoVfs.stored
  cases hrow : v.storage.rows chunkno with
  | none => rw [effective_of_none hrow]
  | some row =>
      rw [effective_of_some hrow, placeMasked_of_not_covers (hnone row hrow)]

theorem planTierPass_inv {w : DoVfs} {plan : TierPassPlan}
    {recent : ℕ → Bool} {force : Bool} {cap : ℕ} (h : v.Refines ref)
    (hgens : v.GenBound)
    (hplan : v.planTierPass recent force cap = some (plan, w)) :
    w.Settled ref ∧ PassInv w ⟨plan, plan.todo, .between⟩ := by
  unfold planTierPass at hplan
  split_ifs at hplan
  simp only [Option.some.injEq, Prod.mk.injEq] at hplan
  rcases hplan with ⟨rfl, rfl⟩
  have hprogress := h.coherent.flush_progress
  have hsettled : v.flush.Settled ref :=
    ⟨h.flush, flush_idle v, hprogress.gens.bound hgens⟩
  refine ⟨hsettled.setWrittenSince _, ⟨[], rfl⟩, le_refl _, ?_, ?_, trivial⟩
  · exact fun _ chunkno hle => hsettled.zeroBelow hle
  · exact fun segno chunkno hmem => List.mem_of_mem_filter hmem

end DoVfs

namespace TierMachine

/-- The reference after a step: flushes change it, nothing else does. -/
def applyTier (ref : FlatFile) : TierEvent → FlatFile
  | .flush items =>
      items.foldl (fun ref item => DoVfs.applyFlat ref item.event) ref
  | _ => ref

structure Inv (m : TierMachine) (ref : FlatFile) : Prop where
  settled : m.vfs.Settled ref
  pass : ∀ pass, m.pass = some pass → PassInv m.vfs pass

variable {m : TierMachine} {ref : FlatFile} {pass : TierPass}
  {read : SegmentRead} {upload : SegmentUpload}

theorem Inv.endPass (h : m.vfs.Settled ref) : m.endPass.Inv ref :=
  ⟨h.setWrittenSince none, fun pass hpass => by
    simp [TierMachine.endPass] at hpass⟩

theorem Inv.withVfs {w : DoVfs} {ref' : FlatFile} (h : m.Inv ref)
    (hw : w.Settled ref' ∧ m.vfs.Progress w) : (m.withVfs w).Inv ref' :=
  ⟨hw.1, fun pass hpass => (h.pass pass hpass).of_progress hw.2⟩

theorem Inv.readSegment (h : m.Inv ref) (hpass : PassInv m.vfs pass) :
    (m.readSegment pass).Inv ref := by
  unfold TierMachine.readSegment
  cases pass.remaining with
  | nil => exact Inv.endPass h.settled
  | cons segno rest =>
      split_ifs
      · refine ⟨h.settled, ?_⟩
        intro later hlater
        cases hlater
        refine ⟨hpass.tracking, hpass.epoch, hpass.past, hpass.candidates, ?_⟩
        intro _
        refine ⟨rfl, ?_, ?_⟩
        · intro chunkno hmem
          dsimp only
          rw [if_pos hmem]
          exact RowGrows.refl _
        · intro chunkno hmem _
          dsimp only
          rw [if_pos hmem]
          rfl
      · exact Inv.endPass h.settled

theorem Inv.getSegment (h : m.Inv ref)
    (hpass : PassInv m.vfs pass) (hphase : pass.phase = .read read)
    (reached : Bool) : (m.getSegment pass read reached).Inv ref := by
  have hcaptured := hpass.phase
  rw [hphase] at hcaptured
  unfold TierMachine.getSegment
  dsimp only
  split
  · exact Inv.endPass h.settled
  · next old hold =>
      -- the object the rewrite starts from is the one the entry names
      have hfetched : Fetched m.vfs pass.plan.totalChunks read old := by
        unfold Fetched
        cases hentry : read.entry with
        | none =>
            rw [hentry] at hold
            exact (Option.some.inj hold).symm
        | some entry =>
            rw [hentry] at hold
            dsimp only at hold ⊢
            split_ifs at hold ⊢ with hneeded hreached
            · rw [Option.map_eq_some_iff] at hold
              rcases hold with ⟨seg, hseg, rfl⟩
              exact ⟨seg, hseg, rfl⟩
            · exact (Option.some.inj hold).symm
      have hfresh := allocateGen_fresh h.settled.gens
      have hs := h.settled
      have hc := hs.refines.coherent
      refine ⟨⟨{ hs.refines with coherent := { hc with } }, hs.idle, ?_⟩, ?_⟩
      · intro max hmax segno entry hget
        cases hmax
        exact (hfresh segno entry hget).trans (Nat.lt_succ_self _)
      · intro later hlater
        cases hlater
        refine ⟨hpass.tracking, hpass.epoch, hpass.past, hpass.candidates,
          hfresh, ?_⟩
        intro hsame
        have hcap := hcaptured hsame
        refine ⟨{ hcap with }, ?_, ?_⟩
        · intro chunkno hmem
          exact (slotSlice_rewriteSegment old hmem).trans
            (rewriteSlot_agrees hcap.entry hmem hfetched)
        · exact fun chunkno hsegment => getLsbD_rewriteMask hsegment

/-- Storing an object under a fresh generation moves no mapped slot. -/
theorem storeObject_slots {v : DoVfs} {gen : ℕ} (hfresh : v.GensBelow gen)
    (segno : ℕ) (seg : Bytes) (chunkno : ℕ) :
    slotBytes v.tier.segments (storeObject v segno gen seg).bucket chunkno =
      slotBytes v.tier.segments v.bucket chunkno := by
  unfold slotBytes storeObject
  cases hentry : v.tier.segments.get? (segmentOf chunkno) with
  | none => rfl
  | some entry =>
      have hlt := hfresh _ entry hentry
      have hne : ¬ (segmentOf chunkno = segno ∧ entry.gen = gen) :=
        fun hboth => absurd hboth.2 hlt.ne
      simp only [if_neg hne]

theorem storeObject_settled {v : DoVfs} {gen : ℕ} (h : v.Settled ref)
    (hfresh : v.GensBelow gen) (segno : ℕ) (seg : Bytes) :
    (storeObject v segno gen seg).Settled ref := by
  apply DoVfs.Settled.of_stored h
  · rfl
  · rfl
  · rfl
  · exact fun _ _ hrow => hrow
  · rfl
  · intro chunkno
    have heq : (storeObject v segno gen seg).stored chunkno =
        v.stored chunkno :=
      effective_congr rfl (storeObject_slots hfresh segno seg chunkno)
    rw [heq]
    exact Agree.refl _
  · exact h.refines.inSync
  · exact h.gens

theorem Inv.putSegment (h : m.Inv ref) (hpass : PassInv m.vfs pass)
    (hphase : pass.phase = .uploading read upload) (outcome : PutOutcome) :
    (m.putSegment pass read upload outcome).Inv ref := by
  have hup := hpass.phase
  rw [hphase] at hup
  have hstored := storeObject_settled h.settled hup.1 read.segno upload.seg
  have hslots := storeObject_slots hup.1 read.segno upload.seg
  unfold TierMachine.putSegment
  cases outcome with
  | failed stored =>
      cases stored with
      | true => exact Inv.endPass hstored
      | false => exact Inv.endPass h.settled
  | done =>
      refine ⟨hstored, ?_⟩
      intro later hlater
      cases hlater
      refine ⟨hpass.tracking, hpass.epoch, ?_, hpass.candidates, ?_, hup.1, ?_⟩
      · intro hsame chunkno hle offset hlt hnone
        have hzero := hpass.past hsame chunkno hle offset hlt hnone
        exact (congrFun (hslots chunkno) offset).trans hzero
      · exact if_pos ⟨rfl, rfl⟩
      · intro hsame
        rcases hup.2 hsame with ⟨hcap, hrewritten⟩
        exact ⟨{ hcap with }, hrewritten.of_slots hslots⟩

theorem Inv.commitSegment (h : m.Inv ref) (hpass : PassInv m.vfs pass)
    (hphase : pass.phase = .uploaded read upload) :
    (m.commitSegment pass read upload).Inv ref := by
  have hup := hpass.phase
  rw [hphase] at hup
  unfold TierMachine.commitSegment
  split_ifs with hvalid
  · have hepoch : m.vfs.layoutEpoch = pass.plan.epoch := by
      unfold DoVfs.tierPassStillValid at hvalid
      simp only [Bool.and_eq_true, decide_eq_true_eq] at hvalid
      exact hvalid.1.1.1
    rcases hup.2.2 hepoch with ⟨hcap, hrewritten⟩
    have hcontent := commitRewrite_stored hpass hepoch hcap hrewritten hup.1
    have hrows : ∀ chunkno row, (commitRewrite m.vfs pass.plan read.segno
          upload).storage.rows chunkno = some row →
        m.vfs.storage.rows chunkno = some row := by
      intro chunkno row hrow
      rw [commitRewrite_rows] at hrow
      split_ifs at hrow
      exact hrow
    refine ⟨?_, ?_⟩
    · apply DoVfs.Settled.of_stored h.settled
      · rfl
      · rfl
      · rfl
      · exact hrows
      · rfl
      · exact hcontent
      · intro segno
        have hsync := h.settled.refines.inSync segno
        change (m.vfs.storage.tier.segments.set read.segno _).get? segno =
          (m.vfs.tier.segments.set read.segno _).get? segno
        rw [OrderedMap.get?_set, OrderedMap.get?_set, hsync]
      · intro max hmax segno entry hget
        cases hmax
        change (m.vfs.tier.segments.set read.segno _).get? segno = _ at hget
        rw [OrderedMap.get?_set] at hget
        rw [Nat.lt_succ_iff]
        split_ifs at hget
        · cases hget
          exact le_sup_right
        · exact (hup.2.1 segno entry hget).le.trans le_sup_right
    · intro later hlater
      cases hlater
      refine ⟨hpass.tracking, hpass.epoch, ?_, hpass.candidates, trivial⟩
      intro hsame chunkno hle offset hlt hnone
      change pass.plan.totalChunks ≤ chunkno at hle
      have hkept : (commitRewrite m.vfs pass.plan read.segno
          upload).storage.rows chunkno = m.vfs.storage.rows chunkno := by
        rw [commitRewrite_rows, if_neg]
        intro hevict
        have hmem := hpass.candidates read.segno chunkno
          (mem_evicted hpass.tracking hevict).1
        have hbelow := (mem_segmentRange.mp hmem).2
        omega
      rw [hkept] at hnone
      have hzero := hpass.past hsame chunkno hle offset hlt hnone
      change slotBytes
        (m.vfs.tier.segments.set read.segno ⟨upload.gen, upload.mask⟩)
        m.vfs.bucket chunkno offset = 0
      by_cases hsegment : segmentOf chunkno = read.segno
      · have hmask := hrewritten.mask chunkno hsegment
        unfold slotBytes
        rw [hsegment, OrderedMap.get?_set, if_pos rfl]
        dsimp only
        rw [hmask]
        simp [Nat.not_lt.mpr hle, zeroBytes]
      · have hother : slotBytes
            (m.vfs.tier.segments.set read.segno ⟨upload.gen, upload.mask⟩)
            m.vfs.bucket chunkno =
            slotBytes m.vfs.tier.segments m.vfs.bucket chunkno := by
          apply slotBytes_congr
          rw [OrderedMap.get?_set, if_neg hsegment]
        rw [hother]
        exact hzero
  · exact Inv.endPass h.settled

theorem Inv.step {m' : TierMachine} {e : TierEvent} (h : m.Inv ref)
    (hstep : m.step e = some m') : m'.Inv (applyTier ref e) := by
  cases e with
  | plan recent force cap =>
      unfold TierMachine.step at hstep
      dsimp only at hstep
      split at hstep
      · simp at hstep
      · rw [Option.map_eq_some_iff] at hstep
        rcases hstep with ⟨⟨plan, w⟩, hplan, rfl⟩
        have hinv := DoVfs.planTierPass_inv h.settled.refines h.settled.gens
          hplan
        refine ⟨hinv.1, ?_⟩
        intro pass hpass
        cases hpass
        exact hinv.2
  | readSegment =>
      unfold TierMachine.step at hstep
      dsimp only at hstep
      split at hstep
      · next plan remaining hpass =>
          cases hstep
          exact h.readSegment (h.pass _ hpass)
      · simp at hstep
  | getSegment reached =>
      unfold TierMachine.step at hstep
      dsimp only at hstep
      split at hstep
      · next plan remaining read hpass =>
          cases hstep
          exact h.getSegment (h.pass _ hpass) rfl reached
      · simp at hstep
  | putSegment outcome =>
      unfold TierMachine.step at hstep
      dsimp only at hstep
      split at hstep
      · next plan remaining read upload hpass =>
          cases hstep
          exact h.putSegment (h.pass _ hpass) rfl outcome
      · simp at hstep
  | commitSegment =>
      unfold TierMachine.step at hstep
      dsimp only at hstep
      split at hstep
      · next plan remaining read upload hpass =>
          cases hstep
          exact h.commitSegment (h.pass _ hpass) rfl
      · simp at hstep
  | flush items =>
      cases hstep
      exact h.withVfs (h.settled.transact items)
  | resolve totalChunks segno reached =>
      cases hstep
      exact h.withVfs (h.settled.resolveSegment totalChunks segno reached)
  | read pData iOffset want =>
      cases hstep
      exact h.withVfs (h.settled.read pData iOffset want)
  | releasePins =>
      cases hstep
      have hr := h.settled.refines.react (e := .releasePins) trivial
      exact h.withVfs ⟨h.settled.of_refines hr rfl rfl rfl rfl,
        DoVfs.Progress.of_same rfl rfl rfl rfl rfl⟩
  | evict chunkno =>
      cases hstep
      have hr := h.settled.refines.react (e := .evict chunkno) trivial
      exact h.withVfs ⟨h.settled.of_refines hr rfl rfl rfl rfl,
        DoVfs.Progress.of_same rfl rfl rfl rfl rfl⟩
  | openSnapshot =>
      unfold TierMachine.step at hstep
      rw [Option.map_eq_some_iff] at hstep
      rcases hstep with ⟨w, hopen, rfl⟩
      exact h.withVfs (h.settled.openSnapshot hopen)
  | closeSnapshot =>
      cases hstep
      exact h.withVfs (h.settled.withSnapshot none)

/-- Whatever runs between the steps of a pass, after each step the effective
content is the last flushed one, also when it is recomputed from durable
storage and R2 alone. -/
theorem eviction_preserves_content {v : DoVfs} {ref : FlatFile}
    {recent : ℕ → Bool} {force : Bool} {cap : ℕ} {m m' : TierMachine}
    {es : List TierEvent} (hstart : v.Refines ref) (hgens : v.GenBound)
    (hplan : step ⟨v, none⟩ (.plan recent force cap) = some m)
    (hrun : Transition.run step m es = some m') :
    (∀ chunkno, Agree (m'.vfs.stored chunkno)
        (chunkOf (es.foldl applyTier ref).bytes chunkno)) ∧
      (∀ chunkno, Agree (m'.vfs.durable chunkno)
        (chunkOf (es.foldl applyTier ref).bytes chunkno)) ∧
      m'.vfs.storage.size = (es.foldl applyTier ref).size := by
  have hplanned : m.Inv ref := by
    unfold TierMachine.step at hplan
    rw [Option.map_eq_some_iff] at hplan
    rcases hplan with ⟨⟨plan, w⟩, hplan, rfl⟩
    have hinv := DoVfs.planTierPass_inv hstart hgens hplan
    refine ⟨hinv.1, ?_⟩
    intro pass hpass
    cases hpass
    exact hinv.2
  have hstep : ∀ s s' a e, Inv s a → step s e = some s' →
      Inv s' (applyTier a e) := fun s s' a e hs h => hs.step h
  have hend := Transition.run_refines hstep hplanned hrun
  refine ⟨hend.settled.stored, hend.settled.durable, ?_⟩
  have hsize := (DoVfs.flushIdle_iff.mp hend.settled.idle).2.2
  exact (hend.settled.refines.storedSize hsize).trans hend.settled.refines.size

section ThreeHotChunks

/-- Three full hot rows, the second all 5, and no segment yet. -/
def threeHotStorage : Storage where
  size := 3 * chunkSize
  gen := 0
  rows := fun chunkno =>
    if chunkno < 3 then
      some ⟨fun _ => if chunkno = 1 then 5 else 0, fullMask⟩
    else none
  tier := { segments := OrderedMap.empty, maxGen := none }

def threeHot : DoVfs :=
  DoVfs.opened threeHotStorage (fun _ _ => none) false 64 67108864

def threeHotFile : FlatFile where
  size := 3 * chunkSize
  bytes := fun p => if chunkSize ≤ p ∧ p < 2 * chunkSize then 5 else 0
  zeroPast := fun p hp => if_neg (by omega)

theorem threeHot_refines : threeHot.Refines threeHotFile := by
  apply DoVfs.opened_refines
  · intro chunkno offset hlt
    by_cases hrow : chunkno < 3
    · have hsome : threeHotStorage.rows chunkno =
          some ⟨fun _ => if chunkno = 1 then 5 else 0, fullMask⟩ :=
        if_pos hrow
      rw [effective_of_some hsome, placeMasked_fullMask _ _ offset hlt]
      unfold chunkOf threeHotFile
      dsimp only
      by_cases hone : chunkno = 1
      · subst hone
        rw [if_pos rfl, if_pos (by omega)]
      · rw [if_neg hone, if_neg]
        rw [chunkSize_eq] at *
        omega
    · have hnone : threeHotStorage.rows chunkno = none := if_neg hrow
      rw [effective_of_none hnone]
      refine (if_neg ?_).symm
      rw [chunkSize_eq] at *
      omega
  · intro chunkno row hrow
    change (if chunkno < 3 then
      some ⟨fun _ => if chunkno = 1 then 5 else 0, fullMask⟩
      else none) = some row at hrow
    by_cases hlt : chunkno < 3
    · rw [if_pos hlt] at hrow
      cases hrow
      exact MaskedChunk.blank_full _
    · rw [if_neg hlt] at hrow
      exact absurd hrow (by simp)
  · rfl

def secondChunkWrite : PageItem := .write
    { offset := chunkSize
      length := vfsPageSize
      data := fun _ => 9
      offset_aligned := Nat.mul_mod_right vfsPageSize pagesPerChunk
      length_aligned := Nat.mod_self vfsPageSize }

/-- A commit lands in the second chunk while its segment is uploaded. -/
def writtenDuringUpload : List TierEvent :=
  [.readSegment, .getSegment true, .flush [secondChunkWrite],
    .putSegment .done, .commitSegment]

theorem threeHot_genBound : threeHot.GenBound :=
  fun _ hmax => by simp [threeHot, DoVfs.opened] at hmax

/-- The planned machine and where the run leads. -/
def threeHotPlanned : Option TierMachine :=
  step ⟨threeHot, none⟩ (.plan (fun _ => false) false 4)

theorem eviction_preserves_content_writtenDuringUpload :
    ∃ m m', threeHotPlanned = some m ∧
      Transition.run step m writtenDuringUpload = some m' ∧
      (m'.vfs.storage.rows 1).isSome = true ∧
      m'.vfs.storage.rows 2 = none ∧
      ∀ chunkno, Agree (m'.vfs.durable chunkno)
        (chunkOf (writtenDuringUpload.foldl applyTier threeHotFile).bytes
          chunkno) := by
  refine ⟨threeHotPlanned.get (by decide +kernel),
    ((Transition.run step (threeHotPlanned.get (by decide +kernel))
      writtenDuringUpload).get (by decide +kernel)),
    (Option.some_get _).symm, (Option.some_get _).symm,
    by decide +kernel, ?_, ?_⟩
  · rw [← Option.isNone_iff_eq_none]
    decide +kernel
  · exact (eviction_preserves_content threeHot_refines threeHot_genBound
      (Option.some_get _).symm (Option.some_get _).symm).2.1

end ThreeHotChunks

end TierMachine
end QiForge
