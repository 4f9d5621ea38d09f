import QiForge.TierObjectsInvariant

/-!
# Eviction passes and the objects they upload

An upload goes to a generation above the water mark, so no map and no queue
knows its key until the pass commits it or gives it up.  One pass runs at a
time and none while a sweep does, which is why nothing else takes the key in
between.
-/

namespace QiForge

open PageTier

namespace TierObjects

variable {File : Type} [DecidableEq File] {m : TierObjects File} {id : ℕ}

variable {pass : PassInFlight File}

omit [DecidableEq File] in
theorem running_of_upload
    {key : SegmentKey File} (h : pass.upload = some key) :
    pass.running = true := by
  unfold PassInFlight.upload at h
  unfold PassInFlight.running
  cases hphase : pass.phase <;> simp [hphase] at h ⊢

omit [DecidableEq File] in
theorem upload_of_uploading {put : SegmentPut}
    (h : pass.phase = .uploading put ∨ pass.phase = .uploaded put) :
    pass.upload = some ⟨pass.file, put.segno, put.gen⟩ := by
  unfold PassInFlight.upload
  rcases h with h | h <;> rw [h]

omit [DecidableEq File] in
/-- Only one pass can be running. -/
theorem Inv.running_unique {other : ℕ} {pass pass' : PassInFlight File}
    (h : m.Inv) (hget : m.passes.get? id = some pass)
    (hrunning : pass.running = true)
    (hget' : m.passes.get? other = some pass')
    (hrunning' : pass'.running = true) : other = id := by
  have htoken := h.running id pass hget hrunning
  rw [h.running other pass' hget' hrunning'] at htoken
  exact Option.some.inj htoken

omit [DecidableEq File] in
theorem Inv.not_sweeping {other : ℕ} {x : Maintenance File} (h : m.Inv)
    (hget : m.passes.get? id = some pass) (hrunning : pass.running = true)
    (hx : m.maintenances.get? other = some x) : x.sweep = .none := by
  by_contra hsweep
  have hidle := (h.alone other x hx).passes hsweep id pass hget
  rw [hrunning] at hidle
  exact Bool.noConfusion hidle

omit [DecidableEq File] in
theorem Alone.sweep_of_orphans {x : Maintenance File}
    {key : SegmentKey File} (h : m.Alone id x) (hmem : key ∈ x.orphans) :
    x.sweep ≠ .none := by
  apply h.sweeps
  intro rest hphase
  unfold Maintenance.orphans at hmem
  rw [hphase] at hmem
  exact absurd hmem List.not_mem_nil

omit [DecidableEq File] in
theorem Inv.not_swept {key : SegmentKey File}
    (h : m.Inv) (hget : m.passes.get? id = some pass)
    (hrunning : pass.running = true) : ¬m.Swept key := by
  rintro ⟨other, x, hx, hmem⟩
  exact (h.alone other x hx).sweep_of_orphans hmem
    (h.not_sweeping hget hrunning hx)

section Passes

omit [DecidableEq File] in
theorem Reserved.same {key : SegmentKey File}
    {passes : OrderedMap ℕ (PassInFlight File)} {tierPass : Option ℕ}
    {bucket : SegmentKey File → Bool} (h : m.Reserved key) :
    Reserved
      { m with bucket := bucket, passes := passes, tierPass := tierPass }
      key :=
  { h with }

omit [DecidableEq File] in
theorem Inv.setPass {old pass : PassInFlight File} (h : m.Inv)
    (hget : m.passes.get? id = some old) (hrunning : old.running = true)
    (hupload : ∀ key, pass.upload = some key → m.Reserved key)
    (huploaded : ∀ put, pass.phase = .uploaded put →
      m.bucket ⟨pass.file, put.segno, put.gen⟩ = true) :
    (m.setPass id pass).Inv := by
  have hset : ∀ other, (m.setPass id pass).passes.get? other =
      if other = id then some pass else m.passes.get? other :=
    fun other => OrderedMap.get?_set _ _ _ _
  refine ⟨h.present, h.rowsBelow, h.memoryBelow, h.storedBelow,
    h.queuedBelow, h.queuedFree, h.sweptFree, ?_, ?_, ?_, ?_⟩
  · intro other found hfound hrun
    rw [hset] at hfound
    split_ifs at hfound with hsame
    · rw [hsame]
      exact h.running id old hget hrunning
    · exact h.running other found hfound hrun
  · intro other found key hfound hkey
    rw [hset] at hfound
    split_ifs at hfound with hsame
    · cases hfound
      exact (hupload key hkey).same
    · exact (h.uploads other found key hfound hkey).same
  · intro other found put hfound hphase
    rw [hset] at hfound
    split_ifs at hfound with hsame
    · cases hfound
      exact huploaded put hphase
    · exact h.uploaded other found put hfound hphase
  · intro other x hx
    have ha := h.alone other x hx
    have hnone := h.not_sweeping hget hrunning hx
    exact ⟨ha.token, fun hsweep => absurd hnone hsweep, ha.sweeps, ha.rest⟩

omit [DecidableEq File] in
/-- A pass that holds no upload may move to any phase that has none. -/
theorem Inv.setPass_idle {old pass : PassInFlight File} (h : m.Inv)
    (hget : m.passes.get? id = some old) (hrunning : old.running = true)
    (hidle : pass.upload = none) : (m.setPass id pass).Inv := by
  apply h.setPass hget hrunning
  · intro key hkey
    rw [hidle] at hkey
    exact absurd hkey (by simp)
  · intro put hphase
    rw [upload_of_uploading (Or.inr hphase)] at hidle
    exact absurd hidle (by simp)

omit [DecidableEq File] in
theorem Inv.endPass (h : m.Inv) (id : ℕ) : (m.endPass id).Inv := by
  have hdelete : ∀ other, (m.endPass id).passes.get? other =
      if other = id then none else m.passes.get? other :=
    fun other => OrderedMap.get?_delete _ _ _
  have hold : ∀ other pass, (m.endPass id).passes.get? other = some pass →
      other ≠ id ∧ m.passes.get? other = some pass := by
    intro other pass hget
    rw [hdelete] at hget
    split_ifs at hget with hsame
    exact ⟨hsame, hget⟩
  refine ⟨h.present, h.rowsBelow, h.memoryBelow, h.storedBelow,
    h.queuedBelow, h.queuedFree, h.sweptFree, ?_, ?_, ?_, ?_⟩
  · intro other pass hget hrun
    rcases hold other pass hget with ⟨hne, hbefore⟩
    have htoken := h.running other pass hbefore hrun
    change (if m.tierPass = some id then none else m.tierPass) = some other
    rw [htoken, if_neg]
    exact fun hsame => hne (Option.some.inj hsame)
  · intro other pass key hget hkey
    exact (h.uploads other pass key (hold other pass hget).2 hkey).same
  · intro other pass put hget hphase
    exact h.uploaded other pass put (hold other pass hget).2 hphase
  · intro other x hx
    have ha := h.alone other x hx
    refine ⟨ha.token, ?_, ha.sweeps, ha.rest⟩
    intro hsweep j pass hget
    exact ha.passes hsweep j pass (hold j pass hget).2

omit [DecidableEq File] in
theorem Inv.tierFlush {m' : TierObjects File} {file : File} (h : m.Inv)
    (hstep : m.tierFlush id file = some m') : m'.Inv := by
  unfold TierObjects.tierFlush at hstep
  split_ifs at hstep with hbusy
  cases hstep
  simp only [Bool.or_eq_true, not_or, Bool.not_eq_true,
    Option.isSome_eq_false_iff, Option.isNone_iff_eq_none] at hbusy
  rcases hbusy with ⟨⟨hpass, hsweep⟩, -⟩
  have hnotRunning : ∀ other pass, m.passes.get? other = some pass →
      pass.running = false := by
    intro other pass hget
    by_contra hrun
    have htoken := h.running other pass hget (by simpa using hrun)
    rw [hpass] at htoken
    exact absurd htoken (by simp)
  have hset : ∀ other found,
      (m.passes.set id ⟨file, 0, [], .starting⟩).get? other = some found →
      (other = id ∧ found.phase = .starting) ∨
        m.passes.get? other = some found := by
    intro other found hget
    rw [OrderedMap.get?_set] at hget
    split_ifs at hget with hsame
    · cases hget
      exact Or.inl ⟨hsame, rfl⟩
    · exact Or.inr hget
  refine ⟨h.present, h.rowsBelow, h.memoryBelow, h.storedBelow,
    h.queuedBelow, h.queuedFree, h.sweptFree, ?_, ?_, ?_, ?_⟩
  · intro other found hget hrun
    rcases hset other found hget with ⟨rfl, -⟩ | hold
    · rfl
    · rw [hnotRunning other found hold] at hrun
      exact absurd hrun Bool.false_ne_true
  · intro other found key hget hkey
    rcases hset other found hget with ⟨-, hphase⟩ | hold
    · simp [PassInFlight.upload, hphase] at hkey
    · have hrun := running_of_upload hkey
      rw [hnotRunning other found hold] at hrun
      exact absurd hrun Bool.false_ne_true
  · intro other found put hget hput
    rcases hset other found hget with ⟨-, hphase⟩ | hold
    · rw [hphase] at hput
      exact absurd hput (by simp)
    · exact h.uploaded other found put hold hput
  · intro other x hx
    have ha := h.alone other x hx
    have hnone : x.sweep = .none := by
      by_contra hne
      have htoken := ha.token hne
      rw [hsweep] at htoken
      exact absurd htoken (by simp)
    exact ⟨ha.token, fun hne => absurd hnone hne, ha.sweeps, ha.rest⟩

end Passes

section Queue

omit [DecidableEq File] in
/-- Keys may join the queue that nothing references or uploads. -/
theorem Inv.withPending {pending : List (SegmentKey File)} (h : m.Inv)
    (hnew : ∀ key ∈ pending, m.Queued key ∨
      (key.gen ≤ m.water key.file ∧ m.references key = false ∧
        ∀ id pass, m.passes.get? id = some pass → pass.upload ≠ some key)) :
    Inv { m with pendingDeletes := pending } := by
  have hqueued : ∀ key,
      TierObjects.Queued { m with pendingDeletes := pending } key →
      m.Queued key ∨ (key.gen ≤ m.water key.file ∧ m.references key = false ∧
          ∀ id pass, m.passes.get? id = some pass →
            pass.upload ≠ some key) := by
    rintro key (hpending | hkept)
    · exact hnew key hpending
    · exact Or.inl (Or.inr hkept)
  refine ⟨h.present, h.rowsBelow, h.memoryBelow, h.storedBelow, ?_, ?_,
    h.sweptFree, h.running, ?_, h.uploaded, ?_⟩
  · intro key hkey
    rcases hqueued key hkey with hold | hfresh
    · exact h.queuedBelow key hold
    · exact hfresh.1
  · intro key hkey
    rcases hqueued key hkey with hold | hfresh
    · exact h.queuedFree key hold
    · exact hfresh.2.1
  · intro id pass key hget hupload
    have hr := h.uploads id pass key hget hupload
    refine ⟨?_, hr.references, hr.inMemory, hr.below⟩
    intro hkey
    rcases hqueued key hkey with hold | hfresh
    · exact hr.queued hold
    · exact hfresh.2.2 id pass hget hupload
  · intro id x hx
    have ha := h.alone id x hx
    exact { ha with }

theorem Inv.queueDelete {key : SegmentKey File} (h : m.Inv)
    (hbelow : key.gen ≤ m.water key.file)
    (hfree : m.references key = false)
    (huploads : ∀ id pass, m.passes.get? id = some pass →
      pass.upload ≠ some key) : (m.queueDelete key).Inv := by
  apply h.withPending
  intro other hmem
  rcases mem_queueDelete.mp hmem with hold | rfl
  · exact Or.inl (Or.inl hold)
  · exact Or.inr ⟨hbelow, hfree, huploads⟩

/-- Keys whose deletion failed go back to the queue. -/
theorem Inv.requeue {keys : List (SegmentKey File)} (h : m.Inv)
    (hkeys : ∀ key ∈ keys, m.Queued key) :
    (keys.foldl TierObjects.queueDelete m).Inv := by
  have hmem : ∀ key,
      key ∈ (keys.foldl TierObjects.queueDelete m).pendingDeletes ↔
        key ∈ m.pendingDeletes ∨ key ∈ keys :=
    fun _ => mem_foldl_queueDelete
  rcases foldl_queueDelete_differs keys m with ⟨pending, heq⟩
  rw [heq] at hmem ⊢
  apply h.withPending
  intro key hkey
  rcases (hmem key).mp hkey with hold | hback
  · exact Or.inl (Or.inl hold)
  · exact Or.inl (hkeys key hback)

end Queue

section Objects

omit [DecidableEq File] in
/-- Objects may come and go that nothing refers to. -/
theorem Inv.withBucket {bucket : SegmentKey File → Bool} (h : m.Inv)
    (hpresent : ∀ key, m.references key = true → bucket key = true)
    (huploaded : ∀ id pass put, m.passes.get? id = some pass →
      pass.phase = .uploaded put →
      bucket ⟨pass.file, put.segno, put.gen⟩ = true) :
    Inv { m with bucket := bucket } where
  present := hpresent
  rowsBelow := h.rowsBelow
  memoryBelow := h.memoryBelow
  storedBelow := h.storedBelow
  queuedBelow := h.queuedBelow
  queuedFree := h.queuedFree
  sweptFree := h.sweptFree
  running := h.running
  uploads := by
    intro id pass key hget hkey
    exact (h.uploads id pass key hget hkey).same
  uploaded := huploaded
  alone := by
    intro id x hx
    have ha := h.alone id x hx
    exact { ha with }

theorem bucket_storeObject {key other : SegmentKey File}
    (h : m.bucket other = true) :
    (m.storeObject key).bucket other = true := by
  by_cases hsame : other = key <;> simp [storeObject, hsame, h]

theorem Inv.storeObject (h : m.Inv) (key : SegmentKey File) :
    (m.storeObject key).Inv := by
  apply h.withBucket
  · intro other href
    exact bucket_storeObject (h.present other href)
  · intro id pass put hget hphase
    exact bucket_storeObject (h.uploaded id pass put hget hphase)

theorem Inv.deleteObjects {keys : List (SegmentKey File)} (h : m.Inv)
    (hfree : ∀ key ∈ keys, m.references key = false)
    (huploads : ∀ id pass key, m.passes.get? id = some pass →
      pass.upload = some key → key ∉ keys) :
    (m.deleteObjects keys).Inv := by
  apply h.withBucket
  · intro key href
    have hnot : key ∉ keys := by
      intro hmem
      rw [hfree key hmem] at href
      exact Bool.noConfusion href
    simp [h.present key href, hnot]
  · intro id pass put hget hphase
    have hnot := huploads id pass _ hget (upload_of_uploading (Or.inr hphase))
    simp [h.uploaded id pass put hget hphase, hnot]

end Objects

section Generations

variable {file : File}

omit [DecidableEq File] in
theorem water_lt_allocateGen :
    m.water file < (allocateGen (m.rows file) (m.tierOf file)).1 := by
  unfold water allocateGen tierOf storedMax
  cases m.maxGen file with
  | some max => exact Nat.lt_succ_self max
  | none => exact Nat.lt_succ_of_le (foldl_gens_le _ _).1

variable {tier : TierFile}

theorem water_setFile {rows : TierRows} (other : File) :
    (m.setFile file rows tier).water other =
      if other = file then tier.maxGen.getD (rows.maxGen.getD 0)
      else m.water other := by
  unfold water
  rw [maxGen_setFile, storedMax_setFile]
  split_ifs <;> rfl

theorem references_setFile_same (key : SegmentKey File) :
    (m.setFile file (m.rows file) tier).references key = m.references key := by
  rw [references_setFile]
  split_ifs with hfile
  · rw [← hfile]
    rfl
  · rfl

theorem storedMax_setFile_same (other : File) :
    (m.setFile file (m.rows file) tier).storedMax other =
      m.storedMax other := by
  rw [storedMax_setFile]
  split_ifs with hfile
  · rw [hfile]
    rfl
  · rfl

/-- The copy in memory may change under a counter that does not fall, as long
as it refers to no key an upload in flight relies on. -/
theorem Inv.setMemory {max : ℕ} (h : m.Inv)
    (hmax : tier.maxGen = some max) (hwater : m.water file ≤ max)
    (hbelow : ∀ segno gen, refers tier.segments segno gen = true → gen ≤ max)
    (huploads : ∀ id pass key, m.passes.get? id = some pass →
      pass.upload = some key → key.file = file →
      refers tier.segments key.segno key.gen = false) :
    (m.setFile file (m.rows file) tier).Inv := by
  have hraised : ∀ other,
      m.water other ≤ (m.setFile file (m.rows file) tier).water other := by
    intro other
    rw [water_setFile, hmax]
    split_ifs with hfile
    · exact hfile ▸ hwater
    · exact le_rfl
  constructor
  · intro key href
    rw [references_setFile_same] at href
    exact h.present key href
  · intro key href
    rw [references_setFile_same] at href
    rw [storedMax_setFile_same]
    exact h.rowsBelow key href
  · intro key hmem
    rw [inMemory_setFile] at hmem
    split_ifs at hmem with hfile
    · rw [water_setFile, if_pos hfile, hmax]
      exact hbelow key.segno key.gen hmem
    · exact (h.memoryBelow key hmem).trans (hraised key.file)
  · intro other
    rw [storedMax_setFile_same]
    exact (h.storedBelow other).trans (hraised other)
  · intro key hqueued
    exact (h.queuedBelow key hqueued).trans (hraised key.file)
  · intro key hqueued
    rw [references_setFile_same]
    exact h.queuedFree key hqueued
  · intro key hswept
    rw [references_setFile_same]
    exact h.sweptFree key hswept
  · exact h.running
  · intro id pass key hget hkey
    have hr := h.uploads id pass key hget hkey
    constructor
    · exact hr.queued
    · rw [references_setFile_same]
      exact hr.references
    · rw [inMemory_setFile]
      split_ifs with hfile
      · exact huploads id pass key hget hkey hfile
      · exact hr.inMemory
    · rw [maxGen_setFile]
      split_ifs with hfile
      · rcases hr.below with ⟨old, hold, hle⟩
        refine ⟨max, hmax, hle.trans ?_⟩
        have hsame : m.water file = old := by
          unfold water
          rw [← hfile, hold]
          rfl
        exact hsame ▸ hwater
      · exact hr.below
  · exact h.uploaded
  · intro id x hx
    have ha := h.alone id x hx
    exact { ha with }

omit [DecidableEq File] in
/-- A generation above the water mark is nobody's. -/
theorem Inv.fresh {key : SegmentKey File} (h : m.Inv)
    (hgen : m.water key.file < key.gen) :
    ¬m.Queued key ∧ m.references key = false ∧ m.inMemory key = false := by
  refine ⟨?_, ?_, ?_⟩
  · intro hqueued
    exact absurd (h.queuedBelow key hqueued) (not_le.mpr hgen)
  · by_contra hne
    have hle := h.rowsBelow key (by simpa using hne)
    exact absurd (hle.trans (h.storedBelow key.file)) (not_le.mpr hgen)
  · by_contra hne
    exact absurd (h.memoryBelow key (by simpa using hne))
      (not_le.mpr hgen)

theorem Inv.getSegment {pass : PassInFlight File} {segno : ℕ}
    {entry : Option SegmentEntry} {mask : SlotMask} (h : m.Inv)
    (hget : m.passes.get? id = some pass)
    (hphase : pass.phase = .read segno entry) :
    (m.getSegment id pass segno entry mask).Inv := by
  have hrunning : pass.running = true := by
    simp [PassInFlight.running, hphase]
  have hlt : m.water pass.file <
      (allocateGen (m.rows pass.file) (m.tierOf pass.file)).1 :=
    water_lt_allocateGen
  unfold TierObjects.getSegment
  rcases hallocate : allocateGen (m.rows pass.file) (m.tierOf pass.file)
    with ⟨gen, tier⟩
  rw [hallocate] at hlt
  have htier : tier = ⟨m.segmentsOf pass.file, some gen⟩ := by
    unfold allocateGen at hallocate
    rcases Prod.mk.inj hallocate with ⟨rfl, rfl⟩
    rfl
  dsimp only at hlt ⊢
  have hset : (m.setFile pass.file (m.rows pass.file) tier).Inv := by
    apply h.setMemory (by rw [htier]) hlt.le
    · intro segno gen' hrefers
      rw [htier] at hrefers
      exact (h.memoryBelow ⟨pass.file, segno, gen'⟩ hrefers).trans hlt.le
    · intro other found key hfound hkey hfile
      rw [htier, ← hfile]
      exact (h.uploads other found key hfound hkey).inMemory
  apply hset.setPass hget hrunning
  · intro key hkey
    cases hkey
    have hfresh := @Inv.fresh _ m ⟨pass.file, segno, gen⟩ h hlt
    rcases hfresh with ⟨hqueued, href, hmem⟩
    constructor
    · exact hqueued
    · rw [references_setFile_same]
      exact href
    · rw [inMemory_setFile, htier]
      exact (if_pos rfl).trans hmem
    · refine ⟨gen, ?_, le_rfl⟩
      rw [maxGen_setFile, htier]
      exact if_pos rfl
  · intro put hput
    exact absurd hput (by simp [PassInFlight.withPhase])

end Generations

section Commits

variable {pass : PassInFlight File} {put : SegmentPut}

theorem refers_set {segments : SegmentMap} {segno segno' gen : ℕ}
    {entry : SegmentEntry} :
    refers (segments.set segno entry) segno' gen =
      if segno' = segno then decide (entry.gen = gen)
      else refers segments segno' gen := by
  unfold refers
  rw [OrderedMap.get?_set]
  split_ifs <;> rfl

omit [DecidableEq File] in
theorem uploadKey_eq_of_same {key : SegmentKey File}
    (hfile : key.file = pass.file) (hsegno : key.segno = put.segno)
    (hgen : put.gen = key.gen) :
    key = ⟨pass.file, put.segno, put.gen⟩ := by
  cases key
  simp_all

theorem water_committed {max : ℕ} {rows : TierRows} {tier : TierFile}
    (hmax : m.maxGen pass.file = some max) (hgen : put.gen ≤ max)
    (hset : PageTier.setSegment (m.rows pass.file) (m.tierOf pass.file)
      put.segno ⟨put.gen, put.mask⟩ = (rows, tier)) (file : File) :
    (m.setFile pass.file rows tier).water file = m.water file := by
  unfold PageTier.setSegment tierOf at hset
  rcases Prod.mk.inj hset with ⟨-, htier⟩
  have htierMax : tier.maxGen = some max := by
    rw [← htier]
    simp [hmax, hgen]
  rw [water_setFile, htierMax]
  split_ifs with hfile
  · unfold water
    rw [hfile, hmax]
    rfl
  · rfl

theorem references_committed {rows : TierRows} {tier : TierFile}
    (hset : PageTier.setSegment (m.rows pass.file) (m.tierOf pass.file)
      put.segno ⟨put.gen, put.mask⟩ = (rows, tier)) (gen : ℕ) :
    (m.setFile pass.file rows tier).references ⟨pass.file, put.segno, gen⟩ =
      decide (put.gen = gen) := by
  unfold PageTier.setSegment at hset
  rcases Prod.mk.inj hset with ⟨hrows, -⟩
  rw [references_setFile, ← hrows]
  exact (if_pos rfl).trans (refers_set.trans (if_pos rfl))

variable {next : PassInFlight File}

/-- What the commit step makes of the upload, with the pass already back
between two segments. -/
theorem Inv.setSegment {max : ℕ}
    {rows : TierRows} {tier : TierFile} (h : m.Inv)
    (hget : m.passes.get? id = some next) (hrunning : next.running = true)
    (hidle : next.upload = none)
    (hkey : m.Reserved ⟨pass.file, put.segno, put.gen⟩)
    (hbucket : m.bucket ⟨pass.file, put.segno, put.gen⟩ = true)
    (hmax : m.maxGen pass.file = some max) (hgen : put.gen ≤ max)
    (hset : PageTier.setSegment (m.rows pass.file) (m.tierOf pass.file)
      put.segno ⟨put.gen, put.mask⟩ = (rows, tier)) :
    (m.setFile pass.file rows tier).Inv := by
  have hwater : m.water pass.file = max := by
    unfold water
    rw [hmax]
    rfl
  have hsameWater := water_committed hmax hgen hset
  unfold PageTier.setSegment tierOf at hset
  rcases Prod.mk.inj hset with ⟨hrows, htier⟩
  have hrowsMax : rows.maxGen.getD 0 = max := by
    have hstored := h.storedBelow pass.file
    rw [hwater] at hstored
    unfold storedMax at hstored
    rw [← hrows]
    cases hold : (m.rows pass.file).maxGen with
    | none => simp [hmax, hgen]
    | some stored =>
        rw [hold] at hstored
        simpa [hmax, hgen] using hstored
  have hreferences : ∀ key,
      (m.setFile pass.file rows tier).references key = true →
      key = ⟨pass.file, put.segno, put.gen⟩ ∨ m.references key = true := by
    intro key href
    rw [references_setFile] at href
    split_ifs at href with hfile
    · rw [← hrows, refers_set] at href
      split_ifs at href with hsegno
      · left
        exact uploadKey_eq_of_same hfile hsegno (by simpa using href)
      · right
        rw [← hfile] at href
        exact href
    · exact Or.inr href
  have hinMemory : ∀ key, (m.setFile pass.file rows tier).inMemory key = true →
      key = ⟨pass.file, put.segno, put.gen⟩ ∨ m.inMemory key = true := by
    intro key hmem
    rw [inMemory_setFile] at hmem
    split_ifs at hmem with hfile
    · rw [← htier, refers_set] at hmem
      split_ifs at hmem with hsegno
      · left
        exact uploadKey_eq_of_same hfile hsegno (by simpa using hmem)
      · right
        rw [← hfile] at hmem
        exact hmem
    · exact Or.inr hmem
  have hstoredMax : ∀ file,
      m.storedMax file ≤ (m.setFile pass.file rows tier).storedMax file ∧
        (m.setFile pass.file rows tier).storedMax file ≤ m.water file := by
    intro file
    have hstored := h.storedBelow file
    rw [storedMax_setFile]
    split_ifs with hfile
    · rw [hfile, hwater] at hstored
      rw [hfile, hwater, hrowsMax]
      exact ⟨hstored, le_rfl⟩
    · exact ⟨le_rfl, hstored⟩
  constructor
  · intro key href
    rcases hreferences key href with rfl | hold
    · exact hbucket
    · exact h.present key hold
  · intro key href
    rcases hreferences key href with rfl | hold
    · rw [storedMax_setFile, hrowsMax]
      exact hgen.trans (if_pos rfl).ge
    · exact (h.rowsBelow key hold).trans (hstoredMax key.file).1
  · intro key hmem
    rw [hsameWater]
    rcases hinMemory key hmem with rfl | hold
    · rw [hwater]
      exact hgen
    · exact h.memoryBelow key hold
  · intro file
    rw [hsameWater]
    exact (hstoredMax file).2
  · intro key hqueued
    rw [hsameWater]
    exact h.queuedBelow key hqueued
  · intro key hqueued
    by_contra hne
    rcases hreferences key (by simpa using hne) with rfl | hold
    · exact hkey.queued hqueued
    · rw [h.queuedFree key hqueued] at hold
      exact Bool.noConfusion hold
  · intro key hswept
    exact absurd hswept (h.not_swept hget hrunning)
  · exact h.running
  · intro other found key hfound hupload
    obtain rfl := h.running_unique hget hrunning hfound
      (running_of_upload hupload)
    obtain rfl : found = next := by
      rw [show m.passes.get? other = some found from hfound] at hget
      exact Option.some.inj hget
    rw [hidle] at hupload
    exact absurd hupload (by simp)
  · exact h.uploaded
  · intro other x hx
    have ha := h.alone other x hx
    exact { ha with }

omit [DecidableEq File] in
/-- No upload is in flight while the one running pass has none. -/
theorem Inv.no_upload (h : m.Inv)
    (hget : m.passes.get? id = some next) (hrunning : next.running = true)
    (hidle : next.upload = none) (key : SegmentKey File) (other : ℕ)
    (found : PassInFlight File)
    (hfound : m.passes.get? other = some found) :
    found.upload ≠ some key := by
  intro hupload
  obtain rfl := h.running_unique hget hrunning hfound
    (running_of_upload hupload)
  rw [hget] at hfound
  cases hfound
  rw [hidle] at hupload
  exact absurd hupload (by simp)

theorem Inv.queueUnreferenced {key : SegmentKey File} (h : m.Inv)
    (hget : m.passes.get? id = some next) (hrunning : next.running = true)
    (hidle : next.upload = none) (hbelow : key.gen ≤ m.water key.file)
    (hfree : m.references key = false) : (m.queueDelete key).Inv :=
  h.queueDelete hbelow hfree
    fun other found hfound => h.no_upload hget hrunning hidle key other
      found hfound

omit [DecidableEq File] in
/-- The pass moves on without its upload. -/
theorem Inv.afterUpload {phase : PassPhase} (h : m.Inv)
    (hget : m.passes.get? id = some pass)
    (hphase : pass.phase = .uploaded put)
    (hidle : (pass.withPhase phase).upload = none) :
    (m.setPass id (pass.withPhase phase)).Inv ∧
      (m.setPass id (pass.withPhase phase)).passes.get? id =
        some (pass.withPhase phase) ∧
      m.Reserved ⟨pass.file, put.segno, put.gen⟩ := by
  have hupload := upload_of_uploading (Or.inr hphase)
  constructor
  · exact h.setPass_idle hget (running_of_upload hupload) hidle
  constructor
  · simp [TierObjects.setPass]
  · exact h.uploads id pass _ hget hupload

omit [DecidableEq File] in
theorem Reserved.gen_le_water {key : SegmentKey File}
    (h : m.Reserved key) : key.gen ≤ m.water key.file := by
  rcases h.below with ⟨max, hmax, hle⟩
  unfold water
  rw [hmax]
  exact hle

theorem Inv.abandonUpload (h : m.Inv) (hget : m.passes.get? id = some pass)
    (hphase : pass.phase = .uploaded put) :
    (m.abandonUpload id pass put).Inv := by
  have hidle : (pass.withPhase .closing).upload = none := rfl
  rcases h.afterUpload hget hphase hidle with ⟨hset, hnext, hkey⟩
  exact hset.queueUnreferenced hnext rfl hidle hkey.gen_le_water
    hkey.references

theorem gen_le_water_of_commits {fileKept : Bool} {entry : SegmentEntry}
    (h : m.Inv) (hcommits : m.commits pass put fileKept = true)
    (hentry : put.entry = some entry) : entry.gen ≤ m.water pass.file := by
  unfold commits at hcommits
  rw [Bool.and_eq_true, decide_eq_true_eq, hentry] at hcommits
  exact h.memoryBelow ⟨pass.file, put.segno, entry.gen⟩
    (refers_iff.mpr ⟨entry, hcommits.2, rfl⟩)

theorem Inv.commitSegment {fileKept : Bool} (h : m.Inv)
    (hget : m.passes.get? id = some pass)
    (hphase : pass.phase = .uploaded put) :
    (m.commitSegment id pass put fileKept).Inv := by
  unfold TierObjects.commitSegment
  split_ifs with hcommits
  · have hidle : (pass.withPhase .between).upload = none := rfl
    rcases h.afterUpload hget hphase hidle with ⟨hset, hnext, hkey⟩
    rcases hkey.below with ⟨max, hmax, hle⟩
    rcases hsegment : PageTier.setSegment (m.rows pass.file)
      (m.tierOf pass.file) put.segno ⟨put.gen, put.mask⟩ with ⟨rows, tier⟩
    have hcommitted : ((m.setFile pass.file rows tier).setPass id
        (pass.withPhase .between)).Inv :=
      hset.setSegment hnext rfl hidle hkey.same
        (h.uploaded id pass put hget hphase) hmax hle hsegment
    cases hentry : put.entry with
    | none => exact hcommitted
    | some entry =>
        dsimp only
        split_ifs with hgen
        · exact hcommitted
        · apply hcommitted.queueUnreferenced hnext rfl hidle
          · change entry.gen ≤ (m.setFile pass.file rows tier).water pass.file
            rw [water_committed hmax hle hsegment]
            exact gen_le_water_of_commits h hcommits hentry
          · change (m.setFile pass.file rows tier).references
              ⟨pass.file, put.segno, entry.gen⟩ = false
            rw [references_committed hsegment]
            simp [Ne.symm hgen]
  · exact h.abandonUpload hget hphase

omit [DecidableEq File] in
theorem Inv.no_upload_endPass (h : m.Inv)
    (hget : m.passes.get? id = some pass) (hrunning : pass.running = true)
    (key : SegmentKey File) (other : ℕ) (found : PassInFlight File)
    (hfound : (m.endPass id).passes.get? other = some found) :
    found.upload ≠ some key := by
  intro hupload
  change (m.passes.delete id).get? other = some found at hfound
  rw [OrderedMap.get?_delete] at hfound
  split_ifs at hfound with hsame
  exact hsame (h.running_unique hget hrunning hfound
    (running_of_upload hupload))

theorem Inv.commitRollsBack {fileKept set : Bool} (h : m.Inv)
    (hget : m.passes.get? id = some pass)
    (hphase : pass.phase = .uploaded put) :
    (m.commitRollsBack id pass put fileKept set).Inv := by
  unfold TierObjects.commitRollsBack
  split_ifs with hcommits hset
  · have hupload := upload_of_uploading (Or.inr hphase)
    rcases (h.uploads id pass _ hget hupload).below with
      ⟨max, hmax, hle⟩
    have hwater : m.water pass.file = max := by
      unfold water
      rw [hmax]
      rfl
    have hended : (m.endPass id).Inv := h.endPass id
    apply hended.setMemory
    · simp [tierOf, hmax, hle]
      rfl
    · exact hwater.le
    · intro segno gen hrefers
      simp only [refers_set] at hrefers
      split_ifs at hrefers with hsegno
      · rw [decide_eq_true_eq] at hrefers
        exact hrefers ▸ hle
      · rw [← hwater]
        exact h.memoryBelow ⟨pass.file, segno, gen⟩ hrefers
    · intro other found key hfound hkey
      exact absurd hkey (h.no_upload_endPass hget
        (running_of_upload hupload) key other found hfound)
  · exact h.endPass id
  · exact h.abandonUpload hget hphase

end Commits

end TierObjects
end QiForge
