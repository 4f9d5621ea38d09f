import QiForge.TierObjectsMaintenance

/-!
# No referenced segment object is deleted

Every step but two keeps the invariant whatever the state.  A transaction
that rolls back keeps it unless it has queued a key the durable map still
references, and re-binding to new storage keeps it unless the old instance
has a pass or a sweep in flight or a key queued that lies above the stored
generation.
-/

namespace QiForge

/-- Rows and objects of a storage between two runs of the program. -/
structure TierStore (File : Type) where
  rows : File → TierRows
  bucket : SegmentKey File → Bool
  present : ∀ key : SegmentKey File,
    refers (rows key.file).segments key.segno key.gen = true →
      bucket key = true
  below : ∀ key : SegmentKey File,
    refers (rows key.file).segments key.segno key.gen = true →
      key.gen ≤ (rows key.file).maxGen.getD 0

namespace TierObjects

variable {File : Type} [DecidableEq File] {m m' : TierObjects File}

/-- Keys waiting for their deletion or being deleted. -/
def queuedKeys (m : TierObjects File) : List (SegmentKey File) :=
  m.pendingDeletes ++ m.maintenances.entries.flatMap fun entry =>
    entry.2.keys

/-- A transaction that rolls back has queued nothing the durable map
references, and `attach` finds nothing in flight that could collide with the
generations handed out after it. -/
def spares (m : TierObjects File) : TierObjectsEvent File → Bool
  | .flushRollsBack file keepChunks touched failing =>
      (reachedKeys (reached touched failing) (m.segmentsOf file)
        keepChunks).all fun key => !m.references ⟨file, key.1, key.2⟩
  | .replaceRollsBack op progress =>
      decide (progress = .before) ||
        (m.segmentsOf op.target).entries.all fun entry =>
          !m.references ⟨op.target, entry.1, entry.2.gen⟩
  | .attach =>
      (m.passes.entries.all fun entry => !entry.2.running) &&
        (m.maintenances.entries.all fun entry =>
          decide (entry.2.sweep = .none)) &&
        m.queuedKeys.all fun key =>
          decide (key.gen ≤ m.storedMax key.file)
  | _ => true

/-- What the tier owes its durable map. -/
structure ObjectsKept (m : TierObjects File) : Prop where
  present : ∀ file segno entry,
    (m.rows file).segments.get? segno = some entry → entry.mask ≠ 0 →
      m.bucket ⟨file, segno, entry.gen⟩ = true
  queued : ∀ file segno entry,
    (m.rows file).segments.get? segno = some entry → entry.mask ≠ 0 →
      ⟨file, segno, entry.gen⟩ ∉ m.pendingDeletes
  reused : ∀ id pass key, m.passes.get? id = some pass →
    pass.upload = some key → ¬m.Queued key

omit [DecidableEq File] in
theorem Inv.objectsKept (h : m.Inv) : m.ObjectsKept := by
  have href : ∀ file segno entry,
      (m.rows file).segments.get? segno = some entry →
      m.references ⟨file, segno, entry.gen⟩ = true := by
    intro file segno entry hget
    exact refers_iff.mpr ⟨entry, hget, rfl⟩
  constructor
  · intro file segno entry hget _
    exact h.present _ (href file segno entry hget)
  · intro file segno entry hget _ hmem
    have hfree := h.queuedFree _ (Or.inl hmem)
    rw [href file segno entry hget] at hfree
    exact Bool.noConfusion hfree
  · intro id pass key hget hupload
    exact (h.uploads id pass key hget hupload).queued

omit [DecidableEq File] in
theorem inv_opened (store : TierStore File) :
    (opened store.rows store.bucket).Inv := by
  have hnoPass : ∀ id, (opened store.rows store.bucket).passes.get? id =
      none := fun _ => rfl
  have hnoCall : ∀ id,
      (opened store.rows store.bucket).maintenances.get? id = none :=
    fun _ => rfl
  have hnotQueued : ∀ key, ¬(opened store.rows store.bucket).Queued key := by
    rintro key (hpending | ⟨id, x, hget, -⟩)
    · exact absurd hpending List.not_mem_nil
    · rw [hnoCall] at hget
      exact absurd hget (by simp)
  constructor
  · exact store.present
  · exact store.below
  · exact store.below
  · intro file
    exact le_rfl
  · intro key hkey
    exact absurd hkey (hnotQueued key)
  · intro key hkey
    exact absurd hkey (hnotQueued key)
  · rintro key ⟨id, x, hget, -⟩
    rw [hnoCall] at hget
    exact absurd hget (by simp)
  · intro id pass hget
    rw [hnoPass] at hget
    exact absurd hget (by simp)
  · intro id pass key hget
    rw [hnoPass] at hget
    exact absurd hget (by simp)
  · intro id pass put hget
    rw [hnoPass] at hget
    exact absurd hget (by simp)
  · intro id x hget
    rw [hnoCall] at hget
    exact absurd hget (by simp)

omit [DecidableEq File] in
theorem mem_queuedKeys {key : SegmentKey File} :
    key ∈ m.queuedKeys ↔ m.Queued key := by
  unfold queuedKeys Queued
  rw [List.mem_append, List.mem_flatMap]
  constructor
  · rintro (hpending | ⟨⟨id, x⟩, hmem, hkey⟩)
    · exact Or.inl hpending
    · exact Or.inr ⟨id, x, OrderedMap.mem_entries_iff.mp hmem, hkey⟩
  · rintro (hpending | ⟨id, x, hget, hkey⟩)
    · exact Or.inl hpending
    · exact Or.inr ⟨(id, x), OrderedMap.mem_entries_iff.mpr hget, hkey⟩

omit [DecidableEq File] in
theorem Inv.attach (h : m.Inv) (hspares : m.spares .attach = true) :
    m.attach.Inv := by
  simp only [spares, Bool.and_eq_true, List.all_eq_true,
    Bool.not_eq_true', decide_eq_true_eq] at hspares
  rcases hspares with ⟨⟨hpasses, hcalls⟩, hqueued⟩
  have hnotRunning : ∀ id pass, m.passes.get? id = some pass →
      pass.running = false := by
    intro id pass hget
    exact hpasses (id, pass) (OrderedMap.mem_entries_iff.mpr hget)
  have hnoSweep : ∀ id x, m.maintenances.get? id = some x →
      x.sweep = .none := by
    intro id x hget
    exact hcalls (id, x) (OrderedMap.mem_entries_iff.mpr hget)
  have hnoUpload : ∀ id pass key, m.passes.get? id = some pass →
      pass.upload ≠ some key := by
    intro id pass key hget hupload
    have hidle := hnotRunning id pass hget
    rw [running_of_upload hupload] at hidle
    exact Bool.noConfusion hidle
  constructor
  · exact h.present
  · exact h.rowsBelow
  · exact h.rowsBelow
  · intro file
    exact le_rfl
  · intro key hkey
    exact hqueued key (mem_queuedKeys.mpr hkey)
  · exact h.queuedFree
  · exact h.sweptFree
  · intro id pass hget hrunning
    rw [hnotRunning id pass hget] at hrunning
    exact absurd hrunning Bool.false_ne_true
  · intro id pass key hget hupload
    exact absurd hupload (hnoUpload id pass key hget)
  · exact h.uploaded
  · intro id x hget
    have ha := h.alone id x hget
    have hnone := hnoSweep id x hget
    constructor
    · intro hsweep
      exact absurd hnone hsweep
    · intro hsweep
      exact absurd hnone hsweep
    · exact ha.sweeps
    · exact ha.rest

section Steps

variable {id : ℕ} {pass : PassInFlight File}

theorem Inv.plan {todo : Option (List ℕ)} (h : m.Inv)
    (hget : m.passes.get? id = some pass)
    (hphase : pass.phase = .starting) :
    (m.planPass id pass todo).Inv := by
  have hrunning : pass.running = true := by
    simp [PassInFlight.running, hphase]
  unfold planPass
  cases todo with
  | none => exact h.endPass id
  | some todo =>
      split_ifs
      · exact h.endPass id
      · exact h.setPass_idle hget hrunning rfl

theorem Inv.readSegment {fileKept : Bool} (h : m.Inv)
    (hget : m.passes.get? id = some pass)
    (hphase : pass.phase = .between) :
    (m.readSegment id pass fileKept).Inv := by
  have hrunning : pass.running = true := by
    simp [PassInFlight.running, hphase]
  unfold TierObjects.readSegment
  cases pass.remaining with
  | nil => exact h.setPass_idle hget hrunning rfl
  | cons segno rest =>
      split_ifs
      · have hloaded : (m.load pass.file).Inv := h.narrow load_narrowed
        exact hloaded.setPass_idle hget hrunning rfl
      · exact h.setPass_idle hget hrunning rfl

theorem Inv.getFails {fileKept : Bool} (h : m.Inv)
    (hget : m.passes.get? id = some pass) (hrunning : pass.running = true) :
    (m.getFails id pass fileKept).Inv := by
  unfold TierObjects.getFails
  split_ifs
  · exact h.endPass id
  · exact h.setPass_idle hget hrunning rfl

theorem Inv.putSegment {put : SegmentPut} (h : m.Inv)
    (hget : m.passes.get? id = some pass)
    (hphase : pass.phase = .uploading put) :
    (m.putSegment id pass put).Inv := by
  have hupload := upload_of_uploading (Or.inl hphase)
  have hstored := h.storeObject ⟨pass.file, put.segno, put.gen⟩
  apply hstored.setPass hget (running_of_upload hupload)
  · intro key hkey
    cases hkey
    exact (h.uploads id pass _ hget hupload).same
  · intro put' hput
    obtain rfl := PassPhase.uploaded.inj hput
    exact Function.update_self _ _ _

theorem Inv.putFails {put : SegmentPut} {stored : Bool} (h : m.Inv) :
    (m.putFails id pass put stored).Inv := by
  unfold TierObjects.putFails
  split_ifs
  · exact (h.storeObject _).endPass id
  · exact h.endPass id

theorem Inv.stepPass {e : TierObjectsEvent File} (h : m.Inv)
    (hget : m.passes.get? id = some pass)
    (hstep : m.stepPass id pass e = some m') : m'.Inv := by
  unfold TierObjects.stepPass at hstep
  cases e with
  | plan _ todo =>
      cases hphase : pass.phase <;> simp [hphase] at hstep
      exact hstep ▸ h.plan hget hphase
  | readSegment _ fileKept =>
      cases hphase : pass.phase <;> simp [hphase] at hstep
      exact hstep ▸ h.readSegment hget hphase
  | getSegment _ mask =>
      cases hphase : pass.phase <;> simp [hphase] at hstep
      exact hstep ▸ h.getSegment hget hphase
  | getFails _ fileKept =>
      cases hphase : pass.phase <;> simp [hphase] at hstep
      apply hstep ▸ h.getFails hget _
      simp [PassInFlight.running, hphase]
  | putSegment _ =>
      cases hphase : pass.phase <;> simp [hphase] at hstep
      exact hstep ▸ h.putSegment hget hphase
  | putFails _ stored =>
      cases hphase : pass.phase <;> simp [hphase] at hstep
      exact hstep ▸ h.putFails
  | commitSegment _ fileKept =>
      cases hphase : pass.phase <;> simp [hphase] at hstep
      exact hstep ▸ h.commitSegment hget hphase
  | commitRollsBack _ fileKept set =>
      cases hphase : pass.phase <;> simp [hphase] at hstep
      exact hstep ▸ h.commitRollsBack hget hphase
  | closePass _ maintenance due =>
      cases hphase : pass.phase <;> simp [hphase] at hstep
      exact h.closePass hget hphase hstep
  | _ => exact absurd hstep (by simp)

omit [DecidableEq File] in
theorem Inv.withSnapshots {snapshots : List File} {windowReaders : ℤ}
    {readers : ℕ} (h : m.Inv) :
    Inv { m with
        snapshots := snapshots
        windowReaders := windowReaders
        readers := readers } := by
  apply h.narrow
  exact ⟨fun _ h => h, fun _ => rfl, rfl, fun _ h => h, fun _ => Or.inl,
    rfl, rfl, rfl, rfl, rfl⟩

omit [DecidableEq File] in
theorem bind_get {κ α : Type} [DecidableEq κ] {map : OrderedMap κ α}
    {key : κ} {f : α → Option (TierObjects File)}
    (h : (map.get? key).bind f = some m') :
    ∃ value, map.get? key = some value ∧ f value = some m' :=
  Option.bind_eq_some_iff.mp h

theorem Inv.step {e : TierObjectsEvent File} (h : m.Inv)
    (hspares : m.spares e = true) (hstep : m.step e = some m') :
    m'.Inv := by
  cases e with
  | load file =>
      cases hstep
      exact h.narrow load_narrowed
  | flush file keepChunks =>
      cases hstep
      exact h.narrow (flush_narrowed keepChunks)
  | flushRollsBack file keepChunks touched failing =>
      cases hstep
      apply h.narrow
      apply flushRollsBack_narrowed
      intro key hmem
      simpa using List.all_eq_true.mp hspares key hmem
  | replace op =>
      unfold TierObjects.step at hstep
      dsimp only at hstep
      split_ifs at hstep
      cases hstep
      exact h.narrow replace_narrowed
  | replaceRollsBack op progress =>
      unfold TierObjects.step at hstep
      dsimp only at hstep
      split_ifs at hstep
      cases hstep
      apply h.narrow
      apply replaceRollsBack_narrowed
      intro hprogress entry hmem
      have hall : ((m.segmentsOf op.target).entries.all fun entry =>
          !m.references ⟨op.target, entry.1, entry.2.gen⟩) = true := by
        simpa [spares, hprogress] using hspares
      simpa using List.all_eq_true.mp hall entry hmem
  | openSnapshot file =>
      unfold TierObjects.step at hstep
      dsimp only at hstep
      split_ifs at hstep
      cases hstep
      exact (h.narrow load_narrowed).withSnapshots
  | closeSnapshot file =>
      cases hstep
      exact h.withSnapshots
  | startReader =>
      cases hstep
      exact h.withSnapshots
  | endReader =>
      unfold TierObjects.step at hstep
      dsimp only at hstep
      split_ifs at hstep
      cases hstep
      exact h.withSnapshots
  | attach =>
      cases hstep
      exact h.attach hspares
  | tierFlush id file => exact h.tierFlush hstep
  | tierMaintenance maintenance sweep due => exact h.tierMaintenance hstep
  | deleteBatch id =>
      rcases bind_get hstep with ⟨x, hget, hbatch⟩
      exact h.deleteBatch hget hbatch
  | deleteFails id taken =>
      rcases bind_get hstep with ⟨x, hget, hfails⟩
      exact h.deleteFails hget hfails
  | listPage id page complete =>
      rcases bind_get hstep with ⟨x, hget, hlisted⟩
      exact h.listPage hget hlisted
  | listFails id =>
      rcases bind_get hstep with ⟨x, hget, hfails⟩
      split at hfails
      · cases hfails
        exact h.finishMaintenance x
      · exact absurd hfails (by simp)
  | examinePage id =>
      rcases bind_get hstep with ⟨x, hget, hexamined⟩
      exact h.examinePage hget hexamined
  | _ =>
      rcases bind_get hstep with ⟨pass, hget, hpass⟩
      exact h.stepPass hget hpass

end Steps

/-- Whatever passes, flushes, replacements, snapshots and deletions
interleave, the durable map finds its objects. -/
theorem referenced_objects_kept (store : TierStore File)
    {es : List (TierObjectsEvent File)}
    (hspares : Transition.Meets step (fun m e => m.spares e = true)
      (opened store.rows store.bucket) es)
    (hrun : Transition.run step (opened store.rows store.bucket) es =
      some m) : m.ObjectsKept := by
  have hinv : m.Inv := Transition.run_preserves_of_meets
      (fun _ _ _ hI hc hstep => Inv.step hI hc hstep) hspares
      (inv_opened store) hrun
  exact hinv.objectsKept

section OneSegment

/-- One file whose chunk 16 lies in R2. -/
def oneSegmentStore : TierStore Unit where
  rows := fun _ =>
    { segments := OrderedMap.empty.set 1 ⟨1, 1⟩, maxGen := some 1 }
  bucket := fun key => decide (key = ⟨(), 1, 1⟩)
  present := by
    rintro ⟨⟨⟩, segno, gen⟩ hrefers
    simp only [refers_set, refers_empty] at hrefers
    split_ifs at hrefers with hsegno
    simp_all
  below := by
    rintro ⟨⟨⟩, segno, gen⟩ hrefers
    simp only [refers_set, refers_empty] at hrefers
    split_ifs at hrefers with hsegno
    simp_all

/-- Chunk 17 joins the segment, the superseded object is deleted and a sweep
looks at the new one. -/
def evictedAndSwept : List (TierObjectsEvent Unit) :=
  [.tierFlush 0 (), .plan 0 (some [1]), .readSegment 0 true,
    .getSegment 0 3, .putSegment 0, .commitSegment 0 true,
    .readSegment 0 true, .closePass 0 0 true, .deleteBatch 0,
    .deleteBatch 0, .listPage 0 [⟨(), 1, 2⟩] true, .examinePage 0,
    .deleteBatch 0, .attach]

theorem exists_of_run {es : List (TierObjectsEvent Unit)}
    {test : TierObjects Unit → Bool}
    (h : (Transition.run step
      (opened oneSegmentStore.rows oneSegmentStore.bucket) es).any test =
        true) :
    ∃ m, Transition.run step
      (opened oneSegmentStore.rows oneSegmentStore.bucket) es = some m ∧
        test m = true :=
  (Option.any_eq_true _ _).mp h

theorem referenced_objects_kept_swept : ∃ m, Transition.run step
        (opened oneSegmentStore.rows oneSegmentStore.bucket)
        evictedAndSwept = some m ∧
      m.bucket ⟨(), 1, 1⟩ = false ∧
      (m.rows ()).segments.get? 1 = some ⟨2, 3⟩ ∧
      m.bucket ⟨(), 1, 2⟩ = true := by
  have hany : (Transition.run step
      (opened oneSegmentStore.rows oneSegmentStore.bucket)
      evictedAndSwept).any (fun m =>
        decide (m.bucket ⟨(), 1, 1⟩ = false ∧
          (m.rows ()).segments.get? 1 = some ⟨2, 3⟩)) = true := by
    decide +kernel
  rcases exists_of_run hany with ⟨m, hrun, htest⟩
  rcases of_decide_eq_true htest with ⟨hgone, hget⟩
  have hkept := referenced_objects_kept oneSegmentStore
    (by decide +kernel) hrun
  exact ⟨m, hrun, hgone, hget, hkept.present () 1 ⟨2, 3⟩ hget (by decide)⟩

/-- A truncation to 16 chunks rolls back and its deletes are carried out. -/
def rolledBackAndDeleted : List (TierObjectsEvent Unit) :=
  [.flushRollsBack () 16 (fun _ => true) none,
    .tierMaintenance 0 false false, .deleteBatch 0]

/-- The pass that uploads while `attach` runs and the pass after it are handed
out the same generation; the first gives its upload up when the second has
committed. -/
def attachedMeanwhile : List (TierObjectsEvent Unit) :=
  [.tierFlush 0 (), .plan 0 (some [2]), .readSegment 0 true,
    .getSegment 0 1, .attach, .putSegment 0, .tierFlush 1 (),
    .plan 1 (some [2]), .readSegment 1 true, .getSegment 1 1,
    .putSegment 1, .commitSegment 1 true, .commitSegment 0 true]

/-- The durable map references an object that is gone, and one whose deletion
is queued. -/
theorem referenced_objects_lost : (∃ m, Transition.run step
        (opened oneSegmentStore.rows oneSegmentStore.bucket)
        rolledBackAndDeleted = some m ∧
      (m.rows ()).segments.get? 1 = some ⟨1, 1⟩ ∧
      m.bucket ⟨(), 1, 1⟩ = false) ∧
    ∃ m, Transition.run step
        (opened oneSegmentStore.rows oneSegmentStore.bucket)
        attachedMeanwhile = some m ∧
      (m.rows ()).segments.get? 2 = some ⟨2, 1⟩ ∧
      ⟨(), 2, 2⟩ ∈ m.pendingDeletes := by
  constructor
  · have hany : (Transition.run step
        (opened oneSegmentStore.rows oneSegmentStore.bucket)
        rolledBackAndDeleted).any (fun m =>
          decide ((m.rows ()).segments.get? 1 = some ⟨1, 1⟩ ∧
            m.bucket ⟨(), 1, 1⟩ = false)) = true := by
      decide +kernel
    rcases exists_of_run hany with ⟨m, hrun, htest⟩
    exact ⟨m, hrun, of_decide_eq_true htest⟩
  · have hany : (Transition.run step
        (opened oneSegmentStore.rows oneSegmentStore.bucket)
        attachedMeanwhile).any (fun m =>
          decide ((m.rows ()).segments.get? 2 = some ⟨2, 1⟩ ∧
            ⟨(), 2, 2⟩ ∈ m.pendingDeletes)) = true := by
      decide +kernel
    rcases exists_of_run hany with ⟨m, hrun, htest⟩
    exact ⟨m, hrun, of_decide_eq_true htest⟩

end OneSegment

end TierObjects
end QiForge
