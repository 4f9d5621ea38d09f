import QiForge.TierObjects

/-!
# Why no referenced object is deleted

Every generation handed out lies above the ones the maps and the queue know
(`water`), a queued key is referenced by no durable row, and a sweep and a
pass that may still upload are never in flight together.  The operations on
the map of one file only narrow it and queue keys it had (`Inv.narrow`).
-/

namespace QiForge

open PageTier

namespace TierObjects

variable {File : Type} [DecidableEq File]

def inMemory (m : TierObjects File) (key : SegmentKey File) : Bool :=
  refers (m.segmentsOf key.file) key.segno key.gen

def storedMax (m : TierObjects File) (file : File) : ℕ :=
  (m.rows file).maxGen.getD 0

/-- The generation below which everything the file has seen lies. -/
def water (m : TierObjects File) (file : File) : ℕ :=
  (m.maxGen file).getD (m.storedMax file)

/-- The key waits for its deletion or is being deleted. -/
def Queued (m : TierObjects File) (key : SegmentKey File) : Prop :=
  key ∈ m.pendingDeletes ∨
    ∃ id x, m.maintenances.get? id = some x ∧ key ∈ x.keys

/-- A sweep is deleting the key as an orphan. -/
def Swept (m : TierObjects File) (key : SegmentKey File) : Prop :=
  ∃ id x, m.maintenances.get? id = some x ∧ key ∈ x.orphans

/-- What an upload in flight may rely on. -/
structure Reserved (m : TierObjects File) (key : SegmentKey File) :
    Prop where
  queued : ¬m.Queued key
  references : m.references key = false
  inMemory : m.inMemory key = false
  below : ∃ max, m.maxGen key.file = some max ∧ key.gen ≤ max

/-- A call of `maintenance` that still sweeps has the tier to itself. -/
structure Alone (m : TierObjects File) (id : ℕ) (x : Maintenance File) :
    Prop where
  token : x.sweep ≠ .none → m.tierSweep = some id
  passes : x.sweep ≠ .none → ∀ j pass,
    m.passes.get? j = some pass → pass.running = false
  sweeps : (∀ rest, x.phase ≠ .deleting rest) → x.sweep ≠ .none
  rest : ∀ rest, x.phase = .deleting rest → ∀ key ∈ rest, key ∈ x.keys

structure Inv (m : TierObjects File) : Prop where
  present : ∀ key, m.references key = true → m.bucket key = true
  rowsBelow : ∀ key, m.references key = true → key.gen ≤ m.storedMax key.file
  memoryBelow : ∀ key, m.inMemory key = true → key.gen ≤ m.water key.file
  storedBelow : ∀ file, m.storedMax file ≤ m.water file
  queuedBelow : ∀ key, m.Queued key → key.gen ≤ m.water key.file
  queuedFree : ∀ key, m.Queued key → m.references key = false
  sweptFree : ∀ key, m.Swept key → m.references key = false
  running : ∀ id pass, m.passes.get? id = some pass →
    pass.running = true → m.tierPass = some id
  uploads : ∀ id pass key, m.passes.get? id = some pass →
    pass.upload = some key → m.Reserved key
  uploaded : ∀ id pass put, m.passes.get? id = some pass →
    pass.phase = .uploaded put →
    m.bucket ⟨pass.file, put.segno, put.gen⟩ = true
  alone : ∀ id x, m.maintenances.get? id = some x → m.Alone id x

variable {m m' : TierObjects File} {file : File}

section SetFile

variable {rows : TierRows} {tier : TierFile}

theorem references_setFile (key : SegmentKey File) :
    (m.setFile file rows tier).references key =
      if key.file = file then refers rows.segments key.segno key.gen
      else m.references key := by
  unfold references setFile
  by_cases hfile : key.file = file
  · subst hfile
    simp
  · simp [hfile]

theorem segmentsOf_setFile (other : File) :
    (m.setFile file rows tier).segmentsOf other =
      if other = file then tier.segments else m.segmentsOf other := by
  unfold segmentsOf setFile
  by_cases hfile : other = file
  · subst hfile
    simp
  · simp [hfile]

theorem inMemory_setFile (key : SegmentKey File) :
    (m.setFile file rows tier).inMemory key =
      if key.file = file then refers tier.segments key.segno key.gen
      else m.inMemory key := by
  unfold inMemory
  rw [segmentsOf_setFile]
  split_ifs <;> rfl

theorem storedMax_setFile (other : File) :
    (m.setFile file rows tier).storedMax other =
      if other = file then rows.maxGen.getD 0 else m.storedMax other := by
  unfold storedMax setFile
  by_cases hfile : other = file
  · subst hfile
    simp
  · simp [hfile]

theorem maxGen_setFile (other : File) :
    (m.setFile file rows tier).maxGen other =
      if other = file then tier.maxGen else m.maxGen other := by
  unfold setFile
  by_cases hfile : other = file
  · subst hfile
    simp
  · simp [hfile]

end SetFile

section Queue

theorem mem_queueDelete {key other : SegmentKey File} :
    other ∈ (m.queueDelete key).pendingDeletes ↔
      other ∈ m.pendingDeletes ∨ other = key := by
  unfold queueDelete
  by_cases hmem : key ∈ m.pendingDeletes
  · rw [if_pos hmem]
    constructor
    · exact Or.inl
    · rintro (hold | rfl)
      · exact hold
      · exact hmem
  · rw [if_neg hmem]
    simp

/-- Nothing but the queue differs. -/
def QueueDiffers (m m' : TierObjects File) : Prop :=
  ∃ pending, m' = { m with pendingDeletes := pending }

theorem queueDeletes_differs (keys : List (ℕ × ℕ)) (m : TierObjects File) :
    QueueDiffers m (m.queueDeletes file keys) := by
  induction keys generalizing m with
  | nil => exact ⟨m.pendingDeletes, rfl⟩
  | cons key rest ih =>
      rcases ih (m.queueDelete ⟨file, key.1, key.2⟩) with ⟨pending, heq⟩
      exact ⟨pending, heq⟩

theorem mem_queueDeletes {keys : List (ℕ × ℕ)} {m : TierObjects File}
    {other : SegmentKey File} :
    other ∈ (m.queueDeletes file keys).pendingDeletes ↔
      other ∈ m.pendingDeletes ∨
        (other.file = file ∧ (other.segno, other.gen) ∈ keys) := by
  induction keys generalizing m with
  | nil => simp [queueDeletes]
  | cons key rest ih =>
      have hrest := ih (m := m.queueDelete ⟨file, key.1, key.2⟩)
      rw [mem_queueDelete] at hrest
      change other ∈ ((m.queueDelete ⟨file, key.1, key.2⟩).queueDeletes
        file rest).pendingDeletes ↔ _
      rw [hrest, List.mem_cons]
      rcases other with ⟨otherFile, segno, gen⟩
      rcases key with ⟨keySegno, keyGen⟩
      simp only [SegmentKey.mk.injEq, Prod.mk.injEq]
      tauto

theorem mem_foldl_queueDelete {keys : List (SegmentKey File)}
    {m : TierObjects File} {other : SegmentKey File} :
    other ∈ (keys.foldl queueDelete m).pendingDeletes ↔
      other ∈ m.pendingDeletes ∨ other ∈ keys := by
  induction keys generalizing m with
  | nil => simp
  | cons key rest ih =>
      rw [List.foldl_cons, ih, mem_queueDelete, List.mem_cons, or_assoc]

theorem foldl_queueDelete_differs (keys : List (SegmentKey File))
    (m : TierObjects File) : QueueDiffers m (keys.foldl queueDelete m) := by
  induction keys generalizing m with
  | nil => exact ⟨m.pendingDeletes, rfl⟩
  | cons key rest ih =>
      rcases ih (m.queueDelete key) with ⟨pending, heq⟩
      exact ⟨pending, heq⟩

end Queue

theorem refers_iff {segments : SegmentMap} {segno gen : ℕ} :
    refers segments segno gen = true ↔
      ∃ entry, segments.get? segno = some entry ∧ entry.gen = gen := by
  unfold refers
  cases segments.get? segno with
  | none => simp
  | some entry => simp

/-- What the operations on one file's map do: rows and memory lose entries,
and the keys they queue were in memory and are referenced no longer. -/
structure Narrowed (m m' : TierObjects File) : Prop where
  references : ∀ key, m'.references key = true → m.references key = true
  storedMax : ∀ file, m'.storedMax file = m.storedMax file
  maxGen : m'.maxGen = m.maxGen
  inMemory : ∀ key, m'.inMemory key = true → m.inMemory key = true
  pending : ∀ key, key ∈ m'.pendingDeletes → key ∈ m.pendingDeletes ∨
      (m.inMemory key = true ∧ m'.references key = false)
  bucket : m'.bucket = m.bucket
  passes : m'.passes = m.passes
  tierPass : m'.tierPass = m.tierPass
  maintenances : m'.maintenances = m.maintenances
  tierSweep : m'.tierSweep = m.tierSweep

omit [DecidableEq File] in
theorem Narrowed.water (h : Narrowed m m') (file : File) :
    m'.water file = m.water file := by
  unfold TierObjects.water
  rw [h.maxGen, h.storedMax]

omit [DecidableEq File] in
theorem Narrowed.free (h : Narrowed m m') {key : SegmentKey File}
    (hfree : m.references key = false) : m'.references key = false := by
  by_contra hne
  rw [h.references key (by simpa using hne)] at hfree
  exact Bool.noConfusion hfree

omit [DecidableEq File] in
theorem Narrowed.queued (h : Narrowed m m') {key : SegmentKey File}
    (hqueued : m'.Queued key) :
    m.Queued key ∨ (m.inMemory key = true ∧ m'.references key = false) := by
  rcases hqueued with hpending | ⟨id, x, hget, hmem⟩
  · rcases h.pending key hpending with hold | hnew
    · exact Or.inl (Or.inl hold)
    · exact Or.inr hnew
  · rw [h.maintenances] at hget
    exact Or.inl (Or.inr ⟨id, x, hget, hmem⟩)

omit [DecidableEq File] in
theorem Inv.narrow (h : m.Inv) (hn : Narrowed m m') : m'.Inv where
  present := by
    intro key href
    rw [hn.bucket]
    exact h.present key (hn.references key href)
  rowsBelow := by
    intro key href
    rw [hn.storedMax]
    exact h.rowsBelow key (hn.references key href)
  memoryBelow := by
    intro key hmem
    rw [hn.water]
    exact h.memoryBelow key (hn.inMemory key hmem)
  storedBelow := by
    intro file
    rw [hn.storedMax, hn.water]
    exact h.storedBelow file
  queuedBelow := by
    intro key hqueued
    rw [hn.water]
    rcases hn.queued hqueued with hold | hnew
    · exact h.queuedBelow key hold
    · exact h.memoryBelow key hnew.1
  queuedFree := by
    intro key hqueued
    rcases hn.queued hqueued with hold | hnew
    · exact hn.free (h.queuedFree key hold)
    · exact hnew.2
  sweptFree := by
    rintro key ⟨id, x, hget, hmem⟩
    rw [hn.maintenances] at hget
    exact hn.free (h.sweptFree key ⟨id, x, hget, hmem⟩)
  running := by
    rw [hn.passes, hn.tierPass]
    exact h.running
  uploads := by
    rw [hn.passes]
    intro id pass key hget hupload
    have hr := h.uploads id pass key hget hupload
    refine ⟨?_, hn.free hr.references, ?_, ?_⟩
    · intro hqueued
      rcases hn.queued hqueued with hold | hnew
      · exact hr.queued hold
      · rw [hr.inMemory] at hnew
        exact Bool.noConfusion hnew.1
    · by_contra hne
      have hold := hn.inMemory key (by simpa using hne)
      rw [hr.inMemory] at hold
      exact Bool.noConfusion hold
    · rw [hn.maxGen]
      exact hr.below
  uploaded := by
    rw [hn.passes, hn.bucket]
    exact h.uploaded
  alone := by
    intro id x hget
    rw [hn.maintenances] at hget
    have ha := h.alone id x hget
    refine ⟨?_, ?_, ha.sweeps, ha.rest⟩
    · rw [hn.tierSweep]
      exact ha.token
    · rw [hn.passes]
      exact ha.passes

section Narrowing

variable {rows : TierRows} {tier : TierFile} {keys : List (ℕ × ℕ)}

theorem maxGen_setFile_eq (hmax : tier.maxGen = m.maxGen file) :
    (m.setFile file rows tier).maxGen = m.maxGen := by
  funext other
  rw [maxGen_setFile]
  split_ifs with hfile
  · rw [hfile, hmax]
  · rfl

theorem narrowed_setFile
    (hrows : ∀ segno gen, refers rows.segments segno gen = true →
      refers (m.rows file).segments segno gen = true)
    (hstored : rows.maxGen = (m.rows file).maxGen)
    (hmax : tier.maxGen = m.maxGen file)
    (hmemory : ∀ segno gen, refers tier.segments segno gen = true →
      refers (m.segmentsOf file) segno gen = true)
    (hkeys : ∀ key ∈ keys, refers (m.segmentsOf file) key.1 key.2 = true ∧
        refers rows.segments key.1 key.2 = false) :
    Narrowed m ((m.setFile file rows tier).queueDeletes file keys) := by
  have hpending : ∀ key, key ∈ ((m.setFile file rows tier).queueDeletes file
        keys).pendingDeletes ↔
        key ∈ m.pendingDeletes ∨
          (key.file = file ∧ (key.segno, key.gen) ∈ keys) :=
    fun _ => mem_queueDeletes
  rcases queueDeletes_differs keys (m.setFile file rows tier) with
    ⟨pending, heq⟩
  rw [heq] at hpending ⊢
  have hmaxGen : (m.setFile file rows tier).maxGen = m.maxGen :=
    maxGen_setFile_eq hmax
  refine ⟨?_, ?_, hmaxGen, ?_, ?_, rfl, rfl, rfl, rfl, rfl⟩
  · intro key href
    change (m.setFile file rows tier).references key = true at href
    rw [references_setFile] at href
    split_ifs at href with hfile
    · subst hfile
      exact hrows key.segno key.gen href
    · exact href
  · intro other
    change (m.setFile file rows tier).storedMax other = m.storedMax other
    rw [storedMax_setFile]
    split_ifs with hfile
    · rw [hstored, hfile]
      rfl
    · rfl
  · intro key hmem
    change (m.setFile file rows tier).inMemory key = true at hmem
    rw [inMemory_setFile] at hmem
    split_ifs at hmem with hfile
    · subst hfile
      exact hmemory key.segno key.gen hmem
    · exact hmem
  · intro key hmem
    rcases (hpending key).mp hmem with hold | ⟨hfile, hnew⟩
    · exact Or.inl hold
    · right
      have hkey := hkeys _ hnew
      change m.inMemory key = true ∧
        (m.setFile file rows tier).references key = false
      rw [references_setFile, if_pos hfile]
      subst hfile
      exact hkey

theorem refers_truncateRows {rows segments : SegmentMap}
    {keepChunks segno gen : ℕ} :
    refers (truncateRows rows segments keepChunks) segno gen =
      (refers rows segno gen &&
        !(segments.has segno && segmentDropped keepChunks segno)) := by
  unfold refers truncateRows
  rw [OrderedMap.get?_mapValues, OrderedMap.get?_filter]
  cases rows.get? segno with
  | none => rfl
  | some row =>
      cases hdropped : segments.has segno && segmentDropped keepChunks segno
        with
      | true => simp [Option.filter]
      | false =>
          simp only [Option.filter, Bool.not_false, if_true,
            Option.map_some, Bool.and_true]
          cases segments.get? segno with
          | none => rfl
          | some entry =>
              dsimp only
              split_ifs <;> rfl

theorem refers_truncateTouched {touched : ℕ → Bool} {segments : SegmentMap}
    {keepChunks segno gen : ℕ}
    (h : refers (truncateTouched touched segments keepChunks) segno gen =
      true) : refers segments segno gen = true := by
  unfold refers at h ⊢
  rw [get?_truncateTouched] at h
  split_ifs at h
  · cases hget : segments.get? segno with
    | none => simp [hget] at h
    | some entry => simpa [hget] using h
  · exact h

theorem refers_of_mem {segments : SegmentMap} {entry : ℕ × SegmentEntry}
    (hmem : entry ∈ segments.entries) :
    refers segments entry.1 entry.2.gen = true :=
  refers_iff.mpr ⟨entry.2, OrderedMap.mem_entries_iff.mp hmem, rfl⟩

theorem has_of_mem {segments : SegmentMap} {entry : ℕ × SegmentEntry}
    (hmem : entry ∈ segments.entries) : segments.has entry.1 = true :=
  OrderedMap.has_iff.mpr ⟨entry.2, OrderedMap.mem_entries_iff.mp hmem⟩

theorem load_narrowed : Narrowed m (m.load file) :=
  @narrowed_setFile _ _ m file _ _ [] (fun _ _ h => h) rfl rfl
    (fun _ _ h => h) (fun _ hmem => absurd hmem List.not_mem_nil)

omit [DecidableEq File] in
theorem Narrowed.withEpoch {epoch : ℕ} (h : Narrowed m m') :
    Narrowed m { m' with layoutEpoch := epoch } :=
  { h with }

omit [DecidableEq File] in
theorem Narrowed.withSnapshots {snapshots : List File}
    (h : Narrowed m m') : Narrowed m { m' with snapshots := snapshots } :=
  { h with }

omit [DecidableEq File] in
theorem Narrowed.refl (m : TierObjects File) : Narrowed m m :=
  ⟨fun _ h => h, fun _ => rfl, rfl, fun _ h => h, fun _ => Or.inl, rfl, rfl,
    rfl, rfl, rfl⟩

theorem flush_narrowed (keepChunks : ℕ) :
    Narrowed m (m.flush file keepChunks) := by
  unfold flush
  dsimp only [truncate]
  apply Narrowed.withEpoch
  apply narrowed_setFile
  · intro segno gen h
    rw [refers_truncateRows, Bool.and_eq_true] at h
    exact h.1
  · rfl
  · rfl
  · intro segno gen h
    exact refers_truncateTouched h
  · intro key hmem
    rcases List.mem_map.mp hmem with ⟨entry, hentry, rfl⟩
    rcases List.mem_filter.mp hentry with ⟨hin, hdropped⟩
    have hhas : (m.tierOf file).segments.has entry.1 = true := has_of_mem hin
    refine ⟨refers_of_mem hin, ?_⟩
    rw [refers_truncateRows, hhas, hdropped]
    simp

theorem flushRollsBack_narrowed {keepChunks : ℕ} {touched : ℕ → Bool}
    {failing : Option ℕ}
    (hkept : ∀ key ∈ reachedKeys (reached touched failing)
      (m.segmentsOf file) keepChunks,
      m.references ⟨file, key.1, key.2⟩ = false) :
    Narrowed m (m.flushRollsBack file keepChunks touched failing) := by
  apply narrowed_setFile
  · exact fun _ _ h => h
  · rfl
  · rfl
  · intro segno gen h
    exact refers_truncateTouched h
  · intro key hmem
    refine ⟨?_, hkept key hmem⟩
    rcases List.mem_map.mp hmem with ⟨entry, hentry, rfl⟩
    exact refers_of_mem (List.mem_filter.mp hentry).1

theorem refers_empty (segno gen : ℕ) :
    refers OrderedMap.empty segno gen = false := rfl

theorem replace_narrowed : Narrowed m (m.replace file) := by
  unfold replace
  dsimp only [dropFile]
  apply Narrowed.withEpoch
  apply narrowed_setFile
  · intro segno gen h
    rw [refers_empty] at h
    exact absurd h Bool.false_ne_true
  · rfl
  · rfl
  · intro segno gen h
    rw [refers_empty] at h
    exact absurd h Bool.false_ne_true
  · intro key hmem
    rcases List.mem_map.mp hmem with ⟨entry, hentry, rfl⟩
    exact ⟨refers_of_mem hentry, refers_empty _ _⟩

theorem replaceRollsBack_narrowed {progress : DropProgress}
    (hkept : progress ≠ .before → ∀ entry ∈ (m.segmentsOf file).entries,
        m.references ⟨file, entry.1, entry.2.gen⟩ = false) :
    Narrowed m (m.replaceRollsBack file progress) := by
  have hkeys : progress ≠ .before →
      ∀ key ∈ (dropFile (m.rows file) (m.tierOf file)).2.2,
        refers (m.segmentsOf file) key.1 key.2 = true ∧
          refers (m.rows file).segments key.1 key.2 = false := by
    intro hprogress key hmem
    rcases List.mem_map.mp hmem with ⟨entry, hentry, rfl⟩
    exact ⟨refers_of_mem hentry, hkept hprogress entry hentry⟩
  cases progress with
  | before => exact Narrowed.refl m
  | queued =>
      apply narrowed_setFile
      · exact fun _ _ h => h
      · rfl
      · rfl
      · exact fun _ _ h => h
      · exact hkeys (by simp)
  | cleared =>
      apply narrowed_setFile
      · exact fun _ _ h => h
      · rfl
      · rfl
      · intro segno gen h
        change refers OrderedMap.empty segno gen = true at h
        rw [refers_empty] at h
        exact absurd h Bool.false_ne_true
      · exact hkeys (by simp)

end Narrowing

end TierObjects
end QiForge
