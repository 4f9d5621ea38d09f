import QiForge.DoVfsFlush

/-!
# A flush whose transaction throws

The statements a pending truncation issues for the tier map, the point at
which the storage transaction of a flush throws, and what the rolled-back
flush leaves: the map in memory beside the rows, the queue of keys to delete,
and the storage a later flush of the same pending state commits.
-/

namespace QiForge

open PageTier

/-- Where the transaction throws: before the tier is truncated, at the `n`th
statement the truncation issues, or after it. -/
inductive FlushPoint where
  | beforeTruncate
  | atStatement (n : ℕ)
  | afterTruncate
deriving DecidableEq, Repr

namespace PageTier

/-- The truncation issues a statement for the entry. -/
def truncateChanges (keepChunks : ℕ) (entry : ℕ × SegmentEntry) : Bool :=
  segmentDropped keepChunks entry.1 ||
    decide (narrowedMask keepChunks entry.1 entry.2.mask ≠ entry.2.mask)

/-- The entries `truncate` issues a statement for, in its order. -/
def truncateStatements (segments : SegmentMap) (keepChunks : ℕ) :
    List (ℕ × SegmentEntry) :=
  segments.entries.filter (truncateChanges keepChunks)

/-- The object of the segment is the one the map points at. -/
def Referenced (segments : SegmentMap) (key : ℕ × ℕ) : Prop :=
  ∃ entry, segments.get? key.1 = some entry ∧ entry.gen = key.2

end PageTier

namespace FlushPoint

/-- The entries whose statement was executed. -/
def executed (statements : List (ℕ × SegmentEntry)) :
    FlushPoint → List (ℕ × SegmentEntry)
  | beforeTruncate => []
  | atStatement n => statements.take n
  | afterTruncate => statements

/-- The entries the loop got to: a dropped segment's key is queued before its
statement. -/
def visited (statements : List (ℕ × SegmentEntry)) :
    FlushPoint → List (ℕ × SegmentEntry)
  | beforeTruncate => []
  | atStatement n => statements.take (n + 1)
  | afterTruncate => statements

theorem executed_subset (statements : List (ℕ × SegmentEntry))
    (point : FlushPoint) : point.executed statements ⊆ statements := by
  cases point with
  | beforeTruncate => exact List.nil_subset _
  | atStatement n => exact List.take_subset _ _
  | afterTruncate => exact List.Subset.refl _

theorem visited_subset (statements : List (ℕ × SegmentEntry))
    (point : FlushPoint) : point.visited statements ⊆ statements := by
  cases point with
  | beforeTruncate => exact List.nil_subset _
  | atStatement n => exact List.take_subset _ _
  | afterTruncate => exact List.Subset.refl _

end FlushPoint

/-- The keys of dropped segments join the queue, which is a set. -/
def queueDropped (keepChunks : ℕ) (queue : List (ℕ × ℕ))
    (visited : List (ℕ × SegmentEntry)) : List (ℕ × ℕ) :=
  (visited.filter fun entry => segmentDropped keepChunks entry.1).foldl
    (fun queue entry =>
      let key := (entry.1, entry.2.gen)
      if key ∈ queue then queue else queue ++ [key]) queue

namespace DoVfs

variable {v : DoVfs}

/-- The pending truncation of a flush that is not idle. -/
def flushTruncates (v : DoVfs) : Option ℕ :=
  if v.flushIdle then none else v.file.truncateToPages.map chunkFloor

/-- A flush that throws at `point` and is rolled back, with the queue of
keys to delete. -/
def flushThrows (v : DoVfs) (queue : List (ℕ × ℕ)) (point : FlushPoint) :
    DoVfs × List (ℕ × ℕ) :=
  match v.flushTruncates with
  | none => (v.flushRollsBack fun _ => false, queue)
  | some keepChunks =>
      let statements := truncateStatements v.tier.segments keepChunks
      (v.flushRollsBack fun segno =>
          decide (segno ∈ (point.executed statements).map Prod.fst),
        queueDropped keepChunks queue (point.visited statements))

/-- The failed flush left the memory as storage has it, and the flush after
it commits what the failed one would have. -/
structure FailureAtomic (v : DoVfs) (queue : List (ℕ × ℕ))
    (point : FlushPoint) : Prop where
  storage : (v.flushThrows queue point).1.storage = v.storage
  segments : (v.flushThrows queue point).1.InSync
  maxGen : (v.flushThrows queue point).1.tier.maxGen = v.tier.maxGen
  deletes : ∀ key ∈ (v.flushThrows queue point).2,
    ¬ Referenced (v.flushThrows queue point).1.storage.tier.segments key
  retry : (v.flushThrows queue point).1.flush.storage = v.flush.storage

/-- When the transaction throws, the tier was not truncated: nothing is
executed of it, and no key is queued. -/
def ThrowsEarly (v : DoVfs) (point : FlushPoint) : Prop :=
  ∀ keepChunks ∈ v.flushTruncates,
    point.executed (truncateStatements v.tier.segments keepChunks) = [] ∧
      ∀ entry ∈ point.visited (truncateStatements v.tier.segments keepChunks),
        segmentDropped keepChunks entry.1 = false

theorem flush_storage (h : v.flushIdle = false) :
    v.flush.storage = v.shadowed.commitFlush.storage := by
  rw [flush_of_busy h]
  exact (refreshWritten_sameStore v.shadowed.commitFlush
    (sortedDirty v.file)).storage

/-- What a flush commits is decided by storage, file and map. -/
theorem commitFlush_storage_congr {left right : DoVfs}
    (hstorage : left.storage = right.storage) (hfile : left.file = right.file)
    (htier : left.tier = right.tier) :
    left.commitFlush.storage = right.commitFlush.storage := by
  unfold commitFlush
  rw [hstorage, hfile, htier]
  cases right.file.truncateToPages with
  | none => rfl
  | some keepPages => rfl

theorem flushIdle_congr {left right : DoVfs} (h : left.file = right.file) :
    left.flushIdle = right.flushIdle := by
  unfold flushIdle
  rw [h]

theorem flush_storage_congr {left right : DoVfs}
    (hstorage : left.storage = right.storage) (hfile : left.file = right.file)
    (htier : left.tier = right.tier) :
    left.flush.storage = right.flush.storage := by
  have hidle := flushIdle_congr hfile
  cases hright : right.flushIdle with
  | true =>
      rw [hright] at hidle
      simp [flush, hidle, hright, hstorage]
  | false =>
      rw [hright] at hidle
      rw [flush_storage hidle, flush_storage hright]
      apply commitFlush_storage_congr
      · rw [left.shadowed_tiers.1, right.shadowed_tiers.1, hstorage]
      · rw [shadowed_file, shadowed_file, hfile]
      · rw [left.shadowed_tiers.2, right.shadowed_tiers.2, htier]

theorem flushRollsBack_storage (v : DoVfs) (touched : ℕ → Bool) :
    (v.flushRollsBack touched).storage = v.storage ∧
      (v.flushRollsBack touched).file = v.file ∧
      (v.flushRollsBack touched).tier.maxGen = v.tier.maxGen := by
  unfold flushRollsBack
  split
  · exact ⟨rfl, rfl, rfl⟩
  · split
    · exact ⟨v.shadowed_tiers.1, v.shadowed_file, by rw [v.shadowed_tiers.2]⟩
    · exact ⟨v.shadowed_tiers.1, v.shadowed_file, rfl⟩

theorem flushThrows_kept (v : DoVfs) (queue : List (ℕ × ℕ))
    (point : FlushPoint) :
    (v.flushThrows queue point).1.storage = v.storage ∧
      (v.flushThrows queue point).1.file = v.file ∧
      (v.flushThrows queue point).1.tier.maxGen = v.tier.maxGen := by
  unfold flushThrows
  split
  · exact v.flushRollsBack_storage _
  · exact v.flushRollsBack_storage _

theorem flushThrows_of_none (h : v.flushTruncates = none)
    (queue : List (ℕ × ℕ)) (point : FlushPoint) :
    (v.flushThrows queue point).1.tier = v.tier ∧
      (v.flushThrows queue point).2 = queue := by
  unfold flushThrows
  rw [h]
  refine ⟨?_, rfl⟩
  unfold flushRollsBack
  cases hidle : v.flushIdle with
  | true => rfl
  | false =>
      have hnone : v.file.truncateToPages = none := by
        simpa [flushTruncates, hidle] using h
      rw [hnone]
      exact v.shadowed_tiers.2

variable {keepChunks : ℕ}

theorem flushThrows_of_some
    (h : v.flushTruncates = some keepChunks) (queue : List (ℕ × ℕ))
    (point : FlushPoint) :
    (v.flushThrows queue point).1.tier.segments =
        truncateTouched (fun segno => decide (segno ∈ (point.executed
          (truncateStatements v.tier.segments keepChunks)).map Prod.fst))
          v.tier.segments keepChunks ∧
      (v.flushThrows queue point).2 = queueDropped keepChunks queue
        (point.visited (truncateStatements v.tier.segments keepChunks)) := by
  rcases Option.ite_none_left_eq_some.mp h with ⟨hidle, hmap⟩
  rcases Option.map_eq_some_iff.mp hmap with ⟨keepPages, hpages, rfl⟩
  unfold flushThrows
  rw [h]
  refine ⟨?_, rfl⟩
  dsimp only
  unfold flushRollsBack
  rw [if_neg hidle, hpages]

variable {queue : List (ℕ × ℕ)}

theorem mem_addKey {added key : ℕ × ℕ} :
    key ∈ (if added ∈ queue then queue else queue ++ [added]) ↔
      key ∈ queue ∨ added = key := by
  split
  · rename_i hmem
    constructor
    · exact .inl
    · rintro (hold | rfl)
      · exact hold
      · exact hmem
  · rw [List.mem_append, List.mem_singleton, eq_comm (a := key)]

theorem mem_queueDropped {visited : List (ℕ × SegmentEntry)} {key : ℕ × ℕ} :
    key ∈ queueDropped keepChunks queue visited ↔
      key ∈ queue ∨ ∃ entry ∈ visited,
        segmentDropped keepChunks entry.1 = true ∧
          (entry.1, entry.2.gen) = key := by
  unfold queueDropped
  induction visited generalizing queue with
  | nil => simp
  | cons entry rest ih =>
      cases hdropped : segmentDropped keepChunks entry.1 with
      | false =>
          rw [List.filter_cons, if_neg (by simp [hdropped]), ih]
          simp [hdropped]
      | true =>
          rw [List.filter_cons, if_pos hdropped, List.foldl_cons, ih]
          rw [mem_addKey]
          simp only [List.mem_cons, exists_eq_or_imp, hdropped, true_and,
            or_assoc]

/-- A truncation that touched nothing leaves the map. -/
theorem truncateTouched_none (segments : SegmentMap) (keepChunks : ℕ) :
    truncateTouched (fun _ => false) segments keepChunks = segments := by
  cases segments with
  | mk entries hnodup =>
      simp [truncateTouched, OrderedMap.filter, OrderedMap.mapValues]

variable {entry : ℕ × SegmentEntry}

/-- An executed statement changed what the map answers. -/
theorem get?_truncateTouched_ne {segments : SegmentMap} {touched : ℕ → Bool}
    (hmem : entry ∈ truncateStatements segments keepChunks)
    (htouched : touched entry.1 = true) :
    (truncateTouched touched segments keepChunks).get? entry.1 ≠
      segments.get? entry.1 := by
  rcases List.mem_filter.mp hmem with ⟨hentry, hchanges⟩
  have hget : segments.get? entry.1 = some entry.2 :=
    OrderedMap.mem_entries_iff.mp hentry
  rw [get?_truncateTouched, htouched, hget, if_pos rfl]
  cases hdropped : segmentDropped keepChunks entry.1 with
  | true => simp
  | false =>
      have hmask : narrowedMask keepChunks entry.1 entry.2.mask ≠
          entry.2.mask := by
        simpa [truncateChanges, hdropped] using hchanges
      intro heq
      have hsame := Option.some.inj heq
      exact hmask (congrArg SegmentEntry.mask hsame)

theorem ThrowsEarly.atomic {point : FlushPoint}
    (h : v.ThrowsEarly point) (hsync : v.InSync)
    (hqueue : ∀ key ∈ queue, ¬ Referenced v.storage.tier.segments key) :
    v.FailureAtomic queue point := by
  rcases v.flushThrows_kept queue point with ⟨hstorage, hfile, hmaxGen⟩
  have hboth : (v.flushThrows queue point).1.tier.segments =
      v.tier.segments ∧ ∀ key ∈ (v.flushThrows queue point).2,
        key ∈ queue := by
    cases htruncates : v.flushTruncates with
    | none =>
        rcases flushThrows_of_none htruncates queue point with ⟨htier, hsame⟩
        exact ⟨congrArg TierFile.segments htier,
          fun key hkey => hsame ▸ hkey⟩
    | some keepChunks =>
        rcases h keepChunks htruncates with ⟨hexecuted, hvisited⟩
        rcases flushThrows_of_some htruncates queue point with
          ⟨hsegments, hdeletes⟩
        constructor
        · rw [hsegments, hexecuted]
          simpa using truncateTouched_none v.tier.segments keepChunks
        · intro key hkey
          rw [hdeletes, mem_queueDropped] at hkey
          rcases hkey with hold | ⟨entry, hentry, hdropped, -⟩
          · exact hold
          · rw [hvisited entry hentry] at hdropped
            cases hdropped
  have htier : (v.flushThrows queue point).1.tier = v.tier := by
    rw [TierFile.mk.injEq]
    exact ⟨hboth.1, hmaxGen⟩
  constructor
  · exact hstorage
  · intro segno
    rw [hstorage, htier]
    exact hsync segno
  · exact hmaxGen
  · intro key hkey
    rw [hstorage]
    exact hqueue key (hboth.2 key hkey)
  · exact flush_storage_congr hstorage hfile htier

/-- An executed statement leaves the map behind the rolled-back rows. -/
theorem executed_not_inSync {point : FlushPoint}
    (htruncates : v.flushTruncates = some keepChunks)
    (hexecuted : entry ∈ point.executed
      (truncateStatements v.tier.segments keepChunks))
    (hsync : v.InSync) :
    ¬ (v.flushThrows queue point).1.InSync := by
  intro hafter
  have hchanged := hafter entry.1
  rw [(v.flushThrows_kept queue point).1, hsync entry.1,
    (flushThrows_of_some htruncates queue point).1] at hchanged
  refine get?_truncateTouched_ne (point.executed_subset _ hexecuted) ?_
    hchanged.symm
  exact decide_eq_true (List.mem_map_of_mem hexecuted)

/-- A visited segment that is dropped has its key queued, and its row is
still there. -/
theorem visited_referenced {point : FlushPoint}
    (htruncates : v.flushTruncates = some keepChunks)
    (hvisited : entry ∈ point.visited
      (truncateStatements v.tier.segments keepChunks))
    (hdropped : segmentDropped keepChunks entry.1 = true)
    (hsync : v.InSync) :
    ∃ key ∈ (v.flushThrows queue point).2,
      Referenced (v.flushThrows queue point).1.storage.tier.segments key := by
  refine ⟨(entry.1, entry.2.gen), ?_, entry.2, ?_, rfl⟩
  · rw [(flushThrows_of_some htruncates queue point).2, mem_queueDropped]
    exact .inr ⟨entry, hvisited, hdropped, rfl⟩
  · rw [(v.flushThrows_kept queue point).1, hsync]
    exact OrderedMap.mem_entries_iff.mp
      (List.mem_of_mem_filter (point.visited_subset _ hvisited))

/-- A failed flush is atomic exactly when it throws before it changes the
tier. -/
theorem failureAtomic_iff_throwsEarly (v : DoVfs) (queue : List (ℕ × ℕ))
    (point : FlushPoint) (hsync : v.InSync)
    (hqueue : ∀ key ∈ queue, ¬ Referenced v.storage.tier.segments key) :
    v.FailureAtomic queue point ↔ v.ThrowsEarly point := by
  constructor
  · intro hatomic keepChunks htruncates
    have htruncates := Option.mem_def.mp htruncates
    constructor
    · rw [List.eq_nil_iff_forall_not_mem]
      exact fun entry hentry =>
        executed_not_inSync htruncates hentry hsync hatomic.segments
    · intro entry hentry
      by_contra hdropped
      rw [Bool.not_eq_false] at hdropped
      rcases visited_referenced htruncates hentry hdropped hsync with
        ⟨key, hkey, hreferenced⟩
      exact hatomic.deletes key hkey hreferenced
  · exact fun hearly => hearly.atomic hsync hqueue

/-- A file of 32 chunks whose second segment is in R2. -/
def tieredFile : DoVfs := opened
    { size := 32 * chunkSize
      gen := 0
      rows := fun chunkno =>
        if chunkno < 16 then some ⟨zeroBytes, fullMask⟩ else none
      tier := ⟨OrderedMap.empty.set 1 ⟨1, fullMask⟩, some 1⟩ }
    (fun _ _ => some zeroBytes) false 128 0

/-- The file cut to its first segment. -/
def truncatedFile : DoVfs := (tieredFile.xTruncate (16 * chunkSize)).2

theorem truncatedFile_statements : truncatedFile.flushTruncates = some 16 ∧
      truncateStatements truncatedFile.tier.segments 16 =
        [(1, ⟨1, fullMask⟩)] := by
  decide +kernel

theorem truncatedFile_inSync : truncatedFile.InSync := fun _ => rfl

theorem failureAtomic_beforeTruncate :
    truncatedFile.FailureAtomic [] .beforeTruncate :=
  (failureAtomic_iff_throwsEarly truncatedFile [] .beforeTruncate
    truncatedFile_inSync nofun).mpr fun _ _ => ⟨rfl, nofun⟩

theorem not_failureAtomic_afterTruncate :
    ¬ ∀ (v : DoVfs) (queue : List (ℕ × ℕ)) (point : FlushPoint), v.InSync →
      (∀ key ∈ queue, ¬ Referenced v.storage.tier.segments key) →
        v.FailureAtomic queue point := by
  intro hclaim
  rcases truncatedFile_statements with ⟨htruncates, hstatements⟩
  have hatomic := hclaim truncatedFile [] .afterTruncate truncatedFile_inSync
    nofun
  have hexecuted : ((1, ⟨1, fullMask⟩) : ℕ × SegmentEntry) ∈
      FlushPoint.afterTruncate.executed
        (truncateStatements truncatedFile.tier.segments 16) := by
    rw [hstatements]
    exact List.mem_cons_self
  exact executed_not_inSync htruncates hexecuted truncatedFile_inSync
    hatomic.segments

end DoVfs
end QiForge
