import QiForge.StreamStaging

/-!
# A streamed import replaces the file or leaves it

Completed, a streamed import leaves what the whole-file import of the same
bytes leaves; failed or cut off, it leaves the file as it was.  What it leaves
of its own is the staging file: the rows of a batch that was stored before the
object stopped have no entry in `vfs2_files`, where the next start looks for
leftovers.
-/

namespace QiForge
namespace StreamImport

open PageTier

namespace TierState

variable (t : TierState) {file other : String}

theorem dropFile_rows_self : (t.dropFile file).rows file =
      { t.rows file with segments := OrderedMap.empty } :=
  Function.update_self _ _ _

theorem dropFile_memory_self : (t.dropFile file).memory file =
      { t.memory file with segments := OrderedMap.empty } :=
  Function.update_self _ _ _

theorem dropFile_rows_of_ne (hne : other ≠ file) :
    (t.dropFile file).rows other = t.rows other :=
  Function.update_of_ne hne _ _

theorem dropFile_memory_of_ne (hne : other ≠ file) :
    (t.dropFile file).memory other = t.memory other :=
  Function.update_of_ne hne _ _

/-- The map of one file. -/
def mapOf (file : String) : TierRows × TierFile := (t.rows file, t.memory file)

theorem mapOf_dropFile_of_ne (hne : other ≠ file) :
    (t.dropFile file).mapOf other = t.mapOf other := by
  rw [mapOf, mapOf, dropFile_rows_of_ne t hne, dropFile_memory_of_ne t hne]

theorem mapOf_dropFile_congr {t' : TierState}
    (hsame : t'.mapOf file = t.mapOf file) :
    (t'.dropFile file).mapOf file = (t.dropFile file).mapOf file := by
  have hrows : t'.rows file = t.rows file := congrArg Prod.fst hsame
  have hmemory : t'.memory file = t.memory file := congrArg Prod.snd hsame
  simp only [mapOf, dropFile_rows_self, dropFile_memory_self, hrows, hmemory]

end TierState

namespace Vfs

variable {v w : Vfs} {name other : String}

/-! ## What is stored for one file -/

structure SameFile (v w : Vfs) (name : String) : Prop where
  chunks : w.chunks name = v.chunks name
  file : w.files.get? name = v.files.get? name
  tier : w.tier.map (TierState.mapOf · name) =
    v.tier.map (TierState.mapOf · name)

theorem SameFile.refl (v : Vfs) (name : String) : SameFile v v name :=
  ⟨rfl, rfl, rfl⟩

theorem SameFile.trans {u : Vfs} (h : SameFile u v name)
    (h' : SameFile v w name) : SameFile u w name :=
  ⟨h'.chunks.trans h.chunks, h'.file.trans h.file, h'.tier.trans h.tier⟩

theorem sameFile_dropRows (v : Vfs) (hne : name ≠ other) :
    SameFile v (v.dropRows other) name := by
  constructor
  · exact Function.update_of_ne hne _ _
  · simp only [dropRows, OrderedMap.get?_delete]
    rw [if_neg hne]
  · cases htier : v.tier with
    | none => simp [dropRows, htier]
    | some t => simp [dropRows, htier, t.mapOf_dropFile_of_ne hne]

theorem sameFile_stage (v : Vfs) {staging : String} (hne : name ≠ staging)
    (bytes : List UInt8) (count : ℕ) :
    SameFile v (v.stage staging bytes count) name :=
  ⟨Function.update_of_ne hne _ _, rfl, rfl⟩

@[simp] theorem dropRows_chunks_self (v : Vfs) (name : String) :
    (v.dropRows name).chunks name = fun _ => none :=
  Function.update_self _ _ _

theorem dropRows_files_self (v : Vfs) (name : String) :
    (v.dropRows name).files.get? name = none := by
  rw [dropRows, OrderedMap.get?_delete, if_pos rfl]

@[simp] theorem dropRows_snapshots (v : Vfs) (name : String) :
    (v.dropRows name).snapshots = v.snapshots := rfl

/-! ## Leftovers -/

theorem sameFile_foldl_dropRows {names : List String}
    (hnot : name ∉ names) (v : Vfs) :
    SameFile v (names.foldl dropRows v) name := by
  induction names generalizing v with
  | nil => exact SameFile.refl v name
  | cons first rest ih =>
      rw [List.mem_cons, not_or] at hnot
      exact (sameFile_dropRows v hnot.1).trans (ih hnot.2 _)

/-- What is dropped once stays dropped. -/
theorem foldl_dropRows_dropped {names : List String} (v : Vfs)
    (hdropped : name ∈ names ∨
      v.chunks name = (fun _ => none) ∧ v.files.get? name = none) :
    (names.foldl dropRows v).chunks name = (fun _ => none) ∧
      (names.foldl dropRows v).files.get? name = none := by
  induction names generalizing v with
  | nil => simpa using hdropped
  | cons first rest ih =>
      apply ih
      by_cases hfirst : name = first
      · subst hfirst
        exact Or.inr ⟨dropRows_chunks_self v name, dropRows_files_self v name⟩
      · have hsame := sameFile_dropRows v hfirst
        rcases hdropped with hmem | ⟨hchunks, hfile⟩
        · rw [List.mem_cons] at hmem
          exact Or.inl (hmem.resolve_left hfirst)
        · exact Or.inr ⟨hsame.chunks.trans hchunks, hsame.file.trans hfile⟩

theorem mem_leftovers : name ∈ v.files.keys.filter isLeftover ↔
      isLeftover name = true ∧ v.files.get? name ≠ none := by
  rw [List.mem_filter, OrderedMap.mem_keys_iff, and_comm]
  cases hfile : v.files.get? name with
  | none => simp
  | some row => simp

/-- Making the schema ready leaves the file alone. -/
def KeptBySchema (v : Vfs) (name : String) : Prop :=
  v.schemaReady = true ∨ isLeftover name = false ∨ v.files.get? name = none

theorem ensureSchema_cases (v : Vfs) (name : String) :
    (KeptBySchema v name ∧ SameFile v v.ensureSchema name) ∨
    (¬KeptBySchema v name ∧ v.ensureSchema.chunks name = (fun _ => none) ∧
      v.ensureSchema.files.get? name = none) := by
  rw [ensureSchema]
  split_ifs with hready
  · exact Or.inl ⟨Or.inl hready, SameFile.refl v name⟩
  · by_cases hmem : name ∈ v.files.keys.filter isLeftover
    · have hleft := mem_leftovers.mp hmem
      refine Or.inr ⟨?_, foldl_dropRows_dropped v (Or.inl hmem)⟩
      rintro (h | h | h)
      · exact hready h
      · rw [hleft.1] at h
        exact absurd h (by simp)
      · exact hleft.2 h
    · have hsame := sameFile_foldl_dropRows hmem v
      refine Or.inl ⟨Or.inr ?_, { hsame with }⟩
      rw [mem_leftovers, not_and_or, not_not] at hmem
      exact hmem.imp_left Bool.eq_false_iff.mpr

theorem sameFile_ensureSchema_iff :
    SameFile v v.ensureSchema name ↔ KeptBySchema v name := by
  rcases v.ensureSchema_cases name with ⟨hkept, hsame⟩ | ⟨hnot, -, hfile⟩
  · exact ⟨fun _ => hkept, fun _ => hsame⟩
  · refine ⟨fun hsame => absurd ?_ hnot, fun hkept => absurd hkept hnot⟩
    exact Or.inr (Or.inr (hsame.file.symm.trans hfile))

theorem foldl_dropRows_snapshots (names : List String) (v : Vfs) :
    (names.foldl dropRows v).snapshots = v.snapshots := by
  induction names generalizing v with
  | nil => rfl
  | cons first rest ih => exact ih _

@[simp] theorem ensureSchema_snapshots (v : Vfs) :
    v.ensureSchema.snapshots = v.snapshots := by
  rw [ensureSchema]
  split_ifs
  · rfl
  · exact foldl_dropRows_snapshots _ v

/-! ## The staging file -/

theorem isLeftover_stagingOf (name : String) :
    isLeftover (stagingOf name) = true := by
  rw [isLeftover, stagingOf, String.toList_append, Bool.or_eq_true]
  exact Or.inl (List.isSuffixOf_iff_suffix.mpr (List.suffix_append _ _))

theorem ne_stagingOf (name : String) : name ≠ stagingOf name := by
  intro heq
  have hlength := congrArg (fun s => s.toList.length) heq
  simp [stagingOf, importFileSuffix] at hlength

def NoStagingRow (v : Vfs) (name : String) : Prop :=
  v.chunks (stagingOf name) = fun _ => none

/-- Rows of the staging file are listed in `vfs2_files`, where the next
start finds them. -/
def StagingListed (v : Vfs) (name : String) : Prop :=
  v.NoStagingRow name ∨ v.files.get? (stagingOf name) ≠ none

theorem noStagingRow_restart_iff :
    v.restart.ensureSchema.NoStagingRow name ↔ v.StagingListed name := by
  rcases v.restart.ensureSchema_cases (stagingOf name) with
    ⟨hkept, hsame⟩ | ⟨hnot, hchunks, -⟩
  · have hfile : v.files.get? (stagingOf name) = none := by
      rcases hkept with h | h | h
      · exact absurd h (by simp [restart])
      · rw [isLeftover_stagingOf] at h
        exact absurd h (by simp)
      · exact h
    rw [StagingListed, NoStagingRow, hsame.chunks]
    simp [hfile, NoStagingRow, restart]
  · refine ⟨fun _ => Or.inr fun hfile => hnot ?_, fun _ => hchunks⟩
    exact Or.inr (Or.inr hfile)

/-- The tables hold no staging row once the schema is ready. -/
def StagingCleared (v : Vfs) (name : String) : Prop := v.NoStagingRow name ∨
    v.schemaReady = false ∧ v.files.get? (stagingOf name) ≠ none

theorem noStagingRow_ensureSchema_iff :
    v.ensureSchema.NoStagingRow name ↔ v.StagingCleared name := by
  rcases v.ensureSchema_cases (stagingOf name) with
    ⟨hkept, hsame⟩ | ⟨hnot, hchunks, -⟩
  · rw [NoStagingRow, hsame.chunks, StagingCleared, NoStagingRow]
    refine ⟨Or.inl, fun h => h.elim id fun hlisted => ?_⟩
    rcases hkept with h | h | h
    · rw [hlisted.1] at h
      exact absurd h (by simp)
    · rw [isLeftover_stagingOf] at h
      exact absurd h (by simp)
    · exact absurd h hlisted.2
  · refine ⟨fun _ => Or.inr ⟨?_, fun hfile => hnot ?_⟩, fun _ => hchunks⟩
    · exact Bool.eq_false_iff.mpr fun h => hnot (Or.inl h)
    · exact Or.inr (Or.inr hfile)

theorem stagingListed_ensureSchema_iff :
    v.ensureSchema.StagingListed name ↔ v.StagingListed name := by
  rcases v.ensureSchema_cases (stagingOf name) with
    ⟨hkept, hsame⟩ | ⟨hnot, hchunks, -⟩
  · rw [StagingListed, NoStagingRow, hsame.chunks, hsame.file,
      StagingListed, NoStagingRow]
  · refine ⟨fun _ => Or.inr fun hfile => hnot ?_, fun _ => Or.inl hchunks⟩
    exact Or.inr (Or.inr hfile)

/-! ## How an import ends -/

section Stream

variable {u : Vfs} {chunks : List (List UInt8)}

theorem abandon_eq {message : String} (hfree : stagingOf name ∉ w.snapshots) :
    w.abandon (stagingOf name) message =
      (w.dropRows (stagingOf name), .error message) := by
  rw [abandon, deletePersistent, if_neg hfree]

/-- The loop over a stream, from a cleared staging file. -/
theorem foldlM_start (chunks : List (List UInt8))
    (hclear : u.NoStagingRow name) :
    chunks.foldlM (Import.feed (stagingOf name)) (Import.start u) =
      if Import.Refused chunks.flatten then .error (u, badHeader)
      else .ok (Import.readTo u (stagingOf name) chunks.flatten) := by
  rw [Import.start_eq_readTo hclear, Import.foldlM_feed hclear chunks]
  · rfl
  · rintro ⟨hlong, -⟩
    exact absurd hlong (by decide)

theorem Refused.rejects {bytes : List UInt8}
    (h : Import.Refused bytes) : rejects bytes = true :=
  h.2

theorem readStream_refused (hclear : u.NoStagingRow name)
    (hfree : stagingOf name ∉ u.snapshots)
    (hbad : Import.Refused chunks.flatten) (ending : Ending) :
    u.readStream name chunks ending =
      (u.dropRows (stagingOf name), some (.error badHeader)) := by
  have hloop := foldlM_start chunks hclear
  rw [if_pos hbad] at hloop
  cases ending with
  | done => simp only [readStream, hloop, abandon_eq hfree]
  | error message => simp only [readStream, hloop, abandon_eq hfree]
  | crash point =>
      cases point <;> simp only [readStream, hloop, abandon_eq hfree]

theorem readStream_done (hclear : u.NoStagingRow name)
    (hfree : stagingOf name ∉ u.snapshots) :
    u.readStream name chunks .done =
      if rejects chunks.flatten then
        (u.dropRows (stagingOf name), some (.error badHeader))
      else
        ((u.stage (stagingOf name) chunks.flatten
            (chunksOf chunks.flatten.length)).swapIn
              name (stagingOf name) chunks.flatten.length,
          some (.ok chunks.flatten.length)) := by
  by_cases hbad : Import.Refused chunks.flatten
  · rw [readStream_refused hclear hfree hbad, if_pos hbad.2]
  have hloop := foldlM_start chunks hclear
  rw [if_neg hbad] at hloop
  rcases Import.finish_readTo hclear hbad with
    ⟨hrejects, hfinish⟩ | ⟨hrejects, s, hfinish, hvfs, htotal⟩
  · simp only [readStream, hloop, hfinish, abandon_eq hfree, hrejects, if_true]
  · simp only [readStream, hloop, hfinish, hrejects, hvfs, htotal]
    rfl

theorem readStream_swapping (hclear : u.NoStagingRow name)
    (hfree : stagingOf name ∉ u.snapshots) :
    u.readStream name chunks (.crash .swapping) =
      if rejects chunks.flatten then
        (u.dropRows (stagingOf name), some (.error badHeader))
      else
        (u.stage (stagingOf name) chunks.flatten
          (chunksOf chunks.flatten.length), none) := by
  by_cases hbad : Import.Refused chunks.flatten
  · rw [readStream_refused hclear hfree hbad, if_pos hbad.2]
  have hloop := foldlM_start chunks hclear
  rw [if_neg hbad] at hloop
  rcases Import.finish_readTo hclear hbad with
    ⟨hrejects, hfinish⟩ | ⟨hrejects, s, hfinish, hvfs, -⟩
  · simp only [readStream, hloop, hfinish, abandon_eq hfree, hrejects, if_true]
  · simp only [readStream, hloop, hfinish, hrejects, hvfs]
    rfl

theorem readStream_reading (hclear : u.NoStagingRow name)
    (hfree : stagingOf name ∉ u.snapshots) :
    u.readStream name chunks (.crash .reading) =
      if Import.Refused chunks.flatten then
        (u.dropRows (stagingOf name), some (.error badHeader))
      else
        (u.stage (stagingOf name) chunks.flatten
          (chunksStored chunks.flatten), none) := by
  split_ifs with hbad
  · exact readStream_refused hclear hfree hbad _
  have hloop := foldlM_start chunks hclear
  rw [if_neg hbad] at hloop
  simp only [readStream, hloop]
  rfl

/-- A stream that fails leaves the file and no staging row. -/
theorem readStream_error (chunks : List (List UInt8))
    (hclear : u.NoStagingRow name)
    (hfree : stagingOf name ∉ u.snapshots) (message : String) :
    ∃ w outcome, u.readStream name chunks (.error message) =
        (w.dropRows (stagingOf name), some (.error outcome)) ∧
      SameFile u w name := by
  by_cases hbad : Import.Refused chunks.flatten
  · exact ⟨u, badHeader, readStream_refused hclear hfree hbad _,
      SameFile.refl u name⟩
  have hloop := foldlM_start chunks hclear
  rw [if_neg hbad] at hloop
  refine ⟨u.stage (stagingOf name) chunks.flatten
    (chunksStored chunks.flatten), message, ?_, ?_⟩
  · simp only [readStream, hloop]
    have habandon :
        (Import.readTo u (stagingOf name) chunks.flatten).vfs.abandon
            (stagingOf name) message =
          ((u.stage (stagingOf name) chunks.flatten
            (chunksStored chunks.flatten)).dropRows (stagingOf name),
            .error message) :=
      abandon_eq hfree
    rw [habandon]
  · exact sameFile_stage u (ne_stagingOf name) _ _

end Stream

theorem noStagingRow_stage_iff (v : Vfs) (name : String)
    (bytes : List UInt8) (count : ℕ) :
    (v.stage (stagingOf name) bytes count).NoStagingRow name ↔ count = 0 := by
  simp only [NoStagingRow, stage, Function.update_self]
  constructor
  · intro hnone
    by_contra hpos
    have hfirst := congrFun hnone 0
    rw [if_pos (Nat.pos_of_ne_zero hpos)] at hfirst
    exact absurd hfirst (by simp)
  · intro hzero
    subst hzero
    funext i
    simp

theorem chunksStored_eq_zero_iff (bytes : List UInt8) :
    chunksStored bytes = 0 ↔ bytes.length < flushBatchRows * chunkSize := by
  rw [← Nat.div_lt_iff_lt_mul chunkSize_pos, chunksStored, chunksRead]
  simp only [flushBatchRows]
  omega

theorem chunksOf_eq_zero_iff (bytes : List UInt8) :
    chunksOf bytes.length = 0 ↔ bytes = [] := by
  rw [← List.length_eq_zero_iff, chunksOf, ceilDiv, Nat.div_eq_zero_iff]
  have hpos := chunkSize_pos
  omega

/-- The swapped-in rows are those the whole-file import writes. -/
theorem sameFile_swapIn (v : Vfs) (name : String) (bytes : List UInt8) :
    SameFile (v.replaceFile name (normalizeJournalModeHeader bytes))
      (((v.dropRows (stagingOf name)).stage (stagingOf name) bytes
        (chunksOf bytes.length)).swapIn name (stagingOf name) bytes.length)
      name := by
  have hne := ne_stagingOf name
  constructor
  · simp only [swapIn, setSize, stage, replaceFile, upsert,
      Function.update_self, Function.update_of_ne hne, importRows,
      fullRow_cut_normalize, length_normalizeJournalModeHeader,
      List.range_eq_range', upsertChunks_range]
    simp
  · have hgen := (sameFile_dropRows v hne).file
    simp only [swapIn, setSize, stage, replaceFile, upsert,
      OrderedMap.get?_delete, OrderedMap.get?_set,
      length_normalizeJournalModeHeader, if_true, hgen]
    rw [if_neg hne]
  · cases htier : v.tier with
    | none => simp [swapIn, setSize, stage, replaceFile, upsert, dropRows,
        htier]
    | some t =>
        have hsame := TierState.mapOf_dropFile_congr t
          (t.mapOf_dropFile_of_ne hne)
        simp [swapIn, setSize, stage, replaceFile, upsert, dropRows, htier,
          hsame]

/-! ## The import as a whole -/

def Completed (result : Vfs × Option (Except String ℕ)) : Prop :=
  ∃ size, result.2 = some (.ok size)

/-- What an import is to leave, by how its stream ends. -/
def ImportContract (v : Vfs) (name : String) (chunks : List (List UInt8))
    (ending : Ending) : Prop :=
  let result := v.importFromStream name chunks ending
  let whole := v.importFile name chunks.flatten
  match v.assertImportable name with
  | .error message =>
      result = (v, some (.error message)) ∧ whole = (v, .error message)
  | .ok () =>
      match ending with
      | .done =>
          (Completed result ↔ whole.2 = .ok ()) ∧
            (Completed result → SameFile whole.1 result.1 name) ∧
            (¬Completed result →
              SameFile v result.1 name ∧ result.1.NoStagingRow name)
      | .error _ =>
          ¬Completed result ∧
            SameFile v result.1 name ∧ result.1.NoStagingRow name
      | .crash _ =>
          ¬Completed result ∧ SameFile v result.1 name ∧
            result.1.restart.ensureSchema.NoStagingRow name

/-- What a stop of the object may have met: no batch stored and not the
remaining rows either. -/
def NothingStaged (bytes : List UInt8) : CrashPoint → Prop
  | .clearing => True
  | .reading =>
      bytes.length < flushBatchRows * chunkSize ∨ rejects bytes = true
  | .swapping => bytes = [] ∨ rejects bytes = true

/-- The inputs on which a streamed import does what it is to do. -/
def ImportCondition (v : Vfs) (name : String) (chunks : List (List UInt8))
    (ending : Ending) : Prop :=
  let bytes := chunks.flatten
  match v.assertImportable name with
  | .error _ => True
  | .ok () =>
      if stagingOf name ∈ v.snapshots then
        v.KeptBySchema name ∧
          match ending with
          | .done => rejects bytes = true ∧ v.StagingCleared name
          | .error _ => v.StagingCleared name
          | .crash _ => v.StagingListed name
      else
        match ending with
        | .done => rejects bytes = true → v.KeptBySchema name
        | .error _ => v.KeptBySchema name
        | .crash .clearing => v.KeptBySchema name ∧ v.StagingListed name
        | .crash point => v.KeptBySchema name ∧ NothingStaged bytes point

theorem importFile_eq (himport : v.assertImportable name = .ok ())
    (bytes : List UInt8) :
    v.importFile name bytes =
      if rejects bytes then (v, .error badHeader)
      else
        (v.ensureSchema.replaceFile name
          (normalizeJournalModeHeader bytes), .ok ()) := by
  rw [importFile, himport]
  rfl

theorem not_completed_none (w : Vfs) :
    ¬Completed (w, (none : Option (Except String ℕ))) := by
  rintro ⟨size, hsize⟩
  exact absurd hsize (by simp)

theorem not_completed_error (w : Vfs) (message : String) :
    ¬Completed (w, some (.error message)) := by
  rintro ⟨size, hsize⟩
  exact absurd hsize (by simp)

theorem completed_ok (w : Vfs) (size : ℕ) : Completed (w, some (.ok size)) :=
  ⟨size, rfl⟩

/-- Whether the file is as before is decided by the schema alone, as long as
the import only touches the staging file. -/
theorem sameFile_iff_kept {u : Vfs} (hsame : SameFile v.ensureSchema u name) :
    SameFile v u name ↔ v.KeptBySchema name := by
  rw [← sameFile_ensureSchema_iff]
  constructor
  · intro h
    exact ⟨hsame.chunks.symm.trans h.chunks, hsame.file.symm.trans h.file,
        hsame.tier.symm.trans h.tier⟩
  · exact fun h => h.trans hsame

section Contract

variable {chunks : List (List UInt8)}

/-- The tables a stream starts on: schema ready, staging file cleared. -/
def cleared (v : Vfs) (name : String) : Vfs :=
  v.ensureSchema.dropRows (stagingOf name)

theorem cleared_noStagingRow (v : Vfs) (name : String) :
    (v.cleared name).NoStagingRow name :=
  dropRows_chunks_self _ _

theorem cleared_free (hfree : stagingOf name ∉ v.snapshots) :
    stagingOf name ∉ (v.cleared name).snapshots := by
  rw [cleared, dropRows_snapshots, ensureSchema_snapshots]
  exact hfree

theorem sameFile_cleared (v : Vfs) (name : String) :
    SameFile v.ensureSchema (v.cleared name) name :=
  sameFile_dropRows _ (ne_stagingOf name)

theorem sameFile_cleared_dropRows (v : Vfs) (name : String) :
    SameFile v.ensureSchema ((v.cleared name).dropRows (stagingOf name))
      name :=
  (sameFile_cleared v name).trans (sameFile_dropRows _ (ne_stagingOf name))

theorem dropRows_noStagingRow (w : Vfs) (name : String) :
    (w.dropRows (stagingOf name)).NoStagingRow name :=
  dropRows_chunks_self _ _

theorem cleared_stage_listed_iff (v : Vfs) (name : String)
    (bytes : List UInt8) (count : ℕ) :
    ((v.cleared name).stage (stagingOf name) bytes count).StagingListed name ↔
      count = 0 := by
  have hfile : ((v.cleared name).stage (stagingOf name) bytes count).files.get?
      (stagingOf name) = none :=
    dropRows_files_self _ _
  rw [StagingListed, noStagingRow_stage_iff, hfile]
  simp

theorem importFromStream_eq (chunks : List (List UInt8))
    (ending : Ending) (himport : v.assertImportable name = .ok ())
    (hfree : stagingOf name ∉ v.snapshots)
    (hending : ending ≠ .crash .clearing) :
    v.importFromStream name chunks ending =
      (v.cleared name).readStream name chunks ending := by
  have hdelete : v.ensureSchema.deletePersistent (stagingOf name) =
      .ok (v.cleared name) := by
    rw [deletePersistent, ensureSchema_snapshots, if_neg hfree, cleared]
  cases ending with
  | done => simp only [importFromStream, himport, hdelete]
  | error message => simp only [importFromStream, himport, hdelete]
  | crash point =>
      cases point with
      | clearing => exact absurd rfl hending
      | reading => simp only [importFromStream, himport, hdelete]
      | swapping => simp only [importFromStream, himport, hdelete]

theorem importFromStream_clearing
    (himport : v.assertImportable name = .ok ()) :
    v.importFromStream name chunks (.crash .clearing) =
      (v.ensureSchema, none) := by
  simp only [importFromStream, himport]

/-- With a snapshot of the staging file open the import gives up before the
stream is read. -/
theorem importFromStream_blocked (chunks : List (List UInt8))
    (himport : v.assertImportable name = .ok ())
    (hblocked : stagingOf name ∈ v.snapshots) (ending : Ending) :
    ∃ outcome,
      v.importFromStream name chunks ending = (v.ensureSchema, outcome) ∧
        ¬Completed (v.ensureSchema, outcome) := by
  have hdelete : ∃ message,
      v.ensureSchema.deletePersistent (stagingOf name) = .error message := by
    rw [deletePersistent, ensureSchema_snapshots, if_pos hblocked]
    exact ⟨_, rfl⟩
  rcases hdelete with ⟨message, hdelete⟩
  cases ending with
  | done =>
      refine ⟨some (.error message), ?_, not_completed_error _ _⟩
      simp only [importFromStream, himport, hdelete]
  | error _ =>
      refine ⟨some (.error message), ?_, not_completed_error _ _⟩
      simp only [importFromStream, himport, hdelete]
  | crash point =>
      cases point with
      | clearing =>
          exact ⟨none, importFromStream_clearing himport, not_completed_none _⟩
      | reading =>
          refine ⟨some (.error message), ?_, not_completed_error _ _⟩
          simp only [importFromStream, himport, hdelete]
      | swapping =>
          refine ⟨some (.error message), ?_, not_completed_error _ _⟩
          simp only [importFromStream, himport, hdelete]

theorem contract_blocked_iff (himport : v.assertImportable name = .ok ())
    (hblocked : stagingOf name ∈ v.snapshots) (ending : Ending) :
    ImportContract v name chunks ending ↔
      ImportCondition v name chunks ending := by
  rcases importFromStream_blocked chunks himport hblocked ending
    with ⟨outcome, hresult, hnot⟩
  simp only [ImportContract, ImportCondition, himport, hresult,
    if_pos hblocked]
  cases ending with
  | done =>
      rw [importFile_eq himport]
      simp only [hnot, false_iff, false_implies, not_false_eq_true,
        true_implies, true_and, noStagingRow_ensureSchema_iff,
        sameFile_ensureSchema_iff]
      cases hrejects : rejects chunks.flatten with
      | true => simp
      | false => simp
  | error message =>
      simp only [hnot, not_false_eq_true, true_and,
        noStagingRow_ensureSchema_iff, sameFile_ensureSchema_iff]
  | crash point =>
      simp only [hnot, not_false_eq_true, true_and,
        noStagingRow_restart_iff, stagingListed_ensureSchema_iff,
        sameFile_ensureSchema_iff]

theorem contract_done_iff (himport : v.assertImportable name = .ok ())
    (hfree : stagingOf name ∉ v.snapshots) :
    ImportContract v name chunks .done ↔
      ImportCondition v name chunks .done := by
  have hresult := (importFromStream_eq chunks (.done)
    himport hfree nofun).trans
    (readStream_done (cleared_noStagingRow v name) (cleared_free hfree))
  simp only [ImportContract, ImportCondition, himport, hresult,
    importFile_eq himport, if_neg hfree]
  cases hrejects : rejects chunks.flatten with
  | true =>
      have hnot := not_completed_error
        ((v.cleared name).dropRows (stagingOf name)) badHeader
      have hsame := sameFile_iff_kept (sameFile_cleared_dropRows v name)
      simp [hnot, hsame, dropRows_noStagingRow]
  | false =>
      have hdone := completed_ok
        (((v.cleared name).stage (stagingOf name) chunks.flatten
          (chunksOf chunks.flatten.length)).swapIn name (stagingOf name)
            chunks.flatten.length) chunks.flatten.length
      have hsame := sameFile_swapIn v.ensureSchema name chunks.flatten
      simp only [Bool.false_eq_true, if_false, false_implies, iff_true]
      exact ⟨hdone, fun _ => hsame, fun hnot => absurd hdone hnot⟩

theorem contract_error_iff (himport : v.assertImportable name = .ok ())
    (hfree : stagingOf name ∉ v.snapshots) (message : String) :
    ImportContract v name chunks (.error message) ↔
      ImportCondition v name chunks (.error message) := by
  rcases readStream_error chunks
      (cleared_noStagingRow v name) (cleared_free hfree) message with
    ⟨w, outcome, hread, hw⟩
  have hresult := (importFromStream_eq chunks (.error message)
    himport hfree nofun).trans hread
  have hsame := sameFile_iff_kept ((sameFile_cleared v name).trans
      (hw.trans (sameFile_dropRows w (ne_stagingOf name))))
  simp only [ImportContract, ImportCondition, himport, hresult,
    if_neg hfree, not_completed_error, dropRows_noStagingRow, hsame]
  simp

theorem contract_crash_iff (himport : v.assertImportable name = .ok ())
    (hfree : stagingOf name ∉ v.snapshots) (point : CrashPoint) :
    ImportContract v name chunks (.crash point) ↔
      ImportCondition v name chunks (.crash point) := by
  have hdropped := sameFile_iff_kept (sameFile_cleared_dropRows v name)
  have hlisted :
      ((v.cleared name).dropRows (stagingOf name)).StagingListed name :=
    Or.inl (dropRows_noStagingRow _ _)
  have hstaged : ∀ count, SameFile v
        ((v.cleared name).stage (stagingOf name) chunks.flatten count)
          name ↔ v.KeptBySchema name := fun count =>
    sameFile_iff_kept ((sameFile_cleared v name).trans
        (sameFile_stage _ (ne_stagingOf name) _ _))
  cases point with
  | clearing =>
      simp only [ImportContract, ImportCondition, himport,
        importFromStream_clearing himport, if_neg hfree,
        not_completed_none, noStagingRow_restart_iff,
        stagingListed_ensureSchema_iff, sameFile_ensureSchema_iff,
        not_false_eq_true, true_and]
  | reading =>
      have hresult := (importFromStream_eq chunks (.crash .reading)
        himport hfree nofun).trans
        (readStream_reading (cleared_noStagingRow v name) (cleared_free hfree))
      simp only [ImportContract, ImportCondition, himport, hresult,
        if_neg hfree, NothingStaged, noStagingRow_restart_iff]
      by_cases hbad : Import.Refused chunks.flatten
      · have hrejects : rejects chunks.flatten = true := hbad.2
        simp only [if_pos hbad, not_completed_error, hdropped, hlisted,
          hrejects]
        simp
      · have hshort : chunks.flatten.length < flushBatchRows * chunkSize ∨
              rejects chunks.flatten = true ↔
            chunks.flatten.length < flushBatchRows * chunkSize := by
          constructor
          · rintro (h | h)
            · exact h
            · have hlt : chunks.flatten.length < chunkSize := by
                by_contra hlong
                exact hbad ⟨Nat.not_lt.mp hlong, h⟩
              exact lt_of_lt_of_le hlt (Nat.le_mul_of_pos_left _ (by decide))
          · exact Or.inl
        simp only [if_neg hbad, not_completed_none, hstaged,
          cleared_stage_listed_iff, chunksStored_eq_zero_iff, hshort]
        simp
  | swapping =>
      have hresult := (importFromStream_eq chunks (.crash .swapping)
        himport hfree nofun).trans
        (readStream_swapping (cleared_noStagingRow v name)
          (cleared_free hfree))
      simp only [ImportContract, ImportCondition, himport, hresult,
        if_neg hfree, NothingStaged, noStagingRow_restart_iff]
      cases hrejects : rejects chunks.flatten with
      | true =>
          simp only [if_true, not_completed_error, hdropped, hlisted]
          simp
      | false =>
          simp only [Bool.false_eq_true, if_false, not_completed_none,
            hstaged, cleared_stage_listed_iff, chunksOf_eq_zero_iff]
          simp

/-- A streamed import does what it is to do, however its stream is cut and
ends, exactly under the condition. -/
theorem importFromStream_contract_iff (v : Vfs) (name : String)
    (chunks : List (List UInt8)) (ending : Ending) :
    ImportContract v name chunks ending ↔
      ImportCondition v name chunks ending := by
  cases himport : v.assertImportable name with
  | error message =>
      simp [ImportContract, ImportCondition, importFromStream, importFile,
        himport]
  | ok =>
      by_cases hblocked : stagingOf name ∈ v.snapshots
      · exact contract_blocked_iff himport hblocked ending
      · cases ending with
        | done => exact contract_done_iff himport hblocked
        | error message => exact contract_error_iff himport hblocked message
        | crash point => exact contract_crash_iff himport hblocked point

/-- A database file's first batch: its header and zeros. -/
def firstBatch : List UInt8 := sqliteHeaderMagic ++
    List.replicate (flushBatchRows * chunkSize - sqliteHeaderMagic.length) 0

def emptyVfs : Vfs where
  files := OrderedMap.empty
  chunks := fun _ _ => none
  tier := none
  persistentByName := []
  snapshots := []
  schemaReady := true
  snapshotsReady := fun _ => rfl

theorem length_firstBatch :
    firstBatch.length = flushBatchRows * chunkSize := by
  rw [firstBatch, List.length_append, List.length_replicate]
  exact Nat.add_sub_cancel' (by decide)

theorem rejects_firstBatch : rejects firstBatch = false := by
  have hmagic : startsWith firstBatch = true :=
    List.isPrefixOf_iff_prefix.mpr (List.prefix_append _ _)
  rw [rejects, hmagic, Bool.not_true, Bool.and_false]

/-- The object stops while it waits for more than the first batch: the
staging file keeps its rows. -/
theorem not_importContract_firstBatch :
    ¬ImportContract emptyVfs "db" [firstBatch] (.crash .reading) := by
  rw [importFromStream_contract_iff]
  rintro ⟨-, hstaged⟩
  rw [List.flatten_singleton] at hstaged
  rcases hstaged with hshort | hrejects
  · rw [length_firstBatch] at hshort
    exact lt_irrefl _ hshort
  · rw [rejects_firstBatch] at hrejects
    exact absurd hrejects (by simp)

end Contract

end Vfs
end StreamImport
end QiForge
