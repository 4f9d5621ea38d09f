import QiForge.OwnerStoreUpload

/-!
# Moving the new file into place

From the end of the upload to the clean-up a save only moves its own files:
the previous one aside, the new one to the path, and the previous one back.
Every such move keeps the storage readable.
-/

namespace QiForge

namespace OwnerStorage

variable {path : VfsPath} {stamp : ℕ} {snapshots : List (List UInt8)}
  {returned : Option ℕ} {known : List VfsFile} {s : OwnerStorage}
  {file : VfsFile} {destinationPath : VfsPath}

section Moved

theorem mem_moved (h : s.Kept path stamp snapshots returned)
    (hfile : file ∈ s.files) {other : VfsFile} :
    other ∈ (s.moved file.id destinationPath).files ↔
      other ∈ s.files ∧ other.id ≠ file.id ∨
        other = { file with path := destinationPath } := by
  unfold moved
  rw [mem_change]
  constructor
  · rintro (hold | ⟨before, hbefore, hid, rfl⟩)
    · exact .inl hold
    · rw [h.eq_of_id hbefore hfile hid]
      exact .inr rfl
  · rintro (hold | rfl)
    · exact .inl hold
    · exact .inr ⟨file, hfile, rfl, rfl⟩

/-- A move that keeps the storage: to the path, of a file no copy is newer
than, or of the file at the path, aside. -/
theorem Kept.moved (h : s.Kept path stamp snapshots returned)
    (hfile : file ∈ s.files)
    (hfree : ∀ other ∈ s.files, other.path ≠ destinationPath)
    (hown : OwnName path file.path)
    (hdone : file.uploading = none ∧
      snapshots[file.writtenBy]? = some file.content)
    (hdestination : destinationPath = path ∧
        (∀ other ∈ s.files, IsCopy path other.path →
          other.writtenBy ≤ file.writtenBy) ∨
      asideStamp path destinationPath = some stamp ∧ file.path = path ∧
        ∀ other ∈ s.files, asideStamp path other.path ≠ some stamp) :
    (s.moved file.id destinationPath).Kept path stamp snapshots returned := by
  have hcopy : IsCopy path destinationPath := by
    rcases hdestination with ⟨hmain, -⟩ | ⟨haside, -⟩
    · exact .inl hmain
    · exact .inr (Option.isSome_iff_exists.mpr ⟨stamp, haside⟩)
  have hmem : ∀ other, other ∈ (s.moved file.id destinationPath).files ↔
      other ∈ s.files ∧ other.id ≠ file.id ∨
        other = { file with path := destinationPath } :=
    fun other => mem_moved h hfile
  have hstamp : ∀ at', asideStamp path destinationPath = some at' →
      at' ≤ stamp := by
    intro at' hat
    rcases hdestination with ⟨hmain, -⟩ | ⟨haside, -⟩
    · rw [hmain, asideStamp_self] at hat
      cases hat
    · exact (Option.some.inj (hat.symm.trans haside)).le
  constructor
  · unfold OwnerStorage.moved
    rw [change_map VfsFile.id]
    · exact h.ids
    · exact fun _ => rfl
  · have hpaths : (s.moved file.id destinationPath).files.map VfsFile.path =
        (s.files.map fun other =>
          if other.id = file.id then destinationPath else other.path) := by
      unfold OwnerStorage.moved OwnerStorage.change
      rw [List.map_map]
      apply List.map_congr_left
      intro other _
      rw [Function.comp_apply]
      split <;> rfl
    rw [hpaths]
    apply List.Nodup.map_on
    · intro first hfirst second hsecond heq
      split at heq
      next hid =>
        split at heq
        next hid' => exact h.eq_of_id hfirst hsecond (hid.trans hid'.symm)
        next => exact absurd heq.symm (hfree second hsecond)
      next =>
        split at heq
        next => exact absurd heq (hfree first hfirst)
        next => exact h.eq_of_path hfirst hsecond heq
    · exact h.ids.of_map _
  · intro other hother
    rcases (hmem other).mp hother with ⟨hold, -⟩ | rfl
    · exact h.fresh other hold
    · exact h.fresh file hfile
  · intro other hother at' hat
    rcases (hmem other).mp hother with ⟨hold, -⟩ | rfl
    · exact h.temps other hold at' hat
    · rw [show destinationPath = tempPath path at' from hat] at hcopy
      exact absurd hcopy not_isCopy_tempPath
  · intro other hother at' hat
    rcases (hmem other).mp hother with ⟨hold, -⟩ | rfl
    · exact h.asides other hold at' hat
    · exact hstamp at' hat
  · intro other hother hownName
    rcases (hmem other).mp hother with ⟨hold, -⟩ | rfl
    · exact h.written other hold hownName
    · exact h.written file hfile hown
  · intro other hother hcopyName
    rcases (hmem other).mp hother with ⟨hold, -⟩ | rfl
    · exact h.copies other hold hcopyName
    · exact hdone
  · intro main hmain hpath other hother hcopyName
    have hsame : main = { file with path := destinationPath } := by
      rcases (hmem main).mp hmain with ⟨hold, hid⟩ | hsame
      · rcases hdestination with ⟨hdest, -⟩ | ⟨-, hfilePath, -⟩
        · exact absurd (hpath.trans hdest.symm) (hfree main hold)
        · exact absurd (congrArg VfsFile.id (h.eq_of_path hold hfile
            (hpath.trans hfilePath.symm))) hid
      · exact hsame
    subst hsame
    rcases (hmem other).mp hother with ⟨hold, -⟩ | rfl
    · rcases hdestination with ⟨-, hnewest⟩ | ⟨haside, -⟩
      · exact hnewest other hold hcopyName
      · rw [show destinationPath = path from hpath, asideStamp_self] at haside
        cases haside
    · exact Nat.le_refl _
  · intro first hfirst second hsecond at' later hat hlater hle
    rcases (hmem first).mp hfirst with ⟨holdFirst, -⟩ | rfl
    · rcases (hmem second).mp hsecond with ⟨holdSecond, -⟩ | rfl
      · exact h.asideOrder first holdFirst second holdSecond at' later hat
          hlater hle
      · rcases hdestination with ⟨hdest, -⟩ | ⟨-, hfilePath, -⟩
        · change asideStamp path destinationPath = some later at hlater
          rw [hdest, asideStamp_self] at hlater
          cases hlater
        · exact h.mainNewest file hfile hfilePath first holdFirst
            (.inr (Option.isSome_iff_exists.mpr ⟨at', hat⟩))
    · rcases (hmem second).mp hsecond with ⟨holdSecond, -⟩ | rfl
      · -- nothing else carries the stamp of this save
        rcases hdestination with ⟨hdest, -⟩ | ⟨haside, -, halone⟩
        · change asideStamp path destinationPath = some at' at hat
          rw [hdest, asideStamp_self] at hat
          cases hat
        · obtain rfl := Option.some.inj (hat.symm.trans haside)
          have hlast := h.asides second holdSecond later hlater
          rw [Nat.le_antisymm hlast hle] at hlater
          exact absurd hlater (halone second holdSecond)
      · exact Nat.le_refl _
  · intro n hn
    rcases h.lastKept n hn with ⟨other, hother, hcopyName, hle⟩
    by_cases hid : other.id = file.id
    · rw [h.eq_of_id hother hfile hid] at hle
      exact ⟨_, (hmem _).mpr (.inr rfl), hcopy, hle⟩
    · exact ⟨other, (hmem other).mpr (.inl ⟨hother, hid⟩), hcopyName, hle⟩

theorem moment_moved
    (hkept : (s.moved file.id destinationPath).Kept path stamp snapshots
      returned) (h : s.Kept path stamp snapshots returned)
    (hfile : file ∈ s.files) (hown : OwnName path file.path) :
    Moment path stamp snapshots returned s
      (s.moved file.id destinationPath) := by
  constructor
  · exact hkept
  · intro other hother hforeign
    refine (mem_moved h hfile).mpr (.inl ⟨hother, fun hid => hforeign ?_⟩)
    rw [h.eq_of_id hother hfile hid]
    exact hown
  · intro other hother _ hgone
    by_cases hid : other.id = file.id
    · exact absurd hid.symm (hgone { file with path := destinationPath }
        ((mem_moved h hfile).mpr (.inr rfl)))
    · exact absurd rfl (hgone other ((mem_moved h hfile).mpr
        (.inl ⟨hother, hid⟩)))

/-- A move of an own file to an own name during a save. -/
theorem Saving.moved (h : Saving path stamp snapshots returned known s)
    (hkept : (s.moved file.id destinationPath).Kept path stamp snapshots
      returned) (hfile : file ∈ s.files)
    (hdestination : OwnName path destinationPath) :
    Saving path stamp snapshots returned known
      (s.moved file.id destinationPath) := by
  constructor
  · exact hkept
  · exact h.number
  · intro other hother hid
    rcases (mem_moved h.kept hfile).mp hother with ⟨hold, -⟩ | rfl
    · exact h.earlier other hold hid
    · exact ⟨hdestination, (h.earlier file hfile hid).2⟩
  · exact h.knownFresh

end Moved

section Phases

variable (path : VfsPath) (stamp : ℕ) (snapshots : List (List UInt8))
  (returned : Option ℕ) (known : List VfsFile) (tempId : ℕ)
  (s : OwnerStorage)

/-- The new file is whole at its temporary path. -/
structure Ready : Prop
    extends Saving path stamp snapshots returned known s where
  temp : TempReady path stamp snapshots s tempId
  written : ∀ file ∈ s.files, file.id = tempId → file.writtenBy = s.saving
  others : ∀ file ∈ s.files, OwnName path file.path → file.id ≠ tempId →
    file.id ∈ known.map VfsFile.id
  tempNew : tempId ∉ known.map VfsFile.id
  single : (∃ file ∈ s.files, file.path = path) →
    ∀ file ∈ s.files, asideStamp path file.path ≠ some stamp

/-- The new file is at the path. -/
structure InPlace : Prop
    extends Saving path stamp snapshots returned known s where
  main : ∃ file ∈ s.files, file.id = tempId ∧ file.path = path ∧
    file.writtenBy = s.saving
  tempNew : tempId ∉ known.map VfsFile.id

end Phases

section Swap

variable {tempId : ℕ}

theorem Uploading.ready (h : Uploading path stamp snapshots returned known s)
    (htemp : TempReady path stamp snapshots s tempId) :
    Ready path stamp snapshots returned known tempId s := by
  have hready := htemp
  rcases htemp with ⟨temp, hmem, rfl, hpath, -, -⟩
  constructor
  · exact h.toSaving
  · exact hready
  · intro file hfile hid
    rw [h.kept.eq_of_id hfile hmem hid]
    exact (h.temp temp hmem hpath).1
  · intro file hfile hown hne
    apply List.mem_map_of_mem
    apply h.others file hfile hown
    intro hfilePath
    exact hne (congrArg VfsFile.id
      (h.kept.eq_of_path hfile hmem (hfilePath.trans hpath.symm)))
  · exact (h.temp temp hmem hpath).2
  · exact fun _ => h.unmoved

theorem Ready.kept_saving
    (h : Ready path stamp snapshots returned known tempId s) :
    snapshots[s.saving]? = snapshots.getLast? := by
  rw [List.getLast?_eq_getElem?, ← h.number, Nat.add_sub_cancel]

/-- The file at the path is moved aside. -/
theorem Ready.moveAside
    (h : Ready path stamp snapshots returned known tempId s)
    (hfile : file ∈ s.files) (hmain : file.path = path)
    (hfree : ∀ other ∈ s.files, other.path ≠ destinationPath)
    (haside : asideStamp path destinationPath = some stamp) :
    Moment path stamp snapshots returned s (s.moved file.id destinationPath) ∧
      Ready path stamp snapshots returned known tempId
        (s.moved file.id destinationPath) := by
  have hown : OwnName path file.path := .inl hmain
  have hkept := h.kept.moved hfile hfree hown
    (h.kept.copies file hfile (.inl hmain))
    (.inr ⟨haside, hmain, h.single ⟨file, hfile, hmain⟩⟩)
  have hne : file.id ≠ tempId := by
    rcases h.temp with ⟨temp, hmem, rfl, hpath, -⟩
    intro hid
    rw [h.kept.eq_of_id hfile hmem hid, hpath] at hmain
    exact tempPath_ne hmain
  constructor
  · exact moment_moved hkept h.kept hfile hown
  · constructor
    · exact h.toSaving.moved hkept hfile (ownName_of_asideStamp haside)
    · rcases h.temp with ⟨temp, hmem, hid, hrest⟩
      exact ⟨temp, (mem_moved h.kept hfile).mpr (.inl ⟨hmem,
        fun heq => hne (heq.symm.trans hid)⟩), hid, hrest⟩
    · intro other hother hid
      rcases (mem_moved h.kept hfile).mp hother with ⟨hold, -⟩ | rfl
      · exact h.written other hold hid
      · exact absurd hid hne
    · intro other hother hownName hid
      rcases (mem_moved h.kept hfile).mp hother with ⟨hold, -⟩ | rfl
      · exact h.others other hold hownName hid
      · exact h.others file hfile hown hid
    · exact h.tempNew
    · rintro ⟨other, hother, hpath⟩
      rcases (mem_moved h.kept hfile).mp hother with ⟨hold, hid⟩ | rfl
      · exact absurd (congrArg VfsFile.id
          (h.kept.eq_of_path hold hfile (hpath.trans hmain.symm))) hid
      · rw [show destinationPath = path from hpath, asideStamp_self] at haside
        cases haside

/-- The new file is moved to the path. -/
theorem Ready.moveTemp (h : Ready path stamp snapshots returned known tempId s)
    (hfile : file ∈ s.files) (hid : file.id = tempId)
    (hfree : ∀ other ∈ s.files, other.path ≠ path) :
    Moment path stamp snapshots returned s (s.moved file.id path) ∧
      InPlace path stamp snapshots returned known tempId
        (s.moved file.id path) := by
  have hwritten := h.written file hfile hid
  rcases h.temp with ⟨temp, hmem, hsame, hpath, hdone, hcontent⟩
  obtain rfl := h.kept.eq_of_id hfile hmem (hid.trans hsame.symm)
  have hown : OwnName path file.path := by
    rw [hpath]
    exact ownName_tempPath
  have hnewest : ∀ other ∈ s.files, IsCopy path other.path →
      other.writtenBy ≤ file.writtenBy := by
    intro other hother hcopy
    by_cases heq : other.id = tempId
    · rw [h.kept.eq_of_id hother hfile (heq.trans hid.symm)]
    · have hearlier := h.earlier other hother
        (h.others other hother hcopy.ownName heq)
      rw [hwritten]
      exact hearlier.2.le
  have hcopied : snapshots[file.writtenBy]? = some file.content := by
    rw [hwritten, h.kept_saving]
    exact hcontent
  have hkept := h.kept.moved hfile hfree hown ⟨hdone, hcopied⟩
    (.inl ⟨rfl, hnewest⟩)
  constructor
  · exact moment_moved hkept h.kept hfile hown
  · constructor
    · exact h.toSaving.moved hkept hfile (.inl rfl)
    · exact ⟨{ file with path := path },
        (mem_moved h.kept hfile).mpr (.inr rfl), hid, rfl, hwritten⟩
    · exact h.tempNew

/-- The previous file may be put back. -/
structure Restorable (path : VfsPath) (stamp : ℕ)
    (snapshots : List (List UInt8)) (returned : Option ℕ) (previous : ℕ)
    (s : OwnerStorage) : Prop where
  kept : s.Kept path stamp snapshots returned
  place : ∀ file ∈ s.files, file.id = previous → file.path = path ∨
    asideStamp path file.path = some stamp

theorem Restorable.restore {previous : ℕ}
    (h : Restorable path stamp snapshots returned previous s)
    (hfile : file ∈ s.files) (hid : file.id = previous)
    (hfree : ∀ other ∈ s.files, other.path ≠ path) :
    Moment path stamp snapshots returned s (s.moved file.id path) ∧
      Restorable path stamp snapshots returned previous
        (s.moved file.id path) := by
  have haside : asideStamp path file.path = some stamp := by
    rcases h.place file hfile hid with hmain | haside
    · exact absurd hmain (hfree file hfile)
    · exact haside
  have hnewest : ∀ other ∈ s.files, IsCopy path other.path →
      other.writtenBy ≤ file.writtenBy := by
    rintro other hother (hmain | hcopy)
    · exact absurd hmain (hfree other hother)
    · rcases Option.isSome_iff_exists.mp hcopy with ⟨at', hat⟩
      exact h.kept.asideOrder other hother file hfile at' stamp hat haside
        (h.kept.asides other hother at' hat)
  have hcopy : IsCopy path file.path :=
    .inr (Option.isSome_iff_exists.mpr ⟨stamp, haside⟩)
  have hkept := h.kept.moved hfile hfree hcopy.ownName
    (h.kept.copies file hfile hcopy) (.inl ⟨rfl, hnewest⟩)
  constructor
  · exact moment_moved hkept h.kept hfile hcopy.ownName
  · constructor
    · exact hkept
    · intro other hother hother'
      rcases (mem_moved h.kept hfile).mp hother with ⟨hold, -⟩ | rfl
      · exact h.place other hold hother'
      · exact .inl rfl

/-- Dropping files of before the save once the new one is in place. -/
theorem InPlace.drop (h : InPlace path stamp snapshots returned known tempId s)
    {ids : List ℕ} (hids : ∀ id ∈ ids, id ∈ known.map VfsFile.id) :
    Moment path stamp snapshots returned s (s.drop ids) ∧
      InPlace path stamp snapshots returned known tempId (s.drop ids) := by
  have hsub : (s.drop ids).files.Sublist s.files := List.filter_sublist
  rcases h.main with ⟨main, hmain, hid, hpath, hwritten⟩
  have hstays : main ∈ (s.drop ids).files := by
    refine mem_drop.mpr ⟨hmain, fun hmem => h.tempNew ?_⟩
    rw [← hid]
    exact hids _ hmem
  have hk := h.kept
  have hkept : (s.drop ids).Kept path stamp snapshots returned := by
    constructor
    · exact hk.ids.sublist (hsub.map _)
    · exact hk.paths.sublist (hsub.map _)
    · exact fun file hfile => hk.fresh file (hsub.subset hfile)
    · exact fun file hfile => hk.temps file (hsub.subset hfile)
    · exact fun file hfile => hk.asides file (hsub.subset hfile)
    · exact fun file hfile => hk.written file (hsub.subset hfile)
    · exact fun file hfile => hk.copies file (hsub.subset hfile)
    · exact fun file hfile hat other hother =>
        hk.mainNewest file (hsub.subset hfile) hat other (hsub.subset hother)
    · exact fun file hfile other hother =>
        hk.asideOrder file (hsub.subset hfile) other (hsub.subset hother)
    · intro n hn
      rcases hk.lastKept n hn with ⟨file, hfile, hcopy, hle⟩
      exact ⟨main, hstays, .inl hpath,
        hle.trans (hk.mainNewest main hmain hpath file hfile hcopy)⟩
  constructor
  · constructor
    · exact hkept
    · intro file hfile hforeign
      refine mem_drop.mpr ⟨hfile, fun hmem => hforeign ?_⟩
      exact (h.earlier file hfile (hids _ hmem)).1
    · intro file hfile _ hgone
      have hmem : file.id ∈ ids := by
        by_contra hmem
        exact hgone file (mem_drop.mpr ⟨hfile, hmem⟩) rfl
      refine ⟨main, hstays, hpath, (hk.copies main hmain (.inl hpath)).1, ?_⟩
      rw [hwritten]
      exact (h.earlier file hfile (hids _ hmem)).2
  · constructor
    · refine { h with kept := ?_, earlier := ?_ }
      · exact hkept
      · exact fun file hfile => h.earlier file (hsub.subset hfile)
    · exact ⟨main, hstays, hid, hpath, hwritten⟩
    · exact h.tempNew

end Swap

end OwnerStorage

end QiForge
