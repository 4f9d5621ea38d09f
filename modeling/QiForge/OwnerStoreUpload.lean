import QiForge.OwnerStoreRequests

/-!
# Uploads to the temporary path

Until its upload has returned, a save has only touched the file at its own
temporary path; when the upload has returned, that file is complete.
-/

namespace QiForge

namespace OwnerStorage

section Phases

variable (path : VfsPath) (stamp : ℕ) (snapshots : List (List UInt8))
  (returned : Option ℕ) (known : List VfsFile) (s : OwnerStorage)

/-- During a save; `known` are the store's files at its start. -/
structure Saving : Prop where
  kept : s.Kept path stamp snapshots returned
  number : s.saving + 1 = snapshots.length
  earlier : ∀ file ∈ s.files, file.id ∈ known.map VfsFile.id →
    OwnName path file.path ∧ file.writtenBy < s.saving
  knownFresh : ∀ file ∈ known, file.id < s.nextId

/-- Nothing but the file at the temporary path is new. -/
structure Uploading : Prop
    extends Saving path stamp snapshots returned known s where
  temp : ∀ file ∈ s.files, file.path = tempPath path stamp →
    file.writtenBy = s.saving ∧ file.id ∉ known.map VfsFile.id
  others : ∀ file ∈ s.files, OwnName path file.path →
    file.path ≠ tempPath path stamp → file ∈ known
  unmoved : ∀ file ∈ s.files, asideStamp path file.path ≠ some stamp

/-- The file at the temporary path is the whole snapshot. -/
def TempReady (id : ℕ) : Prop :=
  ∃ file ∈ s.files, file.id = id ∧ file.path = tempPath path stamp ∧
    file.uploading = none ∧ snapshots.getLast? = some file.content

end Phases

variable {path : VfsPath} {stamp : ℕ} {snapshots : List (List UInt8)}
  {returned : Option ℕ} {known : List VfsFile} {s s' : OwnerStorage}
  {file : VfsFile}

theorem Kept.moment_refl (h : s.Kept path stamp snapshots returned) :
    Moment path stamp snapshots returned s s := by
  constructor
  · exact h
  · exact fun file hfile _ => hfile
  · exact fun file hfile _ hgone => absurd rfl (hgone file hfile)

theorem Kept.eq_of_id (h : s.Kept path stamp snapshots returned)
    {other : VfsFile} (hfile : file ∈ s.files) (hother : other ∈ s.files)
    (hid : file.id = other.id) : file = other :=
  List.inj_on_of_nodup_map h.ids hfile hother hid

theorem Kept.eq_of_path (h : s.Kept path stamp snapshots returned)
    {other : VfsFile} (hfile : file ∈ s.files) (hother : other ∈ s.files)
    (hpath : file.path = other.path) : file = other :=
  List.inj_on_of_nodup_map h.paths hfile hother hpath

theorem Kept.find_eq (h : s.Kept path stamp snapshots returned)
    (hfile : file ∈ s.files) : s.find file.id = some file := by
  cases hfind : s.find file.id with
  | none => exact absurd rfl (find_eq_none hfind file hfile)
  | some other =>
      rcases find_eq_some hfind with ⟨hother, hid⟩
      rw [h.eq_of_id hother hfile hid]

/-- A storage that differs only in the file at the temporary path. -/
theorem Uploading.rewrite (h : Uploading path stamp snapshots returned known s)
    (hsaving : s'.saving = s.saving) (hnext : s.nextId ≤ s'.nextId)
    (hids : (s'.files.map VfsFile.id).Nodup)
    (hpaths : (s'.files.map VfsFile.path).Nodup)
    (hfresh : ∀ file ∈ s'.files, file.id < s'.nextId)
    (hothers : ∀ file, file.path ≠ tempPath path stamp →
      (file ∈ s'.files ↔ file ∈ s.files))
    (htemp : ∀ file ∈ s'.files, file.path = tempPath path stamp →
      file.writtenBy = s.saving ∧ file.id ∉ known.map VfsFile.id)
    (hcomplete : ∀ file ∈ s.files, file.path = tempPath path stamp →
      file.uploading = none → ∃ other ∈ s'.files, other.id = file.id) :
    Moment path stamp snapshots returned s s' ∧
      Uploading path stamp snapshots returned known s' := by
  have hk := h.kept
  have hne : ∀ {file : VfsFile}, IsCopy path file.path →
      file.path ≠ tempPath path stamp := by
    intro file hcopy heq
    rw [heq] at hcopy
    exact not_isCopy_tempPath hcopy
  have hneAside : ∀ {file : VfsFile} {at' : ℕ},
      asideStamp path file.path = some at' →
        file.path ≠ tempPath path stamp := by
    intro file at' hat
    exact hne (.inr (Option.isSome_iff_exists.mpr ⟨at', hat⟩))
  have hold : ∀ file ∈ s'.files, IsCopy path file.path → file ∈ s.files :=
    fun file hfile hcopy => (hothers file (hne hcopy)).mp hfile
  have hnumber := h.number
  have hkept : s'.Kept path stamp snapshots returned := by
    constructor
    · exact hids
    · exact hpaths
    · exact hfresh
    · intro file hfile at' hat
      by_cases htmp : file.path = tempPath path stamp
      · exact (tempPath_inj (hat.symm.trans htmp)).le
      · exact hk.temps file ((hothers file htmp).mp hfile) at' hat
    · intro file hfile at' hat
      exact hk.asides file ((hothers file (hneAside hat)).mp hfile) at' hat
    · intro file hfile hown
      by_cases htmp : file.path = tempPath path stamp
      · rw [(htemp file hfile htmp).1]
        omega
      · exact hk.written file ((hothers file htmp).mp hfile) hown
    · exact fun file hfile hcopy =>
        hk.copies file (hold file hfile hcopy) hcopy
    · exact fun file hfile hmain other hother hcopy =>
        hk.mainNewest file (hold file hfile (.inl hmain)) hmain other
          (hold other hother hcopy) hcopy
    · intro file hfile other hother at' later hat hlater hle
      exact hk.asideOrder file ((hothers file (hneAside hat)).mp hfile) other
        ((hothers other (hneAside hlater)).mp hother) at' later hat hlater
        hle
    · intro n hn
      rcases hk.lastKept n hn with ⟨file, hfile, hcopy, hle⟩
      exact ⟨file, (hothers file (hne hcopy)).mpr hfile, hcopy, hle⟩
  constructor
  · constructor
    · exact hkept
    · intro file hfile hforeign
      have htmp : file.path ≠ tempPath path stamp := by
        intro heq
        rw [heq] at hforeign
        exact hforeign ownName_tempPath
      exact (hothers file htmp).mpr hfile
    · intro file hfile hdone hgone
      by_cases htmp : file.path = tempPath path stamp
      · rcases hcomplete file hfile htmp hdone with ⟨other, hother, hid⟩
        exact absurd hid (hgone other hother)
      · exact absurd rfl (hgone file ((hothers file htmp).mpr hfile))
  · constructor
    · constructor
      · exact hkept
      · rw [hsaving]
        exact h.number
      · intro file hfile hknown
        rw [hsaving]
        by_cases htmp : file.path = tempPath path stamp
        · exact absurd hknown (htemp file hfile htmp).2
        · exact h.earlier file ((hothers file htmp).mp hfile) hknown
      · exact fun file hfile => (h.knownFresh file hfile).trans_le hnext
    · intro file hfile htmp
      rw [hsaving]
      exact htemp file hfile htmp
    · exact fun file hfile hown htmp =>
        h.others file ((hothers file htmp).mp hfile) hown htmp
    · intro file hfile hat
      exact h.unmoved file ((hothers file (hneAside hat)).mp hfile) hat

theorem Uploading.add (h : Uploading path stamp snapshots returned known s)
    (hfree : ∀ file ∈ s.files, file.path ≠ tempPath path stamp)
    (content : List UInt8) (uploading : Option ℕ) :
    Moment path stamp snapshots returned s
        (s.add (tempPath path stamp) content uploading) ∧
      Uploading path stamp snapshots returned known
        (s.add (tempPath path stamp) content uploading) := by
  have hmem : ∀ file, file ∈
      (s.add (tempPath path stamp) content uploading).files ↔
        file ∈ s.files ∨ file = ⟨s.nextId, tempPath path stamp, content,
          uploading, s.saving⟩ := by
    intro file
    simp [OwnerStorage.add]
  apply h.rewrite
  · rfl
  · exact Nat.le_succ _
  · unfold OwnerStorage.add
    rw [List.map_append, List.map_singleton, ← List.concat_eq_append]
    apply h.kept.ids.concat
    intro hold
    rcases List.mem_map.mp hold with ⟨file, hfile, hid⟩
    exact absurd hid (h.kept.fresh file hfile).ne
  · unfold OwnerStorage.add
    rw [List.map_append, List.map_singleton, ← List.concat_eq_append]
    apply h.kept.paths.concat
    intro hold
    rcases List.mem_map.mp hold with ⟨file, hfile, hpath⟩
    exact hfree file hfile hpath
  · intro file hfile
    rcases (hmem file).mp hfile with hold | rfl
    · exact (h.kept.fresh file hold).trans (Nat.lt_succ_self _)
    · exact Nat.lt_succ_self _
  · intro file hpath
    rw [hmem]
    constructor
    · rintro (hold | rfl)
      · exact hold
      · exact absurd rfl hpath
    · exact .inl
  · intro file hfile hpath
    rcases (hmem file).mp hfile with hold | rfl
    · exact absurd hpath (hfree file hold)
    · refine ⟨rfl, fun hknown => ?_⟩
      rcases List.mem_map.mp hknown with ⟨file, hfile, hid⟩
      exact absurd hid (h.knownFresh file hfile).ne
  · exact fun file hfile hpath => absurd hpath (hfree file hfile)

/-- Dropping the upload at the temporary path. -/
theorem Uploading.drop (h : Uploading path stamp snapshots returned known s)
    (hfile : file ∈ s.files) (hpath : file.path = tempPath path stamp)
    (huploading : file.uploading.isSome = true) :
    Moment path stamp snapshots returned s (s.drop [file.id]) ∧
      Uploading path stamp snapshots returned known (s.drop [file.id]) ∧
        ∀ other ∈ (s.drop [file.id]).files,
          other.path ≠ tempPath path stamp := by
  have hmem : ∀ other, other ∈ (s.drop [file.id]).files ↔
      other ∈ s.files ∧ other.id ≠ file.id := by
    intro other
    rw [mem_drop, List.mem_singleton]
  have hsub : (s.drop [file.id]).files.Sublist s.files := List.filter_sublist
  have honly : ∀ other ∈ (s.drop [file.id]).files,
      other.path ≠ tempPath path stamp := by
    intro other hother heq
    rcases (hmem other).mp hother with ⟨hold, hne⟩
    exact hne (congrArg VfsFile.id
      (h.kept.eq_of_path hold hfile (heq.trans hpath.symm)))
  have hrewrite : Moment path stamp snapshots returned s (s.drop [file.id]) ∧
      Uploading path stamp snapshots returned known (s.drop [file.id]) := by
    apply h.rewrite
    · rfl
    · exact Nat.le_refl _
    · exact h.kept.ids.sublist (hsub.map _)
    · exact h.kept.paths.sublist (hsub.map _)
    · exact fun other hother => h.kept.fresh other (hsub.subset hother)
    · intro other hne
      rw [hmem]
      constructor
      · exact And.left
      · intro hold
        refine ⟨hold, fun hid => hne ?_⟩
        rw [h.kept.eq_of_id hold hfile hid]
        exact hpath
    · exact fun other hother heq => absurd heq (honly other hother)
    · intro other hother heq hdone
      rw [h.kept.eq_of_path hother hfile (heq.trans hpath.symm)] at hdone
      rw [hdone] at huploading
      cases huploading
  exact ⟨hrewrite.1, hrewrite.2, honly⟩

/-- Changing the upload at the temporary path, not its identity. -/
theorem Uploading.change (h : Uploading path stamp snapshots returned known s)
    (hfile : file ∈ s.files) (hpath : file.path = tempPath path stamp)
    {f : VfsFile → VfsFile} (hid : ∀ other, (f other).id = other.id)
    (hsamePath : ∀ other, (f other).path = other.path)
    (hwritten : ∀ other, (f other).writtenBy = other.writtenBy) :
    Moment path stamp snapshots returned s (s.change file.id f) ∧
      Uploading path stamp snapshots returned known (s.change file.id f) := by
  have hsame : ∀ other ∈ s.files, other.id = file.id → other = file :=
    fun other hother hid => h.kept.eq_of_id hother hfile hid
  apply h.rewrite
  · rfl
  · exact Nat.le_refl _
  · rw [change_map VfsFile.id hid]
    exact h.kept.ids
  · rw [change_map VfsFile.path hsamePath]
    exact h.kept.paths
  · intro other hother
    rcases mem_change.mp hother with ⟨hold, -⟩ | ⟨before, hbefore, -, rfl⟩
    · exact h.kept.fresh other hold
    · rw [hid]
      exact h.kept.fresh before hbefore
  · intro other hne
    rw [mem_change]
    constructor
    · rintro (⟨hold, -⟩ | ⟨before, hbefore, hsameId, rfl⟩)
      · exact hold
      · rw [hsamePath, hsame before hbefore hsameId] at hne
        exact absurd hpath hne
    · intro hold
      refine .inl ⟨hold, fun hsameId => hne ?_⟩
      rw [hsame other hold hsameId]
      exact hpath
  · intro other hother heq
    rcases mem_change.mp hother with ⟨hold, -⟩ | ⟨before, hbefore, -, rfl⟩
    · exact h.temp other hold heq
    · rw [hsamePath] at heq
      rw [hid, hwritten]
      exact h.temp before hbefore heq
  · intro other hother heq hdone
    obtain rfl := h.kept.eq_of_path hother hfile (heq.trans hpath.symm)
    exact ⟨_, mem_change.mpr (.inr ⟨other, hother, rfl, rfl⟩), hid other⟩

end OwnerStorage

namespace OwnerStore

open Requests OwnerStorage

variable {checksum : List UInt8 → String} {path : VfsPath} {stamp : ℕ}
  {snapshots : List (List UInt8)} {returned : Option ℕ} {known : List VfsFile}
  {s : OwnerStorage} {gz : List UInt8}

theorem keeps_create (h : Uploading path stamp snapshots returned known s)
    (hgz : snapshots.getLast? = some gz) :
    Keeps (serve checksum) (Moment path stamp snapshots returned)
      (request (VfsRequest.create (tempPath path stamp) gz))
      (fun result w => Uploading path stamp snapshots returned known w ∧
        ∀ body : Option (ℕ × String), result = .ok body →
          ∃ id, TempReady path stamp snapshots w id ∧
            ∀ found hash, body = some (found, hash) → found = id) s := by
  have hrefl := h.kept.moment_refl
  cases hat : s.at' (tempPath path stamp) with
  | some file =>
      apply keeps_refused
      · simp only [answer, hat]
        rfl
      · exact hrefl
      · exact fun _ => ⟨h, nofun⟩
  | none =>
      rcases h.add (at'_eq_none hat) gz none with ⟨hmoment, hup⟩
      have hready : TempReady path stamp snapshots
          (s.add (tempPath path stamp) gz none) s.nextId := by
        refine ⟨⟨s.nextId, tempPath path stamp, gz, none, s.saving⟩, ?_, rfl,
          rfl, rfl, hgz⟩
        exact List.mem_append_right _ List.mem_cons_self
      apply keeps_op
      · simp only [answer, hat]
        rfl
      · exact hrefl
      · exact fun _ => ⟨h, nofun⟩
      · exact hmoment
      · exact fun _ => ⟨hup, nofun⟩
      · refine ⟨hup, ?_⟩
        intro body heq
        cases heq
        refine ⟨s.nextId, hready, ?_⟩
        intro found hash hbody
        exact (Prod.mk.inj (Option.some.inj hbody)).1.symm
      · intro pages
        refine ⟨hup, ?_⟩
        intro body heq
        cases heq
        exact ⟨s.nextId, hready, nofun⟩

/-- What an upload returns. -/
def Finished (path : VfsPath) (stamp : ℕ) (snapshots : List (List UInt8))
    (returned : Option ℕ) (known : List VfsFile) (result : Except VfsError Uploaded)
    (w : OwnerStorage) : Prop :=
  Uploading path stamp snapshots returned known w ∧
    ∀ uploaded, result = .ok uploaded →
      ∃ id, TempReady path stamp snapshots w id ∧
        ∀ found, uploaded.id = some found → found = id

theorem keeps_uploadSingleShot (retries : ℕ)
    (h : Uploading path stamp snapshots returned known s)
    (hgz : snapshots.getLast? = some gz) :
    Keeps (serve checksum) (Moment path stamp snapshots returned)
      (uploadSingleShot retries (tempPath path stamp) gz)
      (Finished path stamp snapshots returned known) s := by
  have hcreate : Keeps (serve checksum) (Moment path stamp snapshots returned)
      (withRetry isRetryableRequest
        (request (VfsRequest.create (tempPath path stamp) gz)) retries)
      (fun result w => Uploading path stamp snapshots returned known w ∧
        ∀ body : Option (ℕ × String), result = .ok body →
          ∃ id, TempReady path stamp snapshots w id ∧
            ∀ found hash, body = some (found, hash) → found = id) s := by
    apply keeps_withRetry (J := Uploading path stamp snapshots returned known)
    · intro w hw
      apply (keeps_create hw hgz).imp
      exact fun _ _ hresult => ⟨hresult, fun _ _ => hresult.1⟩
    · exact h
  apply hcreate.bind
  · rintro (created : Option (ℕ × String)) w ⟨hw, hready⟩
    rcases hready created rfl with ⟨id, htemp, hid⟩
    refine ⟨hw, ?_⟩
    intro uploaded heq
    cases heq
    refine ⟨id, htemp, ?_⟩
    intro found hfound
    cases created with
    | none => cases hfound
    | some pair =>
        cases hfound
        exact hid pair.1 pair.2 rfl
  · rintro error w ⟨hw, -⟩
    exact ⟨hw, nofun⟩

/-- The session's upload holds the bytes, and is complete when they are all
there. -/
def Sent (path : VfsPath) (stamp session totalLength : ℕ)
    (bytes : List UInt8) (s : OwnerStorage) : Prop :=
  ∃ file ∈ s.files, file.id = session ∧ file.path = tempPath path stamp ∧
    file.content = bytes ∧
      (file.uploading = some totalLength ∧ bytes.length < totalLength ∨
        file.uploading = none ∧ bytes.length = totalLength)

theorem keeps_startUpload {totalLength : ℕ} (hlength : 1 ≤ totalLength)
    (h : Uploading path stamp snapshots returned known s) :
    Keeps (serve checksum) (Moment path stamp snapshots returned)
      (request (VfsRequest.startUpload (tempPath path stamp) totalLength))
      (fun result w => Uploading path stamp snapshots returned known w ∧
        ∀ session : ℕ, result = .ok session →
          Sent path stamp session totalLength [] w) s := by
  have hrefl := h.kept.moment_refl
  have hsent : ∀ w : OwnerStorage, Sent path stamp w.nextId totalLength []
      (w.add (tempPath path stamp) [] (some totalLength)) := by
    intro w
    refine ⟨⟨w.nextId, tempPath path stamp, [], some totalLength, w.saving⟩,
      List.mem_append_right _ List.mem_cons_self, rfl, rfl, rfl, ?_⟩
    exact .inl ⟨rfl, hlength⟩
  cases hat : s.at' (tempPath path stamp) with
  | none =>
      rcases h.add (at'_eq_none hat) [] (some totalLength) with
        ⟨hmoment, hup⟩
      apply keeps_op
      · simp only [answer, hat]
        rfl
      · exact hrefl
      · exact fun _ => ⟨h, nofun⟩
      · exact hmoment
      · exact fun _ => ⟨hup, nofun⟩
      · exact ⟨hup, fun session heq => Except.ok.inj heq ▸ hsent s⟩
      · exact fun _ => ⟨hup, fun session heq => Except.ok.inj heq ▸ hsent s⟩
  | some file =>
      rcases at'_eq_some hat with ⟨hfile, hpath⟩
      by_cases huploading : file.uploading.isSome = true
      · rcases h.drop hfile hpath huploading with ⟨hdrop, hup, hfree⟩
        rcases hup.add hfree [] (some totalLength) with ⟨hadd, hup'⟩
        have hmoment : Moment path stamp snapshots returned s
            ((s.drop [file.id]).add (tempPath path stamp) []
              (some totalLength)) := by
          constructor
          · exact hup'.kept
          · intro other hother hforeign
            exact hadd.foreign other (hdrop.foreign other hother hforeign)
              hforeign
          · intro other hother hdone hgone
            have hne : other.id ∉ [file.id] := by
              intro hid
              rw [h.kept.eq_of_id hother hfile (List.mem_singleton.mp hid)]
                at hdone
              rw [hdone] at huploading
              cases huploading
            exact absurd rfl (hgone other (List.mem_append_left _
              (mem_drop.mpr ⟨hother, hne⟩)))
        apply keeps_op
        · simp only [answer, hat, if_pos huploading]
          rfl
        · exact hrefl
        · exact fun _ => ⟨h, nofun⟩
        · exact hmoment
        · exact fun _ => ⟨hup', nofun⟩
        · exact ⟨hup', fun session heq => Except.ok.inj heq ▸
            hsent (s.drop [file.id])⟩
        · exact fun _ => ⟨hup', fun session heq => Except.ok.inj heq ▸
            hsent (s.drop [file.id])⟩
      · apply keeps_refused
        · simp only [answer, hat, if_neg huploading]
          rfl
        · exact hrefl
        · exact fun _ => ⟨h, nofun⟩

section Session

variable {session totalLength : ℕ} {sent part : List UInt8}

theorem keeps_patchPart (h : Uploading path stamp snapshots returned known s)
    (hsent : Sent path stamp session totalLength sent s ∨
      Sent path stamp session totalLength (sent ++ part) s)
    (hpart : part ≠ []) (hfit : sent.length + part.length ≤ totalLength) :
    Keeps (serve checksum) (Moment path stamp snapshots returned)
      (patchPart session sent.length part)
      (fun result w => (Uploading path stamp snapshots returned known w ∧
        (Sent path stamp session totalLength sent w ∨
          Sent path stamp session totalLength (sent ++ part) w)) ∧
        ∀ body : Option (ℕ × String), result = .ok body →
          Sent path stamp session totalLength (sent ++ part) w ∧
            ∀ found hash, body = some (found, hash) → found = session) s := by
  have hrefl := h.kept.moment_refl
  have hpos : 0 < part.length := List.length_pos_iff.mpr hpart
  rcases hsent with hbefore | hafter
  · rcases hbefore with ⟨file, hfile, rfl, hpath, rfl,
      ⟨huploading, hshort⟩ | ⟨-, hfull⟩⟩
    · have hfind := h.kept.find_eq hfile
      have hover : ¬ totalLength < file.content.length + part.length :=
        not_lt.mpr hfit
      have hstay : Sent path stamp file.id totalLength file.content s :=
        ⟨file, hfile, rfl, hpath, rfl, .inl ⟨huploading, hshort⟩⟩
      have happend : (file.content ++ part).length =
          file.content.length + part.length := List.length_append
      by_cases hlast : file.content.length + part.length = totalLength
      · have hchanged := h.change hfile hpath (f := fun other =>
          { other with content := other.content ++ part, uploading := none })
          (fun _ => rfl) (fun _ => rfl) (fun _ => rfl)
        have hdone : Sent path stamp file.id totalLength
            (file.content ++ part) (s.change file.id fun other =>
              { other with
                content := other.content ++ part
                uploading := none }) :=
          ⟨_, mem_change.mpr (.inr ⟨file, hfile, rfl, rfl⟩), rfl, hpath, rfl,
            .inr ⟨rfl, happend.trans hlast⟩⟩
        apply keeps_op
        · simp only [answer, hfind, huploading, ne_eq, not_true_eq_false,
            if_false, if_neg hover, if_pos hlast]
          rfl
        · exact hrefl
        · exact fun _ => ⟨⟨h, .inl hstay⟩, nofun⟩
        · exact hchanged.1
        · exact fun _ => ⟨⟨hchanged.2, .inr hdone⟩, nofun⟩
        · refine ⟨⟨hchanged.2, .inr hdone⟩, ?_⟩
          intro body heq
          cases heq
          refine ⟨hdone, fun found hash hbody => ?_⟩
          exact (Prod.mk.inj (Option.some.inj hbody)).1.symm
        · intro pages
          refine ⟨⟨hchanged.2, .inr hdone⟩, ?_⟩
          intro body heq
          cases heq
          refine ⟨hdone, fun found hash hbody => ?_⟩
          exact (Prod.mk.inj (Option.some.inj hbody)).1.symm
      · have hchanged := h.change hfile hpath (f := fun other =>
          { other with content := other.content ++ part })
          (fun _ => rfl) (fun _ => rfl) (fun _ => rfl)
        have hdone : Sent path stamp file.id totalLength
            (file.content ++ part) (s.change file.id fun other =>
              { other with content := other.content ++ part }) :=
          ⟨_, mem_change.mpr (.inr ⟨file, hfile, rfl, rfl⟩), rfl, hpath, rfl,
            .inl ⟨huploading, happend ▸ lt_of_le_of_ne hfit hlast⟩⟩
        apply keeps_op
        · simp only [answer, hfind, huploading, ne_eq, not_true_eq_false,
            if_false, if_neg hover, if_neg hlast]
          rfl
        · exact hrefl
        · exact fun _ => ⟨⟨h, .inl hstay⟩, nofun⟩
        · exact hchanged.1
        · exact fun _ => ⟨⟨hchanged.2, .inr hdone⟩, nofun⟩
        · refine ⟨⟨hchanged.2, .inr hdone⟩, ?_⟩
          intro body heq
          cases heq
          exact ⟨hdone, nofun⟩
        · intro pages
          refine ⟨⟨hchanged.2, .inr hdone⟩, ?_⟩
          intro body heq
          cases heq
          exact ⟨hdone, nofun⟩
    · omega
  · -- the part was taken before: the server refuses it a second time
    have hstay := hafter
    rcases hafter with ⟨file, hfile, rfl, hpath, hcontent,
      ⟨huploading, -⟩ | ⟨huploading, -⟩⟩
    · have hfind := h.kept.find_eq hfile
      have hoffset : sent.length ≠ file.content.length := by
        rw [hcontent, List.length_append]
        omega
      apply keeps_refused
      · simp only [answer, hfind, huploading, if_pos hoffset]
        rfl
      · exact hrefl
      · exact fun _ => ⟨⟨h, .inr hstay⟩, nofun⟩
    · have hfind := h.kept.find_eq hfile
      apply keeps_refused
      · simp only [answer, hfind, huploading]
        rfl
      · exact hrefl
      · exact fun _ => ⟨⟨h, .inr hstay⟩, nofun⟩

theorem keeps_committedOffset
    (h : Uploading path stamp snapshots returned known s) :
    Keeps (serve checksum) (Moment path stamp snapshots returned)
      (committedOffset session)
      (fun result w => w = s ∧ ∃ committed, result = .ok committed ∧
        ∀ offset, committed = some offset → ∃ file ∈ s.files,
          file.id = session ∧ file.content.length = offset) s := by
  have hrefl := h.kept.moment_refl
  have hprobe : Keeps (serve checksum) (Moment path stamp snapshots returned)
      (request (VfsRequest.probe session))
      (fun result w => w = s ∧ ∀ offset : ℕ, result = .ok offset →
        ∃ file ∈ s.files, file.id = session ∧
          file.content.length = offset) s := by
    cases hfind : s.find session with
    | none =>
        apply keeps_refused
        · simp only [answer, hfind]
          rfl
        · exact hrefl
        · exact fun _ => ⟨rfl, nofun⟩
    | some file =>
        rcases find_eq_some hfind with ⟨hfile, hid⟩
        by_cases huploading : file.uploading.isSome = true
        · apply keeps_op
          · simp only [answer, hfind, if_pos huploading]
            rfl
          · exact hrefl
          · exact fun _ => ⟨rfl, nofun⟩
          · exact hrefl
          · exact fun _ => ⟨rfl, nofun⟩
          · exact ⟨rfl, fun offset heq =>
              ⟨file, hfile, hid, Except.ok.inj heq⟩⟩
          · exact fun _ => ⟨rfl, fun offset heq =>
              ⟨file, hfile, hid, Except.ok.inj heq⟩⟩
        · apply keeps_refused
          · simp only [answer, hfind, if_neg huploading]
            rfl
          · exact hrefl
          · exact fun _ => ⟨rfl, nofun⟩
  have hread : Keeps (serve checksum) (Moment path stamp snapshots returned)
      ((request (VfsRequest.probe session)).bind fun offset : ℕ =>
        ok (some offset))
      (fun result w => w = s ∧ ∀ committed, result = .ok committed →
        ∀ offset, committed = some offset → ∃ file ∈ s.files,
          file.id = session ∧ file.content.length = offset) s := by
    apply hprobe.bind
    · rintro (offset : ℕ) w ⟨rfl, hfound⟩
      refine ⟨rfl, ?_⟩
      intro committed heq offset' hsome
      cases heq
      cases hsome
      exact hfound offset rfl
    · rintro error w ⟨rfl, -⟩
      exact ⟨rfl, nofun⟩
  apply hread.tryCatch
  · rintro committed w ⟨rfl, hfound⟩
    exact ⟨rfl, committed, rfl, hfound committed rfl⟩
  · rintro error w ⟨rfl, -⟩
    exact ⟨rfl, none, rfl, nofun⟩

/-- The bytes of a session's upload are the ones it was sent. -/
theorem Sent.length_eq {bytes : List UInt8} {file : VfsFile}
    (hsent : Sent path stamp session totalLength bytes s)
    (h : Uploading path stamp snapshots returned known s)
    (hfile : file ∈ s.files) (hid : file.id = session) :
    file.content = bytes := by
  rcases hsent with ⟨other, hother, hsession, -, hcontent, -⟩
  rw [h.kept.eq_of_id hfile hother (hid.trans hsession.symm)]
  exact hcontent

theorem keeps_sendPart (hpart : part ≠ [])
    (hfit : sent.length + part.length ≤ totalLength) (retries : ℕ)
    (h : Uploading path stamp snapshots returned known s)
    (hsent : Sent path stamp session totalLength sent s ∨
      Sent path stamp session totalLength (sent ++ part) s) :
    Keeps (serve checksum) (Moment path stamp snapshots returned)
      (sendPart session sent.length part retries)
      (fun result w => (Uploading path stamp snapshots returned known w ∧
        (Sent path stamp session totalLength sent w ∨
          Sent path stamp session totalLength (sent ++ part) w)) ∧
        ∀ body : Option (ℕ × String), result = .ok body →
          Sent path stamp session totalLength (sent ++ part) w ∧
            ∀ found hash, body = some (found, hash) → found = session) s := by
  induction retries generalizing s with
  | zero => exact keeps_patchPart h hsent hpart hfit
  | succ retries ih =>
      have hpos : 0 < part.length := List.length_pos_iff.mpr hpart
      apply (keeps_patchPart h hsent hpart hfit).tryCatch
      · exact fun _ _ hresult => hresult
      · rintro error w ⟨⟨hw, hsent'⟩, -⟩
        split
        · apply (keeps_committedOffset hw).bind
          · rintro committed w' ⟨rfl, found, heq, hfound⟩
            cases heq
            split
            next hcommitted =>
              -- the probe answers with the part: it was taken
              rcases hfound _ hcommitted with ⟨file, hfile, hid, hlength⟩
              have hdone : Sent path stamp session totalLength (sent ++ part)
                  w' := by
                rcases hsent' with hbefore | hafter
                · rw [hbefore.length_eq hw hfile hid] at hlength
                  omega
                · exact hafter
              exact ⟨⟨hw, .inr hdone⟩, fun body hbody =>
                ⟨hdone, Except.ok.inj hbody ▸ nofun⟩⟩
            next =>
              split
              · exact ⟨⟨hw, hsent'⟩, nofun⟩
              · exact ih hw hsent'
          · rintro error w' ⟨rfl, found, heq, -⟩
            cases heq
        · exact ⟨⟨hw, hsent'⟩, nofun⟩

theorem keeps_sendParts (retries : ℕ) {rest : List (List UInt8)}
    (hrest : ∀ part ∈ rest, part ≠ []) (result : Option (ℕ × String))
    (hresult : ∀ found hash, result = some (found, hash) → found = session)
    (h : Uploading path stamp snapshots returned known s)
    (hsent : Sent path stamp session totalLength sent s) :
    Keeps (serve checksum) (Moment path stamp snapshots returned)
      (sendParts retries session totalLength rest sent.length result)
      (fun result w => (Uploading path stamp snapshots returned known w ∧
        ∃ bytes, Sent path stamp session totalLength bytes w) ∧
        ∀ body : Option (ℕ × String), result = .ok body →
          Sent path stamp session totalLength (sent ++ rest.flatten) w ∧
            (sent ++ rest.flatten).length = totalLength ∧
            ∀ found hash, body = some (found, hash) → found = session) s := by
  induction rest generalizing s sent result with
  | nil =>
      unfold sendParts
      split
      next => exact ⟨⟨h, sent, hsent⟩, nofun⟩
      next hlength =>
        refine ⟨⟨h, sent, hsent⟩, ?_⟩
        intro body heq
        cases heq
        rw [List.flatten_nil, List.append_nil]
        exact ⟨hsent, not_not.mp hlength, hresult⟩
  | cons part rest ih =>
      unfold sendParts
      split
      next => exact ⟨⟨h, sent, hsent⟩, nofun⟩
      next hfit =>
        have hpart : part ≠ [] := hrest part List.mem_cons_self
        have hsend : Keeps (serve checksum)
            (Moment path stamp snapshots returned)
            (sendPart session sent.length part retries) _ s :=
          keeps_sendPart hpart (not_lt.mp hfit) retries h (.inl hsent)
        apply hsend.bind
        · rintro body w ⟨⟨hw, -⟩, hbody⟩
          rcases hbody body rfl with ⟨hdone, hsession⟩
          have hnext := ih
            (fun other hother => hrest other (List.mem_cons_of_mem _ hother))
            (if sent.length + part.length = totalLength then body else result)
            (by
              intro found hash heq
              split at heq
              · exact hsession found hash heq
              · exact hresult found hash heq) hw hdone
          rw [List.length_append, List.append_assoc, ← List.flatten_cons]
            at hnext
          exact hnext
        · rintro error w ⟨⟨hw, hor⟩, -⟩
          refine ⟨⟨hw, ?_⟩, nofun⟩
          rcases hor with hbefore | hafter
          · exact ⟨sent, hbefore⟩
          · exact ⟨sent ++ part, hafter⟩

theorem parts_ne_nil {size : ℕ} (hsize : 0 < size) (fuel : ℕ)
    (bytes : List UInt8) : ∀ part ∈ parts size fuel bytes, part ≠ [] := by
  induction fuel generalizing bytes with
  | zero => exact nofun
  | succ fuel ih =>
      intro part hmem
      unfold parts at hmem
      split at hmem
      next => cases hmem
      next hne =>
        rcases List.mem_cons.mp hmem with rfl | hrest
        · intro htake
          rcases List.take_eq_nil_iff.mp htake with hzero | hnil
          · omega
          · exact hne hnil
        · exact ih _ part hrest

theorem parts_flatten {size : ℕ} (hsize : 0 < size) (fuel : ℕ)
    (bytes : List UInt8) (hfuel : bytes.length ≤ fuel) :
    (parts size fuel bytes).flatten = bytes := by
  induction fuel generalizing bytes with
  | zero => exact (List.length_eq_zero_iff.mp (Nat.le_zero.mp hfuel)).symm
  | succ fuel ih =>
      unfold parts
      split
      next hnil => exact hnil.symm
      next hne =>
        have hpos : 0 < bytes.length := List.length_pos_iff.mpr hne
        have hrest : (bytes.drop size).length ≤ fuel := by
          rw [List.length_drop]
          omega
        rw [List.flatten_cons, ih _ hrest, List.take_append_drop]

theorem keeps_abort (h : Uploading path stamp snapshots returned known s)
    (hsent : ∃ bytes, Sent path stamp session totalLength bytes s) :
    Keeps (serve checksum) (Moment path stamp snapshots returned)
      (request (VfsRequest.abort session))
      (fun _ w => Uploading path stamp snapshots returned known w) s := by
  have hrefl := h.kept.moment_refl
  rcases hsent with ⟨bytes, file, hfile, rfl, hpath, -, -⟩
  have hfind := h.kept.find_eq hfile
  by_cases huploading : file.uploading.isSome = true
  · rcases h.drop hfile hpath huploading with ⟨hmoment, hup, -⟩
    apply keeps_op
    · simp only [answer, hfind, if_pos huploading]
      rfl
    · exact hrefl
    · exact fun _ => h
    · exact hmoment
    · exact fun _ => hup
    · exact hup
    · exact fun _ => hup
  · apply keeps_refused
    · simp only [answer, hfind, if_neg huploading]
      rfl
    · exact hrefl
    · exact fun _ => h

theorem keeps_tusUpload (retries : ℕ)
    (h : Uploading path stamp snapshots returned known s)
    (hgz : snapshots.getLast? = some gz) :
    Keeps (serve checksum) (Moment path stamp snapshots returned)
      (tusUpload retries (tempPath path stamp) totalLength gz)
      (fun result w => Uploading path stamp snapshots returned known w ∧
        ∀ body : Option (ℕ × String), result = .ok body →
          ∃ id, TempReady path stamp snapshots w id ∧
            ∀ found hash, body = some (found, hash) → found = id) s := by
  unfold tusUpload
  split
  next => exact ⟨h, nofun⟩
  next hlength =>
    have hstart : Keeps (serve checksum) (Moment path stamp snapshots returned)
        (withRetry isRetryable (request
          (VfsRequest.startUpload (tempPath path stamp) totalLength)) retries)
        (fun result w => Uploading path stamp snapshots returned known w ∧
          ∀ session : ℕ, result = .ok session →
            Sent path stamp session totalLength [] w) s := by
      apply keeps_withRetry
        (J := Uploading path stamp snapshots returned known)
      · intro w hw
        apply (keeps_startUpload (not_lt.mp hlength) hw).imp
        exact fun _ _ hresult => ⟨hresult, fun _ _ => hresult.1⟩
      · exact h
    apply hstart.bind
    · rintro (session : ℕ) w ⟨hw, hsession⟩
      have hsize : 0 < tusPartBytes := by decide
      have hflat := parts_flatten hsize gz.length gz (Nat.le_refl _)
      have hsend : Keeps (serve checksum)
          (Moment path stamp snapshots returned)
          (sendParts retries session totalLength
            (parts tusPartBytes gz.length gz) 0 none) _ w :=
        keeps_sendParts retries (parts_ne_nil hsize gz.length gz) none nofun
          hw (hsession session rfl)
      apply hsend.tryCatch
      · rintro body w' ⟨⟨hw', -⟩, hbody⟩
        refine ⟨hw', ?_⟩
        intro body' heq
        cases heq
        rcases hbody body rfl with ⟨hdone, hlength', hid⟩
        rw [hflat, List.nil_append] at hdone hlength'
        rcases hdone with ⟨file, hfile, hsession', hpath, hcontent,
          ⟨-, hshort⟩ | ⟨hcomplete, -⟩⟩
        · omega
        · refine ⟨session, ⟨file, hfile, hsession', hpath, hcomplete, ?_⟩, hid⟩
          rw [hcontent]
          exact hgz
      · rintro error w' ⟨⟨hw', hsent⟩, -⟩
        apply keeps_andThen.mpr
        apply (keeps_abort hw' hsent).imp
        exact fun _ _ hup => ⟨hup, nofun⟩
    · rintro error w ⟨hw, -⟩
      exact ⟨hw, nofun⟩

theorem keeps_uploadResumable (retries : ℕ)
    (h : Uploading path stamp snapshots returned known s)
    (hgz : snapshots.getLast? = some gz) (gzLength : ℕ) :
    Keeps (serve checksum) (Moment path stamp snapshots returned)
      (uploadResumable retries (tempPath path stamp) gz gzLength)
      (Finished path stamp snapshots returned known) s := by
  apply (keeps_tusUpload retries h hgz).bind
  · rintro result w ⟨hw, hready⟩
    rcases hready result rfl with ⟨id, htemp, hid⟩
    refine ⟨hw, ?_⟩
    intro uploaded heq
    cases heq
    refine ⟨id, htemp, ?_⟩
    intro found hfound
    cases result with
    | none => cases hfound
    | some pair =>
        cases hfound
        exact hid pair.1 pair.2 rfl
  · rintro error w ⟨hw, -⟩
    exact ⟨hw, nofun⟩

/-- The upload: the whole snapshot is at the temporary path when it returns. -/
theorem keeps_upload (retries : ℕ)
    (h : Uploading path stamp snapshots returned known s)
    (hgz : snapshots.getLast? = some gz) (gzLength : ℕ) :
    Keeps (serve checksum) (Moment path stamp snapshots returned)
      (upload path retries stamp gz gzLength)
      (fun result w => Uploading path stamp snapshots returned known w ∧
        ∀ done, result = .ok done →
          TempReady path stamp snapshots w done.1) s := by
  have hupload : Keeps (serve checksum) (Moment path stamp snapshots returned)
      (if gzLength ≤ singleShotMaxBytes then
          uploadSingleShot retries (tempPath path stamp) gz
        else uploadResumable retries (tempPath path stamp) gz gzLength)
      (Finished path stamp snapshots returned known) s := by
    split
    · exact keeps_uploadSingleShot retries h hgz
    · exact keeps_uploadResumable retries h hgz gzLength
  apply hupload.bind
  · rintro uploaded w ⟨hw, hready⟩
    rcases hready uploaded rfl with ⟨id, htemp, hid⟩
    cases huploaded : uploaded.id with
    | some found =>
        obtain rfl := hid found huploaded
        dsimp only
        exact ⟨hw, fun done heq => Except.ok.inj heq ▸ htemp⟩
    | none =>
        dsimp only
        have hstat : Keeps (serve checksum)
            (Moment path stamp snapshots returned)
            (statPath (tempPath path stamp))
            (fun result w' => w' = w ∧ ∀ stat : VfsFileStat,
              result = .ok (some stat) → stat.id = id) w := by
          apply keeps_statPath hw.kept.moment_refl
          · exact fun _ => ⟨rfl, nofun⟩
          · exact ⟨rfl, fun stat heq => nomatch Except.ok.inj heq⟩
          · intro file hfile hpath stat hstat _
            refine ⟨rfl, ?_⟩
            intro stat' heq
            obtain rfl := Option.some.inj (Except.ok.inj heq)
            rcases htemp with ⟨ready, hmem, rfl, hready, -⟩
            rw [hstat, hw.kept.eq_of_path hfile hmem (hpath.trans hready.symm)]
        apply hstat.bind
        · rintro found w' ⟨rfl, hfound⟩
          cases found with
          | none => exact ⟨hw, nofun⟩
          | some stat =>
              obtain rfl := hfound stat rfl
              exact ⟨hw, fun done heq => Except.ok.inj heq ▸ htemp⟩
        · rintro error w' ⟨rfl, -⟩
          exact ⟨hw, nofun⟩
  · rintro error w ⟨hw, -⟩
    exact ⟨hw, nofun⟩

end Session

end OwnerStore

end QiForge
