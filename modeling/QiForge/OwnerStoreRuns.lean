import QiForge.OwnerStoreSave

/-!
# The owner's copy in every run

A read that gets the whole listing names a complete file of the last save that
returned or of a later one.
-/

namespace QiForge

namespace OwnerStore

open Requests OwnerStorage

variable {checksum : List UInt8 → String} {path : VfsPath}

/-- The newest of the set-aside copies of a listing. -/
def IsNewest (path : VfsPath) (listing : List VfsFileStat) :
    Option (VfsFileStat × ℕ) → Prop
  | none => ∀ stat ∈ listing, asideStamp path stat.path = none
  | some (newest, stamp) => newest ∈ listing ∧
      asideStamp path newest.path = some stamp ∧
        ∀ stat ∈ listing, ∀ other, asideStamp path stat.path = some other →
          other ≤ stamp

theorem isNewest_newest (listing : List VfsFileStat) :
    IsNewest path listing (newest path listing) := by
  unfold newest
  induction listing using List.reverseRecOn with
  | nil => exact nofun
  | append_singleton listing file ih =>
      rw [List.foldl_append, List.foldl_cons, List.foldl_nil]
      generalize List.foldl _ none listing = before at ih ⊢
      cases hstamp : asideStamp path file.path with
      | none =>
          cases before with
          | none =>
              intro stat hstat
              rcases List.mem_append.mp hstat with hold | hnew
              · exact ih stat hold
              · rw [List.mem_singleton.mp hnew]
                exact hstamp
          | some pair =>
              rcases ih with ⟨hmem, hat, hmax⟩
              refine ⟨List.mem_append_left _ hmem, hat, ?_⟩
              intro stat hstat other hother
              rcases List.mem_append.mp hstat with hold | hnew
              · exact hmax stat hold other hother
              · rw [List.mem_singleton.mp hnew, hstamp] at hother
                cases hother
      | some stamp =>
          have hfile : file ∈ listing ++ [file] :=
            List.mem_append_right _ List.mem_cons_self
          cases before with
          | none =>
              refine ⟨hfile, hstamp, ?_⟩
              intro stat hstat other hother
              rcases List.mem_append.mp hstat with hold | hnew
              · rw [ih stat hold] at hother
                cases hother
              · rw [List.mem_singleton.mp hnew, hstamp] at hother
                exact (Option.some.inj hother).ge
          | some pair =>
              rcases ih with ⟨hmem, hat, hmax⟩
              dsimp only
              split
              next hlt =>
                refine ⟨hfile, hstamp, ?_⟩
                intro stat hstat other hother
                rcases List.mem_append.mp hstat with hold | hnew
                · exact (hmax stat hold other hother).trans hlt.le
                · rw [List.mem_singleton.mp hnew, hstamp] at hother
                  exact (Option.some.inj hother).ge
              next hle =>
                refine ⟨List.mem_append_left _ hmem, hat, ?_⟩
                intro stat hstat other hother
                rcases List.mem_append.mp hstat with hold | hnew
                · exact hmax stat hold other hother
                · rw [List.mem_singleton.mp hnew, hstamp] at hother
                  rw [← Option.some.inj hother]
                  exact not_lt.mp hle

/-- What a whole listing names. -/
theorem pick_listing (checksum : List UInt8 → String) {clock : ℕ} {snapshots : List (List UInt8)} {n : ℕ}
    {s : OwnerStorage} (h : s.Kept path clock snapshots (some n)) :
    ∃ file ∈ s.files, pick path (s.listing checksum) =
        some (OwnerStorage.stat checksum file) ∧
      IsCopy path file.path ∧ n ≤ file.writtenBy := by
  rcases h.lastKept n rfl with ⟨last, hlast, hcopy, hle⟩
  unfold pick
  cases hfind : (s.listing checksum).find? fun file =>
      decide (file.path = path) with
  | some exact =>
      rcases List.mem_map.mp (List.mem_of_find?_eq_some hfind) with
        ⟨file, hfile, rfl⟩
      have hpath : (OwnerStorage.stat checksum file).path = path := by
        simpa using List.find?_some hfind
      exact ⟨file, hfile, rfl, .inl hpath,
        hle.trans (h.mainNewest file hfile hpath last hlast hcopy)⟩
  | none =>
      have hmem : OwnerStorage.stat checksum last ∈ s.listing checksum :=
        List.mem_map_of_mem hlast
      have hstamp : ∃ stamp, asideStamp path last.path = some stamp := by
        rcases hcopy with hmain | haside
        · have hne := List.find?_eq_none.mp hfind _ hmem
          simp [OwnerStorage.stat, hmain] at hne
        · exact Option.isSome_iff_exists.mp haside
      rcases hstamp with ⟨stamp, hstamp⟩
      have hnewest : IsNewest path (s.listing checksum)
          (newest path (s.listing checksum)) := isNewest_newest _
      cases hfound : newest path (s.listing checksum) with
      | none =>
          rw [hfound] at hnewest
          rw [show asideStamp path last.path = none from hnewest _ hmem]
            at hstamp
          cases hstamp
      | some pair =>
          rcases pair with ⟨found, newestStamp⟩
          rw [hfound] at hnewest
          rcases hnewest with ⟨hlisted, hat, hmax⟩
          rcases List.mem_map.mp hlisted with ⟨file, hfile, rfl⟩
          refine ⟨file, hfile, rfl, .inr ?_, ?_⟩
          · exact Option.isSome_iff_exists.mpr ⟨newestStamp, hat⟩
          · exact hle.trans (h.asideOrder last hlast file hfile stamp
              newestStamp hstamp hat (hmax _ hmem stamp hstamp))

end OwnerStore

namespace OwnerRun

open Requests OwnerStorage

variable {checksum : List UInt8 → String} {path : VfsPath} {retries : ℕ}
  {s s' : OwnerRun} {event : OwnerEvent}

structure Sound (checksum : List UInt8 → String) (path : VfsPath)
    (s : OwnerRun) : Prop where
  kept : s.storage.Kept path s.clock s.snapshots s.returned
  running : ∀ program, s.running = some program → Keeps (serve checksum)
      (Moment path s.clock s.snapshots s.returned) program
      (fun result w => w.Kept path s.clock s.snapshots s.returned ∧
        ∀ saved, result = .ok saved → ∃ file ∈ w.files, file.path = path ∧
          file.writtenBy = s.snapshots.length - 1) s.storage

/-- What a step of a run does to the storage. -/
structure Preserves (path : VfsPath) (s s' : OwnerRun) : Prop where
  foreign : ∀ file ∈ s.storage.files, ¬ OwnName path file.path →
    file ∈ s'.storage.files
  deleted : ∀ file ∈ s.storage.files, file.uploading = none →
    (∀ other ∈ s'.storage.files, other.id ≠ file.id) →
      ∃ newer ∈ s'.storage.files, newer.path = path ∧
        newer.uploading = none ∧ file.writtenBy < newer.writtenBy

theorem Preserves.of_files (hfiles : s'.storage.files = s.storage.files) :
    Preserves path s s' := by
  constructor
  · intro file hfile _
    rw [hfiles]
    exact hfile
  · intro file hfile _ hgone
    rw [hfiles] at hgone
    exact absurd rfl (hgone file hfile)

theorem Sound.step (h : s.Sound checksum path)
    (hstep : s.step checksum path retries event = some s') :
    s'.Sound checksum path ∧ Preserves path s s' := by
  cases event with
  | save now gz gzippedLength =>
      rcases Option.ite_none_left_eq_some.mp hstep with ⟨hfree, hsome⟩
      cases hsome
      have hclock : s.clock < now := by
        by_contra hle
        exact hfree (.inr (not_lt.mp hle))
      constructor
      · constructor
        · exact (OwnerStore.uploading_start gz h.kept hclock).kept
        · intro program hprogram
          cases hprogram
          apply (OwnerStore.keeps_save h.kept hclock retries gzippedLength).imp
          rintro result w ⟨hkept, hsaved⟩
          refine ⟨hkept, ?_⟩
          intro saved hresult
          rw [List.length_append, List.length_singleton, Nat.add_sub_cancel]
          exact hsaved saved hresult
      · exact .of_files rfl
  | request fate =>
      rcases Option.bind_eq_some_iff.mp hstep with
        ⟨program, hrunning, hmap⟩
      rcases Option.map_eq_some_iff.mp hmap with
        ⟨⟨storage, program'⟩, hcall, rfl⟩
      rcases (h.running program hrunning).step hcall with ⟨hmoment, hkeeps⟩
      constructor
      · constructor
        · exact hmoment.kept
        · intro other hother
          cases hother
          exact hkeeps
      · exact ⟨hmoment.foreign, hmoment.deleted⟩
  | finish =>
      unfold OwnerRun.step at hstep
      dsimp only at hstep
      split at hstep
      next saved hrunning =>
        cases hstep
        rcases h.running _ hrunning with ⟨hkept, hsaved⟩
        rcases hsaved saved rfl with ⟨file, hfile, hpath, hwritten⟩
        constructor
        · constructor
          · refine ⟨hkept.ids, hkept.paths, hkept.fresh, hkept.temps,
              hkept.asides, hkept.written, hkept.copies, hkept.mainNewest,
              hkept.asideOrder, ?_⟩
            intro n hn
            cases hn
            exact ⟨file, hfile, .inl hpath, hwritten.ge⟩
          · exact nofun
        · exact .of_files rfl
      next error hrunning =>
        cases hstep
        exact ⟨⟨h.kept, nofun⟩, .of_files rfl⟩
      next => cases hstep
  | stop =>
      cases hstep
      exact ⟨⟨h.kept, nofun⟩, .of_files rfl⟩

/-- The store's own names are free before its first save. -/
structure Unused (path : VfsPath) (files : List VfsFile) (nextId : ℕ) :
    Prop where
  ids : (files.map VfsFile.id).Nodup
  paths : (files.map VfsFile.path).Nodup
  fresh : ∀ file ∈ files, file.id < nextId
  foreign : ∀ file ∈ files, ¬ OwnName path file.path

theorem sound_start {files : List VfsFile} {nextId : ℕ}
    (h : Unused path files nextId) :
    (start files nextId).Sound checksum path := by
  constructor
  · constructor
    · exact h.ids
    · exact h.paths
    · exact h.fresh
    · intro file hfile stamp htemp
      apply absurd _ (h.foreign file hfile)
      rw [htemp]
      exact ownName_tempPath
    · intro file hfile stamp hstamp
      exact absurd (ownName_of_asideStamp hstamp) (h.foreign file hfile)
    · exact fun file hfile hown => absurd hown (h.foreign file hfile)
    · exact fun file hfile hcopy =>
        absurd hcopy.ownName (h.foreign file hfile)
    · exact fun file hfile hmain =>
        absurd (.inl hmain) (h.foreign file hfile)
    · exact fun file hfile _ _ stamp _ hstamp =>
        absurd (ownName_of_asideStamp hstamp) (h.foreign file hfile)
    · exact nofun
  · exact nofun

/-- The file a read names, for a run whose save `n` returned. -/
def NamesCopy (s : OwnerRun) (n : ℕ) (found : Option VfsFileStat) : Prop :=
  ∃ stat, found = some stat ∧ ∃ file ∈ s.storage.files,
    file.id = stat.id ∧ file.path = stat.path ∧ file.uploading = none ∧
      ∃ m, n ≤ m ∧ s.snapshots[m]? = some file.content

theorem Sound.ownerCopy (h : s.Sound checksum path) {n : ℕ}
    (hreturned : s.returned = some n) {fate : VfsFate}
    (hwhole : ∀ pages, fate ≠ .unreadable pages) {w : OwnerStorage}
    {found : Option VfsFileStat}
    (hread : (OwnerStore.ownerCopy path).run (serve checksum) s.storage
      [fate] = some (w, .ok found)) : s.NamesCopy n found := by
  have hkept := h.kept
  rw [hreturned] at hkept
  rcases OwnerStore.pick_listing checksum hkept with
    ⟨file, hfile, hpick, hcopy, hle⟩
  cases fate with
  | answered =>
      have hfound : OwnerStore.pick path (s.storage.listing checksum) =
          found := Except.ok.inj (Prod.mk.inj (Option.some.inj hread)).2
      rcases hkept.copies file hfile hcopy with ⟨hdone, hcontent⟩
      exact ⟨_, hfound.symm.trans hpick, file, hfile, rfl, rfl, hdone,
        file.writtenBy, hle, hcontent⟩
  | unreadable pages => exact absurd rfl (hwhole pages)
  | failed took error => cases hread

/-- The owner's copy in every run of saves. -/
theorem owner_copy_kept (checksum : List UInt8 → String) (path : VfsPath)
    (retries : ℕ) (files : List VfsFile) (nextId : ℕ)
    (hunused : Unused path files nextId) (events : List OwnerEvent)
    (s : OwnerRun)
    (hrun : Transition.run (step checksum path retries)
      (start files nextId) events = some s) :
    (∀ n, s.returned = some n → ∀ fate,
        (∀ pages, fate ≠ VfsFate.unreadable pages) → ∀ w found,
          (OwnerStore.ownerCopy path).run (serve checksum) s.storage
            [fate] = some (w, .ok found) → s.NamesCopy n found) ∧
      (∀ event s', s.step checksum path retries event = some s' →
        Preserves path s s') ∧
      ∀ file ∈ files, ¬ OwnName path file.path → file ∈ s.storage.files := by
  have hinv : s.Sound checksum path ∧
      ∀ file ∈ files, ¬ OwnName path file.path → file ∈ s.storage.files := by
    apply Transition.run_preserves (I := fun s : OwnerRun =>
      s.Sound checksum path ∧ ∀ file ∈ files,
        ¬ OwnName path file.path → file ∈ s.storage.files)
      _ _ hrun
    · rintro before after event ⟨hsound, hforeign⟩ hstep
      rcases hsound.step hstep with ⟨hnext, hpreserves⟩
      exact ⟨hnext, fun file hfile hown =>
        hpreserves.foreign file (hforeign file hfile hown) hown⟩
    · exact ⟨sound_start hunused, fun file hfile _ => hfile⟩
  refine ⟨?_, ?_, hinv.2⟩
  · exact fun n hn fate hwhole w found => hinv.1.ownerCopy hn hwhole
  · exact fun event s' hstep => (hinv.1.step hstep).2

def statePath : VfsPath := "/state.db.gz".toList

def notes : VfsFile := ⟨0, "/notes".toList, [1], none, 0⟩

theorem unused_notes : Unused statePath [notes] 1 := by
  constructor
  · decide
  · decide
  · decide
  · intro file hfile hown
    rw [List.mem_singleton.mp hfile] at hown
    rcases hown with hmain | hleft
    · exact absurd hmain (by decide +kernel)
    · exact absurd hleft (by decide +kernel)

/-- A save returns; of the next one every answer to the move into place is
lost, and it is cut off. -/
def lostAnswers : List OwnerEvent :=
  [.save 40 [7] none, .request .answered, .request .answered,
    .request .answered, .finish,
    .save 41 [8] none, .request .answered, .request .answered,
    .request .answered, .request (.failed true .network), .stop]

theorem owner_copy_kept_lostAnswers :
    ∃ s, Transition.run (step (fun _ => "") statePath 3) (start [notes] 1)
        lostAnswers = some s ∧ notes ∈ s.storage.files := by
  cases hrun : Transition.run (step (fun _ => "") statePath 3)
      (start [notes] 1) lostAnswers with
  | none =>
      have hruns : (Transition.run (step (fun _ => "") statePath 3)
          (start [notes] 1) lostAnswers).isSome = true := by
        decide +kernel
      simp [hrun] at hruns
  | some s =>
      have hkept := owner_copy_kept (fun _ => "") statePath 3 [notes] 1
        unused_notes lostAnswers s hrun
      refine ⟨s, rfl, hkept.2.2 notes List.mem_cons_self ?_⟩
      exact unused_notes.foreign notes List.mem_cons_self

/-- The new file is at the path, the previous one aside. -/
example : (Transition.run (step (fun _ => "") statePath 3) (start [notes] 1)
        lostAnswers).map
      (fun s => (s.returned, s.storage.files.map fun file =>
        (String.ofList file.path, file.content))) =
      some (some 0, [("/notes", [1]), ("/state.db.gz.replaced-15", [7]),
        ("/state.db.gz", [8])]) := by
  decide +kernel

/-- A read whose listing breaks off finds no file although a save has
returned. -/
theorem owner_copy_lost :
    ¬ ∀ (checksum : List UInt8 → String) (path : VfsPath) (retries : ℕ)
        (files : List VfsFile) (nextId : ℕ), Unused path files nextId →
        ∀ (events : List OwnerEvent) (s : OwnerRun),
          Transition.run (step checksum path retries) (start files nextId)
            events = some s → ∀ n, s.returned = some n → ∀ fate w found,
          (OwnerStore.ownerCopy path).run (serve checksum) s.storage
            [fate] = some (w, .ok found) → s.NamesCopy n found := by
  intro hclaim
  have hreturned : (Transition.run (step (fun _ => "") statePath 3)
      (start [notes] 1) (lostAnswers.take 5)).map returned =
        some (some 0) := by
    decide +kernel
  rcases Option.map_eq_some_iff.mp hreturned with ⟨s, hrun, hlast⟩
  have hnone := hclaim (fun _ => "") statePath 3 [notes] 1 unused_notes
    (lostAnswers.take 5) s hrun 0 hlast (.unreadable 0) s.storage none rfl
  rcases hnone with ⟨stat, hfound, -⟩
  cases hfound

end OwnerRun

end QiForge
