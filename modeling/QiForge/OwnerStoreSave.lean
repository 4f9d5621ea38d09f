import QiForge.OwnerStoreSwap
import QiForge.Transition

/-!
# The saves of a run

Every request of a save keeps the storage readable, and a save that returns
has its snapshot at the path.
-/

namespace QiForge

namespace OwnerStore

open Requests OwnerStorage

variable {checksum : List UInt8 → String} {path : VfsPath} {stamp : ℕ}
  {snapshots : List (List UInt8)} {returned : Option ℕ}
  {known : List VfsFile} {tempId : ℕ} {s : OwnerStorage}

/-- The files set aside so far; the first is the one put back. -/
structure SetAside (path : VfsPath) (stamp : ℕ) (known : List VfsFile)
    (aside : List VfsFileStat) (s : OwnerStorage) : Prop where
  known : ∀ stat ∈ aside, stat.id ∈ known.map VfsFile.id
  first : ∀ stat ∈ aside.head?, ∀ file ∈ s.files, file.id = stat.id →
    asideStamp path file.path = some stamp

/-- What the attempts to move the new file into place keep. -/
structure Swapping (path : VfsPath) (stamp : ℕ)
    (snapshots : List (List UInt8)) (returned : Option ℕ)
    (known : List VfsFile) (tempId : ℕ) (aside : List VfsFileStat)
    (s : OwnerStorage) : Prop where
  phase : Ready path stamp snapshots returned known tempId s ∨
    InPlace path stamp snapshots returned known tempId s
  aside : SetAside path stamp known aside s

theorem asideStamp_suffix (n : ℕ) : asideStamp path (asidePath path stamp
    ("-o".toList ++ (toString n).toList)) = some stamp := by
  apply asideStamp_asidePath
  intro c rest heq
  have hdash : "-o".toList = ['-', 'o'] := by decide
  rw [hdash] at heq
  exact (List.cons.inj heq).1.symm

variable {aside : List VfsFileStat}

theorem Swapping.kept
    (h : Swapping path stamp snapshots returned known tempId aside s) :
    s.Kept path stamp snapshots returned := by
  rcases h.phase with hready | hplace
  · exact hready.kept
  · exact hplace.kept

/-- An attempt to move the new file into place. -/
theorem keeps_moveIntoPlaceOnce
    (h : Swapping path stamp snapshots returned known tempId aside s) :
    Keeps (serve checksum) (Moment path stamp snapshots returned)
      (moveIntoPlaceOnce path tempId stamp aside)
      (fun result w => ∃ moved aside', result = .ok (moved, aside') ∧
        Swapping path stamp snapshots returned known tempId aside' w ∧
          (moved = .ok () →
            InPlace path stamp snapshots returned known tempId w)) s := by
  have hmove : Keeps (serve checksum) (Moment path stamp snapshots returned)
      (move tempId path)
      (fun result w =>
        Swapping path stamp snapshots returned known tempId aside w ∧
          (result = .ok () →
            InPlace path stamp snapshots returned known tempId w)) s := by
    apply keeps_move h.kept.moment_refl
    · exact fun error => ⟨h, nofun⟩
    · rintro file hfile rfl hfree
      rcases h.phase with hready | hplace
      · rcases hready.moveTemp hfile rfl hfree with ⟨hmoment, hplace⟩
        have haside : SetAside path stamp known aside
            (s.moved file.id path) := by
          constructor
          · exact h.aside.known
          · intro stat hstat other hother hid
            rcases (mem_moved hready.kept hfile).mp hother with
              ⟨hold, -⟩ | rfl
            · exact h.aside.first stat hstat other hold hid
            · have hknown := h.aside.known stat (List.mem_of_mem_head? hstat)
              rw [← hid] at hknown
              exact absurd hknown hready.tempNew
        exact ⟨hmoment, fun _ => ⟨⟨.inr hplace, haside⟩, fun _ => hplace⟩⟩
      · rcases hplace.main with ⟨main, hmain, -, hpath, -⟩
        exact absurd hpath (hfree main hmain)
  apply keeps_andThen.mpr
  apply hmove.imp
  intro moved w hresult
  cases moved with
  | ok done => exact ⟨.ok (), aside, rfl, hresult.1, hresult.2⟩
  | error error =>
      have hw := hresult.1
      dsimp only
      split
      · apply keeps_andThen.mpr
        apply keeps_statPath hw.kept.moment_refl
        · exact fun error => ⟨.error error, aside, rfl, hw, nofun⟩
        · exact ⟨.error error, aside, rfl, hw, nofun⟩
        · intro occupant hoccupant hpath stat hid _
          dsimp only
          split
          next hsame =>
            -- an earlier attempt committed but its answer was lost
            have hplace : InPlace path stamp snapshots returned known tempId
                w := by
              rcases hw.phase with hready | hplace
              · rcases hready.temp with ⟨temp, hmem, htemp, htempPath, -⟩
                rw [hready.kept.eq_of_id hoccupant hmem
                  (hid.symm.trans (hsame.trans htemp.symm)), htempPath]
                  at hpath
                exact absurd hpath tempPath_ne
              · exact hplace
            exact ⟨.ok (), aside, rfl, hw, fun _ => hplace⟩
          next hother =>
            apply keeps_andThen.mpr
            apply keeps_move hw.kept.moment_refl
            · exact fun error => ⟨.error error, aside, rfl, hw, nofun⟩
            · intro file hfile hfileId hfree
              obtain rfl := hw.kept.eq_of_id hfile hoccupant
                (hfileId.trans hid)
              rcases hw.phase with hready | hplace
              · have hstamp : asideStamp path (asidePath path stamp
                    ("-o".toList ++ (toString aside.length).toList)) =
                      some stamp := asideStamp_suffix aside.length
                rcases hready.moveAside hfile hpath hfree hstamp with
                  ⟨hmoment, hready'⟩
                have hknown : file.id ∈ known.map VfsFile.id :=
                  hready.others file hfile (.inl hpath)
                    fun heq => hother (hid.trans heq)
                have hfirst : ∀ stat' : VfsFileStat,
                    (∀ other ∈ w.files, other.id = stat'.id →
                      other.id ≠ file.id →
                        asideStamp path other.path = some stamp) →
                    ∀ other ∈ (w.moved file.id (asidePath path stamp
                      ("-o".toList ++ (toString aside.length).toList))).files,
                      other.id = stat'.id →
                        asideStamp path other.path = some stamp := by
                  intro stat' hold other hmem hsame
                  rcases (mem_moved hready.kept hfile).mp hmem with
                    ⟨hbefore, hne⟩ | rfl
                  · exact hold other hbefore hsame hne
                  · exact hstamp
                rw [← hfileId]
                refine ⟨hmoment, ?_⟩
                intro set
                cases set with
                | error error =>
                    refine ⟨.error error, aside, rfl, ⟨.inl hready', ?_⟩,
                      nofun⟩
                    constructor
                    · exact hw.aside.known
                    · intro stat' hhead
                      apply hfirst
                      exact fun other hmem hsame _ =>
                        hw.aside.first stat' hhead other hmem hsame
                | ok done =>
                    refine ⟨.error _, _, rfl, ⟨.inl hready', ?_⟩, nofun⟩
                    constructor
                    · intro stat' hstat'
                      rcases List.mem_append.mp hstat' with hold | hnew
                      · exact hw.aside.known stat' hold
                      · rw [List.mem_singleton.mp hnew]
                        exact hid ▸ hknown
                    · intro stat' hhead
                      apply hfirst
                      intro other hmem hsame hne
                      cases haside : aside with
                      | nil =>
                          rw [haside] at hhead
                          cases hhead
                          exact absurd hsame hne
                      | cons first rest =>
                          rw [haside] at hhead
                          have hhead' : stat' ∈ aside.head? := by
                            rw [haside]
                            exact hhead
                          exact hw.aside.first stat' hhead' other hmem hsame
              · rcases hplace.main with ⟨main, hmain, rfl, hmainPath, -⟩
                rw [hplace.kept.eq_of_path hfile hmain
                  (hpath.trans hmainPath.symm)] at hid
                exact absurd hid hother
      · exact ⟨.error error, aside, rfl, hw, nofun⟩

theorem keeps_moveIntoPlace (retries : ℕ)
    (h : Swapping path stamp snapshots returned known tempId aside s) :
    Keeps (serve checksum) (Moment path stamp snapshots returned)
      (moveIntoPlace path tempId stamp retries aside)
      (fun result w => ∃ moved aside', result = .ok (moved, aside') ∧
        Swapping path stamp snapshots returned known tempId aside' w ∧
          (moved = .ok () →
            InPlace path stamp snapshots returned known tempId w)) s := by
  induction retries generalizing s aside with
  | zero => exact keeps_moveIntoPlaceOnce h
  | succ retries ih =>
      apply (keeps_moveIntoPlaceOnce h).bind
      · rintro attempt w ⟨moved, aside', heq, hw, hplace⟩
        cases heq
        cases moved with
        | ok done => exact ⟨.ok (), aside', rfl, hw, hplace⟩
        | error error =>
            dsimp only
            split
            · exact ih hw
            · exact ⟨.error error, aside', rfl, hw, nofun⟩
      · rintro error w ⟨moved, aside', heq, -⟩
        cases heq

/-- Putting the previous file back. -/
theorem keeps_restoreAside (retries : ℕ)
    (h : Swapping path stamp snapshots returned known tempId aside s) :
    Keeps (serve checksum) (Moment path stamp snapshots returned)
      (restoreAside path retries aside)
      (fun _ w => w.Kept path stamp snapshots returned) s := by
  cases haside : aside with
  | nil => exact h.kept
  | cons previous rest =>
      have hrestorable : Restorable path stamp snapshots returned previous.id
          s := by
        constructor
        · exact h.kept
        · intro file hfile hid
          apply Or.inr
          apply h.aside.first previous _ file hfile hid
          rw [haside]
          rfl
      have hmove : Keeps (serve checksum)
          (Moment path stamp snapshots returned)
          (moveWithRetry retries previous.id path) _ s :=
        keeps_moveWithRetry
          (J := Restorable path stamp snapshots returned previous.id)
          (fun w hw => hw.kept.moment_refl)
          (fun w hw file hfile hid hfree =>
            hid ▸ hw.restore hfile hid hfree) hrestorable retries
      apply hmove.tryCatch
      · exact fun _ w hw => hw.1.kept
      · exact fun _ w hw => hw.1.kept

/-- The first file moved aside, when there was one. -/
theorem keeps_moveAside (retries : ℕ) {existing : List VfsFileStat}
    (h : Ready path stamp snapshots returned known tempId s)
    (hexisting : existing.length ≤ 1)
    (hknown : ∀ stat ∈ existing, stat.id ∈ known.map VfsFile.id)
    (hmain : ∀ stat ∈ existing, ∀ file ∈ s.files, file.id = stat.id →
      file.path = path) :
    Keeps (serve checksum) (Moment path stamp snapshots returned)
      (moveAside path retries stamp existing [])
      (fun result w =>
        Ready path stamp snapshots returned known tempId w ∧
          ∀ aside, result = .ok aside →
            SetAside path stamp known aside w) s := by
  cases existing with
  | nil =>
      refine ⟨h, ?_⟩
      intro aside heq
      cases heq
      constructor
      · exact nofun
      · exact nofun
  | cons stat rest =>
      have hrest : rest = [] := by
        cases rest with
        | nil => rfl
        | cons other rest => simp at hexisting
      subst hrest
      have hstamp : asideStamp path (asidePath path stamp []) = some stamp :=
        asideStamp_asidePath nofun
      have hmove : Keeps (serve checksum)
          (Moment path stamp snapshots returned)
          (moveWithRetry retries stat.id (asidePath path stamp [])) _ s :=
        keeps_moveWithRetry
          (J := fun w => Ready path stamp snapshots returned known tempId w ∧
            ∀ file ∈ w.files, file.id = stat.id → file.path = path ∨
              file.path = asidePath path stamp [])
          (fun w hw => hw.1.kept.moment_refl)
          (by
            rintro w ⟨hw, hplace⟩ file hfile hid hfree
            have hpath : file.path = path := by
              rcases hplace file hfile hid with hpath | hpath
              · exact hpath
              · exact absurd hpath (hfree file hfile)
            rcases hw.moveAside hfile hpath hfree hstamp with
              ⟨hmoment, hready⟩
            rw [← hid]
            refine ⟨hmoment, hready, ?_⟩
            intro other hother hsame
            rcases (mem_moved hw.kept hfile).mp hother with ⟨-, hne⟩ | rfl
            · exact absurd hsame hne
            · exact .inr rfl)
          ⟨h, fun file hfile hid =>
            .inl (hmain stat List.mem_cons_self file hfile hid)⟩ retries
      apply hmove.bind
      · rintro done w ⟨⟨hw, -⟩, hland⟩
        refine ⟨hw, ?_⟩
        intro aside heq
        cases heq
        rcases hland rfl with ⟨landed, hlanded, hid, hpath⟩
        constructor
        · intro other hother
          rw [List.mem_singleton.mp hother]
          exact hknown stat List.mem_cons_self
        · intro other hhead file hfile hsame
          cases hhead
          rw [hw.kept.eq_of_id hfile hlanded (hsame.trans hid.symm), hpath]
          exact hstamp
      · rintro error w ⟨⟨hw, -⟩, -⟩
        exact ⟨hw, nofun⟩

theorem keeps_batchDelete {ids : List ℕ}
    (h : InPlace path stamp snapshots returned known tempId s)
    (hids : ∀ id ∈ ids, id ∈ known.map VfsFile.id) :
    Keeps (serve checksum) (Moment path stamp snapshots returned)
      (batchDelete ids)
      (fun _ w => InPlace path stamp snapshots returned known tempId w)
      s := by
  rcases h.drop hids with ⟨hmoment, hdropped⟩
  have hdelete : Keeps (serve checksum) (Moment path stamp snapshots returned)
      (postDelete ids)
      (fun _ w => InPlace path stamp snapshots returned known tempId w)
      s := by
    apply keeps_op
    · rfl
    · exact h.kept.moment_refl
    · exact fun _ => h
    · exact hmoment
    · exact fun _ => hdropped
    · exact hdropped
    · exact fun _ => hdropped
  apply hdelete.bind
  · intro body w hw
    split
    · exact hw
    · exact hw
  · exact fun _ w hw => hw

theorem keeps_deleteStale (retries : ℕ) {stale : List VfsFileStat}
    (h : InPlace path stamp snapshots returned known tempId s)
    (hstale : ∀ stat ∈ stale, stat.id ∈ known.map VfsFile.id) :
    Keeps (serve checksum) (Moment path stamp snapshots returned)
      (deleteStale retries stale)
      (fun result w => result = .ok () ∧
        InPlace path stamp snapshots returned known tempId w) s := by
  have hids : ∀ id ∈ stale.map VfsFileStat.id, id ∈ known.map VfsFile.id := by
    intro id hid
    rcases List.mem_map.mp hid with ⟨stat, hstat, rfl⟩
    exact hstale stat hstat
  unfold deleteStale
  split
  · exact ⟨rfl, h⟩
  · have hretry : Keeps (serve checksum) (Moment path stamp snapshots returned)
        (withRetry isRetryableRequest
          (batchDelete (stale.map VfsFileStat.id)) retries)
        (fun _ w => InPlace path stamp snapshots returned known tempId w)
        s := by
      apply keeps_withRetry
        (J := InPlace path stamp snapshots returned known tempId)
      · intro w hw
        apply (keeps_batchDelete hw hids).imp
        exact fun _ _ hresult => ⟨hresult, fun _ _ => hresult⟩
      · exact h
    apply hretry.tryCatch
    · exact fun _ w hw => ⟨rfl, hw⟩
    · exact fun _ w hw => ⟨rfl, hw⟩

variable {snaps : List (List UInt8)}

/-- A save starts: nothing carries its stamp. -/
theorem uploading_start {clock : ℕ}
    (gz : List UInt8) (h : s.Kept path clock snaps returned)
    (hclock : clock < stamp) :
    Uploading path stamp (snaps ++ [gz]) returned (s.files.filter fun file =>
        decide (file.path = path) || isLeftover path file.path)
      { s with saving := snaps.length } := by
  have hlength : (snaps ++ [gz]).length = snaps.length + 1 := by simp
  have hcopied : ∀ file : VfsFile, snaps[file.writtenBy]? = some file.content →
        (snaps ++ [gz])[file.writtenBy]? = some file.content := by
    intro file hold
    rw [List.getElem?_append_left (List.getElem?_eq_some_iff.mp hold).1]
    exact hold
  have hkept : ({ s with saving := snaps.length } : OwnerStorage).Kept path
      stamp (snaps ++ [gz]) returned := by
    refine { h with temps := ?_, asides := ?_, written := ?_, copies := ?_ }
    · exact fun file hfile at' hat =>
        (h.temps file hfile at' hat).trans hclock.le
    · exact fun file hfile at' hat =>
        (h.asides file hfile at' hat).trans hclock.le
    · intro file hfile hown
      have hwritten := h.written file hfile hown
      omega
    · intro file hfile hcopy
      rcases h.copies file hfile hcopy with ⟨hdone, hcontent⟩
      exact ⟨hdone, hcopied file hcontent⟩
  have hknown : ∀ file ∈ s.files, OwnName path file.path →
      file ∈ s.files.filter fun file =>
        decide (file.path = path) || isLeftover path file.path := by
    intro file hfile hown
    apply List.mem_filter.mpr
    refine ⟨hfile, ?_⟩
    rcases hown with hmain | hleft
    · simp [hmain]
    · simp [hleft]
  constructor
  · constructor
    · exact hkept
    · exact hlength.symm
    · intro file hfile hid
      rcases List.mem_map.mp hid with ⟨other, hother, hsame⟩
      rcases List.mem_filter.mp hother with ⟨hmem, hown⟩
      obtain rfl := h.eq_of_id hmem hfile hsame
      have hownName : OwnName path other.path := by
        simpa [OwnName] using hown
      exact ⟨hownName, h.written other hfile hownName⟩
    · exact fun file hfile => h.fresh file (List.mem_of_mem_filter hfile)
  · intro file hfile htemp
    exact absurd (h.temps file hfile stamp htemp) (not_le.mpr hclock)
  · exact fun file hfile hown _ => hknown file hfile hown
  · intro file hfile hat
    exact absurd (h.asides file hfile stamp hat) (not_le.mpr hclock)

/-- A listing has one file at the path at most. -/
theorem existing_length {clock : ℕ} {listing : List VfsFileStat}
    (hsub : listing.Sublist (s.listing checksum))
    (h : s.Kept path clock snaps returned) :
    (listing.filter fun file => decide (file.path = path)).length ≤ 1 := by
  have hpaths : ((s.listing checksum).map VfsFileStat.path).Nodup := by
    unfold OwnerStorage.listing
    rw [List.map_map]
    exact h.paths
  have hfilter : (listing.filter fun file =>
      decide (file.path = path)).Sublist listing := List.filter_sublist
  have hnodup := hpaths.sublist ((hfilter.trans hsub).map VfsFileStat.path)
  have hall : ∀ stat ∈ listing.filter fun file => decide (file.path = path),
      stat.path = path := by
    intro stat hstat
    simpa using (List.mem_filter.mp hstat).2
  generalize (listing.filter fun file => decide (file.path = path)) =
    existing at hfilter hnodup hall ⊢
  match existing with
  | [] => exact Nat.zero_le _
  | [_] => exact Nat.le_refl _
  | first :: second :: rest =>
      rw [List.map_cons, List.map_cons, List.nodup_cons] at hnodup
      have hsame : first.path = second.path :=
        (hall first List.mem_cons_self).trans
          (hall second (List.mem_cons_of_mem _ List.mem_cons_self)).symm
      rw [hsame] at hnodup
      exact absurd List.mem_cons_self hnodup.1

/-- What a save does, whatever becomes of its requests. -/
theorem keeps_save {clock : ℕ}
    {gz : List UInt8} (h : s.Kept path clock snaps returned)
    (hclock : clock < stamp) (retries : ℕ) (gzippedLength : Option ℕ) :
    Keeps (serve checksum) (Moment path stamp (snaps ++ [gz]) returned)
      (save path retries stamp gz gzippedLength)
      (fun result w => w.Kept path stamp (snaps ++ [gz]) returned ∧
        ∀ saved, result = .ok saved → ∃ file ∈ w.files, file.path = path ∧
          file.writtenBy = snaps.length)
      { s with saving := snaps.length } := by
  have hstart := uploading_start gz h hclock
  generalize hknown : (s.files.filter fun file =>
    decide (file.path = path) || isLeftover path file.path) = known at hstart
  have hgz : (snaps ++ [gz]).getLast? = some gz := by simp
  have hlist : Keeps (serve checksum)
      (Moment path stamp (snaps ++ [gz]) returned) listOracleFiles
      (fun result w => w = { s with saving := snaps.length } ∧
        ∀ listing, result = .ok listing → listing.Sublist (s.listing checksum))
      { s with saving := snaps.length } := by
    apply keeps_listOracleFiles hstart.kept.moment_refl
    · exact fun _ => ⟨rfl, nofun⟩
    · exact fun listing hsub => ⟨rfl, fun other heq =>
        Except.ok.inj heq ▸ hsub⟩
  apply hlist.bind
  · rintro listing w ⟨rfl, hlisting⟩
    have hsub := hlisting listing rfl
    have hown : ∀ stat ∈ listing, (stat.path = path ∨
        isLeftover path stat.path = true) → ∃ file ∈ known,
          file ∈ s.files ∧ file.id = stat.id ∧ file.path = stat.path := by
      intro stat hstat hname
      rcases isListed hsub stat hstat with ⟨file, hfile, hid, hpath⟩
      refine ⟨file, ?_, hfile, hid.symm, hpath.symm⟩
      rw [← hknown]
      refine List.mem_filter.mpr ⟨hfile, ?_⟩
      rw [← hpath]
      simpa using hname
    have hfinal : ∀ {tempId : ℕ} {w : OwnerStorage},
        InPlace path stamp (snaps ++ [gz]) returned known tempId w →
          w.Kept path stamp (snaps ++ [gz]) returned ∧
            ∃ file ∈ w.files, file.path = path ∧
              file.writtenBy = snaps.length := by
      intro tempId w hw
      rcases hw.main with ⟨main, hmain, -, hpath, hwritten⟩
      have hnumber := hw.number
      rw [List.length_append, List.length_singleton] at hnumber
      exact ⟨hw.kept, main, hmain, hpath, hwritten.trans
        (Nat.succ.inj hnumber)⟩
    apply (keeps_upload retries hstart hgz _).bind
    · rintro ⟨tempId, contentHash⟩ w ⟨hw, htemp⟩
      have hready := hw.ready (htemp _ rfl)
      have hmainFiles : ∀ stat ∈ listing.filter fun file =>
          decide (file.path = path), ∀ file ∈ w.files, file.id = stat.id →
            file.path = path := by
        intro stat hstat file hfile hid
        rcases List.mem_filter.mp hstat with ⟨hmem, hpath⟩
        rw [decide_eq_true_iff] at hpath
        rcases hown stat hmem (.inl hpath) with
          ⟨before, hbefore, hstored, hsame, hbeforePath⟩
        have hid' : file.id ∈ known.map VfsFile.id := by
          rw [hid, ← hsame]
          exact List.mem_map_of_mem hbefore
        have htempPath : file.path ≠ tempPath path stamp :=
          fun heq => (hw.temp file hfile heq).2 hid'
        have hfileKnown := hw.others file hfile
          (hw.earlier file hfile hid').1 htempPath
        rw [← hknown] at hfileKnown
        rw [h.eq_of_id (List.mem_of_mem_filter hfileKnown) hstored
          (hid.trans hsame.symm), hbeforePath]
        exact hpath
      apply (keeps_moveAside retries hready (existing_length hsub h) (by
        intro stat hstat
        rcases List.mem_filter.mp hstat with ⟨hmem, hpath⟩
        rw [decide_eq_true_iff] at hpath
        rcases hown stat hmem (.inl hpath) with ⟨file, hfile, -, hid, -⟩
        exact hid ▸ List.mem_map_of_mem hfile) hmainFiles).bind
      · rintro aside w' ⟨hw', haside⟩
        apply (keeps_moveIntoPlace retries ⟨.inl hw', haside aside rfl⟩).bind
        · rintro ⟨moved, aside'⟩ w'' ⟨moved', aside'', heq, hw'', hplace⟩
          obtain ⟨rfl, rfl⟩ := Prod.mk.inj (Except.ok.inj heq)
          cases moved with
          | error error =>
              apply (keeps_restoreAside retries hw'').bind
              · exact fun _ _ hkept => ⟨hkept, nofun⟩
              · exact fun _ _ hkept => ⟨hkept, nofun⟩
          | ok done =>
              apply (keeps_deleteStale retries (hplace rfl) (by
                intro stat hstat
                rcases List.mem_append.mp (List.mem_of_mem_filter hstat) with
                  hleft | hset
                · rcases List.mem_filter.mp hleft with ⟨hmem, hname⟩
                  rcases hown stat hmem (.inr hname) with
                    ⟨file, hfile, -, hid, -⟩
                  exact hid ▸ List.mem_map_of_mem hfile
                · exact hw''.aside.known stat hset)).bind
              · rintro done' w3 ⟨-, hw3⟩
                cases contentHash with
                | some hash => exact ⟨hw3.kept, fun _ _ => (hfinal hw3).2⟩
                | none =>
                    have hstat : Keeps (serve checksum)
                        (Moment path stamp (snaps ++ [gz]) returned)
                        (statPath path) (fun _ w => w = w3) w3 := by
                      apply keeps_statPath hw3.kept.moment_refl
                      · exact fun _ => rfl
                      · rfl
                      · exact fun _ _ _ _ _ _ => rfl
                    apply hstat.bind
                    · rintro found w4 rfl
                      exact ⟨hw3.kept, fun _ _ => (hfinal hw3).2⟩
                    · rintro error w4 rfl
                      exact ⟨hw3.kept, nofun⟩
              · rintro error w3 ⟨heq', -⟩
                cases heq'
        · rintro error w'' ⟨moved, aside', heq, -⟩
          cases heq
      · rintro error w' ⟨hw', -⟩
        exact ⟨hw'.kept, nofun⟩
    · rintro error w ⟨hw, -⟩
      exact ⟨hw.kept, nofun⟩
  · rintro error w ⟨rfl, -⟩
    exact ⟨hstart.kept, nofun⟩

end OwnerStore

end QiForge
