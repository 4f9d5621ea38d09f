import QiForge.OwnerStoreMoments

/-!
# The store's requests

One rule for each request of the owner store: what its environment may make
of it.  A move that took effect may still be reported as an error; one that
did not is never reported as done.
-/

namespace QiForge

namespace OwnerStorage

variable {checksum : List UInt8 → String} {s : OwnerStorage} {id : ℕ}
  {path : VfsPath} {file : VfsFile}

theorem find_eq_some (hfind : s.find id = some file) :
    file ∈ s.files ∧ file.id = id :=
  ⟨List.mem_of_find?_eq_some hfind, by simpa using List.find?_some hfind⟩

theorem find_eq_none (hfind : s.find id = none) :
    ∀ file ∈ s.files, file.id ≠ id := by
  simpa [find] using hfind

theorem at'_eq_some (hat : s.at' path = some file) :
    file ∈ s.files ∧ file.path = path :=
  ⟨List.mem_of_find?_eq_some hat, by simpa using List.find?_some hat⟩

theorem at'_eq_none (hat : s.at' path = none) :
    ∀ file ∈ s.files, file.path ≠ path := by
  simpa [at'] using hat

theorem mem_change {f : VfsFile → VfsFile} : file ∈ (s.change id f).files ↔
      (file ∈ s.files ∧ file.id ≠ id) ∨
        ∃ before ∈ s.files, before.id = id ∧ file = f before := by
  unfold change
  constructor
  · intro hmem
    rcases List.mem_map.mp hmem with ⟨before, hbefore, rfl⟩
    by_cases hid : before.id = id
    · exact .inr ⟨before, hbefore, hid, if_pos hid⟩
    · rw [if_neg hid]
      exact .inl ⟨hbefore, hid⟩
  · rintro (⟨hmem, hid⟩ | ⟨before, hbefore, hid, rfl⟩)
    · exact List.mem_map.mpr ⟨file, hmem, if_neg hid⟩
    · exact List.mem_map.mpr ⟨before, hbefore, if_pos hid⟩

theorem change_map {β : Type*} {f : VfsFile → VfsFile} (g : VfsFile → β)
    (hsame : ∀ file, g (f file) = g file) :
    (s.change id f).files.map g = s.files.map g := by
  unfold change
  rw [List.map_map]
  apply List.map_congr_left
  intro file _
  rw [Function.comp_apply]
  split
  · exact hsame file
  · rfl

theorem mem_drop {ids : List ℕ} :
    file ∈ (s.drop ids).files ↔ file ∈ s.files ∧ file.id ∉ ids := by
  simp [drop]

/-- The file after a move. -/
def moved (s : OwnerStorage) (id : ℕ) (destinationPath : VfsPath) :
    OwnerStorage :=
  s.change id fun file => { file with path := destinationPath }

end OwnerStorage

namespace OwnerStore

open Requests OwnerStorage

variable {checksum : List UInt8 → String}
  {R : OwnerStorage → OwnerStorage → Prop} {s : OwnerStorage}

/-- The entry of a file that is stored. -/
def IsListed (s : OwnerStorage) (stat : VfsFileStat) : Prop :=
  ∃ file ∈ s.files, stat.id = file.id ∧ stat.path = file.path

/-- The fates of a request, given what it does when it is answered. -/
theorem keeps_op {op : VfsRequest} {s' : OwnerStorage}
    {result : Except VfsError op.Answer}
    {Q : Except VfsError op.Answer → OwnerStorage → Prop}
    (hanswer : s.answer checksum op = (s', result)) (hstay : R s s)
    (herror : ∀ error, Q (.error error) s) (htook : R s s')
    (hlost : ∀ error, Q (.error error) s') (hresult : Q result s')
    (hunreadable : ∀ pages, Q (result.map (garble pages op)) s') :
    Keeps (serve checksum) R (request op) Q s := by
  apply keeps_request
  intro fate
  cases fate with
  | answered =>
      rw [serve, hanswer]
      exact ⟨htook, hresult⟩
  | unreadable pages =>
      rw [serve, hanswer]
      exact ⟨htook, hunreadable pages⟩
  | failed took error =>
      cases took with
      | true =>
          rw [serve, hanswer]
          exact ⟨htook, hlost error⟩
      | false => exact ⟨hstay, herror error⟩

/-- A request that is refused whenever it is answered. -/
theorem keeps_refused {op : VfsRequest} {error : VfsError}
    {Q : Except VfsError op.Answer → OwnerStorage → Prop}
    (hanswer : s.answer checksum op = (s, .error error)) (hstay : R s s)
    (herror : ∀ error, Q (.error error) s) :
    Keeps (serve checksum) R (request op) Q s := by
  apply keeps_op hanswer hstay herror hstay herror (herror error)
  exact fun _ => herror error

theorem isListed {listing : List VfsFileStat}
    (hsub : listing.Sublist (s.listing checksum)) :
    ∀ stat ∈ listing, IsListed s stat := by
  intro stat hstat
  rcases List.mem_map.mp (hsub.subset hstat) with ⟨file, hfile, rfl⟩
  exact ⟨file, hfile, rfl, rfl⟩

/-- A listing is all of the files or, broken off, the first of them. -/
theorem keeps_listOracleFiles
    {Q : Except VfsError (List VfsFileStat) → OwnerStorage → Prop}
    (hstay : R s s) (herror : ∀ error, Q (.error error) s)
    (hok : ∀ listing : List VfsFileStat,
      listing.Sublist (s.listing checksum) → Q (.ok listing) s) :
    Keeps (serve checksum) R listOracleFiles Q s := by
  apply keeps_op
  · rfl
  · exact hstay
  · exact herror
  · exact hstay
  · exact herror
  · exact hok _ (List.Sublist.refl _)
  · exact fun pages => hok _ (List.take_sublist _ _)

theorem keeps_statPath {path : VfsPath}
    {Q : Except VfsError (Option VfsFileStat) → OwnerStorage → Prop}
    (hstay : R s s) (herror : ∀ error, Q (.error error) s)
    (hnone : Q (.ok none) s)
    (hsome : ∀ file ∈ s.files, file.path = path → ∀ stat : VfsFileStat,
      stat.id = file.id → stat.path = path → Q (.ok (some stat)) s) :
    Keeps (serve checksum) R (statPath path) Q s := by
  have hlist : Keeps (serve checksum) R listOracleFiles
      (fun result w => w = s ∧ ∀ listing, result = .ok listing →
        ∀ stat ∈ listing, IsListed s stat) s := by
    apply keeps_listOracleFiles hstay
    · exact fun _ => ⟨rfl, nofun⟩
    · exact fun listing hsub => ⟨rfl, fun other heq =>
        Except.ok.inj heq ▸ isListed hsub⟩
  apply hlist.bind
  · rintro listing w ⟨rfl, hlisted⟩
    change Q (.ok _) w
    cases hfind : listing.find? fun file => decide (file.path = path) with
    | none => exact hnone
    | some stat =>
        have hpath : stat.path = path := by
          simpa using List.find?_some hfind
        rcases hlisted listing rfl stat (List.mem_of_find?_eq_some hfind) with
          ⟨file, hfile, hid, hsame⟩
        exact hsome file hfile (hsame.symm.trans hpath) stat hid hpath
  · rintro error w ⟨rfl, -⟩
    exact herror error

/-- A move happens or not; only one that happened is answered as done. -/
theorem serve_move (checksum : List UInt8 → String) (s : OwnerStorage)
    (id : ℕ) (destinationPath : VfsPath) (fate : VfsFate) :
    ((s.serve checksum (.move id destinationPath) fate).1 = s ∧
      (s.serve checksum (.move id destinationPath) fate).2 ≠ .ok (some .ok)) ∨
    ((s.serve checksum (.move id destinationPath) fate).1 =
        s.moved id destinationPath ∧
      (∃ file ∈ s.files, file.id = id) ∧
        ∀ other ∈ s.files, other.path ≠ destinationPath) := by
  have hanswer : ((s.answer checksum (.move id destinationPath)).1 = s ∧
      ∃ status, (s.answer checksum (.move id destinationPath)).2 =
        .ok (some (.refused status))) ∨
      ((s.answer checksum (.move id destinationPath)).1 =
          s.moved id destinationPath ∧
        (∃ file ∈ s.files, file.id = id) ∧
          ∀ other ∈ s.files, other.path ≠ destinationPath) := by
    unfold answer
    dsimp only
    split
    next => exact .inl ⟨rfl, 404, rfl⟩
    next => exact .inl ⟨rfl, 409, rfl⟩
    next file hfind hat =>
      exact .inr ⟨rfl, ⟨file, find_eq_some hfind⟩, at'_eq_none hat⟩
  rcases hanswer with ⟨hsame, status, hrefused⟩ | hmoved
  · apply Or.inl
    cases fate with
    | answered =>
        refine ⟨hsame, ?_⟩
        change (s.answer checksum _).2 ≠ _
        rw [hrefused]
        nofun
    | unreadable pages =>
        refine ⟨hsame, ?_⟩
        change (s.answer checksum _).2.map (garble pages _) ≠ _
        rw [hrefused]
        nofun
    | failed took error =>
        cases took with
        | true => exact ⟨hsame, nofun⟩
        | false => exact ⟨rfl, nofun⟩
  · cases fate with
    | answered => exact .inr hmoved
    | unreadable pages => exact .inr hmoved
    | failed took error =>
        cases took with
        | true => exact .inr hmoved
        | false => exact .inl ⟨rfl, nofun⟩

variable {destinationPath : VfsPath}

theorem keeps_move {id : ℕ} {Q : Except VfsError Unit → OwnerStorage → Prop}
    (hstay : R s s) (herror : ∀ error, Q (.error error) s)
    (hmoved : ∀ file ∈ s.files, file.id = id →
      (∀ other ∈ s.files, other.path ≠ destinationPath) →
        R s (s.moved id destinationPath) ∧
          ∀ result, Q result (s.moved id destinationPath)) :
    Keeps (serve checksum) R (move id destinationPath) Q s := by
  apply keeps_andThen.mpr
  intro fate
  rcases serve_move checksum s id destinationPath fate with
    ⟨hsame, hnot⟩ | ⟨hmove, ⟨file, hfile, hid⟩, hfree⟩
  · rw [hsame]
    refine ⟨hstay, ?_⟩
    generalize (s.serve checksum _ fate).2 = result at hnot ⊢
    rcases result with error | (body : Option BatchItem)
    · exact herror error
    · rcases body with - | item
      · exact herror _
      · cases item with
        | ok => exact absurd rfl hnot
        | refused status => exact herror _
  · rcases hmoved file hfile hid hfree with ⟨hR, hQ⟩
    rw [hmove]
    refine ⟨hR, ?_⟩
    generalize (s.serve checksum _ fate).2 = result
    rcases result with error | (body : Option BatchItem)
    · exact hQ _
    · rcases body with - | item
      · exact hQ _
      · cases item with
        | ok => exact hQ _
        | refused status => exact hQ _

/-- The file is where a move sent it. -/
def Landed (id : ℕ) (destinationPath : VfsPath) (s : OwnerStorage) : Prop :=
  ∃ file ∈ s.files, file.id = id ∧ file.path = destinationPath

theorem landed_moved {id : ℕ} {file : VfsFile}
    (hfile : file ∈ s.files) (hid : file.id = id) :
    Landed id destinationPath (s.moved id destinationPath) :=
  ⟨{ file with path := destinationPath },
    mem_change.mpr (.inr ⟨file, hfile, hid, rfl⟩), hid, rfl⟩

/-- A move with its retries, over an invariant that the move keeps. -/
theorem keeps_moveWithRetry {id : ℕ}
    {J : OwnerStorage → Prop} (hstay : ∀ w, J w → R w w)
    (hmoved : ∀ w, J w → ∀ file ∈ w.files, file.id = id →
      (∀ other ∈ w.files, other.path ≠ destinationPath) →
        R w (w.moved id destinationPath) ∧ J (w.moved id destinationPath))
    (hJ : J s) (retries : ℕ) :
    Keeps (serve checksum) R (moveWithRetry retries id destinationPath)
      (fun result w => J w ∧ (result = .ok () → Landed id destinationPath w))
      s := by
  apply keeps_withRetry (J := J)
  · intro w hw
    have hmove : Keeps (serve checksum) R (move id destinationPath)
        (fun result w => J w ∧
          (result = .ok () → Landed id destinationPath w)) w := by
      apply keeps_move (hstay w hw)
      · exact fun error => ⟨hw, nofun⟩
      · intro file hfile hid hfree
        rcases hmoved w hw file hfile hid hfree with ⟨hR, hnext⟩
        exact ⟨hR, fun _ => ⟨hnext, fun _ => landed_moved hfile hid⟩⟩
    apply hmove.tryCatch
    · rintro ⟨⟩ w' ⟨hw', hland⟩
      exact ⟨⟨hw', hland⟩, nofun⟩
    · rintro error w' ⟨hw', -⟩
      split
      · have hfound : Keeps (serve checksum) R (statPath destinationPath)
            (fun result w => J w ∧ ∀ found, result = .ok found →
              found.map VfsFileStat.id = some id →
                Landed id destinationPath w) w' := by
          apply keeps_statPath (hstay w' hw')
          · exact fun error => ⟨hw', nofun⟩
          · exact ⟨hw', fun found heq => Except.ok.inj heq ▸ nofun⟩
          · intro file hfile hpath stat hid _
            refine ⟨hw', ?_⟩
            intro found heq hsame
            cases heq
            exact ⟨file, hfile, hid.symm.trans (Option.some.inj hsame), hpath⟩
        apply hfound.bind
        · rintro found w'' ⟨hw'', hland⟩
          split
          next hsame =>
            exact ⟨⟨hw'', fun _ => hland found rfl hsame⟩, nofun⟩
          next => exact ⟨⟨hw'', nofun⟩, fun _ _ => hw''⟩
        · rintro error w'' ⟨hw'', -⟩
          exact ⟨⟨hw'', nofun⟩, fun _ _ => hw''⟩
      · exact ⟨⟨hw', nofun⟩, fun _ _ => hw'⟩
  · exact hJ

end OwnerStore

end QiForge
