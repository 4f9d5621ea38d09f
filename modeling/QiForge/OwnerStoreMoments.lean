import Mathlib.Data.List.TakeWhile
import QiForge.OwnerStore

/-!
# What the owner's storage keeps between two requests

The names of a save's files, read back from the path, and the invariant of the
storage.
-/

namespace QiForge

section Names

variable {path file : VfsPath} {stamp other : ℕ}

theorem base36Value_digit : ∀ digit < 36,
    base36Value (base36Digit digit) = some digit ∧
      base36Digit digit ≠ '-' := by
  decide

theorem toBase36_eq (n : ℕ) : ∃ digits : List ℕ, digits ≠ [] ∧
    (∀ digit ∈ digits, digit < 36) ∧ Nat.ofDigits 36 digits = n ∧
      toBase36 n = digits.reverse.map base36Digit := by
  by_cases hzero : n = 0
  · subst hzero
    refine ⟨[0], nofun, ?_, rfl, rfl⟩
    intro digit hdigit
    rw [List.mem_singleton.mp hdigit]
    decide
  · refine ⟨Nat.digits 36 n, Nat.digits_ne_nil_iff_ne_zero.mpr hzero, ?_,
      Nat.ofDigits_digits 36 n, if_neg hzero⟩
    intro digit hdigit
    exact Nat.digits_lt_base (by decide) hdigit

theorem parseBase36_toBase36 (n : ℕ) : parseBase36 (toBase36 n) = some n := by
  rcases toBase36_eq n with ⟨digits, hne, hbound, hvalue, heq⟩
  have hmap : (toBase36 n).map base36Value = digits.reverse.map some := by
    rw [heq, List.map_map]
    apply List.map_congr_left
    intro digit hdigit
    exact (base36Value_digit digit
      (hbound digit (List.mem_reverse.mp hdigit))).1
  have hall : (digits.reverse.map some).takeWhile Option.isSome =
      digits.reverse.map some := by
    rw [List.takeWhile_eq_self_iff]
    simp
  have hfold : (digits.reverse.map some).foldl
      (fun value digit => value * 36 + digit.getD 0) 0 = n := by
    rw [List.foldl_map, List.foldl_reverse, ← hvalue, Nat.ofDigits_eq_foldr]
    congr 1
    funext digit value
    simp only [Option.getD_some, Nat.cast_id]
    ring
  unfold parseBase36
  rw [hmap, hall]
  cases hlist : digits.reverse.map some with
  | nil =>
      rw [List.map_eq_nil_iff, List.reverse_eq_nil_iff] at hlist
      exact absurd hlist hne
  | cons head tail =>
      rw [hlist] at hfold
      exact congrArg some hfold

theorem toBase36_not_dash {n : ℕ} {c : Char} (hmem : c ∈ toBase36 n) :
    c ≠ '-' := by
  rcases toBase36_eq n with ⟨digits, -, hbound, -, heq⟩
  rw [heq] at hmem
  rcases List.mem_map.mp hmem with ⟨digit, hdigit, rfl⟩
  exact (base36Value_digit digit (hbound digit (List.mem_reverse.mp hdigit))).2

theorem toBase36_inj (heq : toBase36 stamp = toBase36 other) :
    stamp = other := by
  have hparse := parseBase36_toBase36 stamp
  rw [heq, parseBase36_toBase36] at hparse
  exact (Option.some.inj hparse).symm

/-- The reader finds the stamp a copy was set aside with. -/
theorem asideStamp_asidePath {suffix : List Char}
    (hsuffix : ∀ c rest, suffix = c :: rest → c = '-') :
    asideStamp path (asidePath path stamp suffix) = some stamp := by
  have hpath : asidePath path stamp suffix =
      (path ++ asidePathInfix) ++ (toBase36 stamp ++ suffix) := by
    unfold asidePath
    rw [List.append_assoc]
  unfold asideStamp
  rw [hpath, if_pos (List.isPrefixOf_iff_prefix.mpr (List.prefix_append _ _)),
    List.drop_left]
  have htake : (toBase36 stamp ++ suffix).takeWhile
      (fun c => !decide (c = '-')) = toBase36 stamp := by
    rw [List.takeWhile_append_of_pos]
    · cases suffix with
      | nil => simp
      | cons c rest =>
          rw [hsuffix c rest rfl]
          simp
    · intro c hc
      simpa using toBase36_not_dash hc
  rw [htake]
  exact parseBase36_toBase36 stamp

theorem isPrefixOf_append_left {front rest : List Char} :
    (path ++ front).isPrefixOf (path ++ rest) = front.isPrefixOf rest := by
  induction path with
  | nil => rfl
  | cons c path ih => simpa using ih

theorem asideStamp_self : asideStamp path path = none := by
  apply if_neg
  intro hfront
  have hlength := (List.isPrefixOf_iff_prefix.mp hfront).length_le
  have hinfix : asidePathInfix.length = 10 := by decide
  rw [List.length_append, hinfix] at hlength
  omega

theorem asideInfix_not_prefix (rest : List Char) :
    asidePathInfix.isPrefixOf (tempPathInfix ++ rest) = false := by
  have haside : asidePathInfix = '.' :: 'r' :: "eplaced-".toList := by
    decide
  have htemp : tempPathInfix = '.' :: 'u' :: "ploading-".toList := by
    decide
  rw [haside, htemp]
  rfl

theorem asideStamp_tempPath : asideStamp path (tempPath path stamp) = none := by
  unfold asideStamp tempPath
  rw [isPrefixOf_append_left, asideInfix_not_prefix]
  rfl

theorem tempPath_inj (heq : tempPath path stamp = tempPath path other) :
    stamp = other :=
  toBase36_inj (List.append_cancel_left (List.append_cancel_left heq))

theorem tempPath_ne : tempPath path stamp ≠ path := by
  intro heq
  have hlength := congrArg List.length heq
  have hinfix : tempPathInfix.length = 11 := by decide
  unfold tempPath at hlength
  rw [List.length_append, List.length_append, hinfix] at hlength
  omega

/-- One of this store's own names for this oracle. -/
def OwnName (path file : VfsPath) : Prop :=
  file = path ∨ isLeftover path file = true

theorem ownName_tempPath : OwnName path (tempPath path stamp) := by
  apply Or.inr
  unfold isLeftover tempPath
  rw [isPrefixOf_append_left, List.isPrefixOf_iff_prefix.mpr
    (List.prefix_append _ _), Bool.true_or]

theorem ownName_of_asideStamp (hstamp : asideStamp path file = some stamp) :
    OwnName path file := by
  rcases Option.ite_none_right_eq_some.mp hstamp with ⟨hfront, -⟩
  apply Or.inr
  unfold isLeftover
  rw [hfront, Bool.or_true]

/-- The file at the path or a set-aside copy. -/
def IsCopy (path file : VfsPath) : Prop :=
  file = path ∨ (asideStamp path file).isSome = true

theorem IsCopy.ownName (h : IsCopy path file) : OwnName path file := by
  rcases h with hmain | haside
  · exact .inl hmain
  · rcases Option.isSome_iff_exists.mp haside with ⟨stamp, hstamp⟩
    exact ownName_of_asideStamp hstamp

theorem not_isCopy_tempPath : ¬ IsCopy path (tempPath path stamp) := by
  rintro (hmain | haside)
  · exact tempPath_ne hmain
  · rw [asideStamp_tempPath] at haside
    cases haside

end Names

/-- What the storage keeps at every moment: the copies are complete, a newer
stamp is a copy of a save that is not older, and nothing is older than the
last save that returned. -/
structure OwnerStorage.Kept (path : VfsPath) (clock : ℕ)
    (snapshots : List (List UInt8)) (returned : Option ℕ)
    (s : OwnerStorage) : Prop where
  ids : (s.files.map VfsFile.id).Nodup
  paths : (s.files.map VfsFile.path).Nodup
  fresh : ∀ file ∈ s.files, file.id < s.nextId
  temps : ∀ file ∈ s.files, ∀ stamp, file.path = tempPath path stamp →
    stamp ≤ clock
  asides : ∀ file ∈ s.files, ∀ stamp, asideStamp path file.path = some stamp →
    stamp ≤ clock
  written : ∀ file ∈ s.files, OwnName path file.path →
    file.writtenBy < snapshots.length
  copies : ∀ file ∈ s.files, IsCopy path file.path → file.uploading = none ∧
    snapshots[file.writtenBy]? = some file.content
  mainNewest : ∀ file ∈ s.files, file.path = path → ∀ other ∈ s.files,
    IsCopy path other.path → other.writtenBy ≤ file.writtenBy
  asideOrder : ∀ file ∈ s.files, ∀ other ∈ s.files, ∀ stamp stamp',
    asideStamp path file.path = some stamp →
      asideStamp path other.path = some stamp' → stamp ≤ stamp' →
        file.writtenBy ≤ other.writtenBy
  lastKept : ∀ n, returned = some n → ∃ file ∈ s.files,
    IsCopy path file.path ∧ n ≤ file.writtenBy

/-- What one request does to the storage. -/
structure OwnerStorage.Moment (path : VfsPath) (clock : ℕ)
    (snapshots : List (List UInt8)) (returned : Option ℕ)
    (s s' : OwnerStorage) : Prop where
  kept : s'.Kept path clock snapshots returned
  foreign : ∀ file ∈ s.files, ¬ OwnName path file.path → file ∈ s'.files
  deleted : ∀ file ∈ s.files, file.uploading = none →
    (∀ other ∈ s'.files, other.id ≠ file.id) →
      ∃ newer ∈ s'.files, newer.path = path ∧ newer.uploading = none ∧
        file.writtenBy < newer.writtenBy

end QiForge
