import QiForge.TierObjects

/-!
# The orphan sweep

`maintenance` over a bucket of object keys that others share: the queued keys
are deleted, and then a step lists one page of the prefix and deletes the
segment-shaped keys of it that the map does not reference.  A full sweep asks
for the first page again each time, so it advances only by deleting.
-/

namespace QiForge
namespace OrphanSweep

def SWEEP_STEP_KEYS : ℕ := 1000

def R2_DELETE_BATCH : ℕ := 1000

/-- The keys of a bucket, in lexicographic order. -/
structure Bucket where
  keys : List String
  sorted : keys.Pairwise (· < ·)

namespace Bucket

def delete (bucket : Bucket) (keys : List String) : Bucket :=
  ⟨bucket.keys.filter (· ∉ keys), bucket.sorted.filter _⟩

def deleteKeys (bucket : Bucket) (keys : List String) : Bucket :=
  if keys = [] then
    bucket
  else
    (bucket.delete (keys.take R2_DELETE_BATCH)).deleteKeys
      (keys.drop R2_DELETE_BATCH)
termination_by keys.length
decreasing_by
  have := List.length_pos_of_ne_nil ‹_›
  simp only [List.length_drop, R2_DELETE_BATCH]
  omega

def startsWith (start key : String) : Bool :=
  start.toList.isPrefixOf key.toList

/-- The keys a listing of the prefix still has to return. -/
def matching (bucket : Bucket) (start : String)
    (startAfter : Option String) : List String :=
  bucket.keys.filter fun key =>
    startsWith start key && startAfter.all (· < key)

structure Page where
  objects : List String
  truncated : Bool

def list (bucket : Bucket) (start : String) (limit : ℕ)
    (startAfter : Option String) : Page :=
  let matching := bucket.matching start startAfter
  { objects := matching.take limit
    truncated := decide (limit < matching.length) }

end Bucket

/-- A `.` of the pattern matches every character but a line terminator. -/
def isLineTerminator (c : Char) : Bool :=
  c = '\n' || c = '\r' || c = '\u2028' || c = '\u2029'

/-- `/^.+\/\d+\.\d+$/`, read from the end. -/
def isSegmentPath (path : List Char) : Bool :=
  let gen := path.reverse.takeWhile Char.isDigit
  let beforeGen := path.reverse.dropWhile Char.isDigit
  let segno := beforeGen.tail.takeWhile Char.isDigit
  let beforeSegno := beforeGen.tail.dropWhile Char.isDigit
  let file := beforeSegno.tail
  gen ≠ [] && beforeGen.head? = some '.' &&
    segno ≠ [] && beforeSegno.head? = some '/' &&
    file ≠ [] && file.all (!isLineTerminator ·)

structure SweepRow where
  last_complete_at : Option ℕ
  after_key : Option String

/-- What a call of `maintenance` works on; `rows` are the rows of
`vfs2_tier_segments` of every file. -/
structure Tier where
  keyPrefix : String
  rows : List (SegmentKey String)
  bucket : Bucket
  pendingDeletes : List String
  sweep : SweepRow
  now : ℕ

namespace Tier

variable (t : Tier)

def head : String := t.keyPrefix ++ "/"

def key (row : SegmentKey String) : String :=
  t.keyPrefix ++ "/" ++ row.file ++ "/" ++ toString row.segno ++ "." ++
    toString row.gen

def referencedKeys : List String := t.rows.map t.key

def isSegmentKey (key : String) : Bool := Bucket.startsWith t.head key &&
    isSegmentPath (key.toList.drop t.head.toList.length)

/-- A segment object the map does not reference. -/
def isOrphan (key : String) : Bool :=
  t.isSegmentKey key && key ∉ t.referencedKeys

def sweepStep (restart : Bool) : Tier × Bool :=
  let afterKey := if restart then none else t.sweep.after_key
  let page := t.bucket.list t.head SWEEP_STEP_KEYS afterKey
  let orphans := page.objects.filter t.isOrphan
  let bucket := t.bucket.deleteKeys orphans
  match page.truncated, page.objects.getLast? with
  | true, some lastKey =>
      ({ t with
          bucket := bucket
          sweep := { t.sweep with after_key := some lastKey } }, false)
  | _, _ => ({ t with bucket := bucket, sweep := ⟨some t.now, none⟩ }, true)

/-- The loop of a full sweep; `none` when the listings it may make do not
suffice. -/
def sweepAll : ℕ → Tier → Option Tier
  | 0, _ => none
  | lists + 1, t =>
      match t.sweepStep true with
      | (next, true) => some next
      | (next, false) => sweepAll lists next

def deletePending : Tier := { t with
    bucket := t.bucket.deleteKeys t.pendingDeletes
    pendingDeletes := [] }

/-- `maintenance` with at most `lists` listings. -/
def maintenance (lists : ℕ) (sweep : SweepStep) : Option Tier :=
  match sweep with
  | .none => some t.deletePending
  | .step => some (t.deletePending.sweepStep false).1
  | .full => sweepAll lists t.deletePending

/-- The objects under the prefix, the first listing pages first. -/
def under : List String := t.bucket.matching t.head none

/-- The keys under the prefix that no sweep deletes and a listing returns
before `key`. -/
def survivorsBefore (key : String) : List String :=
  t.under.filter fun other => !t.isOrphan other && decide (other < key)

end Tier

/-! ## What a deletion leaves -/

namespace Bucket

variable (bucket : Bucket)

theorem keys_deleteKeys (keys : List String) : (bucket.deleteKeys keys).keys =
      bucket.keys.filter (· ∉ keys) := by
  induction bucket, keys using deleteKeys.induct with
  | case1 bucket => simp [deleteKeys]
  | case2 bucket keys hkeys ih =>
      rw [deleteKeys, if_neg hkeys, ih, delete, List.filter_filter]
      apply List.filter_congr
      intro key _
      have hsplit : key ∈ keys ↔ key ∈ keys.take R2_DELETE_BATCH ∨
            key ∈ keys.drop R2_DELETE_BATCH := by
        rw [← List.mem_append, List.take_append_drop]
      simp [hsplit, and_comm]

theorem mem_deleteKeys {keys : List String} {key : String} :
    key ∈ (bucket.deleteKeys keys).keys ↔ key ∈ bucket.keys ∧ key ∉ keys := by
  simp [keys_deleteKeys]

theorem matching_deleteKeys (keys : List String) (start : String)
    (startAfter : Option String) :
    (bucket.deleteKeys keys).matching start startAfter =
      (bucket.matching start startAfter).filter (· ∉ keys) := by
  simp only [matching, keys_deleteKeys, List.filter_filter, Bool.and_comm]

theorem matching_sorted (start : String) (startAfter : Option String) :
    (bucket.matching start startAfter).Pairwise (· < ·) :=
  bucket.sorted.filter _

end Bucket

namespace Tier

variable {t : Tier}

/-- What one listing of a full sweep deletes. -/
def pageOrphans (t : Tier) : List String :=
  (t.under.take SWEEP_STEP_KEYS).filter t.isOrphan

variable {key : String}

theorem mem_pageOrphans : key ∈ t.pageOrphans ↔
      key ∈ t.under.take SWEEP_STEP_KEYS ∧ t.isOrphan key = true := by
  simp [pageOrphans]

theorem mem_under : key ∈ t.under ↔
      key ∈ t.bucket.keys ∧ Bucket.startsWith t.head key = true := by
  simp [under, Bucket.matching]

theorem mem_under_of_isOrphan
    (hkey : key ∈ t.bucket.keys) (horphan : t.isOrphan key = true) :
    key ∈ t.under := by
  simp only [isOrphan, isSegmentKey, Bool.and_eq_true] at horphan
  exact mem_under.mpr ⟨hkey, horphan.1.1⟩

/-- A step of a full sweep lists the first page, whatever the step before
it recorded. -/
theorem sweepStep_true (t : Tier) : ∃ sweep, t.sweepStep true = ({ t with
            bucket := t.bucket.deleteKeys t.pageOrphans
            sweep := sweep },
          decide (t.under.length ≤ SWEEP_STEP_KEYS)) := by
  by_cases hmore : SWEEP_STEP_KEYS < t.under.length
  · have hpage : t.under.take SWEEP_STEP_KEYS ≠ [] := by
      intro hnil
      have hlength := congrArg List.length hnil
      simp [SWEEP_STEP_KEYS] at hlength hmore
      simp [hlength] at hmore
    refine ⟨{ t.sweep with
      after_key := (t.under.take SWEEP_STEP_KEYS).getLast? }, ?_⟩
    rw [sweepStep]
    simp only [Bucket.list, ↓reduceIte]
    change (match decide (SWEEP_STEP_KEYS < t.under.length),
      (t.under.take SWEEP_STEP_KEYS).getLast? with
      | true, some lastKey => _
      | _, _ => _) = _
    rw [List.getLast?_eq_some_getLast hpage]
    simp only [hmore, decide_true, Nat.not_le.mpr hmore, decide_false]
    rfl
  · refine ⟨⟨some t.now, none⟩, ?_⟩
    rw [sweepStep]
    simp only [Bucket.list, ↓reduceIte]
    change (match decide (SWEEP_STEP_KEYS < t.under.length),
      (t.under.take SWEEP_STEP_KEYS).getLast? with
      | true, some lastKey => _
      | _, _ => _) = _
    simp only [hmore, decide_false, Nat.not_lt.mp hmore, decide_true]
    rfl

/-- The tier after the page's orphans are gone. -/
theorem under_deletePage (sweep : SweepRow) : under { t with
          bucket := t.bucket.deleteKeys t.pageOrphans
          sweep := sweep } =
      t.under.filter (· ∉ t.pageOrphans) :=
  t.bucket.matching_deleteKeys t.pageOrphans t.head none

theorem under_take_eq (hall : t.under.length ≤ SWEEP_STEP_KEYS) :
    t.under.take SWEEP_STEP_KEYS = t.under :=
  List.take_of_length_le hall

theorem survivorsBefore_deletePage (sweep : SweepRow) (key : String) :
    survivorsBefore { t with
          bucket := t.bucket.deleteKeys t.pageOrphans
          sweep := sweep } key =
      t.survivorsBefore key := by
  rw [survivorsBefore, under_deletePage, survivorsBefore, List.filter_filter]
  apply List.filter_congr
  intro other _
  by_cases horphan : t.isOrphan other = true
  · have hsame : isOrphan { t with
          bucket := t.bucket.deleteKeys t.pageOrphans
          sweep := sweep } other = true := horphan
    simp [horphan, hsame]
  · have hsame : isOrphan { t with
          bucket := t.bucket.deleteKeys t.pageOrphans
          sweep := sweep } other = t.isOrphan other := rfl
    have hkept : other ∉ t.pageOrphans :=
      fun hmem => horphan (mem_pageOrphans.mp hmem).2
    simp [hsame, hkept]

/-! ## When a listing makes progress -/

/-- A page that holds no orphan is the last one, unless the next key has a
whole page of survivors before it. -/
theorem pageOrphans_ne_nil (hfew : ∀ key ∈ t.under,
      (t.survivorsBefore key).length < SWEEP_STEP_KEYS)
    (hmore : SWEEP_STEP_KEYS < t.under.length) :
    t.pageOrphans ≠ [] := by
  intro hnil
  have hnext := hfew _ (List.getElem_mem hmore)
  have hsplit : t.under = t.under.take SWEEP_STEP_KEYS ++
        t.under.drop SWEEP_STEP_KEYS :=
    (List.take_append_drop _ _).symm
  have hpage : (t.under.take SWEEP_STEP_KEYS).filter
          (fun other => !t.isOrphan other &&
            decide (other < t.under[SWEEP_STEP_KEYS])) =
        t.under.take SWEEP_STEP_KEYS := by
    rw [List.filter_eq_self]
    intro other hother
    have hsurvives : t.isOrphan other = false := by
      by_contra horphan
      have hmem := mem_pageOrphans.mpr ⟨hother, Bool.not_eq_false _ ▸ horphan⟩
      simp [hnil] at hmem
    rcases List.mem_take_iff_getElem.mp hother with ⟨i, hi, rfl⟩
    have hlt := List.pairwise_iff_getElem.mp
      (t.bucket.matching_sorted t.head none) i SWEEP_STEP_KEYS
      (by unfold under at hi; omega) hmore (by omega)
    rw [hsurvives]
    exact decide_eq_true hlt
  have hsub : (t.under.take SWEEP_STEP_KEYS).length ≤
        (t.survivorsBefore t.under[SWEEP_STEP_KEYS]).length := by
    rw [← hpage]
    exact ((List.take_sublist _ _).filter _).length_le
  rw [List.length_take] at hsub
  omega

theorem under_deletePage_length_lt (sweep : SweepRow)
    (horphans : t.pageOrphans ≠ []) :
    (under { t with
          bucket := t.bucket.deleteKeys t.pageOrphans
          sweep := sweep }).length < t.under.length := by
  rcases List.exists_mem_of_ne_nil _ horphans with ⟨key, hkey⟩
  rw [under_deletePage, List.length_filter_lt_length_iff_exists]
  have hpage := (mem_pageOrphans.mp hkey).1
  exact ⟨key, List.mem_of_mem_take hpage, by simp [hkey]⟩

/-- Where no key has a whole page of survivors before it, a full sweep
ends with every orphan deleted and nothing else. -/
theorem sweepAll_complete (hfew : ∀ key ∈ t.under,
      (t.survivorsBefore key).length < SWEEP_STEP_KEYS) :
    ∃ lists after, sweepAll lists t = some after ∧
      ∀ key, key ∈ after.bucket.keys ↔
        key ∈ t.bucket.keys ∧ t.isOrphan key = false := by
  induction hn : t.under.length using Nat.strong_induction_on
    generalizing t with
  | h n ih =>
  rcases t.sweepStep_true with ⟨sweep, hstep⟩
  by_cases hmore : SWEEP_STEP_KEYS < t.under.length
  · have hlt := t.under_deletePage_length_lt sweep
      (pageOrphans_ne_nil hfew hmore)
    have hfew' : ∀ key ∈ under { t with
            bucket := t.bucket.deleteKeys t.pageOrphans
            sweep := sweep },
        (survivorsBefore { t with
            bucket := t.bucket.deleteKeys t.pageOrphans
            sweep := sweep } key).length < SWEEP_STEP_KEYS := by
      intro key hkey
      rw [under_deletePage] at hkey
      rw [survivorsBefore_deletePage]
      exact hfew key (List.mem_of_mem_filter hkey)
    rcases ih _ (hn ▸ hlt) hfew' rfl with ⟨lists, after, hafter, hmem⟩
    refine ⟨lists + 1, after, ?_, ?_⟩
    · rw [sweepAll, hstep]
      simp [Nat.not_le.mpr hmore, hafter]
    · intro key
      rw [hmem key, Bucket.mem_deleteKeys]
      constructor
      · rintro ⟨⟨hkey, -⟩, horphan⟩
        exact ⟨hkey, horphan⟩
      · rintro ⟨hkey, horphan⟩
        refine ⟨⟨hkey, ?_⟩, horphan⟩
        intro hpage
        have hgone := (mem_pageOrphans.mp hpage).2
        change t.isOrphan key = false at horphan
        rw [horphan] at hgone
        exact absurd hgone (by simp)
  · have hall := Nat.not_lt.mp hmore
    refine ⟨1, _, by rw [sweepAll, hstep]; simp [hall]; rfl, ?_⟩
    intro key
    rw [Bucket.mem_deleteKeys, mem_pageOrphans, under_take_eq hall]
    constructor
    · rintro ⟨hkey, hkept⟩
      refine ⟨hkey, ?_⟩
      by_contra horphan
      have horphan : t.isOrphan key = true := Bool.not_eq_false _ ▸ horphan
      exact hkept ⟨mem_under_of_isOrphan hkey horphan, horphan⟩
    · rintro ⟨hkey, horphan⟩
      simp [hkey, horphan]

/-! ## When it makes none -/

/-- A key with a whole page of survivors before it is in no listing. -/
theorem notMem_page (hkey : key ∈ t.under)
    (hmany : SWEEP_STEP_KEYS ≤ (t.survivorsBefore key).length) :
    SWEEP_STEP_KEYS < t.under.length ∧ key ∉ t.under.take SWEEP_STEP_KEYS := by
  rcases List.append_of_mem hkey with ⟨front, back, hsplit⟩
  have hsorted := t.bucket.matching_sorted t.head none
  change t.under.Pairwise (· < ·) at hsorted
  rw [hsplit, List.pairwise_append] at hsorted
  rcases hsorted with ⟨-, hback, hfront⟩
  have hafter : ∀ other ∈ key :: back, ¬other < key := by
    intro other hother
    rcases List.mem_cons.mp hother with rfl | hother
    · exact String.lt_irrefl _
    · exact String.lt_asymm (List.rel_of_pairwise_cons hback hother)
  have hcount : (t.survivorsBefore key).length ≤ front.length := by
    rw [survivorsBefore, hsplit, List.filter_append]
    have hnone : (key :: back).filter (fun other =>
          !t.isOrphan other && decide (other < key)) = [] := by
      rw [List.filter_eq_nil_iff]
      intro other hother
      simp [hafter other hother]
    rw [hnone, List.append_nil]
    exact List.length_filter_le _ _
  constructor
  · rw [hsplit]
    simp only [List.length_append, List.length_cons]
    omega
  · rw [hsplit, List.take_append_of_le_length (by omega)]
    intro hpage
    have hfront := hfront key (List.mem_of_mem_take hpage) key
      List.mem_cons_self
    exact String.lt_irrefl _ hfront

/-- A whole page of survivors before some key keeps a full sweep listing the
same page for ever. -/
theorem sweepAll_stuck (hkey : key ∈ t.under)
    (hmany : SWEEP_STEP_KEYS ≤ (t.survivorsBefore key).length)
    (lists : ℕ) :
    sweepAll lists t = none := by
  induction lists generalizing t with
  | zero => rfl
  | succ lists ih =>
      rcases t.sweepStep_true with ⟨sweep, hstep⟩
      rcases notMem_page hkey hmany with ⟨hmore, hpage⟩
      rw [sweepAll, hstep]
      simp only [Nat.not_le.mpr hmore, decide_false]
      apply ih
      · rw [under_deletePage]
        have hkept : key ∉ t.pageOrphans :=
          fun hmem => hpage (mem_pageOrphans.mp hmem).1
        simp [hkey, hkept]
      · rw [survivorsBefore_deletePage]
        exact hmany

/-- A sweep only deletes. -/
theorem mem_of_sweepAll {lists : ℕ} {after : Tier}
    (hafter : sweepAll lists t = some after)
    (hkey : key ∈ after.bucket.keys) :
    key ∈ t.bucket.keys := by
  induction lists generalizing t with
  | zero => simp [sweepAll] at hafter
  | succ lists ih =>
      rcases t.sweepStep_true with ⟨sweep, hstep⟩
      rw [sweepAll, hstep] at hafter
      cases hcomplete : decide (t.under.length ≤ SWEEP_STEP_KEYS) with
      | true =>
          rw [hcomplete] at hafter
          cases hafter
          exact ((Bucket.mem_deleteKeys _).mp hkey).1
      | false =>
          rw [hcomplete] at hafter
          exact ((Bucket.mem_deleteKeys _).mp (ih hafter)).1

/-! ## A full sweep after the queue -/

/-- Every orphan of `t` is gone and every other object is still there. -/
def Swept (t after : Tier) : Prop := ∀ key, key ∈ after.bucket.keys ↔
    key ∈ t.bucket.keys ∧ ¬(t.isSegmentKey key = true ∧ key ∉ t.referencedKeys)

theorem isOrphan_eq_false : t.isOrphan key = false ↔
      ¬(t.isSegmentKey key = true ∧ key ∉ t.referencedKeys) := by
  simp [isOrphan]

theorem mem_under_deletePending : key ∈ t.deletePending.under ↔
      key ∈ t.under ∧ key ∉ t.pendingDeletes := by
  rw [mem_under, mem_under]
  change key ∈ (t.bucket.deleteKeys t.pendingDeletes).keys ∧
    Bucket.startsWith t.head key = true ↔ _
  rw [Bucket.mem_deleteKeys, and_right_comm]

theorem survivorsBefore_deletePending
    (hqueue : ∀ key ∈ t.pendingDeletes, key ∈ t.bucket.keys →
      t.isOrphan key = true) (key : String) :
    t.deletePending.survivorsBefore key = t.survivorsBefore key := by
  have hunder : t.deletePending.under =
      t.under.filter (· ∉ t.pendingDeletes) :=
    t.bucket.matching_deleteKeys t.pendingDeletes t.head none
  rw [survivorsBefore, hunder, survivorsBefore, List.filter_filter]
  apply List.filter_congr
  intro other hother
  change (!t.isOrphan other && _ && _) = _
  by_cases hqueued : other ∈ t.pendingDeletes
  · have horphan := hqueue other hqueued (mem_under.mp hother).1
    simp [horphan]
  · simp [hqueued]

/-- A full sweep ends with exactly the orphans deleted if and only if the
queue holds no other object and no object left has a whole page of survivors
before it. -/
theorem maintenance_full_iff (t : Tier) : (∃ lists after,
        t.maintenance lists .full = some after ∧ t.Swept after) ↔
      (∀ key ∈ t.pendingDeletes, key ∈ t.bucket.keys → t.isOrphan key = true) ∧
      ∀ key ∈ t.under, key ∉ t.pendingDeletes →
        (t.survivorsBefore key).length < SWEEP_STEP_KEYS := by
  constructor
  · rintro ⟨lists, after, hafter, hswept⟩
    have hqueue : ∀ key ∈ t.pendingDeletes, key ∈ t.bucket.keys →
        t.isOrphan key = true := by
      intro key hqueued hkey
      by_contra hkept
      have hkept := isOrphan_eq_false.mp (Bool.eq_false_iff.mpr hkept)
      have hleft := mem_of_sweepAll hafter ((hswept key).mpr ⟨hkey, hkept⟩)
      exact ((Bucket.mem_deleteKeys _).mp hleft).2 hqueued
    refine ⟨hqueue, ?_⟩
    intro key hkey hleft
    by_contra hmany
    have hstuck := sweepAll_stuck (t := t.deletePending)
      (mem_under_deletePending.mpr ⟨hkey, hleft⟩)
      (by
        rw [survivorsBefore_deletePending hqueue]
        exact Nat.not_lt.mp hmany) lists
    exact Option.some_ne_none after (hafter.symm.trans hstuck)
  · rintro ⟨hqueue, hfew⟩
    have hfew' : ∀ key ∈ t.deletePending.under,
        (t.deletePending.survivorsBefore key).length <
          SWEEP_STEP_KEYS := by
      intro key hkey
      rw [survivorsBefore_deletePending hqueue]
      rcases mem_under_deletePending.mp hkey with ⟨hunder, hleft⟩
      exact hfew key hunder hleft
    rcases sweepAll_complete hfew' with ⟨lists, after, hafter, hmem⟩
    refine ⟨lists, after, hafter, ?_⟩
    intro key
    rw [hmem key]
    change key ∈ (t.bucket.deleteKeys t.pendingDeletes).keys ∧
      t.isOrphan key = false ↔ _
    rw [Bucket.mem_deleteKeys, isOrphan_eq_false]
    constructor
    · rintro ⟨⟨hkey, -⟩, hkept⟩
      exact ⟨hkey, hkept⟩
    · rintro ⟨hkey, hkept⟩
      refine ⟨⟨hkey, ?_⟩, hkept⟩
      intro hqueued
      have horphan := hqueue key hqueued hkey
      rw [isOrphan_eq_false.mpr hkept] at horphan
      exact absurd horphan (by simp)

def resultsDirectory : List Char := "results/".toList

/-- What follows the prefix in a key of the result store. -/
def resultPath (i : ℕ) : List Char :=
  resultsDirectory ++ List.replicate (i + 1) 'a'

/-- A key of the result store. -/
def resultKey (i : ℕ) : String := String.ofList ("u/".toList ++ resultPath i)

theorem replicate_lt_replicate {i j : ℕ} (hij : i < j) :
    List.replicate i 'a' < List.replicate j 'a' := by
  induction i generalizing j with
  | zero =>
      cases j with
      | zero => omega
      | succ j => exact List.nil_lt_cons _ _
  | succ i ih =>
      cases j with
      | zero => omega
      | succ j =>
          simp only [List.replicate_succ, List.cons_lt_cons_self]
          exact ih (by omega)

theorem resultKey_lt {i j : ℕ} (hij : i < j) : resultKey i < resultKey j := by
  have hlt : resultPath i < resultPath j :=
    List.append_left_lt (replicate_lt_replicate (by omega))
  simp only [String.lt_iff, resultKey, String.toList_ofList]
  exact List.append_left_lt hlt

/-- A prefix that holds `n` results and no segment. -/
def crowded (n : ℕ) : Tier where
  keyPrefix := "u"
  rows := []
  bucket :=
    { keys := (List.range n).map resultKey
      sorted := by
        rw [List.pairwise_map]
        exact List.pairwise_lt_range.imp resultKey_lt }
  pendingDeletes := []
  sweep := ⟨none, none⟩
  now := 0

theorem crowded_head (n : ℕ) : (crowded n).head = "u/" := rfl

theorem startsWith_resultKey (i : ℕ) :
    Bucket.startsWith "u/" (resultKey i) = true := by
  simp only [Bucket.startsWith, resultKey, String.toList_ofList]
  exact List.isPrefixOf_iff_prefix.mpr (List.prefix_append _ _)

theorem isSegmentPath_append_letter (front : List Char) :
    isSegmentPath (front ++ ['a']) = false := by
  have hlast : (front ++ ['a']).reverse.takeWhile Char.isDigit = [] := by
    rw [List.reverse_concat]
    exact List.takeWhile_cons_of_neg (by decide)
  simp only [isSegmentPath, hlast, ne_eq, not_true_eq_false, decide_false,
    Bool.false_and]

theorem isSegmentPath_result (i : ℕ) :
    isSegmentPath (resultPath i) = false := by
  have hpath : resultPath i =
      (resultsDirectory ++ List.replicate i 'a') ++ ['a'] := by
    rw [resultPath, List.replicate_succ', List.append_assoc]
  rw [hpath]
  exact isSegmentPath_append_letter _

theorem resultKey_survives (n i : ℕ) :
    (crowded n).isOrphan (resultKey i) = false := by
  have hpath :
      (resultKey i).toList.drop "u/".toList.length = resultPath i := by
    simp only [resultKey, String.toList_ofList, List.drop_left]
  rw [isOrphan, isSegmentKey, crowded_head, hpath, isSegmentPath_result,
    Bool.and_false, Bool.false_and]

theorem crowded_under (n : ℕ) :
    (crowded n).under = (List.range n).map resultKey := by
  apply List.filter_eq_self.mpr
  intro key hkey
  rcases List.mem_map.mp hkey with ⟨i, -, rfl⟩
  rw [crowded_head, startsWith_resultKey]
  rfl

theorem crowded_survivorsBefore (n : ℕ) :
    ((crowded (n + 1)).survivorsBefore (resultKey n)).length = n := by
  rw [survivorsBefore, crowded_under, List.range_succ, List.map_append,
    List.filter_append]
  have hbefore : ((List.range n).map resultKey).filter
        (fun other => !(crowded (n + 1)).isOrphan other &&
          decide (other < resultKey n)) =
      (List.range n).map resultKey := by
    rw [List.filter_eq_self]
    intro key hkey
    rcases List.mem_map.mp hkey with ⟨i, hi, rfl⟩
    have hlt := resultKey_lt (List.mem_range.mp hi)
    simp [resultKey_survives, hlt]
  have hself : ([n].map resultKey).filter
        (fun other => !(crowded (n + 1)).isOrphan other &&
          decide (other < resultKey n)) = [] := by
    rw [List.filter_eq_nil_iff]
    intro key hkey hkept
    rw [List.map_singleton, List.mem_singleton] at hkey
    rw [hkey, Bool.and_eq_true] at hkept
    exact String.lt_irrefl _ (of_decide_eq_true hkept.2)
  rw [hbefore, hself, List.append_nil, List.length_map, List.length_range]

/-- With one result more than a page holds, a full sweep never ends. -/
theorem maintenance_crowded_stuck : ¬∃ lists after,
      (crowded (SWEEP_STEP_KEYS + 1)).maintenance lists .full = some after ∧
        (crowded (SWEEP_STEP_KEYS + 1)).Swept after := by
  intro hclaim
  have hfew := ((maintenance_full_iff _).mp hclaim).2
  have hlast : resultKey SWEEP_STEP_KEYS ∈
      (crowded (SWEEP_STEP_KEYS + 1)).under := by
    rw [crowded_under]
    exact List.mem_map_of_mem List.self_mem_range_succ
  have hbefore := hfew _ hlast List.not_mem_nil
  rw [crowded_survivorsBefore] at hbefore
  exact lt_irrefl _ hbefore

end Tier
end OrphanSweep
end QiForge
