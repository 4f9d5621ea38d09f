import QiForge.UserKvStore

/-!
# What a key-value store holds

Both stores as lists of rows.  The view of a namespace is its rows in the
order of use, and its live part is all a later call can observe.
-/

namespace QiForge

abbrev KvRows := List ((String × String) × KvEntry)

namespace KvRows

/-- The entries of a namespace, in their order. -/
def view (ns : String) (rows : KvRows) : List (String × KvEntry) :=
  (rows.filter fun row => decide (row.1.1 = ns)).map fun row =>
    (row.1.2, row.2)

def live (now : ℚ) (entries : List (String × KvEntry)) :
    List (String × KvEntry) :=
  entries.filter fun entry => !entry.2.expired now

def liveRows (now : ℚ) (rows : KvRows) : KvRows :=
  rows.filter fun row => !row.2.expired now

def dropKey (key : String) (entries : List (String × KvEntry)) :
    List (String × KvEntry) :=
  entries.filter fun entry => decide (entry.1 ≠ key)

def usageOf (ns : String) (rows : KvRows) : UserKvUsage where
  namespaceEntries := (view ns rows).length
  totalEntries := rows.length
  totalBytes := (rows.map fun row => row.2.bytes).sum

variable {now : ℚ} {ns key : String} {rows other : KvRows}

theorem mem_view {entry : KvEntry} :
    (key, entry) ∈ view ns rows ↔ ((ns, key), entry) ∈ rows := by
  unfold view
  rw [List.mem_map]
  constructor
  · rintro ⟨row, hrow, heq⟩
    rcases List.mem_filter.mp hrow with ⟨hmem, hns⟩
    obtain ⟨rfl, rfl⟩ := Prod.mk.inj heq
    rw [← of_decide_eq_true hns]
    exact hmem
  · intro hmem
    exact ⟨((ns, key), entry), List.mem_filter.mpr ⟨hmem, by simp⟩, rfl⟩

theorem view_append : view ns (rows ++ other) =
    view ns rows ++ view ns other := by
  unfold view
  rw [List.filter_append, List.map_append]

/-- Filtering rows by a test of key and entry filters the view. -/
theorem view_filter (ns : String) (rows : KvRows)
    (p : String × String → KvEntry → Bool) :
    view ns (rows.filter fun row => p row.1 row.2) =
      (view ns rows).filter fun entry => p (ns, entry.1) entry.2 := by
  unfold view
  rw [List.filter_filter, List.filter_map, List.filter_filter]
  congr 1
  apply List.filter_congr
  intro row _
  rw [Function.comp_apply, Bool.and_comm]
  by_cases hns : row.1.1 = ns
  · rw [← hns]
  · simp [hns]

theorem view_liveRows :
    view ns (liveRows now rows) = live now (view ns rows) :=
  view_filter ns rows fun _ entry => !entry.expired now

theorem live_live {later : ℚ} (hle : now ≤ later)
    (entries : List (String × KvEntry)) :
    live later (live now entries) = live later entries := by
  unfold live
  rw [List.filter_filter]
  apply List.filter_congr
  intro entry _
  cases hexpires : entry.2.expiresAt with
  | none => simp [KvEntry.expired, hexpires]
  | some expiresAt =>
      simp only [KvEntry.expired, hexpires, Option.any_some]
      by_cases hlive : expiresAt ≤ later
      · simp [hlive]
      · have hnot : ¬ expiresAt ≤ now := fun h => hlive (h.trans hle)
        simp [hlive, hnot]

theorem live_append (left right : List (String × KvEntry)) :
    live now (left ++ right) = live now left ++ live now right :=
  List.filter_append ..

theorem live_dropKey (entries : List (String × KvEntry)) :
    live now (dropKey key entries) = dropKey key (live now entries) := by
  unfold live dropKey
  rw [List.filter_comm]

/-- Rows with the same views are the same rows. -/
theorem perm_of_view (hview : ∀ ns, view ns rows = view ns other) :
    rows.Perm other := by
  have hcount : ∀ (rows : KvRows) (row : (String × String) × KvEntry),
      (view row.1.1 rows).count (row.1.2, row.2) = rows.count row := by
    intro rows row
    unfold view List.count
    rw [List.countP_map, List.countP_filter]
    apply List.countP_congr
    intro other _
    rcases row with ⟨⟨ns, key⟩, entry⟩
    rcases other with ⟨⟨ns', key'⟩, entry'⟩
    simp only [Function.comp_apply, Bool.and_eq_true, beq_iff_eq,
      Prod.mk.injEq, decide_eq_true_eq]
    tauto
  rw [List.perm_iff_count]
  intro row
  rw [← hcount rows, ← hcount other, hview]

theorem usageOf_perm (h : rows.Perm other) :
    usageOf ns rows = usageOf ns other := by
  have hview : (view ns rows).length = (view ns other).length :=
    ((h.filter _).map _).length_eq
  have hbytes := (h.map fun row => row.2.bytes).sum_eq
  unfold usageOf
  rw [hview, h.length_eq, hbytes]

theorem usageOf_liveRows_congr
    (h : ∀ ns, live now (view ns rows) = live now (view ns other)) :
    usageOf ns (liveRows now rows) = usageOf ns (liveRows now other) := by
  apply usageOf_perm
  apply perm_of_view
  intro ns
  rw [view_liveRows, view_liveRows, h]

theorem liveRows_of_none (h : (rows.countP fun row => row.2.expired now) = 0) :
    liveRows now rows = rows := by
  unfold liveRows
  rw [List.filter_eq_self]
  intro row hrow
  have hnot := List.countP_eq_zero.mp h row hrow
  simpa using hnot

/-- A store over a cap only by expired rows is within it without them. -/
theorem overflow_liveRows {grew : UserKvGrowth} {limits : UserKvLimits}
    (h : userKvOverflow ns (usageOf ns rows) grew limits = none) :
    userKvOverflow ns (usageOf ns (liveRows now rows)) grew limits =
      none := by
  have hentries : (view ns (liveRows now rows)).length ≤
      (view ns rows).length := by
    rw [view_liveRows]
    exact List.length_filter_le ..
  have htotal : (liveRows now rows).length ≤ rows.length :=
    List.length_filter_le ..
  have hbytes : ((liveRows now rows).map fun row => row.2.bytes).sum ≤
      (rows.map fun row => row.2.bytes).sum :=
    (List.filter_sublist.map _).sum_le_sum fun _ _ => Nat.zero_le _
  unfold userKvOverflow usageOf at h ⊢
  dsimp only at h ⊢
  split at h
  · cases h
  · split at h
    · cases h
    · split at h
      · cases h
      · rename_i hfirst hsecond hthird
        rw [if_neg, if_neg, if_neg]
        · exact fun hbad => hthird ⟨hbad.1, hbad.2.trans_le hbytes⟩
        · exact fun hbad => hsecond ⟨hbad.1, hbad.2.trans_le htotal⟩
        · exact fun hbad => hfirst ⟨hbad.1, hbad.2.trans_le hentries⟩

/-- Newest `n` entries of a view. -/
def keepNewest (n : ℕ) (entries : List (String × KvEntry)) :
    List (String × KvEntry) :=
  entries.drop (entries.length - n)

def keepTo (maxEntries : Option ℕ) (entries : List (String × KvEntry)) :
    List (String × KvEntry) :=
  match maxEntries with
  | none => entries
  | some n => keepNewest n entries

/-- The entries that are not among the keys of the first ones. -/
theorem filter_take_keys {α : Type*} {entries : List (String × α)}
    (hnodup : (entries.map Prod.fst).Nodup) (n : ℕ) :
    (entries.filter fun entry =>
      decide (entry.1 ∉ (entries.take n).map Prod.fst)) =
      entries.drop n := by
  have hsplit : (entries.take n).map Prod.fst ++
      (entries.drop n).map Prod.fst = entries.map Prod.fst := by
    rw [← List.map_append, List.take_append_drop]
  rw [← hsplit, List.nodup_append] at hnodup
  calc
    (entries.filter fun entry =>
        decide (entry.1 ∉ (entries.take n).map Prod.fst)) =
        (entries.take n ++ entries.drop n).filter fun entry =>
          decide (entry.1 ∉ (entries.take n).map Prod.fst) := by
      rw [List.take_append_drop]
    _ = [] ++ entries.drop n := by
      rw [List.filter_append]
      congr 1
      · rw [List.filter_eq_nil_iff]
        intro entry hentry
        have hkey : entry.1 ∈ (entries.take n).map Prod.fst :=
          List.mem_map_of_mem hentry
        rw [decide_eq_true_eq, not_not]
        exact hkey
      · rw [List.filter_eq_self]
        intro entry hentry
        rw [decide_eq_true_eq]
        intro htake
        exact hnodup.2.2 _ htake _ (List.mem_map_of_mem hentry) rfl
    _ = entries.drop n := List.nil_append _

end KvRows

end QiForge
