import QiForge.UserKvRows

/-!
# What the operations show

The rows of the store in memory and of the table, and the live view of every
namespace after each operation of either: a touch moves the entry last, a
write puts a new one there, a trim keeps the newest.
-/

namespace QiForge

open KvRows

namespace MemoryKv

variable {now : ℚ} {ns other key : String} {m : MemoryKv} {b : KvBucket}

def rows (m : MemoryKv) : KvRows := m.entries.flatMap fun entry =>
    entry.2.entries.map fun e => ((entry.1, e.1), e.2)

/-- The live entries of a namespace, in the order of use. -/
def liveView (now : ℚ) (m : MemoryKv) (ns : String) :
    List (String × KvEntry) :=
  live now (bucket m ns).entries

theorem bucket_set : bucket (m.set ns b) other =
    if other = ns then b else bucket m other := by
  unfold bucket
  rw [OrderedMap.get?_set]
  split <;> rfl

theorem mem_bucket {entry : String × KvEntry} : entry ∈ (bucket m ns).entries ↔
      ∃ b, (ns, b) ∈ m.entries ∧ entry ∈ b.entries := by
  unfold bucket
  constructor
  · intro hmem
    cases hget : m.get? ns with
    | none =>
        rw [hget] at hmem
        cases hmem
    | some b =>
        rw [hget] at hmem
        exact ⟨b, OrderedMap.mem_entries_iff.mpr hget, hmem⟩
  · rintro ⟨b, hb, hmem⟩
    rw [OrderedMap.mem_entries_iff.mp hb]
    exact hmem

theorem mem_rows {entry : KvEntry} :
    ((ns, key), entry) ∈ m.rows ↔ (key, entry) ∈ (bucket m ns).entries := by
  unfold rows
  rw [List.mem_flatMap, mem_bucket]
  constructor
  · rintro ⟨⟨ns', b⟩, hb, hmem⟩
    rcases List.mem_map.mp hmem with ⟨e, he, heq⟩
    obtain ⟨hkey, rfl⟩ := Prod.mk.inj heq
    obtain ⟨rfl, rfl⟩ := Prod.mk.inj hkey
    exact ⟨b, hb, he⟩
  · rintro ⟨b, hb, hmem⟩
    exact ⟨(ns, b), hb, List.mem_map.mpr ⟨(key, entry), hmem, rfl⟩⟩

theorem view_tagged : view other (b.entries.map fun e => ((ns, e.1), e.2)) =
      if ns = other then b.entries else [] := by
  unfold view
  rw [List.filter_map, List.map_map]
  by_cases hns : ns = other
  · simp [hns, Function.comp_def]
  · simp [hns, Function.comp_def]

theorem view_rows : view ns m.rows = (bucket m ns).entries := by
  have hview : ∀ entries : List (String × KvBucket),
      (entries.map Prod.fst).Nodup →
        (∀ b, (ns, b) ∈ entries → view ns (entries.flatMap fun entry =>
          entry.2.entries.map fun e => ((entry.1, e.1), e.2)) = b.entries) ∧
        (ns ∉ entries.map Prod.fst → view ns (entries.flatMap fun entry =>
          entry.2.entries.map fun e => ((entry.1, e.1), e.2)) = []) := by
    intro entries
    induction entries with
    | nil => exact fun _ => ⟨nofun, fun _ => rfl⟩
    | cons first rest ih =>
        intro hnodup
        rcases List.nodup_cons.mp hnodup with ⟨hfresh, hrest⟩
        rcases ih hrest with ⟨hsome, hnone⟩
        rw [List.flatMap_cons, view_append, view_tagged]
        constructor
        · intro b hmem
          rcases List.mem_cons.mp hmem with rfl | hlater
          · rw [if_pos rfl, hnone hfresh, List.append_nil]
          · have hne : first.1 ≠ ns := by
              rintro rfl
              exact hfresh (List.mem_map.mpr ⟨_, hlater, rfl⟩)
            rw [if_neg hne, hsome b hlater, List.nil_append]
        · intro hnot
          rw [List.map_cons, List.mem_cons, not_or] at hnot
          rw [if_neg (Ne.symm hnot.1), hnone hnot.2, List.nil_append]
  rcases hview m.entries m.nodup with ⟨hsome, hnone⟩
  unfold bucket
  cases hget : m.get? ns with
  | none => exact hnone (OrderedMap.get?_eq_none_iff.mp hget)
  | some b => exact hsome b (OrderedMap.mem_entries_iff.mpr hget)

theorem live_view_rows : live now (view ns m.rows) = liveView now m ns := by
  rw [view_rows]
  rfl

theorem nodup_rows (m : MemoryKv) : (m.rows.map Prod.fst).Nodup := by
  have hnodup : ∀ entries : List (String × KvBucket),
      (entries.map Prod.fst).Nodup →
        ((entries.flatMap fun entry => entry.2.entries.map fun e =>
          ((entry.1, e.1), e.2)).map Prod.fst).Nodup := by
    intro entries
    induction entries with
    | nil => exact fun _ => List.nodup_nil
    | cons first rest ih =>
        intro hnodup
        rcases List.nodup_cons.mp hnodup with ⟨hfresh, hrest⟩
        rw [List.flatMap_cons, List.map_append, List.map_map,
          List.nodup_append]
        refine ⟨?_, ih hrest, ?_⟩
        · have hinj : Function.Injective fun key : String =>
              (first.1, key) := fun _ _ h => (Prod.mk.inj h).2
          have hkeys := first.2.nodup.map hinj
          rw [List.map_map] at hkeys
          exact hkeys
        · rintro k hk k' hk' rfl
          rcases List.mem_map.mp hk with ⟨e, -, rfl⟩
          rcases List.mem_map.mp hk' with ⟨row, hrow, heq⟩
          rcases List.mem_flatMap.mp hrow with ⟨entry, hentry, htagged⟩
          rcases List.mem_map.mp htagged with ⟨e', -, rfl⟩
          apply hfresh
          rw [← (Prod.mk.inj heq).1]
          exact List.mem_map_of_mem hentry
  exact hnodup m.entries m.nodup

theorem usage_eq : usage m ns = usageOf ns m.rows := by
  have hentries : (m.entries.map fun entry => entry.2.size).sum =
      m.rows.length := by
    unfold rows
    rw [List.length_flatMap]
    simp [OrderedMap.size]
  have hbytes : (m.entries.map fun entry =>
      (entry.2.entries.map fun e => e.2.bytes).sum).sum =
      (m.rows.map fun row => row.2.bytes).sum := by
    unfold rows
    rw [List.map_flatMap, List.flatMap_def, List.sum_flatten]
    simp [Function.comp_def]
  unfold usage usageOf
  rw [hentries, hbytes, view_rows]
  rfl

theorem rows_sweepExpired : (sweepExpired m now).2.rows =
    liveRows now m.rows := by
  unfold rows sweepExpired liveRows
  dsimp only [OrderedMap.mapValues, KvBucket.dropExpired, OrderedMap.filter]
  rw [List.filter_flatMap, List.flatMap_map]
  apply List.flatMap_congr
  intro entry _
  rw [List.filter_map]
  rfl

theorem sweepExpired_count : (sweepExpired m now).1 =
    m.rows.countP fun row => row.2.expired now := by
  unfold rows sweepExpired
  rw [List.countP_flatMap]
  dsimp only
  congr 1
  apply List.map_congr_left
  intro entry _
  rw [Function.comp_apply, List.countP_map]
  rfl

theorem rows_set_subset {row : (String × String) × KvEntry}
    (h : row ∈ rows (m.set ns b)) :
    (row.1.1 = ns ∧ (row.1.2, row.2) ∈ b.entries) ∨
      (row.1.1 ≠ ns ∧ row ∈ m.rows) := by
  rcases row with ⟨⟨ns', key⟩, entry⟩
  have hbucket := mem_rows.mp h
  rw [bucket_set] at hbucket
  split at hbucket
  next hns => exact .inl ⟨hns, hbucket⟩
  next hns => exact .inr ⟨hns, mem_rows.mpr hbucket⟩

end MemoryKv

namespace UserKvTable

variable {now : ℚ} {ns other key : String} {t : UserKvTable} {entry : KvEntry}

def rows (t : UserKvTable) : KvRows :=
  t.entries.map fun row => (row.1, row.2.toKvEntry)

/-- The live rows of a namespace, in the order of use. -/
def liveView (now : ℚ) (t : UserKvTable) (ns : String) :
    List (String × KvEntry) :=
  live now (view ns (rows t))

/-- The rows are kept in the order of their sequence numbers. -/
def InOrder (t : UserKvTable) : Prop :=
  t.entries.Pairwise fun a b => a.2.touchedSeq < b.2.touchedSeq

theorem rows_filter (p : String × String → KvEntry → Bool) :
    rows (t.filter fun k row => p k row.toKvEntry) =
      (rows t).filter fun row => p row.1 row.2 := by
  unfold rows OrderedMap.filter
  rw [List.filter_map]
  rfl

theorem InOrder.filter (h : InOrder t) (p : String × String → KvRow → Bool) :
    InOrder (t.filter p) :=
  h.sublist List.filter_sublist

theorem lt_nextSeq {row : (String × String) × KvRow} (h : row ∈ t.entries) :
    row.2.touchedSeq < nextSeq t := by
  have hmax : ∀ (seqs : List ℕ) (start seq : ℕ), seq ∈ seqs ∨ seq ≤ start →
      seq ≤ seqs.foldl max start := by
    intro seqs
    induction seqs with
    | nil =>
        rintro start seq (hmem | hle)
        · cases hmem
        · exact hle
    | cons first rest ih =>
        rintro start seq (hmem | hle)
        · rcases List.mem_cons.mp hmem with rfl | hlater
          · exact ih _ _ (.inr (le_max_right _ _))
          · exact ih _ _ (.inl hlater)
        · exact ih _ _ (.inr (hle.trans (le_max_left _ _)))
  have hle := hmax (t.entries.map fun row => row.2.touchedSeq) 0 _
    (.inl (List.mem_map_of_mem h))
  unfold nextSeq
  exact Nat.lt_succ_of_le hle

theorem InOrder.upsert (h : InOrder t) : InOrder (upsert ns key entry t) := by
  apply List.pairwise_append.mpr
  refine ⟨h.sublist List.filter_sublist, List.pairwise_singleton _ _, ?_⟩
  intro row hrow last hlast
  rw [List.mem_singleton.mp hlast]
  exact lt_nextSeq (List.mem_of_mem_filter hrow)

theorem rows_delete : rows (t.delete (ns, key)) =
    (rows t).filter fun row => decide (row.1 ≠ (ns, key)) :=
  rows_filter fun k _ => decide (k ≠ (ns, key))

theorem rows_upsert : rows (upsert ns key entry t) =
    rows (t.delete (ns, key)) ++ [((ns, key), entry)] := by
  unfold upsert rows OrderedMap.push
  rw [List.map_append]
  rfl

theorem nodup_rows (t : UserKvTable) : ((rows t).map Prod.fst).Nodup := by
  unfold rows
  rw [List.map_map]
  exact t.nodup

theorem view_delete : view other (rows (t.delete (ns, key))) =
    if other = ns then dropKey key (view ns (rows t))
    else view other (rows t) := by
  rw [rows_delete]
  refine (view_filter other (rows t)
    fun k _ => decide (k ≠ (ns, key))).trans ?_
  split
  next hns =>
    subst hns
    unfold dropKey
    apply List.filter_congr
    intro e _
    simp
  next hns =>
    rw [List.filter_eq_self]
    intro e _
    simp [hns]

theorem view_upsert : view other (rows (upsert ns key entry t)) =
    if other = ns then dropKey key (view ns (rows t)) ++ [(key, entry)]
    else view other (rows t) := by
  rw [rows_upsert, view_append, view_delete]
  have hsingle : view other [((ns, key), entry)] =
      if other = ns then [(key, entry)] else [] := by
    unfold view
    by_cases hns : other = ns
    · simp [hns]
    · simp [hns, Ne.symm hns]
  rw [hsingle]
  split
  · rfl
  · rw [List.append_nil]

theorem mem_rows : ((ns, key), entry) ∈ rows t ↔
    ∃ row, t.get? (ns, key) = some row ∧ row.toKvEntry = entry := by
  unfold rows
  rw [List.mem_map]
  constructor
  · rintro ⟨⟨k, row⟩, hrow, heq⟩
    obtain ⟨rfl, rfl⟩ := Prod.mk.inj heq
    exact ⟨row, OrderedMap.mem_entries_iff.mp hrow, rfl⟩
  · rintro ⟨row, hget, rfl⟩
    exact ⟨((ns, key), row), OrderedMap.mem_entries_iff.mpr hget, rfl⟩

theorem usage_eq : usage t ns = usageOf ns (rows t) := by
  unfold usage usageOf view rows
  rw [List.length_map, List.filter_map, List.length_map, List.length_map,
    List.map_map, List.countP_eq_length_filter]
  rfl

theorem rows_sweepExpired : rows (sweepExpired t now).2 =
    liveRows now (rows t) :=
  rows_filter fun _ entry => !entry.expired now

theorem sweepExpired_count : (sweepExpired t now).1 =
    (rows t).countP fun row => row.2.expired now := by
  unfold rows sweepExpired
  rw [List.countP_map]
  rfl

/-- The rows ordered by their last use, newest first. -/
theorem insertionSort_eq_reverse {entries : List ((String × String) × KvRow)}
    (h : entries.Pairwise fun a b => a.2.touchedSeq < b.2.touchedSeq) :
    (entries.insertionSort fun a b => b.2.touchedSeq ≤ a.2.touchedSeq) =
      entries.reverse := by
  induction entries with
  | nil => rfl
  | cons first rest ih =>
      rcases List.pairwise_cons.mp h with ⟨hfirst, hrest⟩
      have hinsert : ∀ sorted : List ((String × String) × KvRow),
          (∀ row ∈ sorted, first.2.touchedSeq < row.2.touchedSeq) →
            sorted.orderedInsert
              (fun a b => b.2.touchedSeq ≤ a.2.touchedSeq) first =
              sorted ++ [first] := by
        intro sorted
        induction sorted with
        | nil => exact fun _ => rfl
        | cons row later ihInsert =>
            intro hall
            have hnot := Nat.not_le.mpr (hall row List.mem_cons_self)
            rw [List.orderedInsert, if_neg hnot, ihInsert fun r hr =>
              hall r (List.mem_cons_of_mem _ hr)]
            rfl
      rw [List.insertionSort_cons, ih hrest, List.reverse_cons]
      apply hinsert
      intro row hrow
      exact hfirst row (List.mem_reverse.mp hrow)

theorem nodup_view (hnodup : ((rows t).map Prod.fst).Nodup) :
    ((view ns (rows t)).map Prod.fst).Nodup := by
  have hpairs : (((rows t).filter fun row =>
      decide (row.1.1 = ns)).map Prod.fst).Nodup :=
    hnodup.sublist (List.filter_sublist.map _)
  unfold view
  rw [List.map_map]
  rw [List.nodup_map_iff_inj_on (List.Nodup.of_map _ hpairs)]
  intro left hleft right hright hkey
  apply List.inj_on_of_nodup_map hpairs hleft hright
  have hns := of_decide_eq_true (List.mem_filter.mp hleft).2
  have hns' := of_decide_eq_true (List.mem_filter.mp hright).2
  exact Prod.ext (hns.trans hns'.symm) hkey

/-- The keys beyond the `n` used last are the oldest of the view. -/
theorem mem_overdue (h : InOrder t) {n : ℕ} : key ∈ overdue t ns n ↔
      key ∈ ((view ns (rows t)).take
        ((view ns (rows t)).length - n)).map Prod.fst := by
  have hordered : (t.entries.filter fun row =>
      decide (row.1.1 = ns)).Pairwise
        fun a b => a.2.touchedSeq < b.2.touchedSeq :=
    h.sublist List.filter_sublist
  have hview : view ns (rows t) = (t.entries.filter fun row =>
      decide (row.1.1 = ns)).map fun row => (row.1.2, row.2.toKvEntry) := by
    unfold view rows
    rw [List.filter_map, List.map_map]
    rfl
  unfold overdue
  rw [insertionSort_eq_reverse hordered, List.drop_reverse, hview,
    List.length_map, ← List.map_take, List.map_map, List.map_reverse,
    List.mem_reverse]
  rfl

theorem view_trimmed (h : InOrder t) (n : ℕ) :
    view other (rows (t.filter fun k _ =>
        !(decide (k.1 = ns) && decide (k.2 ∈ overdue t ns n)))) =
      if other = ns then keepNewest n (view ns (rows t))
      else view other (rows t) := by
  rw [rows_filter fun k _ =>
    !(decide (k.1 = ns) && decide (k.2 ∈ overdue t ns n))]
  refine (view_filter other (rows t) fun k _ =>
    !(decide (k.1 = ns) && decide (k.2 ∈ overdue t ns n))).trans ?_
  split
  next hns =>
    subst hns
    unfold keepNewest
    rw [← filter_take_keys (nodup_view (nodup_rows t))]
    apply List.filter_congr
    intro e _
    simp [mem_overdue h]
  next hns =>
    rw [List.filter_eq_self]
    intro e _
    simp [hns]

theorem live_keepNewest {n : ℕ} {entries : List (String × KvEntry)}
    (h : live now entries = entries) :
    live now (keepNewest n entries) = keepNewest n entries := by
  rw [live, List.filter_eq_self] at h ⊢
  intro entry hentry
  exact h entry (List.mem_of_mem_drop hentry)

theorem liveView_trimTo (h : InOrder t) (maxEntries : Option ℕ) :
    liveView now (trimTo now ns maxEntries t) other =
      if other = ns then keepTo maxEntries (liveView now t ns)
      else liveView now t other := by
  cases maxEntries with
  | none =>
      unfold trimTo keepTo
      dsimp only
      split
      next hns => rw [hns]
      next => rfl
  | some n =>
      unfold trimTo trim liveView
      have hdropped : ∀ other', view other' (rows (t.filter fun k row =>
          !(decide (k.1 = ns) && row.expired now))) =
          if other' = ns then live now (view ns (rows t))
          else view other' (rows t) := by
        intro other'
        rw [rows_filter fun k entry => !(decide (k.1 = ns) &&
          entry.expired now)]
        refine (view_filter other' (rows t) fun k entry =>
          !(decide (k.1 = ns) && entry.expired now)).trans ?_
        split
        next hns =>
          subst hns
          simp [live]
        next hns =>
          rw [List.filter_eq_self]
          intro e _
          simp [hns]
      rw [view_trimmed (h.filter _) n, hdropped, hdropped]
      by_cases hns : other = ns
      · rw [if_pos hns, if_pos hns, if_pos rfl]
        exact live_keepNewest (live_live le_rfl _)
      · rw [if_neg hns, if_neg hns, if_neg hns]

end UserKvTable

end QiForge
