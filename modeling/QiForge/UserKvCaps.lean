import QiForge.UserKvViews

/-!
# Stores within their caps

When the rows of a store are within every cap, what a call may do to them and
stay within: rows go, an entry is replaced in place, or a write grows a
measure and passes its cap.
-/

namespace QiForge

open KvRows

/-- An entry as a write of its namespace and key makes it. -/
structure KvEntry.Valid (limits : UserKvLimits) (ns key : String)
    (entry : KvEntry) : Prop where
  bytes : entry.bytes = userKvRowBytes ns key entry.json.utf8ByteSize
  nonempty : 0 < entry.json.utf8ByteSize
  value : entry.json.utf8ByteSize ≤ limits.maxValueBytes
  future : ∀ ttl ∈ entry.idleTtlMs, 0 < ttl

namespace KvEntry

variable {limits : UserKvLimits} {ns key : String} {entry : KvEntry} {now : ℚ}

theorem not_expired_of_future (hfuture : ∀ ttl ∈ entry.idleTtlMs, 0 < ttl)
    (hexpires : entry.expiresAt = entry.idleTtlMs.map (now + ·)) :
    entry.expired now = false := by
  unfold expired
  rw [hexpires]
  cases httl : entry.idleTtlMs with
  | none => rfl
  | some ttl =>
      have hpos := hfuture ttl httl
      simpa using hpos

theorem Valid.refresh (h : entry.Valid limits ns key) :
    (entry.refresh now).Valid limits ns key :=
  { h with }

theorem Valid.refresh_live (h : entry.Valid limits ns key) :
    (entry.refresh now).expired now = false :=
  not_expired_of_future h.future rfl

end KvEntry

/-- The rows of a store, unique, valid and within every cap. -/
structure WithinCaps (limits : UserKvLimits) (rows : KvRows) : Prop where
  nodup : (rows.map Prod.fst).Nodup
  valid : ∀ row ∈ rows, row.2.Valid limits row.1.1 row.1.2
  namespaceEntries : ∀ ns,
    (usageOf ns rows).namespaceEntries ≤ limits.maxEntriesPerNamespace
  totalEntries : rows.length ≤ limits.maxTotalEntries
  totalBytes : (rows.map fun row =>
    userKvRowBytes row.1.1 row.1.2 row.2.json.utf8ByteSize).sum ≤
      limits.maxTotalBytes

namespace WithinCaps

variable {limits : UserKvLimits} {rows after : KvRows} {ns key : String}
  {entry old : KvEntry} {grew : UserKvGrowth} {now : ℚ}

theorem empty (limits : UserKvLimits) : WithinCaps limits [] := by
  constructor <;> simp [usageOf, view]

/-- The bytes counted are those of the rows. -/
theorem totalBytes_eq (ns : String)
    (hvalid : ∀ row ∈ rows, row.2.Valid limits row.1.1 row.1.2) :
    (usageOf ns rows).totalBytes = (rows.map fun row =>
      userKvRowBytes row.1.1 row.1.2 row.2.json.utf8ByteSize).sum := by
  unfold usageOf
  dsimp only
  congr 1
  apply List.map_congr_left
  intro row hrow
  exact (hvalid row hrow).bytes

theorem subperm_of_rows {left right : KvRows}
    (hnodup : (left.map Prod.fst).Nodup) (hsubset : left ⊆ right) :
    List.Subperm left right :=
  List.subperm_of_subset (List.Nodup.of_map _ hnodup) hsubset

/-- Fewer rows use less. -/
theorem usageOf_mono (ns : String) {left right : KvRows}
    (h : List.Subperm left right) :
    (usageOf ns left).namespaceEntries ≤ (usageOf ns right).namespaceEntries ∧
      (usageOf ns left).totalEntries ≤ (usageOf ns right).totalEntries ∧
      (usageOf ns left).totalBytes ≤ (usageOf ns right).totalBytes := by
  rcases h with ⟨middle, hperm, hsublist⟩
  rw [← usageOf_perm hperm]
  refine ⟨?_, hsublist.length_le, ?_⟩
  · exact ((hsublist.filter _).map _).length_le
  · exact (hsublist.map _).sum_le_sum fun _ _ => Nat.zero_le _

theorem mono (h : WithinCaps limits rows)
    (hnodup : (after.map Prod.fst).Nodup) (hsubset : after ⊆ rows) :
    WithinCaps limits after := by
  have hsubperm := subperm_of_rows hnodup hsubset
  have hvalid : ∀ row ∈ after, row.2.Valid limits row.1.1 row.1.2 :=
    fun row hrow => h.valid row (hsubset hrow)
  refine ⟨hnodup, hvalid, ?_, hsubperm.length_le.trans h.totalEntries, ?_⟩
  · intro ns
    exact (usageOf_mono ns hsubperm).1.trans (h.namespaceEntries ns)
  · have hbytes := (usageOf_mono "" hsubperm).2.2
    rw [totalBytes_eq "" hvalid, totalBytes_eq "" h.valid] at hbytes
    exact hbytes.trans h.totalBytes

/-- The rows with the entry of a namespace and key replaced. -/
def replaced (rows : KvRows) (ns key : String) (entry : KvEntry) : KvRows :=
  rows.filter (fun row => decide (row.1 ≠ (ns, key))) ++ [((ns, key), entry)]

/-- An entry that was there is one of the rows apart. -/
theorem perm_replaced (hnodup : (rows.map Prod.fst).Nodup)
    (hmem : ((ns, key), old) ∈ rows) :
    rows.Perm (replaced rows ns key old) := by
  have hrest : ∀ row ∈ rows.filter fun row => decide (row.1 ≠ (ns, key)),
      row.1 ≠ (ns, key) := by
    intro row hrow
    exact of_decide_eq_true (List.mem_filter.mp hrow).2
  rw [List.perm_ext_iff_of_nodup (List.Nodup.of_map _ hnodup)]
  · intro row
    unfold replaced
    rw [List.mem_append, List.mem_singleton, List.mem_filter,
      decide_eq_true_eq]
    constructor
    · intro hrow
      by_cases hkey : row.1 = (ns, key)
      · exact .inr (List.inj_on_of_nodup_map hnodup hrow hmem hkey)
      · exact .inl ⟨hrow, hkey⟩
    · rintro (⟨hrow, -⟩ | rfl)
      · exact hrow
      · exact hmem
  · apply List.nodup_append.mpr
    refine ⟨(List.Nodup.of_map _ hnodup).filter _, List.nodup_singleton _, ?_⟩
    rintro row hrow last hlast rfl
    rw [List.mem_singleton.mp hlast] at hrow
    exact hrest _ hrow rfl

theorem usageOf_replaced (other : String) :
    (usageOf other (replaced rows ns key entry)).namespaceEntries =
        (usageOf other (replaced rows ns key old)).namespaceEntries ∧
      (usageOf other (replaced rows ns key entry)).totalEntries =
        (usageOf other (replaced rows ns key old)).totalEntries ∧
      (usageOf other (replaced rows ns key entry)).totalBytes + old.bytes =
        (usageOf other (replaced rows ns key old)).totalBytes +
          entry.bytes := by
  unfold usageOf replaced
  refine ⟨?_, ?_, ?_⟩
  · dsimp only
    rw [view_append, view_append, List.length_append, List.length_append]
    congr 1
    unfold view
    by_cases hns : ns = other <;> simp [hns]
  · simp
  · simp only [List.map_append, List.sum_append, List.map_cons, List.map_nil,
      List.sum_singleton]
    omega

/-- What a write leaves is within the caps: a measure it grew passed its cap,
and one it did not grow is that of an entry it replaced. -/
theorem written (h : WithinCaps limits rows)
    (hnodup : (after.map Prod.fst).Nodup)
    (hsubset : after ⊆ replaced rows ns key entry)
    (hentry : entry.Valid limits ns key)
    (hentries : grew.entries = false → ∃ old, ((ns, key), old) ∈ rows)
    (hbytes : grew.bytes = false →
      ∃ old, ((ns, key), old) ∈ rows ∧ entry.bytes ≤ old.bytes)
    (hfits : userKvOverflow ns (usageOf ns after) grew limits = none) :
    WithinCaps limits after := by
  have hsubperm := subperm_of_rows hnodup hsubset
  have hvalid : ∀ row ∈ after, row.2.Valid limits row.1.1 row.1.2 := by
    intro row hrow
    rcases List.mem_append.mp (hsubset hrow) with hold | hnew
    · exact h.valid row (List.mem_of_mem_filter hold)
    · rw [List.mem_singleton.mp hnew]
      exact hentry
  have hcaps : (grew.entries = true →
      (usageOf ns after).namespaceEntries ≤ limits.maxEntriesPerNamespace ∧
        (usageOf ns after).totalEntries ≤ limits.maxTotalEntries) ∧
      (grew.bytes = true →
        (usageOf ns after).totalBytes ≤ limits.maxTotalBytes) := by
    unfold userKvOverflow at hfits
    split at hfits
    · cases hfits
    · split at hfits
      · cases hfits
      · split at hfits
        · cases hfits
        · rename_i hfirst hsecond hthird
          refine ⟨fun hgrew => ⟨?_, ?_⟩, fun hgrew => ?_⟩
          · exact not_lt.mp fun hlt => hfirst ⟨hgrew, hlt⟩
          · exact not_lt.mp fun hlt => hsecond ⟨hgrew, hlt⟩
          · exact not_lt.mp fun hlt => hthird ⟨hgrew, hlt⟩
  refine ⟨hnodup, hvalid, ?_, ?_, ?_⟩
  · intro other
    by_cases hgrew : grew.entries = true ∧ other = ns
    · rw [hgrew.2]
      exact (hcaps.1 hgrew.1).1
    · cases hentriesGrew : grew.entries with
      | false =>
          rcases hentries hentriesGrew with ⟨old, hold⟩
          calc
            _ ≤ (usageOf other (replaced rows ns key
                entry)).namespaceEntries := (usageOf_mono other hsubperm).1
            _ = (usageOf other (replaced rows ns key
                old)).namespaceEntries := (usageOf_replaced other).1
            _ = (usageOf other rows).namespaceEntries := by
              rw [usageOf_perm (perm_replaced h.nodup hold)]
            _ ≤ _ := h.namespaceEntries other
      | true =>
          have hother : other ≠ ns := fun heq => hgrew ⟨hentriesGrew, heq⟩
          refine le_trans ?_ (h.namespaceEntries other)
          have hview : view other (replaced rows ns key entry) =
              view other rows := by
            unfold replaced
            rw [view_append, view_filter other rows
              fun k _ => decide (k ≠ (ns, key))]
            have hsingle : view other [((ns, key), entry)] = [] := by
              simp [view, Ne.symm hother]
            rw [hsingle, List.append_nil, List.filter_eq_self]
            intro e _
            simp [hother]
          have hle := (usageOf_mono other hsubperm).1
          unfold usageOf at hle ⊢
          rw [hview] at hle
          exact hle
  · cases hentriesGrew : grew.entries with
    | true => exact (hcaps.1 hentriesGrew).2
    | false =>
        rcases hentries hentriesGrew with ⟨old, hold⟩
        calc
          after.length ≤ (replaced rows ns key entry).length :=
            hsubperm.length_le
          _ = (replaced rows ns key old).length := by simp [replaced]
          _ = rows.length := (perm_replaced h.nodup hold).length_eq.symm
          _ ≤ _ := h.totalEntries
  · rw [← totalBytes_eq ns hvalid]
    cases hbytesGrew : grew.bytes with
    | true => exact hcaps.2 hbytesGrew
    | false =>
        rcases hbytes hbytesGrew with ⟨old, hold, hle⟩
        have hmono := (usageOf_mono ns hsubperm).2.2
        have hreplaced : (usageOf ns (replaced rows ns key
            entry)).totalBytes + old.bytes =
            (usageOf ns (replaced rows ns key old)).totalBytes +
              entry.bytes := (usageOf_replaced ns).2.2
        have hrows : usageOf ns rows = usageOf ns (replaced rows ns key old) :=
          usageOf_perm (perm_replaced h.nodup hold)
        have hbound := h.totalBytes
        rw [← totalBytes_eq ns h.valid, hrows] at hbound
        omega

end WithinCaps

end QiForge
