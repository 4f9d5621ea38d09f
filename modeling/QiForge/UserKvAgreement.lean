import QiForge.UserKvCaps

/-!
# The two stores agree

The stores show the same live entries in the same order of use.  Each
operation keeps that, answers alike, and keeps both within their caps, so any
sequence of calls does.
-/

namespace QiForge

open KvRows

/-- The first cap a write breaks once no row is expired, of what it grew. -/
def settledOverflow (limits : UserKvLimits) (now : ℚ) (ns : String)
    (grew : UserKvGrowth) (rows : KvRows) : Option UserKvLimitError :=
  if !grew.entries && !grew.bytes then none
  else userKvOverflow ns (usageOf ns (liveRows now rows)) grew limits

/-- The view after its entry of a key was used, when it is there. -/
def usedView (now : ℚ) (key : String) (entry : Option KvEntry)
    (entries : List (String × KvEntry)) : List (String × KvEntry) :=
  match entry with
  | none => entries
  | some entry => dropKey key entries ++ [(key, entry.refresh now)]

section Lists

variable {now : ℚ} {key : String} {entries : List (String × KvEntry)}

theorem dropKey_dropKey : dropKey key (dropKey key entries) =
    dropKey key entries := by
  unfold dropKey
  rw [List.filter_filter]
  simp

theorem dropKey_of_not_mem (h : key ∉ entries.map Prod.fst) :
    dropKey key entries = entries := by
  unfold dropKey
  rw [List.filter_eq_self]
  intro entry hentry
  rw [decide_eq_true_eq]
  rintro rfl
  exact h (List.mem_map_of_mem hentry)

theorem dropKey_usedView {entry : Option KvEntry} :
    dropKey key (usedView now key entry entries) = dropKey key entries := by
  cases entry with
  | none => rfl
  | some entry =>
      unfold usedView
      have hlast : dropKey key [(key, entry.refresh now)] = [] := by
        simp [dropKey]
      have happend : dropKey key (dropKey key entries ++
          [(key, entry.refresh now)]) = dropKey key (dropKey key entries) ++
            dropKey key [(key, entry.refresh now)] := List.filter_append ..
      rw [happend, dropKey_dropKey, hlast, List.append_nil]

theorem live_append_of_live {entry : KvEntry}
    (hlive : entry.expired now = false) :
    live now (dropKey key entries ++ [(key, entry)]) =
      dropKey key (live now entries) ++ [(key, entry)] := by
  rw [live_append, live_dropKey]
  simp [live, hlive]

end Lists

namespace MemoryKv

variable {now : ℚ} {ns other key : String} {m : MemoryKv}
  {limits : UserKvLimits} {grew : UserKvGrowth}

/-- The entry a call of `now` finds. -/
def liveEntry (now : ℚ) (m : MemoryKv) (ns key : String) : Option KvEntry :=
  ((bucket m ns).get? key).filter fun entry => !entry.expired now

theorem mem_liveView {entry : KvEntry} : (key, entry) ∈ liveView now m ns ↔
      liveEntry now m ns key = some entry := by
  unfold liveView liveEntry live
  rw [List.mem_filter, OrderedMap.mem_entries_iff, Option.filter_eq_some_iff]

theorem liveView_set {b : KvBucket} : liveView now (m.set ns b) other =
    if other = ns then live now b.entries else liveView now m other := by
  unfold liveView
  rw [bucket_set]
  split <;> rfl

theorem not_mem_keys_of_none (h : liveEntry now m ns key = none) :
    key ∉ (liveView now m ns).map Prod.fst := by
  intro hmem
  rcases List.mem_map.mp hmem with ⟨⟨k, entry⟩, hentry, rfl⟩
  rw [mem_liveView.mp hentry] at h
  cases h

theorem touch_spec (now : ℚ) (ns key : String) (hvalid : ∀ row ∈ rows m,
      row.2.Valid limits row.1.1 row.1.2) :
    (KvBucket.touch now key (bucket m ns)).1 =
        (liveEntry now m ns key).map (KvEntry.refresh now) ∧
      live now (KvBucket.touch now key (bucket m ns)).2.entries =
        usedView now key (liveEntry now m ns key) (liveView now m ns) := by
  unfold KvBucket.touch
  cases hget : (bucket m ns).get? key with
  | none =>
      have hnone : liveEntry now m ns key = none := by
        unfold liveEntry
        rw [hget]
        rfl
      rw [hnone]
      exact ⟨rfl, rfl⟩
  | some entry =>
      cases hexpired : entry.expired now with
      | true =>
          have hnone : liveEntry now m ns key = none := by
            unfold liveEntry
            rw [hget]
            simp [Option.filter, hexpired]
          rw [hnone]
          refine ⟨by simp [hexpired], ?_⟩
          simp only [hexpired, if_true]
          exact (live_dropKey _).trans
            (dropKey_of_not_mem (not_mem_keys_of_none hnone))
      | false =>
          have hsome : liveEntry now m ns key = some entry := by
            unfold liveEntry
            rw [hget]
            simp [Option.filter, hexpired]
          have hentry : entry.Valid limits ns key := hvalid ((ns, key), entry)
              (mem_rows.mpr (OrderedMap.mem_entries_iff.mpr hget))
          rw [hsome]
          refine ⟨by simp [hexpired], ?_⟩
          simp only [hexpired, Bool.false_eq_true, if_false]
          exact live_append_of_live hentry.refresh_live

theorem live_put {entry : KvEntry} (hlive : entry.expired now = false) :
    live now (((bucket m ns).delete key).push key entry).entries =
      dropKey key (liveView now m ns) ++ [(key, entry)] := by
  have hentries : (((bucket m ns).delete key).push key entry).entries =
      dropKey key (dropKey key (bucket m ns).entries) ++ [(key, entry)] :=
    rfl
  rw [hentries, live_append_of_live hlive, live_dropKey, dropKey_dropKey]
  rfl

theorem live_trim {b : KvBucket} (maxEntries : Option ℕ) :
    live now (KvBucket.trim now maxEntries b).entries =
      keepTo maxEntries (live now b.entries) := by
  cases maxEntries with
  | none => rfl
  | some n =>
      have hall : live now (live now b.entries) = live now b.entries :=
        live_live le_rfl _
      exact UserKvTable.live_keepNewest hall

theorem trim_subset {b : KvBucket} {maxEntries : Option ℕ}
    {e : String × KvEntry}
    (h : e ∈ (KvBucket.trim now maxEntries b).entries) : e ∈ b.entries := by
  cases maxEntries with
  | none => exact h
  | some n => exact List.mem_of_mem_filter (List.mem_of_mem_drop h)

/-- The caps decide by the live rows, and leave them. -/
theorem enforce_spec (limits : UserKvLimits) (now : ℚ) (ns : String)
    (grew : UserKvGrowth) (m : MemoryKv) : ∃ m',
    enforce limits now ns grew m =
      (match settledOverflow limits now ns grew (rows m) with
        | none => .ok ()
        | some overflow => .error overflow, m') ∧
    (∀ other, liveView now m' other = liveView now m other) ∧
    rows m' ⊆ rows m ∧
    (settledOverflow limits now ns grew (rows m) = none →
      userKvOverflow ns (usageOf ns (rows m')) grew limits = none) := by
  have hswept : ∀ other, liveView now (sweepExpired m now).2 other =
      liveView now m other := by
    intro other
    rw [← live_view_rows, rows_sweepExpired, view_liveRows,
      live_live le_rfl, live_view_rows]
  have hsubset : rows (sweepExpired m now).2 ⊆ rows m := by
    rw [rows_sweepExpired]
    exact List.filter_subset_self _
  unfold enforce settledOverflow
  by_cases hgrew : !grew.entries && !grew.bytes
  · refine ⟨m, by simp only [hgrew, if_true], fun _ => rfl,
      List.Subset.refl _, fun _ => ?_⟩
    rw [Bool.and_eq_true, Bool.not_eq_true', Bool.not_eq_true'] at hgrew
    simp [userKvOverflow, hgrew.1, hgrew.2]
  · simp only [if_neg hgrew, usage_eq]
    cases hfirst : userKvOverflow ns (usageOf ns (rows m)) grew limits with
    | none =>
        rw [overflow_liveRows hfirst]
        exact ⟨m, rfl, fun _ => rfl, List.Subset.refl _, fun _ => hfirst⟩
    | some overflow =>
        dsimp only
        rw [sweepExpired_count, rows_sweepExpired]
        by_cases hcount : 0 < (rows m).countP fun row => row.2.expired now
        · rw [if_pos hcount]
          refine ⟨(sweepExpired m now).2, ?_, hswept, hsubset, ?_⟩
          · cases userKvOverflow ns (usageOf ns (liveRows now (rows m)))
              grew limits <;> rfl
          · intro hnone
            rw [rows_sweepExpired]
            exact hnone
        · have hnone : (rows m).countP (fun row => row.2.expired now) = 0 :=
            by omega
          rw [if_neg hcount, liveRows_of_none hnone, hfirst]
          exact ⟨(sweepExpired m now).2, rfl, hswept, hsubset, by simp⟩

end MemoryKv

namespace UserKvTable

variable {now : ℚ} {ns other key : String} {t : UserKvTable}
  {limits : UserKvLimits} {grew : UserKvGrowth} {entry : KvEntry}

/-- The entry a call of `now` finds. -/
def liveEntry (now : ℚ) (t : UserKvTable) (ns key : String) : Option KvEntry :=
  ((t.get? (ns, key)).map KvRow.toKvEntry).filter fun entry =>
    !entry.expired now

theorem mem_liveView : (key, entry) ∈ liveView now t ns ↔
    liveEntry now t ns key = some entry := by
  unfold liveView liveEntry live
  rw [List.mem_filter, mem_view, mem_rows, Option.filter_eq_some_iff,
    Option.map_eq_some_iff]

theorem not_mem_keys_of_none (h : liveEntry now t ns key = none) :
    key ∉ (liveView now t ns).map Prod.fst := by
  intro hmem
  rcases List.mem_map.mp hmem with ⟨⟨k, entry⟩, hentry, rfl⟩
  rw [mem_liveView.mp hentry] at h
  cases h

theorem liveView_delete : liveView now (t.delete (ns, key)) other =
    if other = ns then dropKey key (liveView now t ns)
    else liveView now t other := by
  unfold liveView
  rw [view_delete]
  split
  · exact live_dropKey _
  · rfl

theorem liveView_upsert (hlive : entry.expired now = false) :
    liveView now (upsert ns key entry t) other =
      if other = ns then dropKey key (liveView now t ns) ++ [(key, entry)]
      else liveView now t other := by
  unfold liveView
  rw [view_upsert]
  split
  · exact live_append_of_live hlive
  · rfl

theorem touch_spec (now : ℚ) (ns key : String) (hvalid : ∀ row ∈ rows t,
      row.2.Valid limits row.1.1 row.1.2) (horder : InOrder t) :
    (touch now ns key t).1 = (liveEntry now t ns key).map KvEntry.json ∧
      InOrder (touch now ns key t).2 ∧
      ∀ other, liveView now (touch now ns key t).2 other =
        if other = ns then
          usedView now key (liveEntry now t ns key) (liveView now t ns)
        else liveView now t other := by
  unfold touch
  cases hget : t.get? (ns, key) with
  | none =>
      have hnone : liveEntry now t ns key = none := by
        unfold liveEntry
        rw [hget]
        rfl
      rw [hnone]
      refine ⟨rfl, horder, fun other => ?_⟩
      by_cases hns : other = ns
      · rw [if_pos hns, hns]
        rfl
      · rw [if_neg hns]
  | some row =>
      cases hexpired : row.expired now with
      | true =>
          have hnone : liveEntry now t ns key = none := by
            unfold liveEntry
            rw [hget]
            simp [Option.filter, hexpired]
          rw [hnone]
          simp only [hexpired, if_true]
          refine ⟨rfl, horder.filter _, fun other => ?_⟩
          rw [liveView_delete]
          split
          · exact dropKey_of_not_mem (not_mem_keys_of_none hnone)
          · rfl
      | false =>
          have hsome : liveEntry now t ns key = some row.toKvEntry := by
            unfold liveEntry
            rw [hget]
            simp [Option.filter, hexpired]
          have hentry : row.toKvEntry.Valid limits ns key :=
            hvalid ((ns, key), row.toKvEntry) (mem_rows.mpr ⟨row, hget, rfl⟩)
          rw [hsome]
          simp only [hexpired, Bool.false_eq_true, if_false]
          exact ⟨rfl, horder.upsert, fun other =>
            liveView_upsert hentry.refresh_live⟩

theorem InOrder.trimTo (h : InOrder t) (maxEntries : Option ℕ) :
    InOrder (trimTo now ns maxEntries t) := by
  cases maxEntries with
  | none => exact h
  | some n => exact (h.filter _).filter _

theorem rows_filter_subset (p : String × String → KvRow → Bool) :
    rows (t.filter p) ⊆ rows t := by
  intro row hrow
  rcases List.mem_map.mp hrow with ⟨entry, hentry, rfl⟩
  exact List.mem_map_of_mem (List.mem_of_mem_filter hentry)

theorem rows_trimTo_subset (maxEntries : Option ℕ) :
    rows (trimTo now ns maxEntries t) ⊆ rows t := by
  cases maxEntries with
  | none => exact List.Subset.refl _
  | some n =>
      exact List.Subset.trans (rows_filter_subset _) (rows_filter_subset _)

/-- The caps decide by the live rows, and leave them. -/
theorem enforceCaps_spec (limits : UserKvLimits) (now : ℚ) (ns : String)
    (grew : UserKvGrowth) (hns : bindName ns = ns) (horder : InOrder t) :
    (∃ overflow, settledOverflow limits now ns grew (rows t) = some overflow ∧
      enforceCaps limits now ns grew t = .error overflow) ∨
    ∃ t', settledOverflow limits now ns grew (rows t) = none ∧
      enforceCaps limits now ns grew t = .ok t' ∧ InOrder t' ∧
      (∀ other, liveView now t' other = liveView now t other) ∧
      rows t' ⊆ rows t ∧
      userKvOverflow ns (usageOf ns (rows t')) grew limits = none := by
  have hswept : ∀ other, liveView now (sweepExpired t now).2 other =
      liveView now t other := by
    intro other
    unfold liveView
    rw [rows_sweepExpired, view_liveRows, live_live le_rfl]
  unfold enforceCaps settledOverflow
  rw [hns]
  by_cases hgrew : !grew.entries && !grew.bytes
  · refine .inr ⟨t, by simp only [hgrew, if_true], if_pos hgrew, horder,
      fun _ => rfl, List.Subset.refl _, ?_⟩
    rw [Bool.and_eq_true, Bool.not_eq_true', Bool.not_eq_true'] at hgrew
    simp [userKvOverflow, hgrew.1, hgrew.2]
  · simp only [if_neg hgrew, usage_eq]
    cases hfirst : userKvOverflow ns (usageOf ns (rows t)) grew limits with
    | none =>
        exact .inr ⟨t, overflow_liveRows hfirst, rfl, horder, fun _ => rfl,
          List.Subset.refl _, hfirst⟩
    | some overflow =>
        dsimp only
        rw [sweepExpired_count, rows_sweepExpired]
        by_cases hcount : 0 < (rows t).countP fun row => row.2.expired now
        · rw [if_pos hcount]
          cases hsettled : userKvOverflow ns
              (usageOf ns (liveRows now (rows t))) grew limits with
          | some overflow => exact .inl ⟨overflow, rfl, rfl⟩
          | none =>
              refine .inr ⟨(sweepExpired t now).2, rfl, rfl,
                horder.filter _, hswept, rows_filter_subset _, ?_⟩
              rw [rows_sweepExpired]
              exact hsettled
        · have hnone : (rows t).countP (fun row => row.2.expired now) = 0 :=
            by omega
          rw [if_neg hcount, liveRows_of_none hnone, hfirst]
          exact .inl ⟨overflow, rfl, rfl⟩

end UserKvTable

/-- The stores show the same entries at `now`, within their caps. -/
structure Matched (limits : UserKvLimits) (now : ℚ) (m : MemoryKv)
    (t : UserKvTable) : Prop where
  agree : ∀ ns, MemoryKv.liveView now m ns = UserKvTable.liveView now t ns
  inOrder : UserKvTable.InOrder t
  memory : WithinCaps limits (MemoryKv.rows m)
  table : WithinCaps limits (UserKvTable.rows t)

namespace Matched

variable {limits : UserKvLimits} {now later : ℚ} {m : MemoryKv}
  {t : UserKvTable} {ns key : String}

theorem at_later (h : Matched limits now m t) (hle : now ≤ later) :
    Matched limits later m t := by
  refine ⟨fun ns => ?_, h.inOrder, h.memory, h.table⟩
  have hagree := congrArg (live later) (h.agree ns)
  unfold MemoryKv.liveView UserKvTable.liveView at hagree ⊢
  rw [live_live hle, live_live hle] at hagree
  exact hagree

theorem liveEntry_eq (h : Matched limits now m t) :
    MemoryKv.liveEntry now m ns key = UserKvTable.liveEntry now t ns key := by
  apply Option.ext
  intro entry
  rw [← MemoryKv.mem_liveView, ← UserKvTable.mem_liveView, h.agree]

theorem settledOverflow_eq (limits : UserKvLimits) (ns : String)
    (hagree : ∀ ns, MemoryKv.liveView now m ns =
      UserKvTable.liveView now t ns) (grew : UserKvGrowth) :
    settledOverflow limits now ns grew (MemoryKv.rows m) =
      settledOverflow limits now ns grew (UserKvTable.rows t) := by
  unfold settledOverflow
  have husage : usageOf ns (liveRows now (MemoryKv.rows m)) =
      usageOf ns (liveRows now (UserKvTable.rows t)) := by
    apply usageOf_liveRows_congr
    intro other
    rw [MemoryKv.live_view_rows]
    exact hagree other
  rw [husage]

end Matched

end QiForge
