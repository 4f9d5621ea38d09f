import QiForge.UserKvAgreement
import QiForge.Transition

/-!
# Sequences of calls

A write refuses with the same error in both stores or leaves them matched, and
a refused write leaves nothing behind that a later call can observe.  From the
empty stores every sequence of calls is answered alike.
-/

namespace QiForge

open KvRows

namespace WithinCaps

variable {limits : UserKvLimits} {rows after : KvRows} {ns key : String}
  {old : KvEntry} {now : ℚ}

theorem refreshed (h : WithinCaps limits rows)
    (hmem : ((ns, key), old) ∈ rows) (hnodup : (after.map Prod.fst).Nodup)
    (hsubset : after ⊆ replaced rows ns key (old.refresh now)) :
    WithinCaps limits after := by
  have hgrew : userKvOverflow ns (usageOf ns after) ⟨false, false⟩ limits =
      none := by
    simp [userKvOverflow]
  exact h.written hnodup hsubset (h.valid _ hmem).refresh
    (fun _ => ⟨old, hmem⟩) (fun _ => ⟨old, hmem, le_rfl⟩) hgrew

end WithinCaps

namespace MemoryKv

variable {limits : UserKvLimits} {now : ℚ} {ns key : String} {m : MemoryKv}
  {b : KvBucket} {entry : KvEntry}

theorem rows_set_of_subset (h : b.entries ⊆ (bucket m ns).entries) :
    rows (m.set ns b) ⊆ rows m := by
  intro row hrow
  rcases rows_set_subset hrow with ⟨rfl, hmem⟩ | ⟨-, hmem⟩
  · exact mem_rows.mpr (h hmem)
  · exact hmem

theorem rows_set_of_put (h : ∀ e ∈ b.entries,
      e = (key, entry) ∨ (e ∈ (bucket m ns).entries ∧ e.1 ≠ key)) :
    rows (m.set ns b) ⊆ WithinCaps.replaced (rows m) ns key entry := by
  intro row hrow
  apply List.mem_append.mpr
  rcases row with ⟨⟨ns', key'⟩, entry'⟩
  rcases rows_set_subset hrow with ⟨hns, hmem⟩ | ⟨hns, hmem⟩
  · dsimp only at hns hmem
    rcases h _ hmem with heq | ⟨hold, hkey⟩
    · obtain ⟨rfl, rfl⟩ := Prod.mk.inj heq
      rw [hns]
      exact .inr List.mem_cons_self
    · rw [hns]
      exact .inl (List.mem_filter.mpr ⟨mem_rows.mpr hold, by simpa using hkey⟩)
  · exact .inl (List.mem_filter.mpr ⟨hmem, by simp [hns]⟩)

theorem mem_push {e : String × KvEntry} (h : e ∈ (b.push key entry).entries) :
    e = (key, entry) ∨ (e ∈ b.entries ∧ e.1 ≠ key) := by
  rcases List.mem_append.mp h with hold | hnew
  · rcases List.mem_filter.mp hold with ⟨hmem, hkey⟩
    exact .inr ⟨hmem, of_decide_eq_true hkey⟩
  · exact .inl (List.mem_singleton.mp hnew)

theorem touch_caps (h : WithinCaps limits (rows m)) :
    WithinCaps limits (rows (m.set ns
      (KvBucket.touch now key (bucket m ns)).2)) := by
  unfold KvBucket.touch
  cases hget : (bucket m ns).get? key with
  | none =>
      exact h.mono (nodup_rows _) (rows_set_of_subset (List.Subset.refl _))
  | some entry =>
      dsimp only
      split
      · exact h.mono (nodup_rows _)
          (rows_set_of_subset (List.filter_subset_self _))
      · have hmem : ((ns, key), entry) ∈ rows m :=
          mem_rows.mpr (OrderedMap.mem_entries_iff.mpr hget)
        exact h.refreshed hmem (nodup_rows _)
          (rows_set_of_put fun e he => mem_push he)

/-- What a call of `now` finds after the entry was used. -/
theorem liveEntry_touch (hvalid : ∀ row ∈ rows m,
      row.2.Valid limits row.1.1 row.1.2) :
    liveEntry now (m.set ns (KvBucket.touch now key (bucket m ns)).2) ns
        key = (liveEntry now m ns key).map (KvEntry.refresh now) := by
  apply Option.ext
  intro entry
  rw [← mem_liveView, liveView_set, if_pos rfl,
    (touch_spec now ns key hvalid).2]
  cases hfound : liveEntry now m ns key with
  | none =>
      unfold usedView
      rw [mem_liveView, hfound]
      rfl
  | some found =>
      simp [usedView, dropKey, eq_comm]

end MemoryKv

namespace UserKvTable

variable {limits : UserKvLimits} {now : ℚ} {ns key : String}
  {t : UserKvTable} {entry : KvEntry}

theorem rows_upsert_eq : rows (upsert ns key entry t) =
    WithinCaps.replaced (rows t) ns key entry := by
  rw [rows_upsert, rows_delete]
  rfl

theorem touch_caps (h : WithinCaps limits (rows t)) :
    WithinCaps limits (rows (touch now ns key t).2) := by
  unfold touch
  cases hget : t.get? (ns, key) with
  | none => exact h
  | some row =>
      dsimp only
      split
      · exact h.mono (nodup_rows _) (rows_filter_subset _)
      · have hsubset : rows (upsert ns key (row.refresh now) t) ⊆
            WithinCaps.replaced (rows t) ns key (row.refresh now) := by
          rw [rows_upsert_eq]
          exact List.Subset.refl _
        exact h.refreshed (mem_rows.mpr ⟨row, hget, rfl⟩) (nodup_rows _)
          hsubset

/-- The part of an update that stores a value. -/
def writeValue (limits : UserKvLimits) (now : ℚ) (ns key json : String)
    (opts : UserKvWriteOptions) (current : Option String) (t : UserKvTable) :
    Except UserKvLimitError UserKvTable :=
  match assertUserKvValueSize ns json limits with
  | .error error => .error error
  | .ok valueBytes =>
      enforceCaps limits now ns
        { entries := current.isNone
          bytes := decide ((current.map String.utf8ByteSize).getD 0 <
            valueBytes) }
        (trimTo now ns opts.maxEntries (upsert ns key
          { json := json
            bytes := userKvRowBytes ns key valueBytes
            idleTtlMs := opts.idleTtlMs
            expiresAt := opts.idleTtlMs.map (now + ·) } t))

theorem updateBody_eq {V E : Type*} (codec : UserKvCodec V)
    (hns : bindName ns = ns) (hkey : bindName key = key) (fn : Option V → Except E (Option V)) (opts : UserKvWriteOptions)
    (t : UserKvTable) :
    updateBody codec limits now ns key fn opts t =
      match fn ((touch now ns key t).1.map codec.decode) with
      | .error error => .error (.thrown error)
      | .ok none => .ok (none, trimTo now ns opts.maxEntries
          ((touch now ns key t).2.delete (ns, key)))
      | .ok (some next) =>
          match writeValue limits now ns key (codec.encode next) opts
              (touch now ns key t).1 (touch now ns key t).2 with
          | .error error => .error (.limit error)
          | .ok t => .ok (some (codec.decode (codec.encode next)), t) := by
  unfold updateBody writeValue
  rw [hns, hkey]
  rcases touch now ns key t with ⟨current, t⟩
  dsimp only
  cases fn (current.map codec.decode) with
  | error error => rfl
  | ok next =>
      cases next with
      | none => rfl
      | some next =>
          dsimp only
          cases assertUserKvValueSize ns (codec.encode next) limits with
          | error error => rfl
          | ok valueBytes => rfl

end UserKvTable

/-- A write in both stores: refused alike, where memory keeps the live entries
of the other namespaces, or accepted and matched. -/
def WrittenAlike (limits : UserKvLimits) (now : ℚ) (ns : String)
    (before : MemoryKv) (left : Except UserKvLimitError Unit × MemoryKv)
    (right : Except UserKvLimitError UserKvTable) : Prop :=
  (∃ error m, left = (.error error, m) ∧ right = .error error ∧
    (∀ other, other ≠ ns →
      MemoryKv.liveView now m other = MemoryKv.liveView now before other) ∧
    ∀ row ∈ MemoryKv.rows m, row.1.1 ≠ ns → row ∈ MemoryKv.rows before) ∨
  ∃ m t, left = (.ok (), m) ∧ right = .ok t ∧ Matched limits now m t

section Writes

variable {limits : UserKvLimits} {now : ℚ} {ns key json : String}
  {m : MemoryKv} {t : UserKvTable}

/-- The growth both stores measure. -/
theorem growth_eq {previous : Option KvEntry} {current : Option String}
    (hprevious : previous.map KvEntry.json = current)
    (hvalid : ∀ entry ∈ previous, entry.Valid limits ns key)
    (hjson : 0 < json.utf8ByteSize) :
    decide ((previous.map KvEntry.bytes).getD 0 <
        userKvRowBytes ns key json.utf8ByteSize) =
      decide ((current.map String.utf8ByteSize).getD 0 <
        json.utf8ByteSize) := by
  rw [decide_eq_decide]
  cases previous with
  | none =>
      rw [← hprevious]
      unfold userKvRowBytes
      simp only [Option.map_none, Option.getD_none]
      omega
  | some entry =>
      have hbytes := (hvalid entry rfl).bytes
      rw [← hprevious]
      simp only [Option.map_some, Option.getD_some, hbytes]
      unfold userKvRowBytes
      omega

variable {entry : KvEntry}

/-- A live entry of the key, if there is one, is a row; a write that does not
grow a measure replaces it. -/
theorem written_caps {rows after : KvRows} {found : Option KvEntry}
    (h : WithinCaps limits rows)
    (hfound : ∀ old ∈ found, ((ns, key), old) ∈ rows)
    (hnodup : (after.map Prod.fst).Nodup)
    (hsubset : after ⊆ WithinCaps.replaced rows ns key entry)
    (hentry : entry.Valid limits ns key)
    (hfits : userKvOverflow ns (usageOf ns after)
      ⟨found.isNone, decide ((found.map KvEntry.bytes).getD 0 <
        entry.bytes)⟩ limits = none) :
    WithinCaps limits after := by
  apply h.written hnodup hsubset hentry _ _ hfits
  · intro hentries
    cases found with
    | none => cases hentries
    | some old => exact ⟨old, hfound old rfl⟩
  · intro hbytes
    have hnot := of_decide_eq_false hbytes
    cases found with
    | none =>
        have hpos := hentry.nonempty
        rw [hentry.bytes] at hnot
        unfold userKvRowBytes at hnot
        simp only [Option.map_none, Option.getD_none] at hnot
        omega
    | some old => exact ⟨old, hfound old rfl, not_lt.mp hnot⟩

theorem MemoryKv.liveEntry_mem
    (h : MemoryKv.liveEntry now m ns key = some entry) :
    ((ns, key), entry) ∈ MemoryKv.rows m := by
  rw [MemoryKv.mem_rows]
  exact List.mem_of_mem_filter (MemoryKv.mem_liveView.mpr h)

theorem UserKvTable.liveEntry_mem
    (h : UserKvTable.liveEntry now t ns key = some entry) :
    ((ns, key), entry) ∈ UserKvTable.rows t := by
  rw [← mem_view]
  exact List.mem_of_mem_filter (UserKvTable.mem_liveView.mpr h)

/-- The value put and the namespace trimmed, in both stores. -/
theorem put_agrees (maxEntries : Option ℕ)
    (hagree : ∀ other, other ≠ ns → MemoryKv.liveView now m other =
      UserKvTable.liveView now t other)
    (hdropped : dropKey key (MemoryKv.liveView now m ns) =
      dropKey key (UserKvTable.liveView now t ns))
    (horder : UserKvTable.InOrder t) (hlive : entry.expired now = false)
    (other : String) :
    MemoryKv.liveView now (m.set ns (KvBucket.trim now maxEntries
        (((MemoryKv.bucket m ns).delete key).push key entry))) other =
      UserKvTable.liveView now (UserKvTable.trimTo now ns maxEntries
        (UserKvTable.upsert ns key entry t)) other := by
  rw [MemoryKv.liveView_set, UserKvTable.liveView_trimTo horder.upsert,
    UserKvTable.liveView_upsert hlive, UserKvTable.liveView_upsert hlive]
  by_cases hns : other = ns
  · rw [if_pos hns, if_pos hns, if_pos rfl, MemoryKv.live_trim,
      MemoryKv.live_put hlive, hdropped]
  · rw [if_neg hns, if_neg hns, if_neg hns, hagree other hns]

/-- A value written over stores that differ at most in the use of its key. -/
theorem writtenAlike {current : Option String} (opts : UserKvWriteOptions)
    (hns : UserKvTable.bindName ns = ns)
    (hagree : ∀ other, other ≠ ns → MemoryKv.liveView now m other =
      UserKvTable.liveView now t other)
    (hdropped : dropKey key (MemoryKv.liveView now m ns) =
      dropKey key (UserKvTable.liveView now t ns))
    (horder : UserKvTable.InOrder t)
    (hmemory : WithinCaps limits (MemoryKv.rows m))
    (htable : WithinCaps limits (UserKvTable.rows t))
    (hprevious : (MemoryKv.liveEntry now m ns key).map KvEntry.json = current)
    (hcurrent : (UserKvTable.liveEntry now t ns key).map KvEntry.json =
      current)
    (hjson : 0 < json.utf8ByteSize) :
    WrittenAlike limits now ns m
      (MemoryKv.write limits now ns key (some json) opts m)
      (UserKvTable.writeValue limits now ns key json opts current t) := by
  by_cases hsize : limits.maxValueBytes < json.utf8ByteSize
  · have hrefused : assertUserKvValueSize ns json limits =
        .error ⟨.value, ns, limits.maxValueBytes, json.utf8ByteSize⟩ :=
      if_pos hsize
    refine .inl ⟨⟨.value, ns, limits.maxValueBytes, json.utf8ByteSize⟩,
      m.set ns ((MemoryKv.bucket m ns).delete key), ?_, ?_, ?_, ?_⟩
    · unfold MemoryKv.write
      dsimp only
      rw [hrefused]
    · unfold UserKvTable.writeValue
      rw [hrefused]
    · intro other hother
      rw [MemoryKv.liveView_set, if_neg hother]
    · exact fun row hrow _ => MemoryKv.rows_set_of_subset
        (List.filter_subset_self _) hrow
  · have hfits : assertUserKvValueSize ns json limits =
        .ok json.utf8ByteSize := if_neg hsize
    let entry := KvEntry.written now ns key json opts
    let mW : MemoryKv := m.set ns (KvBucket.trim now opts.maxEntries
      (((MemoryKv.bucket m ns).delete key).push key entry))
    let tW := UserKvTable.trimTo now ns opts.maxEntries
      (UserKvTable.upsert ns key entry t)
    let grew : UserKvGrowth := ⟨(MemoryKv.liveEntry now m ns key).isNone,
        decide (((MemoryKv.liveEntry now m ns key).map
          KvEntry.bytes).getD 0 < entry.bytes)⟩
    have hlive : entry.expired now = false :=
      KvEntry.not_expired_of_future opts.future rfl
    have hentry : entry.Valid limits ns key :=
      ⟨rfl, hjson, not_lt.mp hsize, opts.future⟩
    have hputs : ∀ other, MemoryKv.liveView now mW other =
        UserKvTable.liveView now tW other :=
      put_agrees opts.maxEntries hagree hdropped horder hlive
    have hgrewMemory := growth_eq hprevious
      (fun old hold => hmemory.valid _ (MemoryKv.liveEntry_mem hold)) hjson
    have hgrewTable := growth_eq hcurrent
      (fun old hold => htable.valid _ (UserKvTable.liveEntry_mem hold)) hjson
    have hisNone : (MemoryKv.liveEntry now m ns key).isNone =
        (UserKvTable.liveEntry now t ns key).isNone := by
      rw [← Option.isNone_map (f := KvEntry.json),
        ← Option.isNone_map (f := KvEntry.json), hprevious, hcurrent]
    have hgrew : grew = ⟨(UserKvTable.liveEntry now t ns key).isNone,
        decide (((UserKvTable.liveEntry now t ns key).map
          KvEntry.bytes).getD 0 < entry.bytes)⟩ :=
      UserKvGrowth.mk.injEq .. ▸ ⟨hisNone, hgrewMemory.trans hgrewTable.symm⟩
    have hleft : MemoryKv.write limits now ns key (some json) opts m =
        MemoryKv.enforce limits now ns grew mW := by
      unfold MemoryKv.write
      dsimp only
      rw [hfits]
      rfl
    have hmeasured : (⟨current.isNone,
        decide ((current.map String.utf8ByteSize).getD 0 <
          json.utf8ByteSize)⟩ : UserKvGrowth) = grew := by
      rw [hgrew, UserKvGrowth.mk.injEq]
      refine ⟨?_, hgrewTable.symm⟩
      rw [← hcurrent, Option.isNone_map]
    have hright : UserKvTable.writeValue limits now ns key json opts current
        t = UserKvTable.enforceCaps limits now ns grew tW := by
      unfold UserKvTable.writeValue
      rw [hfits]
      dsimp only
      rw [hmeasured]
      rfl
    have hsubsetMemory : MemoryKv.rows mW ⊆
        WithinCaps.replaced (MemoryKv.rows m) ns key entry := by
      apply MemoryKv.rows_set_of_put
      intro e he
      rcases MemoryKv.mem_push (MemoryKv.trim_subset he) with hnew | hold
      · exact .inl hnew
      · exact .inr ⟨List.mem_of_mem_filter hold.1, hold.2⟩
    have hsubsetTable : UserKvTable.rows tW ⊆
        WithinCaps.replaced (UserKvTable.rows t) ns key entry := by
      rw [← UserKvTable.rows_upsert_eq]
      exact UserKvTable.rows_trimTo_subset _
    have hother : ∀ other, other ≠ ns → MemoryKv.liveView now mW other =
        MemoryKv.liveView now m other := by
      intro other hne
      exact MemoryKv.liveView_set.trans (if_neg hne)
    rcases MemoryKv.enforce_spec limits now ns grew mW with
      ⟨m', henforce, hviews, hrows, hcaps⟩
    have hsettled := Matched.settledOverflow_eq limits ns hputs grew
    have hordered : UserKvTable.InOrder tW :=
      horder.upsert.trimTo opts.maxEntries
    rcases UserKvTable.enforceCaps_spec limits now ns grew hns hordered with
      ⟨overflow, hbroken, hrefused⟩ |
        ⟨t', hwhole, haccepted, horder', hviews', hrows', hcaps'⟩
    · rw [hsettled, hbroken] at henforce
      refine .inl ⟨overflow, m', hleft.trans henforce, hright.trans hrefused,
        fun other hne => (hviews other).trans (hother other hne), ?_⟩
      intro row hrow hne
      rcases MemoryKv.rows_set_subset (hrows hrow) with ⟨hns, -⟩ | ⟨-, hmem⟩
      · exact absurd hns hne
      · exact hmem
    · rw [hsettled, hwhole] at henforce
      refine .inr ⟨m', t', hleft.trans henforce, hright.trans haccepted, ?_⟩
      refine ⟨fun other => ?_, horder', ?_, ?_⟩
      · rw [hviews, hviews', hputs]
      · exact written_caps hmemory
          (fun old hold => MemoryKv.liveEntry_mem hold)
          (MemoryKv.nodup_rows _) (List.Subset.trans hrows hsubsetMemory)
          hentry (hcaps (hsettled.trans hwhole))
      · rw [hgrew] at hcaps'
        exact written_caps htable
          (fun old hold => UserKvTable.liveEntry_mem hold)
          (UserKvTable.nodup_rows _) (List.Subset.trans hrows' hsubsetTable)
          hentry hcaps'

end Writes

theorem UserKvTable.liveEntry_touch {limits : UserKvLimits} {now : ℚ}
    {ns key : String} {t : UserKvTable}
    (hvalid : ∀ row ∈ UserKvTable.rows t, row.2.Valid limits row.1.1 row.1.2)
    (horder : UserKvTable.InOrder t) :
    UserKvTable.liveEntry now (UserKvTable.touch now ns key t).2 ns key =
      (UserKvTable.liveEntry now t ns key).map (KvEntry.refresh now) := by
  apply Option.ext
  intro entry
  rw [← UserKvTable.mem_liveView,
    (UserKvTable.touch_spec now ns key hvalid horder).2.2, if_pos rfl]
  cases hfound : UserKvTable.liveEntry now t ns key with
  | none =>
      unfold usedView
      rw [UserKvTable.mem_liveView, hfound]
      rfl
  | some found => simp [usedView, dropKey, eq_comm]

namespace Matched

variable {limits : UserKvLimits} {now : ℚ} {ns key : String} {m : MemoryKv}
  {t : UserKvTable}

theorem map_json_refresh (entry : Option KvEntry) :
    (entry.map (KvEntry.refresh now)).map KvEntry.json =
      entry.map KvEntry.json := by
  rw [Option.map_map]
  rfl

theorem touched (h : Matched limits now m t) : Matched limits now
      (m.set ns (KvBucket.touch now key (MemoryKv.bucket m ns)).2)
      (UserKvTable.touch now ns key t).2 := by
  rcases UserKvTable.touch_spec now ns key
    h.table.valid h.inOrder with ⟨-, horder, hviews⟩
  refine ⟨fun other => ?_, horder, MemoryKv.touch_caps h.memory,
    UserKvTable.touch_caps h.table⟩
  rw [MemoryKv.liveView_set, hviews, (MemoryKv.touch_spec now ns key h.memory.valid).2]
  by_cases hns : other = ns
  · rw [if_pos hns, if_pos hns, h.liveEntry_eq, h.agree]
  · rw [if_neg hns, if_neg hns, h.agree]

/-- Deleting a key, and the trim a write asks for, in both stores. -/
theorem deleted (h : Matched limits now m t) (maxEntries : Option ℕ) :
    Matched limits now (m.set ns (KvBucket.trim now maxEntries
        ((MemoryKv.bucket m ns).delete key)))
      (UserKvTable.trimTo now ns maxEntries (t.delete (ns, key))) := by
  have horder : UserKvTable.InOrder (t.delete (ns, key)) := h.inOrder.filter _
  refine ⟨fun other => ?_, horder.trimTo maxEntries, ?_, ?_⟩
  · rw [MemoryKv.liveView_set, UserKvTable.liveView_trimTo horder,
      UserKvTable.liveView_delete, UserKvTable.liveView_delete]
    by_cases hns : other = ns
    · rw [if_pos hns, if_pos hns, if_pos rfl, MemoryKv.live_trim, ← h.agree]
      congr 1
      exact live_dropKey _
    · rw [if_neg hns, if_neg hns, if_neg hns, h.agree]
  · exact h.memory.mono (MemoryKv.nodup_rows _)
      (MemoryKv.rows_set_of_subset fun e he =>
        List.mem_of_mem_filter (MemoryKv.trim_subset he))
  · exact h.table.mono (UserKvTable.nodup_rows _)
      (List.Subset.trans (UserKvTable.rows_trimTo_subset _)
        (UserKvTable.rows_filter_subset _))

/-- A namespace put back as it was, while the others kept their live
entries. -/
theorem restored {m' : MemoryKv} (h : Matched limits now m t)
    (hviews : ∀ other, other ≠ ns →
      MemoryKv.liveView now m' other = MemoryKv.liveView now m other)
    (hrows : ∀ row ∈ MemoryKv.rows m', row.1.1 ≠ ns → row ∈ MemoryKv.rows m) :
    Matched limits now (m'.set ns (MemoryKv.bucket m ns)) t := by
  refine ⟨fun other => ?_, h.inOrder, ?_, h.table⟩
  · rw [MemoryKv.liveView_set, ← h.agree]
    by_cases hns : other = ns
    · rw [if_pos hns, hns]
      rfl
    · rw [if_neg hns, hviews other hns]
  · apply h.memory.mono (MemoryKv.nodup_rows _)
    intro row hrow
    rcases MemoryKv.rows_set_subset hrow with ⟨hns, hmem⟩ | ⟨hns, hmem⟩
    · rcases row with ⟨⟨ns', key'⟩, entry⟩
      dsimp only at hns hmem
      rw [hns]
      exact MemoryKv.mem_rows.mpr hmem
    · exact hrows row hmem hns

theorem empty (limits : UserKvLimits) (now : ℚ) :
    Matched limits now MemoryKv.empty UserKvTable.empty :=
  ⟨fun _ => rfl, List.Pairwise.nil, WithinCaps.empty limits,
    WithinCaps.empty limits⟩

end Matched

section Calls

variable {V E : Type*} {codec : UserKvCodec V} {limits : UserKvLimits}
  {now : ℚ} {ns key : String} {m : MemoryKv} {t : UserKvTable}

/-- The answers of a call are one, and the stores stay matched. -/
def AnsweredAlike (limits : UserKvLimits) (now : ℚ)
    (left : UserKvAnswer V E × MemoryKv)
    (right : UserKvAnswer V E × UserKvTable) : Prop :=
  left.1 = right.1 ∧ Matched limits now left.2 right.2

section Names

variable (hns : UserKvTable.bindName ns = ns)
  (hkey : UserKvTable.bindName key = key)

include hns hkey

theorem answered_get (h : Matched limits now m t) :
    AnsweredAlike (E := E) limits now
      (MemoryKv.call codec limits m ⟨now, .get ns key⟩)
      (UserKvTable.call codec limits t ⟨now, .get ns key⟩) := by
  have htouched : Matched limits now
      (m.set ns (KvBucket.touch now key (MemoryKv.bucket m ns)).2)
      (UserKvTable.touch now ns key t).2 := h.touched
  have hmemory := (MemoryKv.touch_spec now ns key h.memory.valid).1
  have htable := (UserKvTable.touch_spec now ns key h.table.valid h.inOrder).1
  unfold MemoryKv.call UserKvTable.call
  dsimp only
  rw [hns, hkey]
  refine ⟨?_, htouched⟩
  rw [hmemory, htable, h.liveEntry_eq, Option.map_map, Option.map_map]
  rfl

theorem answered_delete (h : Matched limits now m t) :
    AnsweredAlike (E := E) limits now
      (MemoryKv.call codec limits m ⟨now, .delete ns key⟩)
      (UserKvTable.call codec limits t ⟨now, .delete ns key⟩) := by
  refine ⟨rfl, ?_⟩
  unfold UserKvTable.call
  dsimp only
  rw [hns, hkey]
  exact h.deleted none

variable (key) in
omit hkey in
/-- What a value written after the table touched its key does. -/
theorem Matched.written_set (h : Matched limits now m t)
    (codec : UserKvCodec V) (value : V) (opts : UserKvWriteOptions) :
    WrittenAlike limits now ns m
      (MemoryKv.write limits now ns key (some (codec.encode value)) opts m)
      (UserKvTable.writeValue limits now ns key (codec.encode value) opts
        (UserKvTable.touch now ns key t).1
        (UserKvTable.touch now ns key t).2) := by
  rcases UserKvTable.touch_spec now ns key
    h.table.valid h.inOrder with ⟨hcurrent, horder, hviews⟩
  apply writtenAlike opts hns _ _ horder h.memory
    (UserKvTable.touch_caps h.table) _ _ (codec.nonempty value)
  · intro other hother
    rw [hviews, if_neg hother, h.agree]
  · rw [hviews, if_pos rfl, dropKey_usedView, h.agree]
  · rw [hcurrent, h.liveEntry_eq]
  · rw [hcurrent, UserKvTable.liveEntry_touch h.table.valid h.inOrder,
      Matched.map_json_refresh]

variable (key) in
omit hkey in
theorem Matched.written_update (h : Matched limits now m t)
    (codec : UserKvCodec V) (value : V) (opts : UserKvWriteOptions) :
    WrittenAlike limits now ns
      (m.set ns (KvBucket.touch now key (MemoryKv.bucket m ns)).2)
      (MemoryKv.write limits now ns key (some (codec.encode value)) opts
        (m.set ns (KvBucket.touch now key (MemoryKv.bucket m ns)).2))
      (UserKvTable.writeValue limits now ns key (codec.encode value) opts
        (UserKvTable.touch now ns key t).1
        (UserKvTable.touch now ns key t).2) := by
  have htouched : Matched limits now
      (m.set ns (KvBucket.touch now key (MemoryKv.bucket m ns)).2)
      (UserKvTable.touch now ns key t).2 := h.touched
  have hcurrent := (UserKvTable.touch_spec now ns key
    h.table.valid h.inOrder).1
  apply writtenAlike opts hns _ _ htouched.inOrder htouched.memory
    htouched.table _ _ (codec.nonempty value)
  · exact fun other _ => htouched.agree other
  · rw [htouched.agree]
  · rw [MemoryKv.liveEntry_touch h.memory.valid, Matched.map_json_refresh,
      hcurrent, h.liveEntry_eq]
  · rw [hcurrent, UserKvTable.liveEntry_touch h.table.valid h.inOrder,
      Matched.map_json_refresh]

theorem answered_set (h : Matched limits now m t) (value : V)
    (opts : UserKvWriteOptions) :
    AnsweredAlike (E := E) limits now
      (MemoryKv.call codec limits m ⟨now, .set ns key value opts⟩)
      (UserKvTable.call codec limits t ⟨now, .set ns key value opts⟩) := by
  have hwritten := Matched.written_set key hns h codec value opts
  unfold MemoryKv.call UserKvTable.call UserKvTable.update
    UserKvTable.transaction MemoryKv.atomically
  dsimp only
  rw [UserKvTable.updateBody_eq codec hns hkey]
  dsimp only
  rw [codec.survives]
  rcases hwritten with ⟨error, m', hleft, hright, hviews, hrows⟩ |
    ⟨m', t', hleft, hright, hmatched⟩
  · rw [hleft, hright]
    exact ⟨rfl, h.restored hviews hrows⟩
  · rw [hleft, hright]
    exact ⟨rfl, hmatched⟩

omit hns hkey in
/-- Others keep their live entries when a namespace is touched. -/
theorem Matched.restored_touched {m' : MemoryKv} {b : KvBucket}
    (h : Matched limits now m t)
    (hviews : ∀ other, other ≠ ns → MemoryKv.liveView now m' other =
      MemoryKv.liveView now (m.set ns b) other)
    (hrows : ∀ row ∈ MemoryKv.rows m', row.1.1 ≠ ns →
      row ∈ MemoryKv.rows (m.set ns b)) :
    Matched limits now (m'.set ns (MemoryKv.bucket m ns)) t := by
  apply h.restored
  · intro other hother
    rw [hviews other hother, MemoryKv.liveView_set, if_neg hother]
  · intro row hrow hother
    rcases MemoryKv.rows_set_subset (hrows row hrow hother) with
      ⟨hns, -⟩ | ⟨-, hmem⟩
    · exact absurd hns hother
    · exact hmem

theorem answered_update (h : Matched limits now m t)
    (fn : Option V → Except E (Option V)) (opts : UserKvWriteOptions) :
    AnsweredAlike limits now
      (MemoryKv.call codec limits m ⟨now, .update ns key fn opts⟩)
      (UserKvTable.call codec limits t ⟨now, .update ns key fn opts⟩) := by
  have hwritten := fun next =>
    Matched.written_update key hns h codec next
  have htouched : Matched limits now
      (m.set ns (KvBucket.touch now key (MemoryKv.bucket m ns)).2)
      (UserKvTable.touch now ns key t).2 := h.touched
  have hcurrent : (KvBucket.touch now key (MemoryKv.bucket m ns)).1.map
      (fun entry => codec.decode entry.json) =
        (UserKvTable.touch now ns key t).1.map codec.decode := by
    rw [(MemoryKv.touch_spec now ns key h.memory.valid).1,
      (UserKvTable.touch_spec now ns key h.table.valid h.inOrder).1,
      h.liveEntry_eq, Option.map_map, Option.map_map]
    rfl
  unfold MemoryKv.call UserKvTable.call UserKvTable.update
    UserKvTable.transaction MemoryKv.atomically MemoryKv.updateBody
  dsimp only
  rw [UserKvTable.updateBody_eq codec hns hkey, hcurrent]
  cases hfn : fn ((UserKvTable.touch now ns key t).1.map codec.decode) with
  | error error =>
      exact ⟨rfl, h.restored_touched (fun _ _ => rfl) fun _ hrow _ => hrow⟩
  | ok next =>
      cases next with
      | none =>
          dsimp only [Option.map_none]
          exact ⟨rfl, htouched.deleted opts.maxEntries⟩
      | some next =>
          dsimp only [Option.map_some]
          rcases hwritten next opts with
            ⟨error, m', hleft, hright, hviews, hrows⟩ |
              ⟨m', t', hleft, hright, hmatched⟩
          · rw [hleft, hright]
            exact ⟨rfl, h.restored_touched hviews hrows⟩
          · rw [hleft, hright]
            exact ⟨rfl, hmatched⟩

end Names

/-- The names of the call are bound whole: neither holds U+0000. -/
def UserKvCall.BoundWhole (c : UserKvCall V E) : Prop :=
  nul ∉ c.op.names.1.toList ∧ nul ∉ c.op.names.2.toList

/-- Every call is answered alike and keeps the stores matched. -/
theorem Matched.answered (codec : UserKvCodec V) (c : UserKvCall V E)
    (hwhole : c.BoundWhole) (h : Matched limits c.now m t) :
    AnsweredAlike limits c.now (MemoryKv.call codec limits m c)
      (UserKvTable.call codec limits t c) := by
  rcases c with ⟨now, op⟩
  have hns := UserKvTable.bindName_eq hwhole.1
  have hkey := UserKvTable.bindName_eq hwhole.2
  cases op with
  | get ns key => exact answered_get hns hkey h
  | set ns key value opts => exact answered_set hns hkey h value opts
  | update ns key fn opts => exact answered_update hns hkey h fn opts
  | delete ns key => exact answered_delete hns hkey h

/-- A call that throws leaves the table as it was. -/
theorem UserKvTable.call_error (t : UserKvTable) (c : UserKvCall V E)
    {error : UserKvError E}
    (herror : (UserKvTable.call codec limits t c).1 = .error error) :
    (UserKvTable.call codec limits t c).2 = t := by
  have hupdate : ∀ (now : ℚ) (ns key : String)
      (fn : Option V → Except E (Option V)) (opts : UserKvWriteOptions)
      (error : UserKvError E),
      (UserKvTable.update codec limits now ns key fn opts t).1 = .error error →
        (UserKvTable.update codec limits now ns key fn opts t).2 = t := by
    intro now ns key fn opts error hthrown
    unfold UserKvTable.update UserKvTable.transaction at hthrown ⊢
    split at hthrown
    · cases hthrown
    · rfl
  rcases c with ⟨now, op⟩
  cases op with
  | get ns key => cases herror
  | delete ns key => cases herror
  | update ns key fn opts => exact hupdate now ns key fn opts error herror
  | set ns key value opts =>
      unfold UserKvTable.call at herror ⊢
      dsimp only at herror ⊢
      split at herror
      · rename_i thrown t' hthrown
        have hkept := hupdate now ns key _ opts thrown
          (congrArg Prod.fst hthrown)
        rw [hthrown] at hkept
        exact hkept
      · cases herror

/-- The answers of the calls in their order, and the store after them. -/
def runCalls {σ : Type*} (call : σ → UserKvCall V E → UserKvAnswer V E × σ) :
    σ → List (UserKvCall V E) → List (UserKvAnswer V E) × σ
  | s, [] => ([], s)
  | s, c :: calls =>
      let (answer, s) := call s c
      let (answers, s) := runCalls call s calls
      (answer :: answers, s)

/-- From matched stores the calls of a clock that never goes back are answered
alike. -/
theorem Matched.run {calls : List (UserKvCall V E)} {last : ℚ}
    (codec : UserKvCodec V) (h : Matched limits now m t)
    (hwhole : ∀ c ∈ calls, c.BoundWhole)
    (hclock : calls.Pairwise fun a b => a.now ≤ b.now)
    (hlater : ∀ c ∈ calls, now ≤ c.now)
    (hlast : ∀ c ∈ calls, c.now ≤ last) (hle : now ≤ last) :
    (runCalls (MemoryKv.call codec limits) m calls).1 =
        (runCalls (UserKvTable.call codec limits) t calls).1 ∧
      Matched limits last (runCalls (MemoryKv.call codec limits) m calls).2
        (runCalls (UserKvTable.call codec limits) t calls).2 := by
  induction calls generalizing now m t with
  | nil => exact ⟨rfl, h.at_later hle⟩
  | cons c calls ih =>
      rcases List.pairwise_cons.mp hclock with ⟨hfirst, hrest⟩
      have hnow := hlater c List.mem_cons_self
      rcases Matched.answered codec c (hwhole c List.mem_cons_self)
        (h.at_later hnow) with ⟨hanswer, hmatched⟩
      rcases ih hmatched
        (fun other hother => hwhole other (List.mem_cons_of_mem _ hother))
        hrest hfirst
        (fun other hother => hlast other (List.mem_cons_of_mem _ hother))
        (hlast c List.mem_cons_self) with ⟨hanswers, hend⟩
      exact ⟨congrArg₂ List.cons hanswer hanswers, hend⟩

/-- The calls from the empty stores. -/
theorem Matched.run_empty {calls : List (UserKvCall V E)} {last : ℚ}
    (codec : UserKvCodec V) (limits : UserKvLimits)
    (hwhole : ∀ c ∈ calls, c.BoundWhole)
    (hclock : calls.Pairwise fun a b => a.now ≤ b.now)
    (hlast : ∀ c ∈ calls, c.now ≤ last) :
    (runCalls (MemoryKv.call codec limits) MemoryKv.empty calls).1 =
        (runCalls (UserKvTable.call codec limits) UserKvTable.empty calls).1 ∧
      Matched limits last
        (runCalls (MemoryKv.call codec limits) MemoryKv.empty calls).2
        (runCalls (UserKvTable.call codec limits) UserKvTable.empty
          calls).2 := by
  cases calls with
  | nil => exact ⟨rfl, Matched.empty limits last⟩
  | cons c calls =>
      have hfirst := (List.pairwise_cons.mp hclock).1
      have hlater : ∀ other ∈ c :: calls, c.now ≤ other.now := by
        intro other hother
        rcases List.mem_cons.mp hother with rfl | hmem
        · exact le_rfl
        · exact hfirst other hmem
      exact Matched.run codec (Matched.empty limits c.now) hwhole hclock
        hlater hlast (hlast c List.mem_cons_self)

/-- A refused call is followed by the answers it would have had without it. -/
theorem Matched.refused {c : UserKvCall V E} {after : List (UserKvCall V E)}
    {error : UserKvError E} (h : Matched limits c.now m t)
    (hwhole : ∀ other ∈ c :: after, other.BoundWhole)
    (hclock : (c :: after).Pairwise fun a b => a.now ≤ b.now)
    (hthrown : (MemoryKv.call codec limits m c).1 = .error error) :
    (runCalls (MemoryKv.call codec limits)
          (MemoryKv.call codec limits m c).2 after).1 =
        (runCalls (MemoryKv.call codec limits) m after).1 ∧
      (runCalls (UserKvTable.call codec limits)
          (UserKvTable.call codec limits t c).2 after).1 =
        (runCalls (UserKvTable.call codec limits) t after).1 := by
  rcases List.pairwise_cons.mp hclock with ⟨hfirst, hrest⟩
  rcases Matched.answered codec c (hwhole c List.mem_cons_self) h with
    ⟨hanswer, hmatched⟩
  have hafterWhole : ∀ other ∈ after, other.BoundWhole := fun other hother =>
    hwhole other (List.mem_cons_of_mem _ hother)
  have hkept : (UserKvTable.call codec limits t c).2 = t :=
    UserKvTable.call_error t c (hanswer.symm.trans hthrown)
  rw [hkept] at hmatched ⊢
  obtain ⟨last, hlast⟩ := ((c :: after).map UserKvCall.now).toFinset.bddAbove
  have hbound : ∀ other ∈ c :: after, other.now ≤ last := by
    intro other hother
    exact hlast (List.mem_toFinset.mpr (List.mem_map_of_mem hother))
  have hafter : ∀ other ∈ after, other.now ≤ last := fun other hother =>
    hbound other (List.mem_cons_of_mem _ hother)
  have hnow := hbound c List.mem_cons_self
  have hthen := (hmatched.run codec hafterWhole hrest hfirst hafter hnow).1
  have hwithout := (h.run codec hafterWhole hrest hfirst hafter hnow).1
  exact ⟨hthen.trans hwithout.symm, rfl⟩

end Calls

/-- Both stores answer any calls alike whose names hold no U+0000; one that
throws is not observed later; what is stored stays within the caps, its bytes
counted row by row. -/
theorem UserKvStores.same_store {V E : Type*} (codec : UserKvCodec V)
    (limits : UserKvLimits) (calls : List (UserKvCall V E))
    (hwhole : ∀ c ∈ calls, c.BoundWhole)
    (hclock : calls.Pairwise fun a b => a.now ≤ b.now) :
    let memory := runCalls (MemoryKv.call codec limits) MemoryKv.empty
    let table := runCalls (UserKvTable.call codec limits) UserKvTable.empty
    (memory calls).1 = (table calls).1 ∧
    (∀ before c after, calls = before ++ c :: after →
      ∀ error, (MemoryKv.call codec limits (memory before).2 c).1 =
          .error error →
        (runCalls (MemoryKv.call codec limits)
            (MemoryKv.call codec limits (memory before).2 c).2 after).1 =
          (runCalls (MemoryKv.call codec limits) (memory before).2 after).1 ∧
        (runCalls (UserKvTable.call codec limits)
            (UserKvTable.call codec limits (table before).2 c).2 after).1 =
          (runCalls (UserKvTable.call codec limits) (table before).2
            after).1) ∧
    WithinCaps limits (MemoryKv.rows (memory calls).2) ∧
    WithinCaps limits (UserKvTable.rows (table calls).2) ∧
    ∀ ns, (MemoryKv.usage (memory calls).2 ns).totalBytes =
        ((MemoryKv.rows (memory calls).2).map fun row =>
          userKvRowBytes row.1.1 row.1.2 row.2.json.utf8ByteSize).sum ∧
      (UserKvTable.usage (table calls).2 ns).totalBytes =
        ((UserKvTable.rows (table calls).2).map fun row =>
          userKvRowBytes row.1.1 row.1.2 row.2.json.utf8ByteSize).sum := by
  intro memory table
  obtain ⟨last, hlast⟩ := (calls.map UserKvCall.now).toFinset.bddAbove
  have hbound : ∀ c ∈ calls, c.now ≤ last := by
    intro c hc
    exact hlast (List.mem_toFinset.mpr (List.mem_map_of_mem hc))
  rcases Matched.run_empty codec limits hwhole hclock hbound with
    ⟨hanswers, hmatched⟩
  refine ⟨hanswers, ?_, hmatched.memory, hmatched.table, fun ns => ⟨?_, ?_⟩⟩
  · rintro before c after rfl error hthrown
    rcases List.pairwise_append.mp hclock with ⟨hbefore, hafter, hacross⟩
    have hreached : Matched limits c.now (memory before).2 (table before).2 :=
      (Matched.run_empty codec limits
        (fun other hother => hwhole other (List.mem_append_left _ hother))
        hbefore fun other hother =>
          hacross other hother c List.mem_cons_self).2
    exact hreached.refused
      (fun other hother => hwhole other (List.mem_append_right _ hother))
      hafter hthrown
  · rw [MemoryKv.usage_eq]
    exact WithinCaps.totalBytes_eq ns hmatched.memory.valid
  · rw [UserKvTable.usage_eq]
    exact WithinCaps.totalBytes_eq ns hmatched.table.valid

/-- Booleans and their JSON text. -/
def UserKvCodec.booleans : UserKvCodec Bool where
  encode value := if value then "true" else "false"
  decode json := json == "true"
  survives := by decide
  nonempty := by decide

/-- A value that lives for a second, an update that throws, and a second value
that does not fit. -/
def UserKvCall.session : List (UserKvCall Bool Unit) :=
  [⟨0, .set "notes" "a" true ⟨some 1000, some 2, by norm_num, by decide⟩⟩,
    ⟨10, .update "notes" "a" (fun _ => .error ())
      ⟨none, none, by simp, by simp⟩⟩,
    ⟨20, .set "notes" "b" false ⟨none, none, by simp, by simp⟩⟩,
    ⟨30, .get "notes" "a"⟩]

theorem UserKvStores.same_store_session :
    let limits : UserKvLimits := ⟨16, 1, 8, 64⟩
    (runCalls (MemoryKv.call .booleans limits) MemoryKv.empty
        UserKvCall.session).1 =
      (runCalls (UserKvTable.call .booleans limits) UserKvTable.empty
        UserKvCall.session).1 := by
  intro limits
  have hclock : UserKvCall.session.Pairwise fun a b => a.now ≤ b.now := by
    simp [UserKvCall.session]
    norm_num
  have hwhole : ∀ c ∈ UserKvCall.session, c.BoundWhole := by
    simp [UserKvCall.session, UserKvCall.BoundWhole, UserKvOp.names, nul]
  exact (UserKvStores.same_store .booleans limits UserKvCall.session hwhole
    hclock).1

/-- Two keys alike up to U+0000 are one row of the table. -/
theorem UserKvStores.not_same_store :
    let limits : UserKvLimits := ⟨16, 2, 8, 64⟩
    let calls : List (UserKvCall Bool Unit) :=
      [⟨0, .set "notes" (String.ofList ['a', nul, 'b']) true
          ⟨none, none, by simp, by simp⟩⟩,
        ⟨0, .get "notes" "a"⟩]
    calls.Pairwise (fun a b => a.now ≤ b.now) ∧
      (runCalls (MemoryKv.call .booleans limits) MemoryKv.empty calls).1 =
        [.ok none, .ok none] ∧
      (runCalls (UserKvTable.call .booleans limits) UserKvTable.empty
        calls).1 = [.ok none, .ok (some true)] := by
  refine ⟨by simp, ?_, ?_⟩
  · decide +kernel
  · decide +kernel

end QiForge
