import QiForge.SnapshotFlush

/-!
# A snapshot streams the content at its opening

A window that was pulled earlier stays right: what is exposed when it is put
together was exposed when its rows were taken.  So in every run that dirties
no stored chunk past a pending truncation, each stream emits the file as it
was when the snapshot was opened.
-/

namespace QiForge

open PageTier

namespace DoVfs

variable {v : DoVfs} {s : SnapshotState} {content : ℕ → Bytes} {chunkno : ℕ}

/-- The chunks an event takes a dirty buffer for. -/
def dirties (v : DoVfs) : VfsEvent → List ℕ
  | .write _ iOffset length | .writeSpillFails _ iOffset length _ =>
      (spans iOffset length).map Span.chunkno
  | .truncate iSize =>
      let keepChunks := ceilDiv (ceilDiv iSize vfsPageSize) pagesPerChunk
      if iSize < v.file.size ∧ 0 < keepChunks ∧
          iSize - (keepChunks - 1) * chunkSize < chunkSize then
        [keepChunks - 1]
      else []
  | _ => []

/-- The event dirties no stored chunk of the snapshot that lies past a pending
truncation and whose pre-image is not kept yet. -/
def KeepsPreImages (v : DoVfs) (e : VfsEvent) : Prop :=
  match v.snapshot with
  | none => True
  | some s => (v.dirties e).any (v.losesPreImage s) = false

instance (v : DoVfs) (e : VfsEvent) : Decidable (v.KeepsPreImages e) := by
  unfold KeepsPreImages
  cases v.snapshot with
  | none => exact isTrue trivial
  | some s => exact inferInstanceAs (Decidable (_ = false))

theorem KeepsPreImages.kept {e : VfsEvent} (h : v.KeepsPreImages e)
    (hsnapshot : v.snapshot = some s) :
    ∀ chunkno ∈ v.dirties e, v.losesPreImage s chunkno = false := by
  intro chunkno hmem
  unfold KeepsPreImages at h
  rw [hsnapshot] at h
  have hnone := List.any_eq_false.mp h chunkno hmem
  exact Bool.eq_false_iff.mpr hnone

theorem losesPreImage_dropPast {keepChunks keepPages : ℕ}
    (hchunks : keepChunks = chunkFloor keepPages) (iSize : ℕ)
    (hlt : chunkno < keepChunks) :
    ((v.dropPast keepChunks).noteTruncation keepPages iSize).losesPreImage s
        chunkno = v.losesPreImage s chunkno := by
  have hpast := pastTruncation_noteTruncation v hchunks iSize chunkno
  have hdirty := get?_dropPast_dirty v keepChunks keepPages iSize chunkno
  rw [decide_eq_false (Nat.not_le.mpr hlt), Bool.or_false] at hpast
  rw [if_pos hlt] at hdirty
  unfold losesPreImage
  rw [hpast, hdirty]
  rfl

variable {bucket : Bucket}

theorem Serves.grown (h : v.Serves bucket s content) (bound : ℕ) :
    (v.growTo bound).Serves bucket s content := by
  rcases h with ⟨rfl, s', hsnapshot, hlater, hisolated⟩
  have hgrown := hisolated.growTo bound
  unfold growTo at hgrown ⊢
  split_ifs at hgrown ⊢ with hlt
  · exact ⟨rfl, s', hsnapshot, hlater, hgrown⟩
  · exact ⟨rfl, s', hsnapshot, hlater, hgrown⟩

theorem Serves.flushed (h : v.Serves bucket s content) :
    v.flush.Serves bucket s content :=
  h.trans fun _ hsnapshot hisolated => hisolated.flush hsnapshot

theorem Serves.rolledBack (h : v.Serves bucket s content)
    (touched : ℕ → Bool) :
    (v.flushRollsBack touched).Serves bucket s content :=
  h.trans fun _ hsnapshot hisolated =>
    hisolated.flushRollsBack hsnapshot touched

theorem Serves.locked (h : v.Serves bucket s content) (lock : ℕ) :
    (v.xLock lock).Serves bucket s content := by
  rcases h with ⟨rfl, s', hsnapshot, hlater, hisolated⟩
  exact ⟨rfl, s', hsnapshot, hlater, hisolated.xLock lock⟩

theorem Isolated.written (h : v.Isolated s content)
    (hsnapshot : v.snapshot = some s) (pData : Bytes)
    {iOffset length : ℕ}
    (hkept : ∀ chunkno ∈ (spans iOffset length).map Span.chunkno,
      v.losesPreImage s chunkno = false) :
    (DoVfs.writeSpans (spans iOffset length) pData v).2.Serves v.bucket s
      content := by
  have hwritten := h.writeSpans pData fun span hmem =>
    hkept span.chunkno (List.mem_map_of_mem hmem)
  rcases writeSpans_writes (spans iOffset length) pData v with
    ⟨cache, dirty, base, heq⟩
  rw [heq] at hwritten ⊢
  exact hwritten.serves hsnapshot

theorem Isolated.xWrite (h : v.Isolated s content)
    (hsnapshot : v.snapshot = some s) (pData : Bytes)
    {iOffset length : ℕ}
    (hkept : ∀ chunkno ∈ (spans iOffset length).map Span.chunkno,
      v.losesPreImage s chunkno = false) :
    (v.xWrite pData iOffset length).2.Serves v.bucket s content := by
  have hwritten := h.written hsnapshot pData hkept
  unfold DoVfs.xWrite
  cases hwrite : DoVfs.writeSpans (spans iOffset length) pData v with
  | mk completed v' =>
      rw [hwrite] at hwritten
      cases completed with
      | false => exact hwritten
      | true =>
          have hgrown := Serves.grown hwritten (iOffset + length)
          dsimp only
          unfold spillFlush
          split_ifs
          · exact hgrown.flushed
          · exact hgrown

theorem Isolated.xWriteSpillFails (h : v.Isolated s content)
    (hsnapshot : v.snapshot = some s) (pData : Bytes)
    {iOffset length : ℕ} (touched : ℕ → Bool)
    (hkept : ∀ chunkno ∈ (spans iOffset length).map Span.chunkno,
      v.losesPreImage s chunkno = false) :
    (v.xWriteSpillFails pData iOffset length touched).Serves v.bucket s
      content := by
  have hwritten := h.written hsnapshot pData hkept
  unfold DoVfs.xWriteSpillFails
  cases hwrite : DoVfs.writeSpans (spans iOffset length) pData v with
  | mk completed v' =>
      rw [hwrite] at hwritten
      cases completed with
      | false => exact hwritten
      | true =>
          have hgrown := Serves.grown hwritten (iOffset + length)
          dsimp only
          unfold spillFlushFails
          split_ifs
          · exact hgrown.rolledBack touched
          · exact hgrown

theorem Isolated.xTruncate (h : v.Isolated s content)
    (hsnapshot : v.snapshot = some s) (iSize : ℕ)
    (hkept : ∀ chunkno ∈ v.dirties (.truncate iSize),
      v.losesPreImage s chunkno = false) :
    (v.xTruncate iSize).2.Serves v.bucket s content := by
  unfold DoVfs.xTruncate
  unfold DoVfs.dirties at hkept
  by_cases hgrow : v.file.size ≤ iSize
  · rw [if_pos hgrow]
    exact h.serves hsnapshot
  · rw [if_neg hgrow]
    dsimp only at hkept ⊢
    generalize hkeep :
      ceilDiv (ceilDiv iSize vfsPageSize) pagesPerChunk = keepChunks at hkept ⊢
    generalize hpages : ceilDiv iSize vfsPageSize = keepPages at hkeep ⊢
    have hdropped := h.dropPast keepChunks keepPages iSize
    by_cases htail : 0 < keepChunks ∧
        iSize - (keepChunks - 1) * chunkSize < chunkSize
    · rw [if_pos ⟨Nat.not_le.mp hgrow, htail⟩] at hkept
      rw [if_pos htail]
      have hlast := hkept (keepChunks - 1) List.mem_cons_self
      rw [← losesPreImage_dropPast hkeep.symm iSize (by omega)] at hlast
      have hzeroed := hdropped.zeroTail
        (iSize - (keepChunks - 1) * chunkSize) hlast
      rcases zeroTail_writes ((v.dropPast keepChunks).noteTruncation keepPages
          iSize) (keepChunks - 1) (iSize - (keepChunks - 1) * chunkSize) with
        ⟨cache, dirty, base, heq⟩
      cases hzero : ((v.dropPast keepChunks).noteTruncation keepPages
          iSize).zeroTail (keepChunks - 1)
            (iSize - (keepChunks - 1) * chunkSize) with
      | mk completed v' =>
          rw [hzero] at heq hzeroed
          dsimp only at heq hzeroed
          subst heq
          cases completed with
          | true => exact ⟨rfl, s, hsnapshot, .refl s, hzeroed⟩
          | false => exact ⟨rfl, s, hsnapshot, .refl s, hzeroed⟩
    · rw [if_neg htail]
      exact ⟨rfl, s, hsnapshot, .refl s, hdropped⟩

theorem Isolated.xUnlockFails (h : v.Isolated s content)
    (hsnapshot : v.snapshot = some s) (lock : ℕ) (touched : ℕ → Bool) :
    (v.xUnlockFails lock touched).Serves v.bucket s content := by
  have hlocked := (h.serves hsnapshot).locked lock
  unfold DoVfs.xUnlockFails
  split_ifs
  · exact hlocked.rolledBack touched
  · exact hlocked

theorem Isolated.xUnlock (h : v.Isolated s content)
    (hsnapshot : v.snapshot = some s) (lock : ℕ) :
    (v.xUnlock lock).Serves v.bucket s content := by
  have hlocked := (h.serves hsnapshot).locked lock
  unfold DoVfs.xUnlock
  split_ifs
  · exact hlocked.flushed
  · exact hlocked

/-- Every event leaves the open snapshot isolated. -/
theorem Isolated.respond {e : VfsEvent} (h : v.Isolated s content)
    (hsnapshot : v.snapshot = some s) (hkept : v.KeepsPreImages e) :
    (v.respond e).Serves v.bucket s content := by
  have hsafe := hkept.kept hsnapshot
  cases e with
  | write pData iOffset length => exact h.xWrite hsnapshot pData hsafe
  | writeSpillFails pData iOffset length touched =>
      exact h.xWriteSpillFails hsnapshot pData touched hsafe
  | truncate iSize => exact h.xTruncate hsnapshot iSize hsafe
  | read pData iOffset want =>
      have hread := h.xRead pData iOffset want
      change (v.xRead pData iOffset want).2.Serves v.bucket s content
      rw [xRead_state] at hread ⊢
      rcases readSpans_differs (spans iOffset
          (want ⊓ (v.file.size - iOffset))) pData v with
        ⟨cache, dirty, misses, heq⟩
      rw [heq] at hread ⊢
      exact hread.serves hsnapshot
  | lock lock => exact (h.serves hsnapshot).locked lock
  | unlock lock => exact h.xUnlock hsnapshot lock
  | unlockFails lock touched => exact h.xUnlockFails hsnapshot lock touched
  | sync => exact h.flush hsnapshot
  | syncFails touched => exact h.flushRollsBack hsnapshot touched
  | resolve reached =>
      have hresolved := h.resolveMisses reached
      change (v.resolveMisses reached).2.Serves v.bucket s content
      rcases resolveMisses_pins v reached with ⟨pins, misses, heq⟩
      rw [heq] at hresolved ⊢
      exact hresolved.serves hsnapshot
  | releasePins => exact h.releasePins.serves hsnapshot
  | clearMisses => exact h.clearMisses.serves hsnapshot
  | evict chunkno =>
      have hcache : (v.cache.dropChunk chunkno).entries.All
          (s.Shows content) :=
        OrderedMap.All.delete (h.cached.mono fun _ _ hshows _ => hshows)
      exact (h.withCache hcache).serves hsnapshot
  | configureCache capacity =>
      exact (h.withCache (h.cached.dropOldest _)).serves hsnapshot
  | tierFlush recent force cap =>
      have hskipped : v.tierFlushAttempt recent force cap = v := by
        unfold tierFlushAttempt planTierPass
        simp [hsnapshot]
      change (v.tierFlushAttempt recent force cap).Serves v.bucket s content
      rw [hskipped]
      exact h.serves hsnapshot
  | materialize reached =>
      have hthrows : (v.materialize reached).2 = v := by
        unfold materialize
        simp [hsnapshot]
      change (v.materialize reached).2.Serves v.bucket s content
      rw [hthrows]
      exact h.serves hsnapshot

end DoVfs
/-- A window in the making holds what its finished chunks should, and rows
that are right wherever the shadow has nothing better. -/
structure SnapshotWindow.Holds (w : SnapshotWindow) (s : SnapshotState)
    (bucket : Bucket) (ref : Bytes) : Prop where
  begun : w.start ≤ w.next
  ends : w.next ≤ w.stop
  nonempty : w.start < w.stop
  inside : w.stop ≤ s.totalChunks
  rows : ∀ chunkno, w.next ≤ chunkno → chunkno < w.stop → s.Exposed chunkno →
    Agree (effective w.rows s.segments bucket chunkno) (chunkOf ref chunkno)
  fetched : w.segmentBytes.All fun segno seg => ∀ entry,
    s.segments.get? segno = some entry → bucket segno entry.gen = some seg
  placed : ∀ p, p < w.next * chunkSize - w.start * chunkSize →
    w.out p = ref (w.start * chunkSize + p)

structure SnapshotStream.Emits (stream : SnapshotStream)
    (s : SnapshotState) (bucket : Bucket) (ref : Bytes) : Prop where
  cursor : stream.cursor ≤ s.totalChunks
  length : stream.length = s.byteEnd stream.cursor
  out : ∀ p, p < stream.length → stream.out p = ref p
  window : ∀ w, stream.window = some w →
    w.start = stream.cursor ∧ w.Holds s bucket ref

namespace SnapshotWindow

variable {w : SnapshotWindow} {s s' : SnapshotState} {bucket : Bucket}
  {ref : Bytes}

theorem Holds.later (h : w.Holds s bucket ref) (hlater : s.Later s') :
    w.Holds s' bucket ref where
  begun := h.begun
  ends := h.ends
  nonempty := h.nonempty
  inside := by
    rw [hlater.totalChunks]
    exact h.inside
  rows := by
    intro chunkno hnext hstop hexposed
    rw [hlater.segments]
    exact h.rows chunkno hnext hstop (hexposed.of_later hlater)
  fetched := by
    rw [hlater.segments]
    exact h.fetched
  placed := h.placed

theorem taken_holds {v : DoVfs} {start stop : ℕ}
    (h : v.Isolated s (chunkOf ref)) (hlt : start < stop)
    (hstop : stop ≤ s.totalChunks) :
    (taken v.storage.rows start stop).Holds s v.bucket ref where
  begun := le_refl start
  ends := hlt.le
  nonempty := hlt
  inside := hstop
  rows := by
    intro chunkno hstart hend hexposed
    have hrow : (taken v.storage.rows start stop).rows chunkno =
        v.storage.rows chunkno := if_pos ⟨hstart, hend⟩
    rw [effective_congr hrow rfl]
    exact h.rows chunkno hexposed
  fetched := OrderedMap.all_empty _
  placed := by
    intro p hp
    change p < start * chunkSize - start * chunkSize at hp
    omega

/-- The image a round starts from spells the chunk. -/
theorem Holds.image_spells (h : w.Holds s bucket ref)
    (hshadowed : s.shadow.All (s.Spells bucket (chunkOf ref)))
    (hlt : w.next < w.stop) :
    Agree (overRow ((s.shadow.get? w.next).or (w.rows w.next))
        (PageTier.slotBytes s.segments bucket w.next))
      (chunkOf ref w.next) := by
  cases hshadow : s.shadow.get? w.next with
  | some image => exact hshadowed w.next image hshadow
  | none =>
      exact h.rows w.next le_rfl hlt ⟨lt_of_lt_of_le hlt h.inside, hshadow⟩

/-- The slot a round fetches is the one the snapshot mapped. -/
theorem Holds.slotBytes_eq {chunkno : ℕ} {reached : Bool}
    {cold : Option Bytes} {segmentBytes : OrderedMap ℕ Bytes}
    (h : w.Holds s bucket ref)
    (hslot : w.slotBytes s.segments bucket chunkno reached =
      some (cold, segmentBytes)) :
    PageTier.slotBytes s.segments bucket chunkno = cold.getD zeroBytes ∧
      segmentBytes.All fun segno seg => ∀ entry,
        s.segments.get? segno = some entry →
          bucket segno entry.gen = some seg := by
  unfold SnapshotWindow.slotBytes at hslot
  unfold PageTier.slotBytes
  cases hentry : s.segments.get? (segmentOf chunkno) with
  | none =>
      simp only [hentry, Option.some.injEq, Prod.mk.injEq] at hslot
      rcases hslot with ⟨rfl, rfl⟩
      exact ⟨rfl, h.fetched⟩
  | some entry =>
      simp only [hentry] at hslot ⊢
      by_cases hmapped : entry.mask.getLsbD (slotOf chunkno) = true
      · rw [if_pos hmapped] at hslot ⊢
        cases hfetched : w.segmentBytes.get? (segmentOf chunkno) with
        | some seg =>
            simp only [hfetched, Option.some.injEq, Prod.mk.injEq] at hslot
            rcases hslot with ⟨rfl, rfl⟩
            rw [h.fetched _ seg hfetched entry hentry]
            exact ⟨rfl, h.fetched⟩
        | none =>
            cases hobject : bucket (segmentOf chunkno) entry.gen with
            | none => simp [hfetched, hobject] at hslot
            | some seg =>
                cases reached with
                | false => simp [hfetched] at hslot
                | true =>
                    simp only [hfetched, hobject, if_true, Option.map_some,
                      Option.some.injEq, Prod.mk.injEq] at hslot
                    rcases hslot with ⟨rfl, rfl⟩
                    refine ⟨rfl, ?_⟩
                    apply OrderedMap.All.set
                    · exact fun segno seg' hget _ =>
                        h.fetched segno seg' hget
                    · intro other hother
                      rw [hentry] at hother
                      cases hother
                      exact hobject
      · rw [if_neg hmapped] at hslot ⊢
        simp only [Option.some.injEq, Prod.mk.injEq] at hslot
        rcases hslot with ⟨rfl, rfl⟩
        exact ⟨rfl, h.fetched⟩

theorem Holds.placeChunk {chunk : Bytes}
    {segmentBytes : OrderedMap ℕ Bytes} (h : w.Holds s bucket ref)
    (hlt : w.next < w.stop)
    (hfetched : segmentBytes.All fun segno seg => ∀ entry,
      s.segments.get? segno = some entry → bucket segno entry.gen = some seg)
    (hchunk : Agree chunk (chunkOf ref w.next)) :
    ({ w with segmentBytes := segmentBytes }.placeChunk chunk).Holds s
      bucket ref where
  begun := h.begun.trans (Nat.le_succ _)
  ends := hlt
  nonempty := h.nonempty
  inside := h.inside
  rows := fun chunkno hnext hstop =>
    h.rows chunkno (Nat.le_of_succ_le hnext) hstop
  fetched := hfetched
  placed := by
    intro p hp
    have hstart : w.start * chunkSize ≤ w.next * chunkSize :=
      Nat.mul_le_mul_right _ h.begun
    change p < (w.next + 1) * chunkSize - w.start * chunkSize at hp
    unfold SnapshotWindow.placeChunk
    dsimp only
    by_cases hin : w.next * chunkSize - w.start * chunkSize ≤ p
    · have hoffset :
          p < w.next * chunkSize - w.start * chunkSize + chunkSize := by
        rw [Nat.succ_mul] at hp
        omega
      have hposition : w.next * chunkSize +
          (p - (w.next * chunkSize - w.start * chunkSize)) =
          w.start * chunkSize + p := by omega
      rw [if_pos ⟨hin, hoffset⟩, hchunk _ (by omega)]
      exact congrArg ref hposition
    · rw [if_neg (fun hboth => hin hboth.1)]
      exact h.placed p (Nat.lt_of_not_le hin)

theorem overRow_cold (image : Option MaskedChunk) (cold : Bytes) : Agree
      (placeMasked (overRow image zeroBytes) cold (~~~(match image with
          | none => 0#16
          | some image => image.mask)))
      (overRow image cold) := by
  intro offset hlt
  cases image with
  | none =>
      apply placeMasked_of_covers
      rw [covers_not _ hlt, covers_zero]
      rfl
  | some image =>
      have hnot := covers_not image.mask hlt
      cases hcov : covers image.mask offset with
      | true =>
          rw [hcov] at hnot
          exact (placeMasked_of_not_covers hnot).trans
            ((placeMasked_of_covers hcov).trans
              (placeMasked_of_covers hcov).symm)
      | false =>
          rw [hcov] at hnot
          exact (placeMasked_of_covers hnot).trans
            (placeMasked_of_not_covers hcov).symm

theorem Holds.place {w' : SnapshotWindow} {reached : Bool}
    (h : w.Holds s bucket ref)
    (hshadowed : s.shadow.All (s.Spells bucket (chunkOf ref)))
    (hlt : w.next < w.stop)
    (hplace : w.place s bucket reached = some w') :
    w'.Holds s bucket ref ∧ w'.start = w.start ∧ w'.stop = w.stop := by
  have hspells := h.image_spells hshadowed hlt
  unfold SnapshotWindow.place at hplace
  dsimp only at hplace
  generalize (s.shadow.get? w.next).or (w.rows w.next) = image
    at hspells hplace
  split_ifs at hplace with hfull
  · cases hplace
    refine ⟨h.placeChunk hlt h.fetched ?_, rfl, rfl⟩
    cases image with
    | none => exact absurd hfull (by decide)
    | some image =>
        dsimp only at hfull
        intro offset hoffset
        have hcov : covers image.mask offset = true :=
          hfull ▸ covers_fullMask hoffset
        rw [← hspells offset hoffset]
        exact (placeMasked_of_covers hcov).trans
          (placeMasked_of_covers hcov).symm
  · cases hslot : w.slotBytes s.segments bucket w.next reached with
    | none => simp [hslot] at hplace
    | some fetched =>
        rcases fetched with ⟨cold, segmentBytes⟩
        rcases h.slotBytes_eq hslot with ⟨hbytes, hfetched⟩
        rw [hbytes] at hspells
        cases cold with
        | none =>
            simp only [hslot, Option.some.injEq] at hplace
            subst hplace
            exact ⟨h.placeChunk hlt h.fetched hspells, rfl, rfl⟩
        | some cold =>
            simp only [hslot, Option.some.injEq] at hplace
            subst hplace
            exact ⟨h.placeChunk hlt hfetched
              ((overRow_cold image cold).trans hspells), rfl, rfl⟩

end SnapshotWindow

namespace SnapshotState

theorem mul_lt_size {s : SnapshotState} {chunkno : ℕ}
    (htotal : s.totalChunks = chunksOf s.size)
    (hlt : chunkno < s.totalChunks) : chunkno * chunkSize < s.size := by
  rw [htotal] at hlt
  unfold chunksOf ceilDiv at hlt
  rw [chunkSize_eq] at *
  omega

theorem byteEnd_total {s : SnapshotState} {chunkno : ℕ}
    (htotal : s.totalChunks = chunksOf s.size)
    (hle : s.totalChunks ≤ chunkno) : s.byteEnd chunkno = s.size := by
  rw [htotal] at hle
  unfold byteEnd
  unfold chunksOf ceilDiv at hle
  rw [chunkSize_eq] at *
  omega

end SnapshotState

namespace SnapshotStream

variable {stream : SnapshotStream} {s s' : SnapshotState} {bucket : Bucket}
  {ref : Bytes}

theorem opened_emits (s : SnapshotState) (bucket : Bucket) (ref : Bytes) :
    opened.Emits s bucket ref where
  cursor := Nat.zero_le _
  length := by
    unfold SnapshotState.byteEnd
    change 0 = s.size ⊓ (0 * chunkSize)
    rw [Nat.zero_mul, Nat.min_zero]
  out := fun p hp => absurd hp (Nat.not_lt_zero p)
  window := fun w hw => absurd hw (by simp [opened])

theorem Emits.later (h : stream.Emits s bucket ref) (hlater : s.Later s') :
    stream.Emits s' bucket ref where
  cursor := by
    rw [hlater.totalChunks]
    exact h.cursor
  length := by
    unfold SnapshotState.byteEnd
    rw [hlater.size]
    exact h.length
  out := h.out
  window := fun w hw => ⟨(h.window w hw).1, (h.window w hw).2.later hlater⟩

theorem Emits.withWindow {w : SnapshotWindow}
    (h : stream.Emits s bucket ref) (hstart : w.start = stream.cursor)
    (hw : w.Holds s bucket ref) :
    { stream with window := some w }.Emits s bucket ref where
  cursor := h.cursor
  length := h.length
  out := h.out
  window := by
    intro other hother
    cases hother
    exact ⟨hstart, hw⟩

theorem Emits.pull {v : DoVfs} (h : stream.Emits s v.bucket ref)
    (hisolated : v.Isolated s (chunkOf ref)) :
    (stream.pull s v.storage.rows).Emits s v.bucket ref := by
  unfold SnapshotStream.pull
  split_ifs with hend
  · exact h
  · apply h.withWindow
    · rfl
    · apply SnapshotWindow.taken_holds hisolated
      · unfold snapshotWindowChunks
        omega
      · exact min_le_left _ _

theorem Emits.enqueue {w : SnapshotWindow} (h : stream.Emits s bucket ref)
    (htotal : s.totalChunks = chunksOf s.size)
    (hw : stream.window = some w) (hdone : w.next = w.stop) :
    (stream.enqueue s w).Emits s bucket ref := by
  rcases h.window w hw with ⟨hstart, hholds⟩
  have hbegun : w.start * chunkSize < s.size :=
    SnapshotState.mul_lt_size htotal
      (lt_of_lt_of_le hholds.nonempty hholds.inside)
  have hlength : stream.length = w.start * chunkSize := by
    rw [h.length, ← hstart]
    exact min_eq_right hbegun.le
  have hgrows : w.start * chunkSize ≤ w.stop * chunkSize :=
    Nat.mul_le_mul_right _ hholds.nonempty.le
  have hend : w.start * chunkSize ≤ s.byteEnd w.stop := le_min hbegun.le hgrows
  refine ⟨hholds.inside, ?_, ?_, ?_⟩
  · change stream.length + (s.byteEnd w.stop - w.start * chunkSize) =
      s.byteEnd w.stop
    omega
  · intro p hp
    change p < stream.length + (s.byteEnd w.stop - w.start * chunkSize) at hp
    change (if p < stream.length then stream.out p
      else w.out (p - stream.length)) = ref p
    by_cases hold : p < stream.length
    · rw [if_pos hold]
      exact h.out p hold
    · have hbound : s.byteEnd w.stop ≤ w.stop * chunkSize := min_le_right _ _
      have hposition : w.start * chunkSize + (p - stream.length) = p := by
        omega
      rw [if_neg hold, hholds.placed, hposition]
      rw [hdone]
      omega
  · intro other hother
    exact absurd hother (by simp [SnapshotStream.enqueue])

end SnapshotStream

namespace SnapshotMachine

/-- The condition on a step: it dirties no stored chunk past a pending
truncation while the snapshot has no pre-image of it. -/
def KeepsPreImages (m : SnapshotMachine) : SnapshotEvent → Prop
  | .vfs e => m.vfs.KeepsPreImages e
  | .open _ | .pull _ | .place _ _ | .enqueue _ => True

instance (m : SnapshotMachine) :
    (e : SnapshotEvent) → Decidable (m.KeepsPreImages e)
  | .vfs e => inferInstanceAs (Decidable (m.vfs.KeepsPreImages e))
  | .open _ | .pull _ | .place _ _ | .enqueue _ => isTrue trivial

structure Serving (m : SnapshotMachine) (s : SnapshotState)
    (ref : FlatFile) : Prop where
  snapshot : m.vfs.snapshot = some s
  size : s.size = ref.size
  totalChunks : s.totalChunks = chunksOf s.size
  isolated : m.vfs.Isolated s (chunkOf ref.bytes)
  streams : ∀ i stream, m.streams i = some stream →
    stream.Emits s m.vfs.bucket ref.bytes

variable {m m' : SnapshotMachine} {s : SnapshotState} {ref : FlatFile}

theorem Serving.setStream {stream : Option SnapshotStream}
    (h : m.Serving s ref) (i : ℕ)
    (hstream : ∀ new, stream = some new → new.Emits s m.vfs.bucket ref.bytes) :
    (m.setStream i stream).Serving s ref := by
  refine ⟨h.snapshot, h.size, h.totalChunks, h.isolated, ?_⟩
  intro other new hnew
  change Function.update m.streams i stream other = some new at hnew
  by_cases hother : other = i
  · subst hother
    rw [Function.update_self] at hnew
    exact hstream new hnew
  · rw [Function.update_of_ne hother] at hnew
    exact h.streams other new hnew

theorem Serving.vfs {e : VfsEvent} (h : m.Serving s ref)
    (hkept : m.vfs.KeepsPreImages e) :
    ∃ s', Serving { m with vfs := m.vfs.respond e } s' ref := by
  rcases h.isolated.respond h.snapshot hkept with
    ⟨hbucket, s', hsnapshot, hlater, hisolated⟩
  refine ⟨s', hsnapshot, hlater.size.trans h.size, ?_, hisolated, ?_⟩
  · rw [hlater.totalChunks, hlater.size]
    exact h.totalChunks
  · intro i stream hget
    change stream.Emits s' (m.vfs.respond e).bucket ref.bytes
    rw [hbucket]
    exact (h.streams i stream hget).later hlater

theorem Serving.step {e : SnapshotEvent} (h : m.Serving s ref)
    (hkept : m.KeepsPreImages e) (hstep : step m e = some m') :
    ∃ s', m'.Serving s' ref := by
  cases e with
  | vfs e =>
      cases hstep
      exact h.vfs hkept
  | «open» i =>
      unfold SnapshotMachine.step at hstep
      cases hget : m.streams i with
      | some stream => simp [hget] at hstep
      | none =>
          simp only [hget, Option.some.injEq] at hstep
          subst hstep
          refine ⟨s, h.setStream i ?_⟩
          intro new hnew
          cases hnew
          exact SnapshotStream.opened_emits _ _ _
  | pull i =>
      unfold SnapshotMachine.step at hstep
      cases hget : m.streams i with
      | none => simp [hget] at hstep
      | some stream =>
          simp only [h.snapshot, hget] at hstep
          split_ifs at hstep
          cases hstep
          refine ⟨s, h.setStream i ?_⟩
          intro new hnew
          cases hnew
          exact (h.streams i stream hget).pull h.isolated
  | place i reached =>
      unfold SnapshotMachine.step at hstep
      cases hget : m.streams i with
      | none => simp [hget] at hstep
      | some stream =>
          have hemits := h.streams i stream hget
          cases hwindow : stream.window with
          | none => simp [h.snapshot, hget, hwindow] at hstep
          | some w =>
              simp only [h.snapshot, hget, hwindow] at hstep
              split_ifs at hstep with hlt
              cases hstep
              refine ⟨s, h.setStream i ?_⟩
              intro new hnew
              rw [Option.map_eq_some_iff] at hnew
              rcases hnew with ⟨w', hplace, rfl⟩
              rcases hemits.window w hwindow with ⟨hstart, hholds⟩
              rcases hholds.place h.isolated.shadowed hlt hplace with
                ⟨hholds', hsame, -⟩
              exact hemits.withWindow (hsame.trans hstart) hholds'
  | enqueue i =>
      unfold SnapshotMachine.step at hstep
      cases hget : m.streams i with
      | none => simp [hget] at hstep
      | some stream =>
          cases hwindow : stream.window with
          | none => simp [h.snapshot, hget, hwindow] at hstep
          | some w =>
              simp only [h.snapshot, hget, hwindow] at hstep
              split_ifs at hstep with hdone
              cases hstep
              refine ⟨s, h.setStream i ?_⟩
              intro new hnew
              cases hnew
              exact (h.streams i stream hget).enqueue h.totalChunks hwindow
                hdone

/-- The machine when `openSnapshot` has returned. -/
def started (v : DoVfs) : SnapshotMachine := ⟨v, fun _ => none⟩

theorem started_serving {v v0 : DoVfs} (hstart : v.Refines ref)
    (hopen : v.openSnapshot = some v0) :
    ∃ s, (started v0).Serving s ref := by
  have hflushed := hstart.coherent.flush
  have hsize := v.flush_size.trans hstart.size
  unfold DoVfs.openSnapshot at hopen
  split_ifs at hopen
  cases hopen
  have hshows : ∀ chunkno bytes, v.flush.Clean chunkno bytes →
      Agree bytes (chunkOf ref.bytes chunkno) := fun chunkno bytes hclean =>
    hclean.2.trans (hflushed.stored chunkno)
  refine ⟨_, rfl, hsize, rfl, ?_, ?_⟩
  · refine ⟨OrderedMap.all_empty _, ?_, ?_, fun _ _ => rfl, fun _ _ => rfl,
      ?_, ?_, ?_⟩
    · exact fun chunkno _ => hflushed.stored chunkno
    · exact fun chunkno _ row hrow =>
        hflushed.coherent.rows chunkno row hrow
    · exact hflushed.coherent.cached.mono fun chunkno bytes hclean _ =>
        hshows chunkno bytes hclean
    · exact hflushed.coherent.pins.mono fun chunkno bytes hclean _ =>
        hshows chunkno bytes hclean
    · exact fun chunkno _ hdirty =>
        absurd (hflushed.noDirty chunkno) hdirty
  · intro i stream hget
    exact absurd hget (by simp [started])

/-- In a run that dirties no stored, unshadowed chunk past a pending
truncation, every stream has emitted a prefix of the file as it was when the
snapshot was opened, and the whole of it once its cursor is past the last
chunk. -/
theorem streams_spell_opening {v v0 : DoVfs} {es : List SnapshotEvent}
    (hstart : v.Refines ref) (hopen : v.openSnapshot = some v0)
    (hkept : Transition.Meets step KeepsPreImages (started v0) es)
    (hrun : Transition.run step (started v0) es = some m) :
    ∀ i stream, m.streams i = some stream →
      (∀ p, p < stream.length → stream.out p = ref.bytes p) ∧
        stream.length = ref.size ⊓ (stream.cursor * chunkSize) ∧
        (chunksOf ref.size ≤ stream.cursor → stream.length = ref.size) := by
  have hend := Transition.run_preserves_of_meets
    (I := fun m => ∃ s, Serving m s ref)
    (fun m m' e hserving hcond hstep => by
      rcases hserving with ⟨s, hs⟩
      exact hs.step hcond hstep)
    hkept (started_serving hstart hopen) hrun
  rcases hend with ⟨s, hs⟩
  intro i stream hget
  have hemits := hs.streams i stream hget
  have hlength := hemits.length
  refine ⟨hemits.out, ?_, ?_⟩
  · rw [hlength, SnapshotState.byteEnd, hs.size]
  · intro hcursor
    rw [← hs.size, ← hs.totalChunks] at hcursor
    rw [hlength, SnapshotState.byteEnd_total hs.totalChunks hcursor]
    exact hs.size

section HotTail

/-- Two hot chunks: the first blank, the second all 7. -/
def hotTailStorage : Storage where
  size := 2 * chunkSize
  gen := 0
  rows := fun chunkno =>
    if chunkno < 2 then
      some ⟨fun _ => if chunkno = 1 then 7 else 0, fullMask⟩
    else none
  tier := { segments := OrderedMap.empty, maxGen := none }

def hotTail : DoVfs :=
  DoVfs.opened hotTailStorage (fun _ _ => none) false 64 67108864

theorem hotTail_refines : hotTail.Refines DoVfs.coldTailFile := by
  apply DoVfs.opened_refines
  · intro chunkno offset hlt
    by_cases hrow : chunkno < 2
    · have hsome : hotTailStorage.rows chunkno =
          some ⟨fun _ => if chunkno = 1 then 7 else 0, fullMask⟩ :=
        if_pos hrow
      rw [effective_of_some hsome, placeMasked_fullMask _ _ offset hlt]
      unfold chunkOf DoVfs.coldTailFile
      dsimp only
      by_cases hone : chunkno = 1
      · subst hone
        rw [if_pos rfl, if_pos (by omega)]
      · rw [if_neg hone, if_neg]
        rw [chunkSize_eq] at *
        omega
    · have hnone : hotTailStorage.rows chunkno = none := if_neg hrow
      rw [effective_of_none hnone]
      refine (if_neg ?_).symm
      rw [chunkSize_eq] at *
      omega
  · intro chunkno row hrow
    change (if chunkno < 2 then
      some ⟨fun _ => if chunkno = 1 then 7 else 0, fullMask⟩
      else none) = some row at hrow
    by_cases hlt : chunkno < 2
    · rw [if_pos hlt] at hrow
      cases hrow
      exact MaskedChunk.blank_full _
    · rw [if_neg hlt] at hrow
      exact absurd hrow (by simp)
  · rfl

/-- The file once a snapshot of it is open. -/
def hotTailOpen : DoVfs := { hotTail with
    snapshot := some
        { size := 2 * chunkSize
          totalChunks := 2
          shadow := OrderedMap.empty
          segments := OrderedMap.empty } }

def overwriteTail : SnapshotEvent :=
  .vfs (.write (fun _ => 1) chunkSize vfsPageSize)

/-- The second chunk is overwritten while the window is in the making. -/
def overwrittenMeanwhile : List SnapshotEvent :=
  [.open 0, .pull 0, .place 0 true, overwriteTail, .vfs .sync,
    .place 0 true, .enqueue 0]

/-- The second chunk is truncated away and written again in one
transaction. -/
def truncatedAndRewritten : List SnapshotEvent :=
  [.vfs (.truncate chunkSize), overwriteTail, .vfs .sync, .open 0, .pull 0,
    .place 0 true, .place 0 true, .enqueue 0]

/-- The run leads to a first stream that passes the test. -/
def yields (es : List SnapshotEvent) (test : SnapshotStream → Bool) : Bool :=
  (Transition.run step (started hotTailOpen) es).any fun m =>
    (m.streams 0).any test

theorem exists_of_yields {es : List SnapshotEvent}
    {test : SnapshotStream → Bool} (h : yields es test = true) :
    ∃ m stream, Transition.run step (started hotTailOpen) es = some m ∧
      m.streams 0 = some stream ∧ test stream = true := by
  unfold yields at h
  rw [Option.any_eq_true] at h
  rcases h with ⟨m, hrun, hstream⟩
  rw [Option.any_eq_true] at hstream
  rcases hstream with ⟨stream, hget, htest⟩
  exact ⟨m, stream, hrun, hget, htest⟩

theorem streams_spell_opening_overwritten :
    ∃ m stream, hotTail.openSnapshot = some hotTailOpen ∧
      Transition.run step (started hotTailOpen) overwrittenMeanwhile = some m ∧
      m.streams 0 = some stream ∧
      ∀ p, p < 2 * chunkSize → stream.out p = DoVfs.coldTailFile.bytes p := by
  have hyields : yields overwrittenMeanwhile (fun stream =>
      decide (stream.length = 2 * chunkSize)) = true := by decide +kernel
  rcases exists_of_yields hyields with ⟨m, stream, hrun, hget, hlength⟩
  have hspells := streams_spell_opening hotTail_refines
    (rfl : hotTail.openSnapshot = some hotTailOpen) (by decide +kernel)
    hrun 0 stream hget
  rw [of_decide_eq_true hlength] at hspells
  exact ⟨m, stream, rfl, hrun, hget, hspells.1⟩

/-- The stream yields zeros where the file held 7 when the snapshot was
opened. -/
theorem stream_loses_truncated : ∃ v v0 ref m stream, DoVfs.Refines v ref ∧
      v.openSnapshot = some v0 ∧
      Transition.run step (started v0) truncatedAndRewritten = some m ∧
      m.streams 0 = some stream ∧ chunkSize < stream.length ∧
      stream.out chunkSize = 0 ∧ ref.bytes chunkSize = 7 := by
  have hyields : yields truncatedAndRewritten (fun stream =>
      decide (chunkSize < stream.length ∧ stream.out chunkSize = 0)) =
        true := by decide +kernel
  rcases exists_of_yields hyields with ⟨m, stream, hrun, hget, htest⟩
  rcases of_decide_eq_true htest with ⟨hlength, hout⟩
  exact ⟨hotTail, hotTailOpen, DoVfs.coldTailFile, m, stream,
    hotTail_refines, rfl, hrun, hget, hlength, hout, by decide +kernel⟩

end HotTail

end SnapshotMachine
end QiForge
