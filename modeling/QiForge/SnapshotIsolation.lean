import QiForge.DoVfsSnapshot

/-!
# What a snapshot may still read

A chunk of the snapshot is exposed until a flush keeps its pre-image.  While
it is exposed its stored row, over the slot the snapshot mapped, spells the
content at opening, and so do the clean cache, the pins and the base of its
dirty buffer.  Every event keeps this, except dirtying a stored chunk past a
pending truncation: the lookup hides the row, and the base remembered for it
is empty.
-/

namespace QiForge

open PageTier

/-- The image a flush keeps for a dirty chunk with this base. -/
def preImage : Option BaseImage → MaskedChunk
  | none => ⟨zeroBytes, fullMask⟩
  | some .sparse => ⟨zeroBytes, fullMask⟩
  | some .cold => ⟨zeroBytes, 0#16⟩
  | some (.chunk image) => image

namespace SnapshotState

/-- No pre-image of this chunk of the snapshot is kept yet. -/
def Exposed (s : SnapshotState) (chunkno : ℕ) : Prop :=
  chunkno < s.totalChunks ∧ s.shadow.get? chunkno = none

instance (s : SnapshotState) (chunkno : ℕ) : Decidable (s.Exposed chunkno) :=
  decidable_of_iff
    (chunkno < s.totalChunks ∧ (s.shadow.get? chunkno).isNone = true)
    (by simp [Exposed])

/-- The same snapshot with more pre-images. -/
structure Later (s s' : SnapshotState) : Prop where
  size : s'.size = s.size
  totalChunks : s'.totalChunks = s.totalChunks
  segments : s'.segments = s.segments
  shadow : ∀ chunkno image, s.shadow.get? chunkno = some image →
    s'.shadow.get? chunkno = some image

/-- The image over the slot the snapshot mapped is the chunk's content. -/
def Spells (s : SnapshotState) (bucket : Bucket) (content : ℕ → Bytes)
    (chunkno : ℕ) (image : MaskedChunk) : Prop :=
  Agree
    (placeMasked (slotBytes s.segments bucket chunkno) image.data image.mask)
    (content chunkno)

/-- A whole buffer that shows the chunk while it is exposed. -/
def Shows (s : SnapshotState) (content : ℕ → Bytes) (chunkno : ℕ)
    (bytes : Bytes) : Prop :=
  s.Exposed chunkno → Agree bytes (content chunkno)

variable {s s' : SnapshotState} {bucket : Bucket} {content : ℕ → Bytes}
  {chunkno : ℕ}

theorem Later.refl (s : SnapshotState) : s.Later s :=
  ⟨rfl, rfl, rfl, fun _ _ h => h⟩

theorem Later.trans {s'' : SnapshotState} (h : s.Later s')
    (h' : s'.Later s'') : s.Later s'' where
  size := h'.size.trans h.size
  totalChunks := h'.totalChunks.trans h.totalChunks
  segments := h'.segments.trans h.segments
  shadow := fun chunkno image hget =>
    h'.shadow chunkno image (h.shadow chunkno image hget)

theorem Exposed.of_later (hexposed : s'.Exposed chunkno)
    (h : s.Later s') : s.Exposed chunkno := by
  rcases hexposed with ⟨hlt, hnone⟩
  rw [h.totalChunks] at hlt
  refine ⟨hlt, ?_⟩
  cases hget : s.shadow.get? chunkno with
  | none => rfl
  | some image =>
      have hkept := h.shadow chunkno image hget
      rw [hnone] at hkept
      exact absurd hkept (by simp)

theorem Spells.later {image : MaskedChunk}
    (hspells : s.Spells bucket content chunkno image) (h : s.Later s') :
    s'.Spells bucket content chunkno image := by
  unfold Spells
  rw [h.segments]
  exact hspells

theorem Shows.later {bytes : Bytes}
    (hshows : s.Shows content chunkno bytes) (h : s.Later s') :
    s'.Shows content chunkno bytes :=
  fun hexposed => hshows (hexposed.of_later h)

theorem spells_full {bytes : Bytes} (h : Agree bytes (content chunkno)) :
    s.Spells bucket content chunkno ⟨bytes, fullMask⟩ :=
  (placeMasked_fullMask _ _).trans h

/-- With no slot below, a blank image is the content by itself. -/
theorem Spells.agree_of_unmapped {image : MaskedChunk}
    (h : s.Spells bucket content chunkno image) (hblank : image.Blank)
    (hslot : slotInR2 s.segments chunkno = false) :
    Agree image.data (content chunkno) := by
  intro offset hlt
  rw [← h offset hlt, slotBytes_of_not_slotInR2 bucket hslot]
  cases hcov : covers image.mask offset with
  | true => rw [placeMasked_of_covers hcov]
  | false =>
      rw [placeMasked_of_not_covers hcov, hblank offset hlt hcov]
      rfl

end SnapshotState

namespace DoVfs

structure Isolated (v : DoVfs) (s : SnapshotState) (content : ℕ → Bytes) :
    Prop where
  shadowed : s.shadow.All (s.Spells v.bucket content)
  rows : ∀ chunkno, s.Exposed chunkno →
    Agree (effective v.storage.rows s.segments v.bucket chunkno)
      (content chunkno)
  blank : ∀ chunkno, s.Exposed chunkno → ∀ row,
    v.storage.rows chunkno = some row → row.Blank
  inR2 : ∀ chunkno, s.Exposed chunkno →
    v.inR2 chunkno = slotInR2 s.segments chunkno
  slots : ∀ chunkno, s.Exposed chunkno →
    slotBytes v.tier.segments v.bucket chunkno =
      slotBytes s.segments v.bucket chunkno
  cached : v.cache.entries.All (s.Shows content)
  pins : v.pinned.All (s.Shows content)
  bases : ∀ chunkno, s.Exposed chunkno → v.file.dirty.get? chunkno ≠ none →
    s.Spells v.bucket content chunkno (preImage (v.file.base.get? chunkno))

/-- Dirtying the chunk now remembers an empty base for a stored row. -/
def losesPreImage (v : DoVfs) (s : SnapshotState) (chunkno : ℕ) : Bool :=
  decide (s.Exposed chunkno) && v.pastTruncation chunkno &&
    (v.storage.rows chunkno).isSome && (v.file.dirty.get? chunkno).isNone

variable {v : DoVfs} {s : SnapshotState} {content : ℕ → Bytes} {chunkno : ℕ}

theorem Isolated.withCache {cache : ChunkCache} (h : v.Isolated s content)
    (hcache : cache.entries.All (s.Shows content)) :
    (v.withCache cache).Isolated s content :=
  { h with cached := hcache }

theorem Isolated.withPins {pins : OrderedMap ℕ Bytes}
    (h : v.Isolated s content) (hpins : pins.All (s.Shows content)) :
    { v with pinned := pins }.Isolated s content :=
  { h with pins := hpins }

theorem Isolated.row_spells {row : MaskedChunk} (h : v.Isolated s content)
    (hexposed : s.Exposed chunkno)
    (hrow : v.storage.rows chunkno = some row) :
    s.Spells v.bucket content chunkno row := by
  have hcontent := h.rows chunkno hexposed
  rw [effective_of_some hrow] at hcontent
  exact hcontent

/-- The buffers of a chunk that was already dirty keep their base. -/
theorem Isolated.setDirty {chunk : MaskedChunk} (h : v.Isolated s content)
    (hdirty : v.file.dirty.get? chunkno ≠ none) :
    (v.setDirty chunkno chunk).Isolated s content := by
  refine ⟨h.shadowed, h.rows, h.blank, h.inR2, h.slots, h.cached, h.pins, ?_⟩
  intro other hexposed hother
  apply h.bases other hexposed
  rw [get?_setDirty] at hother
  split_ifs at hother with hsame
  · exact hsame ▸ hdirty
  · exact hother

/-- A newly dirtied chunk remembers what it started from. -/
theorem Isolated.dirtied {chunk : MaskedChunk} {base : BaseImage}
    (h : v.Isolated s content)
    (hbase : s.Exposed chunkno →
      s.Spells v.bucket content chunkno (preImage (some base))) :
    ((v.setBase chunkno base).setDirty chunkno chunk).Isolated s
      content := by
  refine ⟨h.shadowed, h.rows, h.blank, h.inR2, h.slots, h.cached, h.pins, ?_⟩
  intro other hexposed hother
  have hget : ((v.setBase chunkno base).setDirty chunkno
      chunk).file.base.get? other =
      if other = chunkno then some base else v.file.base.get? other :=
    OrderedMap.get?_set _ _ _ _
  rw [get?_setDirty] at hother
  rw [hget]
  by_cases hsame : other = chunkno
  · subst hsame
    rw [if_pos rfl]
    exact hbase hexposed
  · rw [if_neg hsame] at hother ⊢
    exact h.bases other hexposed hother

theorem Isolated.lookupLocal_some {v' : DoVfs} {image : MaskedChunk}
    (h : v.Isolated s content)
    (hlookup : v.lookupLocal chunkno = (some image, v')) :
    (s.Exposed chunkno →
        s.Spells v.bucket content chunkno image ∧ image.Blank) ∧
      ∃ cache, v' = v.withCache cache ∧
        cache.entries.All (s.Shows content) := by
  unfold lookupLocal at hlookup
  cases hpin : v.pinned.get? chunkno with
  | some pin =>
      simp only [hpin, Prod.mk.injEq, Option.some.injEq] at hlookup
      rcases hlookup with ⟨rfl, rfl⟩
      refine ⟨?_, v.cache, rfl, h.cached⟩
      intro hexposed
      exact ⟨SnapshotState.spells_full (h.pins chunkno pin hpin hexposed),
        MaskedChunk.blank_full pin⟩
  | none =>
      cases hcached : v.cache.entries.get? chunkno with
      | some cached =>
          simp only [hpin, hcached, Prod.mk.injEq, Option.some.injEq]
            at hlookup
          rcases hlookup with ⟨rfl, rfl⟩
          refine ⟨?_, _, rfl, ChunkCache.all_refresh h.cached chunkno⟩
          intro hexposed
          exact ⟨SnapshotState.spells_full
              (h.cached chunkno cached hcached hexposed),
            MaskedChunk.blank_full cached⟩
      | none =>
          cases hpast : v.pastTruncation chunkno with
          | true => simp [hpin, hcached, hpast] at hlookup
          | false =>
              cases hrow : v.storage.rows chunkno with
              | none => simp [hpin, hcached, hpast, hrow] at hlookup
              | some row =>
                  simp only [hpin, hcached, hpast, hrow, Bool.false_eq_true,
                    if_false, Prod.mk.injEq, Option.some.injEq] at hlookup
                  rcases hlookup with ⟨rfl, rfl⟩
                  constructor
                  · intro hexposed
                    exact ⟨h.row_spells hexposed hrow,
                      h.blank chunkno hexposed row hrow⟩
                  · by_cases hfull : row.mask = fullMask
                    · rw [if_pos hfull]
                      refine ⟨_, rfl, ChunkCache.all_set_of_all h.cached ?_⟩
                      intro hexposed
                      exact (effective_full hrow hfull).symm.trans
                        (h.rows chunkno hexposed)
                    · rw [if_neg hfull]
                      exact ⟨v.cache, rfl, h.cached⟩

/-- A chunk that storage does not have starts from its slot or zeros. -/
theorem Isolated.spells_unstored (h : v.Isolated s content)
    (hrow : s.Exposed chunkno → v.storage.rows chunkno = none)
    (hexposed : s.Exposed chunkno) :
    s.Spells v.bucket content chunkno
      (preImage (some (if v.inR2 chunkno then .cold else .sparse))) := by
  have hcontent := h.rows chunkno hexposed
  rw [effective_of_none (hrow hexposed)] at hcontent
  cases hslot : v.inR2 chunkno with
  | true =>
      intro offset hlt
      exact (placeMasked_of_not_covers (covers_zero offset)).trans
        (hcontent offset hlt)
  | false =>
      rw [h.inR2 chunkno hexposed] at hslot
      rw [slotBytes_of_not_slotInR2 v.bucket hslot] at hcontent
      exact SnapshotState.spells_full hcontent

theorem Isolated.dirtyChunk (h : v.Isolated s content)
    (hkept : v.losesPreImage s chunkno = false) :
    (v.dirtyChunk chunkno).2.Isolated s content ∧
      (v.dirtyChunk chunkno).2.file.dirty.get? chunkno ≠ none := by
  unfold DoVfs.dirtyChunk
  cases hdirty : v.file.dirty.get? chunkno with
  | some chunk => exact ⟨h, by simp [hdirty]⟩
  | none =>
      cases hlookup : v.lookupLocal chunkno with
      | mk found v' =>
          cases found with
          | some image =>
              rcases h.lookupLocal_some hlookup with
                ⟨hspells, cache, rfl, hcache⟩
              refine ⟨(h.withCache hcache).dirtied
                fun hexposed => (hspells hexposed).1, ?_⟩
              simp [get?_setDirty]
          | none =>
              rcases lookupLocal_none hlookup with ⟨rfl, hhidden⟩
              have hrow : s.Exposed chunkno →
                  v'.storage.rows chunkno = none := by
                intro hexposed
                rcases hhidden with hpast | hnone
                · by_contra hsome
                  simp [losesPreImage, hexposed, hpast, hdirty, hsome] at hkept
                · exact hnone
              refine ⟨h.dirtied (h.spells_unstored hrow), ?_⟩
              simp [get?_setDirty]

theorem Isolated.loadDirty {dirty : MaskedChunk} (h : v.Isolated s content)
    (hdirty : v.file.dirty.get? chunkno = some dirty) (wanted : PageMask) :
    (v.loadDirty chunkno wanted dirty).2.Isolated s content := by
  have hne : v.file.dirty.get? chunkno ≠ none := by simp [hdirty]
  unfold DoVfs.loadDirty
  by_cases hfull : dirty.mask = fullMask
  · rw [if_pos hfull]
    exact h
  · rw [if_neg hfull]
    cases (v.pinned.get? chunkno).or (v.cache.entries.get? chunkno) with
    | some cold =>
        dsimp only
        split_ifs
        · exact h.setDirty hne
        · have hrefreshed := h.withCache
            (ChunkCache.all_refresh h.cached chunkno)
          exact hrefreshed.setDirty hne
    | none =>
        dsimp only
        split_ifs
        · exact h.setDirty hne
        · exact h
        · exact h

theorem Isolated.loadClean (h : v.Isolated s content) (chunkno : ℕ)
    (wanted : PageMask) :
    (v.loadClean chunkno wanted).2.Isolated s content := by
  unfold DoVfs.loadClean
  cases hlookup : v.lookupLocal chunkno with
  | mk found v' =>
      cases found with
      | none =>
          rcases lookupLocal_none hlookup with ⟨rfl, -⟩
          dsimp only
          split_ifs
          · exact h
          · exact h
      | some image =>
          rcases h.lookupLocal_some hlookup with
            ⟨hspells, cache, rfl, hcache⟩
          have hlooked := h.withCache hcache
          dsimp only
          split_ifs with hfull hslot hwanted
          · exact hlooked
          · exact hlooked
          · exact hlooked
          · apply hlooked.withCache
            apply ChunkCache.all_set_of_all hcache
            intro hexposed
            have hunmapped : slotInR2 s.segments chunkno = false := by
              rw [← h.inR2 chunkno hexposed]
              exact Bool.eq_false_iff.mpr hslot
            have himage := hspells hexposed
            exact himage.1.agree_of_unmapped himage.2 hunmapped

theorem Isolated.loadChunk (h : v.Isolated s content) (chunkno : ℕ)
    (wanted : PageMask) :
    (v.loadChunk chunkno wanted).2.Isolated s content := by
  unfold DoVfs.loadChunk
  cases hdirty : v.file.dirty.get? chunkno with
  | some dirty => exact h.loadDirty hdirty wanted
  | none => exact h.loadClean chunkno wanted

theorem Isolated.readSpans (h : v.Isolated s content) (rounds : List Span)
    (out : Bytes) : (readSpans rounds out v).2.2.Isolated s content := by
  induction rounds generalizing v out with
  | nil => exact h
  | cons span rest ih =>
      have hload := h.loadChunk span.chunkno (pagesOf span.inChunk span.n)
      rw [DoVfs.readSpans]
      cases hanswer : v.loadChunk span.chunkno
          (pagesOf span.inChunk span.n) with
      | mk answer v' =>
          rw [hanswer] at hload
          cases answer with
          | data chunk => exact ih hload _
          | sparse => exact ih hload _
          | coldMiss =>
              exact { hload with }

theorem Isolated.xRead (h : v.Isolated s content) (pData : Bytes)
    (iOffset want : ℕ) : (v.xRead pData iOffset want).2.Isolated s content := by
  rw [xRead_state]
  exact h.readSpans _ _

/-- A round of the write loop forgets no dirty chunk. -/
theorem writeSpan_dirty (pData : Bytes) (span : Span) (other : ℕ)
    (h : v.file.dirty.get? other ≠ none) :
    (v.writeSpan pData span).2.file.dirty.get? other ≠ none := by
  have htaken : (v.dirtyChunk span.chunkno).2.file.dirty.get? other ≠
      none := by
    unfold dirtyChunk
    cases hdirty : v.file.dirty.get? span.chunkno with
    | some chunk => exact h
    | none =>
        rcases lookupLocal_cache v span.chunkno with ⟨cache, hcache⟩
        have hother : other ≠ span.chunkno := by
          rintro rfl
          exact h hdirty
        cases hlookup : v.lookupLocal span.chunkno with
        | mk found v' =>
            rw [hlookup] at hcache
            dsimp only at hcache
            subst hcache
            cases found with
            | some image =>
                rw [get?_setDirty, if_neg hother]
                exact h
            | none =>
                rw [get?_setDirty, if_neg hother]
                exact h
  have hset : ∀ chunk, ((v.dirtyChunk span.chunkno).2.setDirty span.chunkno
      chunk).file.dirty.get? other ≠ none := by
    intro chunk
    rw [get?_setDirty]
    split_ifs
    · simp
    · exact htaken
  unfold writeSpan
  dsimp only
  split_ifs
  · exact hset _
  · exact hset _
  · exact hset _

theorem losesPreImage_of_writes {w : DoVfs} (hdiffer : WritesDiffer v w)
    (hdirty : v.file.dirty.get? chunkno ≠ none →
      w.file.dirty.get? chunkno ≠ none)
    (h : v.losesPreImage s chunkno = false) :
    w.losesPreImage s chunkno = false := by
  rcases hdiffer with ⟨cache, dirty, base, rfl⟩
  unfold losesPreImage at h ⊢
  rw [Bool.and_eq_false_iff] at h ⊢
  rcases h with hclean | hdirtied
  · exact Or.inl hclean
  · right
    rw [Option.isNone_eq_false_iff, Option.isSome_iff_ne_none] at *
    exact hdirty hdirtied

theorem Isolated.writeSpan (h : v.Isolated s content) (pData : Bytes)
    (span : Span) (hkept : v.losesPreImage s span.chunkno = false) :
    (v.writeSpan pData span).2.Isolated s content := by
  rcases h.dirtyChunk hkept with ⟨htaken, hdirty⟩
  unfold DoVfs.writeSpan
  dsimp only
  split_ifs
  · exact htaken.setDirty hdirty
  · exact htaken.setDirty hdirty
  · exact htaken.setDirty hdirty

theorem Isolated.writeSpans (h : v.Isolated s content) (pData : Bytes)
    {rounds : List Span}
    (hkept : ∀ span ∈ rounds, v.losesPreImage s span.chunkno = false) :
    (writeSpans rounds pData v).2.Isolated s content := by
  induction rounds generalizing v with
  | nil => exact h
  | cons span rest ih =>
      have hspan := h.writeSpan pData span (hkept span List.mem_cons_self)
      have hdiffer := writeSpan_writes v pData span
      have hrest : ∀ other ∈ rest,
          (v.writeSpan pData span).2.losesPreImage s other.chunkno =
            false := by
        intro other hmem
        exact losesPreImage_of_writes hdiffer
          (writeSpan_dirty pData span other.chunkno)
          (hkept other (List.mem_cons_of_mem _ hmem))
      rw [DoVfs.writeSpans]
      cases hwrite : v.writeSpan pData span with
      | mk completed v' =>
          rw [hwrite] at hspan hrest
          cases completed with
          | true => exact ih hspan hrest
          | false => exact hspan

theorem Isolated.growTo (h : v.Isolated s content) (bound : ℕ) :
    (v.growTo bound).Isolated s content := by
  unfold DoVfs.growTo
  split_ifs
  · exact { h with }
  · exact h

theorem Isolated.dropPast (h : v.Isolated s content) (keepChunks keepPages
    iSize : ℕ) :
    ((v.dropPast keepChunks).noteTruncation keepPages iSize).Isolated s
      content := by
  refine ⟨h.shadowed, h.rows, h.blank, h.inR2, h.slots, ?_, ?_, ?_⟩
  · exact OrderedMap.All.filter fun chunkno bytes hget _ =>
      h.cached chunkno bytes hget
  · exact OrderedMap.All.filter fun chunkno bytes hget _ =>
      h.pins chunkno bytes hget
  · intro chunkno hexposed hdirty
    have hdirties : ((v.dropPast keepChunks).noteTruncation keepPages
        iSize).file.dirty.get? chunkno =
        (v.file.dirty.get? chunkno).filter fun _ =>
          decide (chunkno < keepChunks) :=
      OrderedMap.get?_filter _ _ _
    have hbases : ((v.dropPast keepChunks).noteTruncation keepPages
        iSize).file.base.get? chunkno =
        (v.file.base.get? chunkno).filter fun _ =>
          decide (chunkno < keepChunks) :=
      OrderedMap.get?_filter _ _ _
    rw [hdirties] at hdirty
    rw [hbases]
    cases hold : v.file.dirty.get? chunkno with
    | none => simp [hold] at hdirty
    | some dirty =>
        have hlt : chunkno < keepChunks := by
          by_contra hnot
          simp [hold, Option.filter, hnot] at hdirty
        have hbase := h.bases chunkno hexposed (by simp [hold])
        have hsame : ((v.file.base.get? chunkno).filter fun _ =>
            decide (chunkno < keepChunks)) = v.file.base.get? chunkno := by
          cases v.file.base.get? chunkno with
          | none => rfl
          | some base => simp [Option.filter, hlt]
        rw [hsame]
        exact hbase

theorem Isolated.zeroTail (h : v.Isolated s content) (tail : ℕ)
    (hkept : v.losesPreImage s chunkno = false) :
    (v.zeroTail chunkno tail).2.Isolated s content := by
  rcases h.dirtyChunk hkept with ⟨htaken, hdirty⟩
  unfold DoVfs.zeroTail
  dsimp only
  split_ifs
  · exact htaken.setDirty hdirty
  · exact htaken.setDirty hdirty
  · exact htaken.setDirty hdirty

theorem Isolated.stored (h : v.Isolated s content)
    (hexposed : s.Exposed chunkno) :
    Agree (v.stored chunkno) (content chunkno) := by
  have hsame : v.stored chunkno =
      effective v.storage.rows s.segments v.bucket chunkno :=
    effective_congr rfl (h.slots chunkno hexposed)
  rw [hsame]
  exact h.rows chunkno hexposed

theorem Isolated.pinChunk {v' : DoVfs} {seg : Option Bytes}
    (h : v.Isolated s content)
    (himage : v.pinImage seg chunkno = v.stored chunkno)
    (hpin : v.pinChunk seg chunkno = some v') : v'.Isolated s content := by
  unfold DoVfs.pinChunk at hpin
  split_ifs at hpin with hskip
  · cases hpin
    exact h
  · cases hpin
    apply h.withPins
    apply OrderedMap.All.set
    · exact fun other bytes hget _ => h.pins other bytes hget
    · intro hexposed
      rw [himage]
      exact h.stored hexposed

theorem Isolated.pinChunks {chunks : List ℕ} {seg : Option Bytes}
    (h : v.Isolated s content)
    (himage : ∀ chunkno ∈ chunks, v.pinImage seg chunkno = v.stored chunkno) :
    (pinChunks seg chunks v).2.Isolated s content := by
  induction chunks generalizing v with
  | nil => exact h
  | cons chunkno rest ih =>
      rw [DoVfs.pinChunks]
      cases hpin : v.pinChunk seg chunkno with
      | none => exact h
      | some v' =>
          have hpinned := h.pinChunk (himage chunkno List.mem_cons_self) hpin
          rcases pinChunk_pins hpin with ⟨pins, rfl, -⟩
          apply ih hpinned
          intro other hmem
          exact himage other (List.mem_cons_of_mem _ hmem)

theorem Isolated.resolveSegment (h : v.Isolated s content)
    (totalChunks segno : ℕ) (reached : Bool) :
    (v.resolveSegment totalChunks segno reached).2.Isolated s content := by
  unfold DoVfs.resolveSegment
  dsimp only
  split_ifs
  · cases hseg : v.currentSegment segno reached with
    | none => exact h
    | some seg =>
        exact h.pinChunks fun chunkno hmem =>
          pinImage_eq hseg (mem_segmentRange.mp hmem).1
  · exact h

theorem Isolated.resolveSegments (h : v.Isolated s content)
    (totalChunks : ℕ) (reached : ℕ → Bool) (segnos : List ℕ) :
    (resolveSegments totalChunks reached segnos v).2.Isolated s content := by
  induction segnos generalizing v with
  | nil => exact h
  | cons segno rest ih =>
      have hfirst := h.resolveSegment totalChunks segno (reached segno)
      rw [DoVfs.resolveSegments]
      cases hresolve : v.resolveSegment totalChunks segno (reached segno) with
      | mk completed v' =>
          rw [hresolve] at hfirst
          cases completed with
          | false => exact hfirst
          | true => exact ih hfirst

theorem Isolated.clearMisses (h : v.Isolated s content) :
    v.clearMisses.Isolated s content :=
  { h with }

theorem Isolated.resolveMisses (h : v.Isolated s content)
    (reached : ℕ → Bool) :
    (v.resolveMisses reached).2.Isolated s content := by
  unfold DoVfs.resolveMisses
  split_ifs
  · exact h
  · exact h.clearMisses.resolveSegments _ _ _

theorem Isolated.releasePins (h : v.Isolated s content) :
    v.releasePins.Isolated s content := by
  have hcache := ChunkCache.all_foldl_set v.pinned.entries
    (fun pin hmem => h.pins pin.1 pin.2 (OrderedMap.mem_entries_iff.mp hmem))
    h.cached
  exact (h.withCache hcache).withPins (OrderedMap.all_empty _)

theorem Isolated.xLock (h : v.Isolated s content) (lock : ℕ) :
    (v.xLock lock).Isolated s content :=
  { h with }

end DoVfs
end QiForge
