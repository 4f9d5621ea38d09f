import QiForge.EffectiveContent

/-!
# Reads of a coherent file

The rounds of the read and write loops tile the request.  A load answers with
bytes that agree with the reference on the wanted pages, completing a partial
dirty chunk leaves the view unchanged, and so a whole `xRead` that does not
miss returns the reference.
-/

namespace QiForge

open PageTier

/-- The rounds cover `[done, length)` of the request in order. -/
inductive Tiles (iOffset length : ℕ) : ℕ → List Span → Prop
  | nil {done : ℕ} (hend : length ≤ done) : Tiles iOffset length done []
  | cons {done : ℕ} {span : Span} {rest : List Span}
      (hdone : span.done = done)
      (hpos : span.chunkno * chunkSize + span.inChunk = iOffset + done)
      (hfits : span.inChunk + span.n ≤ chunkSize)
      (hbound : done + span.n ≤ length)
      (hrest : Tiles iOffset length (done + span.n) rest) :
      Tiles iOffset length done (span :: rest)

theorem tiles_spansFrom (iOffset length fuel done : ℕ)
    (hfuel : length ≤ done + fuel) :
    Tiles iOffset length done (spansFrom iOffset length fuel done) := by
  induction fuel generalizing done with
  | zero => exact .nil hfuel
  | succ fuel ih =>
      rw [spansFrom]
      by_cases hlt : done < length
      · rw [if_pos hlt]
        have hdiv := Nat.div_add_mod' (iOffset + done) chunkSize
        have hmod := Nat.mod_lt (iOffset + done) chunkSize_pos
        apply Tiles.cons
        · rfl
        · dsimp only
          omega
        · dsimp only
          omega
        · dsimp only
          omega
        · apply ih
          dsimp only
          omega
      · rw [if_neg hlt]
        exact .nil (Nat.not_lt.mp hlt)

theorem tiles_spans (iOffset length : ℕ) :
    Tiles iOffset length 0 (spans iOffset length) :=
  tiles_spansFrom iOffset length length 0 (by omega)

/-- What the answer of a load says about the chunk. -/
def DoVfs.Loaded.Shows (answer : DoVfs.Loaded) (content : Bytes)
    (wanted : PageMask) : Prop :=
  match answer with
  | .data bytes =>
      ∀ offset, covers wanted offset = true → bytes offset = content offset
  | .sparse => Agree zeroBytes content
  | .coldMiss => True

theorem Agree.shows {bytes content : Bytes} (h : Agree bytes content)
    (wanted : PageMask) :
    DoVfs.Loaded.Shows (.data bytes) content wanted :=
  fun offset hcov => h offset (covers_lt_chunkSize hcov)

namespace DoVfs

variable {v : DoVfs} {ref : Bytes} {chunkno : ℕ}

/-- With no slot below, what the stored row does not claim is zeros. -/
theorem Coherent.stored_unclaimed {mask : PageMask} {offset : ℕ}
    (h : v.Coherent ref)
    (hclaims : ∀ row, v.storage.rows chunkno = some row → MaskLe row.mask mask)
    (hslot : v.inR2 chunkno = false) (hlt : offset < chunkSize)
    (hcov : covers mask offset = false) : v.stored chunkno offset = 0 := by
  cases hrow : v.storage.rows chunkno with
  | none =>
      rw [stored_sparse hrow hslot]
      rfl
  | some row =>
      have hblank := h.rows chunkno row hrow
      rw [stored_of_not_inR2 hrow hblank hslot offset hlt]
      apply hblank offset hlt
      by_contra hne
      have hclaimed := hclaims row hrow offset (by simpa using hne)
      rw [hcov] at hclaimed
      exact Bool.noConfusion hclaimed

theorem Coherent.localImage_unmapped {image : MaskedChunk}
    (h : v.Coherent ref) (himage : v.LocalImage chunkno image)
    (hslot : v.inR2 chunkno = false) :
    Agree image.data (v.stored chunkno) := by
  intro offset hlt
  cases hcov : covers image.mask offset with
  | true => exact himage.agrees offset hcov
  | false =>
      rw [himage.blank offset hlt hcov,
        h.stored_unclaimed himage.claims hslot hlt hcov]

theorem Coherent.dirty_unmapped {dirty : MaskedChunk} (h : v.Coherent ref)
    (hdirty : v.file.dirty.get? chunkno = some dirty)
    (hslot : v.inR2 chunkno = false) :
    Agree dirty.data (v.view chunkno) := by
  intro offset hlt
  have hok := h.dirty chunkno dirty hdirty
  rw [view_of_dirty hdirty]
  cases hcov : covers dirty.mask offset with
  | true => rw [placeMasked_of_covers hcov]
  | false =>
      rw [placeMasked_of_not_covers hcov, hok.1 offset hlt hcov]
      cases hpast : v.pastTruncation chunkno with
      | true =>
          rw [cleanView_of_past hpast]
          rfl
      | false =>
          rw [cleanView_of_kept hpast,
            h.stored_unclaimed (hok.2 hpast) hslot hlt hcov]

/-- A dirty buffer completed from clean content spells the view. -/
theorem completed_agrees {dirty : MaskedChunk} {cold : Bytes}
    (hdirty : v.file.dirty.get? chunkno = some dirty)
    (hcold : v.Clean chunkno cold) :
    Agree (placeMasked dirty.data cold (~~~dirty.mask)) (v.view chunkno) := by
  intro offset hlt
  have hnot := covers_not dirty.mask hlt
  rw [view_of_dirty hdirty, cleanView_of_kept hcold.1]
  cases hcov : covers dirty.mask offset with
  | true =>
      rw [hcov] at hnot
      rw [placeMasked_of_not_covers hnot, placeMasked_of_covers hcov]
  | false =>
      rw [hcov] at hnot
      rw [placeMasked_of_covers hnot, placeMasked_of_not_covers hcov,
        hcold.2 offset hlt]

/-- Making a dirty chunk whole with the bytes it already shows. -/
theorem Coherent.setDirty_whole {bytes : Bytes} (h : v.Coherent ref)
    (hbytes : Agree bytes (v.view chunkno)) :
    (v.setDirty chunkno ⟨bytes, fullMask⟩).Coherent ref := by
  apply h.setDirty
  · exact ⟨MaskedChunk.blank_full bytes,
      fun _ row _ => MaskLe.fullMask row.mask⟩
  · exact (placeMasked_fullMask _ _).trans (hbytes.trans (h.view chunkno))
  · exact fun other _ => Agree.refl _

theorem Coherent.loadDirty {dirty : MaskedChunk} (h : v.Coherent ref)
    (hdirty : v.file.dirty.get? chunkno = some dirty) (wanted : PageMask) :
    (v.loadDirty chunkno wanted dirty).1.Shows (chunkOf ref chunkno) wanted ∧
      (v.loadDirty chunkno wanted dirty).2.Coherent ref := by
  have hview := h.view chunkno
  unfold DoVfs.loadDirty
  by_cases hfull : dirty.mask = fullMask
  · rw [if_pos hfull]
    rw [view_of_dirty hdirty, hfull] at hview
    exact ⟨((placeMasked_fullMask _ _).symm.trans hview).shows wanted, h⟩
  · rw [if_neg hfull]
    cases hcold : (v.pinned.get? chunkno).or
        (v.cache.entries.get? chunkno) with
    | some cold =>
        have hclean : v.Clean chunkno cold := by
          cases hpin : v.pinned.get? chunkno with
          | some pin =>
              simp only [hpin, Option.some_or, Option.some.injEq] at hcold
              exact h.pins chunkno cold (hcold ▸ hpin)
          | none =>
              rw [hpin, Option.none_or] at hcold
              exact h.cached chunkno cold hcold
        have hwhole := completed_agrees hdirty hclean
        refine ⟨(hwhole.trans hview).shows wanted, ?_⟩
        cases v.pinned.has chunkno with
        | true => exact h.setDirty_whole hwhole
        | false =>
            have hrefreshed := h.withCache
              (ChunkCache.all_refresh h.cached chunkno)
            exact hrefreshed.setDirty_whole hwhole
    | none =>
        cases hslot : v.inR2 chunkno with
        | false =>
            have hwhole := h.dirty_unmapped hdirty hslot
            exact ⟨(hwhole.trans hview).shows wanted, h.setDirty_whole hwhole⟩
        | true =>
            by_cases hwanted : wanted &&& ~~~dirty.mask = 0#16
            · simp only [Bool.not_true, Bool.false_eq_true, if_false,
                if_pos hwanted]
              refine ⟨?_, h⟩
              intro offset hcov
              have hlt := covers_lt_chunkSize hcov
              rw [← hview offset hlt, view_of_dirty hdirty,
                placeMasked_of_covers (wanted_subset hwanted hcov)]
            · simp only [Bool.not_true, Bool.false_eq_true, if_false,
                if_neg hwanted]
              exact ⟨trivial, h⟩

theorem Coherent.loadClean (h : v.Coherent ref)
    (hdirty : v.file.dirty.get? chunkno = none) (wanted : PageMask) :
    (v.loadClean chunkno wanted).1.Shows (chunkOf ref chunkno) wanted ∧
      (v.loadClean chunkno wanted).2.Coherent ref := by
  have hview := h.view chunkno
  rw [view_of_clean hdirty] at hview
  unfold DoVfs.loadClean
  cases hlookup : v.lookupLocal chunkno with
  | mk found v' =>
      cases found with
      | none =>
          rcases lookupLocal_none hlookup with ⟨rfl, hhidden⟩
          cases hslot : v'.inR2 chunkno with
          | true => simp only [hslot, if_true]; exact ⟨trivial, h⟩
          | false =>
              simp only [hslot, Bool.false_eq_true, if_false]
              refine ⟨?_, h⟩
              have hzero : v'.cleanView chunkno = zeroBytes := by
                cases hpast : v'.pastTruncation chunkno with
                | true => exact cleanView_of_past hpast
                | false =>
                    rw [hpast] at hhidden
                    rw [cleanView_of_kept hpast]
                    exact stored_sparse
                      (hhidden.resolve_left Bool.false_ne_true) hslot
              rw [hzero] at hview
              exact hview
      | some image =>
          rcases h.lookupLocal_some hlookup with
            ⟨himage, cache, rfl, hcache⟩
          have h' := h.withCache hcache
          rw [cleanView_of_kept himage.kept] at hview
          simp only
          by_cases hfull : image.mask = fullMask
          · rw [if_pos hfull]
            refine ⟨?_, h'⟩
            intro offset hcov
            have hlt := covers_lt_chunkSize hcov
            rw [← hview offset hlt]
            exact himage.agrees offset (hfull ▸ covers_fullMask hlt)
          · rw [if_neg hfull]
            cases hslot : (v.withCache cache).inR2 chunkno with
            | true =>
                by_cases hwanted : wanted &&& ~~~image.mask = 0#16
                · simp only [if_true, if_pos hwanted]
                  refine ⟨?_, h'⟩
                  intro offset hcov
                  rw [← hview offset (covers_lt_chunkSize hcov)]
                  exact himage.agrees offset (wanted_subset hwanted hcov)
                · simp only [if_true, if_neg hwanted]
                  exact ⟨trivial, h'⟩
            | false =>
                have hwhole := h.localImage_unmapped himage hslot
                simp only [Bool.false_eq_true, if_false]
                refine ⟨(hwhole.trans hview).shows wanted, ?_⟩
                exact h'.withCache (ChunkCache.all_set_of_all hcache
                  ⟨himage.kept, hwhole⟩)

theorem Coherent.loadChunk (h : v.Coherent ref) (chunkno : ℕ)
    (wanted : PageMask) :
    (v.loadChunk chunkno wanted).1.Shows (chunkOf ref chunkno) wanted ∧
      (v.loadChunk chunkno wanted).2.Coherent ref := by
  unfold DoVfs.loadChunk
  cases hdirty : v.file.dirty.get? chunkno with
  | some dirty => exact h.loadDirty hdirty wanted
  | none => exact h.loadClean hdirty wanted

/-- One round moves the reference's bytes into the request's buffer. -/
theorem Span.fill_eq {iOffset done : ℕ} {span : Span} {chunk : Bytes}
    (hdone : span.done = done)
    (hpos : span.chunkno * chunkSize + span.inChunk = iOffset + done)
    (hchunk : ∀ offset, span.inChunk ≤ offset →
      offset < span.inChunk + span.n →
      chunk offset = chunkOf ref span.chunkno offset)
    (out : Bytes) (p : ℕ) :
    Span.fill span out chunk p =
      if done ≤ p ∧ p < done + span.n then ref (iOffset + p) else out p := by
  unfold Span.fill
  rw [hdone]
  by_cases hin : done ≤ p ∧ p < done + span.n
  · rw [if_pos hin, if_pos hin, hchunk _ (by omega) (by omega)]
    unfold chunkOf
    congr 1
    omega
  · rw [if_neg hin, if_neg hin]

theorem Coherent.readSpans {iOffset length done : ℕ} {rounds : List Span}
    (htiles : Tiles iOffset length done rounds) (h : v.Coherent ref)
    (out : Bytes) :
    (readSpans rounds out v).2.2.Coherent ref ∧
      ((readSpans rounds out v).1 = true → ∀ p,
        (readSpans rounds out v).2.1 p =
          if done ≤ p ∧ p < length then ref (iOffset + p) else out p) := by
  induction htiles generalizing v out with
  | nil hend =>
      refine ⟨h, ?_⟩
      intro _ p
      rw [if_neg (by omega)]
      rfl
  | @cons done span rest hdone hpos hfits hbound hrest ih =>
      have hload := h.loadChunk span.chunkno (pagesOf span.inChunk span.n)
      rw [DoVfs.readSpans]
      cases hanswer : v.loadChunk span.chunkno
          (pagesOf span.inChunk span.n) with
      | mk answer v' =>
          rw [hanswer] at hload
          rcases hload with ⟨hshows, hcoherent⟩
          cases answer with
          | coldMiss =>
              refine ⟨{ hcoherent with }, ?_⟩
              intro hfalse
              exact absurd hfalse Bool.false_ne_true
          | sparse =>
              rcases ih hcoherent (Span.fill span out zeroBytes) with
                ⟨hfinal, hbytes⟩
              refine ⟨hfinal, ?_⟩
              intro htrue p
              have hfill := Span.fill_eq hdone hpos
                (fun offset _ hlt => hshows offset (by omega)) out p
              rw [hbytes htrue p, hfill]
              split_ifs <;> first | rfl | omega
          | data chunk =>
              rcases ih hcoherent (Span.fill span out chunk) with
                ⟨hfinal, hbytes⟩
              refine ⟨hfinal, ?_⟩
              intro htrue p
              have hfill := Span.fill_eq hdone hpos
                (fun offset hlow hlt => hshows offset
                  (covers_pagesOf (by omega) hlow hlt)) out p
              rw [hbytes htrue p, hfill]
              split_ifs <;> first | rfl | omega

section Frames

/-- Nothing but the cache, the dirty buffers and the misses differs. -/
def ReadsDiffer (v w : DoVfs) : Prop := ∃ cache dirty misses, w = { v with
      cache := cache
      misses := misses
      file := { v.file with dirty := dirty } }

theorem ReadsDiffer.refl (v : DoVfs) : ReadsDiffer v v :=
  ⟨v.cache, v.file.dirty, v.misses, rfl⟩

theorem ReadsDiffer.trans {u v w : DoVfs} (huv : ReadsDiffer u v)
    (hvw : ReadsDiffer v w) : ReadsDiffer u w := by
  rcases huv with ⟨cache, dirty, misses, rfl⟩
  rcases hvw with ⟨cache', dirty', misses', rfl⟩
  exact ⟨cache', dirty', misses', rfl⟩

theorem lookupLocal_cache (v : DoVfs) (chunkno : ℕ) :
    ∃ cache, (v.lookupLocal chunkno).2 = v.withCache cache := by
  unfold lookupLocal
  cases v.pinned.get? chunkno with
  | some pin => exact ⟨v.cache, rfl⟩
  | none =>
      cases v.cache.entries.get? chunkno with
      | some cached => exact ⟨_, rfl⟩
      | none =>
          cases v.pastTruncation chunkno with
          | true => exact ⟨v.cache, rfl⟩
          | false =>
              cases v.storage.rows chunkno with
              | none => exact ⟨v.cache, rfl⟩
              | some row =>
                  by_cases hfull : row.mask = fullMask
                  · exact ⟨_, if_pos hfull⟩
                  · exact ⟨v.cache, if_neg hfull⟩

theorem withCache_differs (v : DoVfs) (cache : ChunkCache) :
    ReadsDiffer v (v.withCache cache) :=
  ⟨cache, v.file.dirty, v.misses, rfl⟩

theorem setDirty_differs (v : DoVfs) (chunkno : ℕ) (chunk : MaskedChunk) :
    ReadsDiffer v (v.setDirty chunkno chunk) :=
  ⟨v.cache, _, v.misses, rfl⟩

theorem loadDirty_differs (v : DoVfs) (chunkno : ℕ) (wanted : PageMask)
    (dirty : MaskedChunk) :
    ReadsDiffer v (v.loadDirty chunkno wanted dirty).2 := by
  unfold loadDirty
  by_cases hfull : dirty.mask = fullMask
  · rw [if_pos hfull]
    exact ReadsDiffer.refl v
  · rw [if_neg hfull]
    cases (v.pinned.get? chunkno).or (v.cache.entries.get? chunkno) with
    | some cold =>
        dsimp only
        split_ifs
        · exact setDirty_differs v _ _
        · exact (withCache_differs v _).trans (setDirty_differs _ _ _)
    | none =>
        dsimp only
        split_ifs
        · exact setDirty_differs v _ _
        · exact ReadsDiffer.refl v
        · exact ReadsDiffer.refl v

theorem loadClean_differs (v : DoVfs) (chunkno : ℕ) (wanted : PageMask) :
    ReadsDiffer v (v.loadClean chunkno wanted).2 := by
  rcases lookupLocal_cache v chunkno with ⟨cache, hcache⟩
  have hlooked := withCache_differs v cache
  unfold loadClean
  cases hlookup : v.lookupLocal chunkno with
  | mk found v' =>
      rw [hlookup] at hcache
      dsimp only at hcache
      subst hcache
      cases found with
      | none =>
          dsimp only
          split_ifs
          · exact hlooked
          · exact hlooked
      | some image =>
          dsimp only
          split_ifs
          · exact hlooked
          · exact hlooked
          · exact hlooked
          · exact hlooked.trans (withCache_differs _ _)

theorem loadChunk_differs (v : DoVfs) (chunkno : ℕ) (wanted : PageMask) :
    ReadsDiffer v (v.loadChunk chunkno wanted).2 := by
  unfold loadChunk
  cases v.file.dirty.get? chunkno with
  | some dirty => exact loadDirty_differs v chunkno wanted dirty
  | none => exact loadClean_differs v chunkno wanted

theorem readSpans_differs (rounds : List Span) (out : Bytes) (v : DoVfs) :
    ReadsDiffer v (readSpans rounds out v).2.2 := by
  induction rounds generalizing out v with
  | nil => exact ReadsDiffer.refl v
  | cons span rest ih =>
      have hload := loadChunk_differs v span.chunkno
        (pagesOf span.inChunk span.n)
      rw [readSpans]
      cases hanswer : v.loadChunk span.chunkno
          (pagesOf span.inChunk span.n) with
      | mk answer v' =>
          rw [hanswer] at hload
          cases answer with
          | data chunk => exact hload.trans (ih _ v')
          | sparse => exact hload.trans (ih _ v')
          | coldMiss =>
              exact hload.trans ⟨v'.cache, v'.file.dirty, _, rfl⟩

end Frames

theorem xRead_state (v : DoVfs) (pData : Bytes) (iOffset want : ℕ) :
    (v.xRead pData iOffset want).2 =
      (readSpans (spans iOffset (want ⊓ (v.file.size - iOffset))) pData
        v).2.2 := by
  cases hread : readSpans (spans iOffset (want ⊓ (v.file.size - iOffset)))
      pData v with
  | mk complete rest =>
      cases complete with
      | false => simp only [xRead, hread]
      | true =>
          simp only [xRead, hread]
          split_ifs <;> rfl

theorem Coherent.xRead_state (h : v.Coherent ref) (pData : Bytes)
    (iOffset want : ℕ) : (v.xRead pData iOffset want).2.Coherent ref := by
  rw [DoVfs.xRead_state]
  exact (h.readSpans (tiles_spans _ _) pData).1

/-- A read that is not a recorded miss fills its buffer with the
reference. -/
theorem Coherent.xRead_data (h : v.Coherent ref)
    (hpast : ∀ p, v.file.size ≤ p → ref p = 0) (pData : Bytes)
    (iOffset want : ℕ)
    (hcode : (v.xRead pData iOffset want).1.code ≠ .ioerrRead) :
    ∀ p, p < want →
      (v.xRead pData iOffset want).1.data p = ref (iOffset + p) := by
  intro p hp
  have hspec := h.readSpans
    (tiles_spans iOffset (want ⊓ (v.file.size - iOffset))) pData
  cases hread : DoVfs.readSpans
      (spans iOffset (want ⊓ (v.file.size - iOffset))) pData v with
  | mk complete rest =>
      rw [hread] at hspec
      cases complete with
      | false => simp [DoVfs.xRead, hread] at hcode
      | true =>
          have hbytes := hspec.2 rfl
          simp only [DoVfs.xRead, hread]
          split_ifs with hshort
          · dsimp only
            split_ifs with hend
            · rw [hpast]
              omega
            · rw [hbytes p, if_pos (by omega)]
          · dsimp only
            rw [hbytes p, if_pos (by omega)]

end DoVfs
end QiForge
