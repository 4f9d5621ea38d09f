import QiForge.DoVfsReads
import QiForge.DoVfsFlush

/-!
# Writes, truncations and resolves of a coherent file

A page-aligned write patches one dirty chunk a round and never throws, and a
page-aligned truncation blanks what lies past it; both keep the file coherent
with the flat reference changed the same way.  A resolve keeps it coherent as
long as it pins no chunk past a pending truncation.
-/

namespace QiForge

open PageTier

/-- Overwrite the bytes `[pos, pos + length)` of a flat file. -/
def overwrite (bytes : Bytes) (pos length : ℕ) (data : Bytes) : Bytes :=
  fun p => if pos ≤ p ∧ p < pos + length then data (p - pos) else bytes p

/-- Zero a flat file from `size` on. -/
def cutAt (bytes : Bytes) (size : ℕ) : Bytes :=
  fun p => if p < size then bytes p else 0

theorem chunkSize_eq : chunkSize = 65536 := rfl

theorem vfsPageSize_eq : vfsPageSize = 4096 := rfl

/-- The rounds of a page-aligned request are page-aligned. -/
theorem spansFrom_aligned {iOffset length : ℕ}
    (hoffset : iOffset % vfsPageSize = 0)
    (hlength : length % vfsPageSize = 0) (fuel done : ℕ)
    (hdone : done % vfsPageSize = 0) :
    ∀ span ∈ spansFrom iOffset length fuel done,
      span.inChunk % vfsPageSize = 0 ∧ span.n % vfsPageSize = 0 := by
  induction fuel generalizing done with
  | zero => exact fun span hmem => absurd hmem List.not_mem_nil
  | succ fuel ih =>
      intro span hmem
      rw [spansFrom] at hmem
      rw [vfsPageSize_eq] at *
      by_cases hlt : done < length
      · rw [if_pos hlt] at hmem
        simp only [chunkSize_eq] at hmem
        rcases List.mem_cons.mp hmem with rfl | hrest
        · dsimp only
          omega
        · exact ih _ (by omega) span hrest
      · rw [if_neg hlt] at hmem
        exact absurd hmem List.not_mem_nil

namespace DoVfs

variable {v : DoVfs} {ref : Bytes} {chunkno : ℕ}

theorem get?_setDirty (v : DoVfs) (chunkno other : ℕ) (chunk : MaskedChunk) :
    (v.setDirty chunkno chunk).file.dirty.get? other =
      if other = chunkno then some chunk else v.file.dirty.get? other :=
  OrderedMap.get?_set _ _ _ _

section Frames

/-- Nothing but the cache, the dirty buffers and their bases differs. -/
def WritesDiffer (v w : DoVfs) : Prop := ∃ cache dirty base, w = { v with
      cache := cache
      file := { v.file with dirty := dirty, base := base } }

theorem WritesDiffer.refl (v : DoVfs) : WritesDiffer v v :=
  ⟨v.cache, v.file.dirty, v.file.base, rfl⟩

theorem WritesDiffer.trans {u v w : DoVfs} (huv : WritesDiffer u v)
    (hvw : WritesDiffer v w) : WritesDiffer u w := by
  rcases huv with ⟨cache, dirty, base, rfl⟩
  rcases hvw with ⟨cache', dirty', base', rfl⟩
  exact ⟨cache', dirty', base', rfl⟩

theorem setDirty_writes (v : DoVfs) (chunkno : ℕ) (chunk : MaskedChunk) :
    WritesDiffer v (v.setDirty chunkno chunk) :=
  ⟨v.cache, _, v.file.base, rfl⟩

theorem dirtyChunk_writes (v : DoVfs) (chunkno : ℕ) :
    WritesDiffer v (v.dirtyChunk chunkno).2 := by
  rcases lookupLocal_cache v chunkno with ⟨cache, hcache⟩
  unfold dirtyChunk
  cases v.file.dirty.get? chunkno with
  | some chunk => exact WritesDiffer.refl v
  | none =>
      cases hlookup : v.lookupLocal chunkno with
      | mk found v' =>
          rw [hlookup] at hcache
          dsimp only at hcache
          subst hcache
          cases found with
          | some image => exact ⟨cache, _, _, rfl⟩
          | none => exact ⟨cache, _, _, rfl⟩

theorem writeSpan_writes (v : DoVfs) (pData : Bytes) (span : Span) :
    WritesDiffer v (v.writeSpan pData span).2 := by
  have htaken := dirtyChunk_writes v span.chunkno
  unfold writeSpan
  dsimp only
  split_ifs
  · exact htaken.trans (setDirty_writes _ _ _)
  · exact htaken.trans (setDirty_writes _ _ _)
  · exact htaken.trans (setDirty_writes _ _ _)

theorem writeSpans_writes (rounds : List Span) (pData : Bytes)
    (v : DoVfs) : WritesDiffer v (writeSpans rounds pData v).2 := by
  induction rounds generalizing v with
  | nil => exact WritesDiffer.refl v
  | cons span rest ih =>
      have hspan := writeSpan_writes v pData span
      rw [writeSpans]
      cases hwrite : v.writeSpan pData span with
      | mk completed v' =>
          rw [hwrite] at hspan
          cases completed with
          | true => exact hspan.trans (ih v')
          | false => exact hspan

theorem zeroTail_writes (v : DoVfs) (chunkno tail : ℕ) :
    WritesDiffer v (v.zeroTail chunkno tail).2 := by
  have htaken := dirtyChunk_writes v chunkno
  unfold zeroTail
  dsimp only
  split_ifs
  · exact htaken.trans (setDirty_writes _ _ _)
  · exact htaken.trans (setDirty_writes _ _ _)
  · exact htaken.trans (setDirty_writes _ _ _)

end Frames

/-- The buffer a writer gets is the dirty one, and taking it shows the same
file. -/
theorem Coherent.dirtyChunk (h : v.Coherent ref) (chunkno : ℕ) :
    (v.dirtyChunk chunkno).2.Coherent ref ∧
      (v.dirtyChunk chunkno).2.file.dirty.get? chunkno =
        some (v.dirtyChunk chunkno).1 := by
  unfold DoVfs.dirtyChunk
  cases hdirty : v.file.dirty.get? chunkno with
  | some chunk => exact ⟨h, hdirty⟩
  | none =>
      have hview := h.view chunkno
      rw [view_of_clean hdirty] at hview
      cases hlookup : v.lookupLocal chunkno with
      | mk found v' =>
          cases found with
          | some image =>
              rcases h.lookupLocal_some hlookup with
                ⟨himage, cache, rfl, hcache⟩
              have hbase := (h.withCache hcache).setBase chunkno (.chunk image)
              refine ⟨?_, by simp [get?_setDirty]⟩
              apply hbase.setDirty
              · exact ⟨himage.blank, fun _ => himage.claims⟩
              · have hclean : ((v.withCache cache).setBase chunkno
                    (.chunk image)).cleanView chunkno = v.stored chunkno :=
                  cleanView_of_kept himage.kept
                rw [hclean, himage.overlay, ← cleanView_of_kept himage.kept]
                exact hview
              · exact fun other _ => Agree.refl _
          | none =>
              rcases lookupLocal_none hlookup with ⟨rfl, hhidden⟩
              have hclaims : v'.pastTruncation chunkno = false → ∀ row,
                  v'.storage.rows chunkno = some row → False := by
                intro hkept row hrow
                rw [hkept, hrow] at hhidden
                simp at hhidden
              refine ⟨?_, by simp [get?_setDirty]⟩
              apply (h.setBase chunkno _).setDirty
              · refine ⟨fun _ _ _ => rfl, fun hkept row hrow => ?_⟩
                exact (hclaims hkept row hrow).elim
              · cases hslot : v'.inR2 chunkno with
                | true =>
                    intro offset hlt
                    exact (placeMasked_of_not_covers
                      (covers_zero offset)).trans (hview offset hlt)
                | false =>
                    have hzero : v'.cleanView chunkno = zeroBytes := by
                      cases hpast : v'.pastTruncation chunkno with
                      | true => exact cleanView_of_past hpast
                      | false =>
                          rw [hpast] at hhidden
                          rw [cleanView_of_kept hpast]
                          exact stored_sparse
                            (hhidden.resolve_left Bool.false_ne_true) hslot
                    rw [hzero] at hview
                    exact (placeMasked_fullMask _ _).trans hview
              · exact fun other _ => Agree.refl _

/-- Patch the bytes `[a, b)` of a dirty chunk and claim them in its mask. -/
theorem Coherent.patchDirty {ref' data : Bytes} {mask : PageMask}
    {chunk : MaskedChunk} {a b : ℕ} (h : v.Coherent ref) (src : Bytes)
    (hdirty : v.file.dirty.get? chunkno = some chunk)
    (hmask : ∀ offset, offset < chunkSize → covers mask offset =
        (covers chunk.mask offset || decide (a ≤ offset ∧ offset < b)))
    (hdata : ∀ offset, offset < chunkSize → data offset =
        if a ≤ offset ∧ offset < b then src offset else chunk.data offset)
    (href : ∀ offset, offset < chunkSize → chunkOf ref' chunkno offset =
        if a ≤ offset ∧ offset < b then src offset
        else chunkOf ref chunkno offset)
    (hframe : ∀ other, other ≠ chunkno →
      Agree (chunkOf ref other) (chunkOf ref' other)) :
    (v.setDirty chunkno ⟨data, mask⟩).Coherent ref' := by
  have hok := h.dirty chunkno chunk hdirty
  have hview := h.view chunkno
  rw [view_of_dirty hdirty] at hview
  apply h.setDirty
  · refine ⟨?_, ?_⟩
    · intro offset hlt hcov
      rw [hmask offset hlt, Bool.or_eq_false_iff, decide_eq_false_iff_not]
        at hcov
      change data offset = 0
      rw [hdata offset hlt, if_neg hcov.2]
      exact hok.1 offset hlt hcov.1
    · intro hkept row hrow offset hcov
      change covers mask offset = true
      rw [hmask offset (covers_lt_chunkSize hcov),
        hok.2 hkept row hrow offset hcov, Bool.true_or]
  · intro offset hlt
    have hold := hview offset hlt
    dsimp only
    rw [href offset hlt]
    by_cases hin : a ≤ offset ∧ offset < b
    · have hcov : covers mask offset = true := by
        simp [hmask offset hlt, hin]
      rw [placeMasked_of_covers hcov, hdata offset hlt, if_pos hin, if_pos hin]
    · rw [if_neg hin, ← hold]
      have hsame : covers mask offset = covers chunk.mask offset := by
        simp [hmask offset hlt, hin]
      unfold placeMasked
      rw [hsame, hdata offset hlt, if_neg hin]
  · exact hframe

/-- Which pages are claimed once `[a, b)` of the chunk is filled. -/
theorem covers_claimed {mask : PageMask} {a b offset : ℕ}
    (ha : a % vfsPageSize = 0) (hb : b % vfsPageSize = 0)
    (hlt : offset < chunkSize) :
    covers (markPages mask (a / vfsPageSize) (b / vfsPageSize)) offset =
      (covers mask offset || decide (a ≤ offset ∧ offset < b)) :=
  covers_markPages_aligned mask ha hb hlt

/-- The bytes a round of the write loop has to move. -/
theorem chunkOf_overwrite {iOffset done pos n : ℕ} {inChunk : ℕ} {data : Bytes}
    (hpos : chunkno * chunkSize + inChunk = iOffset + done)
    (hstart : pos = iOffset + done) (offset : ℕ) :
    chunkOf (overwrite ref pos n fun p => data (done + p)) chunkno offset =
      if inChunk ≤ offset ∧ offset < inChunk + n then
        data (done + (offset - inChunk))
      else chunkOf ref chunkno offset := by
  unfold chunkOf overwrite
  by_cases hin : inChunk ≤ offset ∧ offset < inChunk + n
  · rw [if_pos hin, if_pos (by omega)]
    congr 1
    omega
  · rw [if_neg hin, if_neg (by omega)]

/-- Bytes that lie inside one chunk leave the other chunks alone. -/
theorem chunkOf_overwrite_of_ne {other pos n inChunk : ℕ} {data : Bytes}
    (hpos : chunkno * chunkSize + inChunk = pos)
    (hfits : inChunk + n ≤ chunkSize) (hne : other ≠ chunkno) :
    Agree (chunkOf ref other) (chunkOf (overwrite ref pos n data) other) := by
  intro offset hlt
  unfold chunkOf overwrite
  rw [if_neg]
  rw [chunkSize_eq] at *
  omega

theorem Coherent.writeSpan {iOffset done : ℕ} {span : Span}
    (h : v.Coherent ref) (pData : Bytes) (hdone : span.done = done)
    (hpos : span.chunkno * chunkSize + span.inChunk = iOffset + done)
    (hfits : span.inChunk + span.n ≤ chunkSize)
    (hstart : span.inChunk % vfsPageSize = 0)
    (hn : span.n % vfsPageSize = 0) :
    (v.writeSpan pData span).1 = true ∧ (v.writeSpan pData span).2.Coherent
        (overwrite ref (iOffset + done) span.n
          fun p => pData (done + p)) := by
  rcases h.dirtyChunk span.chunkno with ⟨hcoherent, hget⟩
  unfold DoVfs.writeSpan
  cases hchunk : v.dirtyChunk span.chunkno with
  | mk chunk v' =>
      rw [hchunk] at hcoherent hget
      dsimp only at hcoherent hget ⊢
      have hdata : ∀ offset, offset < chunkSize →
          Span.splice span chunk.data pData offset =
            if span.inChunk ≤ offset ∧ offset < span.inChunk + span.n then
              pData (done + (offset - span.inChunk))
            else chunk.data offset := by
        intro offset _
        unfold Span.splice
        rw [hdone]
      have hpatch : ∀ mask : PageMask, (∀ offset, offset < chunkSize →
            covers mask offset = (covers chunk.mask offset ||
                decide (span.inChunk ≤ offset ∧
                  offset < span.inChunk + span.n))) →
          (v'.setDirty span.chunkno
            ⟨Span.splice span chunk.data pData, mask⟩).Coherent
              (overwrite ref (iOffset + done) span.n
                fun p => pData (done + p)) := by
        intro mask hmask
        exact hcoherent.patchDirty _ hget hmask hdata
          (fun offset _ => chunkOf_overwrite hpos rfl offset)
          (fun other hne => chunkOf_overwrite_of_ne hpos hfits hne)
      by_cases hfull : chunk.mask = fullMask
      · rw [if_pos hfull]
        refine ⟨rfl, hpatch fullMask ?_⟩
        intro offset hlt
        rw [hfull, covers_fullMask hlt, Bool.true_or]
      · have hend : (span.inChunk + span.n) % vfsPageSize = 0 := by
          rw [vfsPageSize_eq] at *
          omega
        rw [if_neg hfull, if_neg (by simp [hstart, hn])]
        exact ⟨rfl,
          hpatch _ (fun offset hlt => covers_claimed hstart hend hlt)⟩

theorem overwrite_overwrite {iOffset done n length : ℕ} {data : Bytes}
    (hbound : done + n ≤ length) :
    overwrite (overwrite ref (iOffset + done) n fun p => data (done + p))
        (iOffset + (done + n)) (length - (done + n))
        (fun p => data (done + n + p)) =
      overwrite ref (iOffset + done) (length - done)
        fun p => data (done + p) := by
  funext p
  unfold overwrite
  by_cases hlater : iOffset + (done + n) ≤ p ∧
      p < iOffset + (done + n) + (length - (done + n))
  · rw [if_pos hlater, if_pos (by omega)]
    beta_reduce
    congr 1
    omega
  · rw [if_neg hlater]
    by_cases hfirst : iOffset + done ≤ p ∧ p < iOffset + done + n
    · rw [if_pos hfirst, if_pos (by omega)]
    · rw [if_neg hfirst, if_neg (by omega)]

theorem Coherent.writeSpans {iOffset length done : ℕ} {rounds : List Span}
    (htiles : Tiles iOffset length done rounds)
    (haligned : ∀ span ∈ rounds,
      span.inChunk % vfsPageSize = 0 ∧ span.n % vfsPageSize = 0)
    (h : v.Coherent ref) (pData : Bytes) :
    (writeSpans rounds pData v).1 = true ∧
      (writeSpans rounds pData v).2.Coherent
        (overwrite ref (iOffset + done) (length - done)
          fun p => pData (done + p)) := by
  induction htiles generalizing v ref with
  | @nil done hend =>
      have hnone : overwrite ref (iOffset + done) (length - done)
          (fun p => pData (done + p)) = ref := by
        funext p
        unfold overwrite
        rw [if_neg (by omega)]
      rw [hnone]
      exact ⟨rfl, h⟩
  | @cons done span rest hdone hpos hfits hbound hrest ih =>
      rcases haligned span List.mem_cons_self with ⟨hstart, hn⟩
      have hspan := h.writeSpan pData hdone hpos hfits hstart hn
      rw [DoVfs.writeSpans]
      cases hwrite : v.writeSpan pData span with
      | mk completed v' =>
          rw [hwrite] at hspan
          rcases hspan with ⟨rfl, hcoherent⟩
          have hlater := ih
            (fun other hmem => haligned other (List.mem_cons_of_mem _ hmem))
            hcoherent
          rw [overwrite_overwrite hbound] at hlater
          exact hlater

theorem Coherent.growTo (h : v.Coherent ref) (bound : ℕ) :
    (v.growTo bound).Coherent ref := by
  unfold DoVfs.growTo
  split_ifs
  · exact { h with }
  · exact h

theorem growTo_size (v : DoVfs) (bound : ℕ) :
    (v.growTo bound).file.size = v.file.size ⊔ bound := by
  unfold growTo
  split_ifs with hlt
  · exact (max_eq_right hlt.le).symm
  · exact (max_eq_left (Nat.not_lt.mp hlt)).symm

theorem pastTruncation_noteTruncation {keepChunks keepPages : ℕ}
    (v : DoVfs) (hchunks : keepChunks = chunkFloor keepPages)
    (iSize chunkno : ℕ) :
    ((v.dropPast keepChunks).noteTruncation keepPages iSize).pastTruncation
        chunkno =
      (v.pastTruncation chunkno || decide (keepChunks ≤ chunkno)) := by
  have hfloor : chunkFloor keepPages ≤ chunkno ↔
      keepPages ≤ chunkno * pagesPerChunk := chunkFloor_le_iff
  rw [← hchunks] at hfloor
  simp only [pastTruncation, noteTruncation, dropPast, modifyFile]
  cases v.file.truncateToPages with
  | none => simp [hfloor]
  | some pending =>
      simp only [hfloor]
      rw [← Bool.decide_or, decide_eq_decide]
      omega

theorem get?_dropPast_dirty (v : DoVfs) (keepChunks keepPages iSize
    chunkno : ℕ) :
    ((v.dropPast keepChunks).noteTruncation keepPages
        iSize).file.dirty.get? chunkno =
      if chunkno < keepChunks then v.file.dirty.get? chunkno else none := by
  have hget : ((v.dropPast keepChunks).noteTruncation keepPages
      iSize).file.dirty.get? chunkno =
      (v.file.dirty.get? chunkno).filter fun _ =>
        decide (chunkno < keepChunks) :=
    OrderedMap.get?_filter _ _ _
  rw [hget]
  cases v.file.dirty.get? chunkno with
  | none => simp
  | some dirty => by_cases hlt : chunkno < keepChunks <;> simp [hlt]

theorem Coherent.dropPast {keepChunks keepPages : ℕ}
    (h : v.Coherent ref) (iSize : ℕ) (hchunks : keepChunks = chunkFloor keepPages) :
    ((v.dropPast keepChunks).noteTruncation keepPages iSize).Coherent
      (cutAt ref (keepChunks * chunkSize)) := by
  have hpast := pastTruncation_noteTruncation v hchunks iSize
  have hkeep : ∀ chunkno, chunkno < keepChunks →
      ((v.dropPast keepChunks).noteTruncation keepPages
        iSize).pastTruncation chunkno = v.pastTruncation chunkno := by
    intro chunkno hlt
    simp [hpast, Nat.not_le.mpr hlt]
  have hclean : ∀ chunkno bytes, v.Clean chunkno bytes → chunkno < keepChunks →
      ((v.dropPast keepChunks).noteTruncation keepPages iSize).Clean
        chunkno bytes := by
    intro chunkno bytes hc hlt
    exact ⟨(hkeep chunkno hlt).trans hc.1, hc.2⟩
  refine ⟨?_, ?_, ?_, h.rows, ?_⟩
  · intro chunkno
    have hget := get?_dropPast_dirty v keepChunks keepPages iSize chunkno
    by_cases hlt : chunkno < keepChunks
    · have hsame : ((v.dropPast keepChunks).noteTruncation keepPages
          iSize).view chunkno = v.view chunkno := by
        unfold DoVfs.view DoVfs.cleanView
        rw [hget, if_pos hlt, hkeep chunkno hlt]
        rfl
      rw [hsame]
      intro offset hoffset
      rw [h.view chunkno offset hoffset]
      unfold chunkOf cutAt
      rw [if_pos]
      rw [chunkSize_eq] at *
      omega
    · have hnone : ((v.dropPast keepChunks).noteTruncation keepPages
          iSize).file.dirty.get? chunkno = none := hget.trans (if_neg hlt)
      have hhidden : ((v.dropPast keepChunks).noteTruncation keepPages
          iSize).pastTruncation chunkno = true := by
        simp [hpast, Nat.not_lt.mp hlt]
      rw [view_of_clean hnone, cleanView_of_past hhidden]
      intro offset hoffset
      unfold chunkOf cutAt
      rw [if_neg]
      · rfl
      · rw [chunkSize_eq] at *
        omega
  · exact OrderedMap.All.filter fun chunkno bytes hget hlt =>
      hclean chunkno bytes (h.cached chunkno bytes hget)
        (of_decide_eq_true hlt)
  · exact OrderedMap.All.filter fun chunkno bytes hget hlt =>
      hclean chunkno bytes (h.pins chunkno bytes hget) (of_decide_eq_true hlt)
  · apply OrderedMap.All.filter
    intro chunkno dirty hget hlt
    have hok := h.dirty chunkno dirty hget
    refine ⟨hok.1, ?_⟩
    intro hkept row hrow
    rw [hkeep chunkno (of_decide_eq_true hlt)] at hkept
    exact hok.2 hkept row hrow

theorem Coherent.zeroTail {tail : ℕ} (h : v.Coherent ref) (chunkno : ℕ)
    (htail : tail % vfsPageSize = 0)
    (hafter : ∀ p, (chunkno + 1) * chunkSize ≤ p → ref p = 0) :
    (v.zeroTail chunkno tail).1 = true ∧ (v.zeroTail chunkno tail).2.Coherent
        (cutAt ref (chunkno * chunkSize + tail)) := by
  rcases h.dirtyChunk chunkno with ⟨hcoherent, hget⟩
  unfold DoVfs.zeroTail
  cases hchunk : v.dirtyChunk chunkno with
  | mk chunk v' =>
      rw [hchunk] at hcoherent hget
      dsimp only at hcoherent hget ⊢
      have hpatch : ∀ mask : PageMask, (∀ offset, offset < chunkSize →
            covers mask offset = (covers chunk.mask offset ||
                decide (tail ≤ offset ∧ offset < chunkSize))) →
          (v'.setDirty chunkno
            ⟨fun p => if tail ≤ p then 0 else chunk.data p, mask⟩).Coherent
              (cutAt ref (chunkno * chunkSize + tail)) := by
        intro mask hmask
        apply hcoherent.patchDirty zeroBytes hget hmask
        · intro offset hlt
          by_cases hin : tail ≤ offset
          · rw [if_pos hin, if_pos ⟨hin, hlt⟩]
            rfl
          · rw [if_neg hin, if_neg (fun hboth => hin hboth.1)]
        · intro offset hlt
          unfold chunkOf cutAt
          by_cases hin : tail ≤ offset
          · rw [if_neg (by omega), if_pos ⟨hin, hlt⟩]
            rfl
          · rw [if_pos (by omega), if_neg (fun hboth => hin hboth.1)]
        · intro other hne offset hlt
          unfold chunkOf cutAt
          by_cases hbelow : other < chunkno
          · rw [if_pos]
            rw [chunkSize_eq] at *
            omega
          · rw [hafter]
            · simp
            · rw [chunkSize_eq] at *
              omega
      by_cases hfull : chunk.mask = fullMask
      · rw [if_pos hfull]
        refine ⟨rfl, hpatch fullMask ?_⟩
        intro offset hlt
        rw [hfull, covers_fullMask hlt, Bool.true_or]
      · have hpages : pagesPerChunk = chunkSize / vfsPageSize := rfl
        rw [if_neg hfull, if_neg (by simp [htail]), hpages]
        exact ⟨rfl, hpatch _ (fun offset hlt =>
            covers_claimed htail (by decide) hlt)⟩

end DoVfs
end QiForge
