import Mathlib.Tactic

/-!
# The storage grain

A file is cut into 4 KiB pages, sixteen pages make a stored chunk, and sixteen
chunks make a segment object.  A page mask names the pages of a chunk that
hold real bytes.  Buffers are functions of the offset; only offsets below the
buffer's length are ever read.
-/

namespace QiForge

abbrev Bytes := ℕ → UInt8

def zeroBytes : Bytes := fun _ => 0

abbrev PageMask := BitVec 16

def vfsPageSize : ℕ := 4096
def pagesPerChunk : ℕ := 16
def chunkSize : ℕ := vfsPageSize * pagesPerChunk
def segmentChunks : ℕ := 16
def segmentBytes : ℕ := segmentChunks * chunkSize

def fullMask : PageMask := BitVec.allOnes 16

def segmentOf (chunkno : ℕ) : ℕ := chunkno / segmentChunks

def slotOf (chunkno : ℕ) : ℕ := chunkno - segmentOf chunkno * segmentChunks

/-- Whether the mask claims the page the offset lies in. -/
def covers (mask : PageMask) (offset : ℕ) : Bool :=
  mask.getLsbD (offset / vfsPageSize)

/-- Set the bits of the pages `[first, last)`. -/
def markPages (mask : PageMask) (first last : ℕ) : PageMask :=
  (List.range' first (last - first)).foldl
    (fun mask page => mask ||| (1#16 <<< page)) mask

/-- Mask of the pages of a chunk that bytes `[start, start + length)` of it
touch. -/
def pagesOf (start length : ℕ) : PageMask :=
  markPages 0#16 (start / vfsPageSize)
    ((start + max 1 length - 1) / vfsPageSize + 1)

/-- Copy the pages of `mask` from `src` over `dst`. -/
def placeMasked (dst src : Bytes) (mask : PageMask) : Bytes :=
  fun offset => if covers mask offset then src offset else dst offset

def ceilDiv (a b : ℕ) : ℕ := (a + b - 1) / b

/-- First chunk fully past the page-count boundary `keepPages`. -/
def chunkFloor (keepPages : ℕ) : ℕ := ceilDiv keepPages pagesPerChunk

/-- Chunks a file of `size` bytes spans. -/
def chunksOf (size : ℕ) : ℕ := ceilDiv size chunkSize

theorem vfsPageSize_pos : 0 < vfsPageSize := by decide

theorem chunkSize_pos : 0 < chunkSize := by decide

variable {offset : ℕ}

theorem page_lt_pagesPerChunk (h : offset < chunkSize) :
    offset / vfsPageSize < pagesPerChunk :=
  Nat.div_lt_of_lt_mul h

@[simp] theorem covers_fullMask (h : offset < chunkSize) :
    covers fullMask offset = true := by
  have hpage : offset / vfsPageSize < 16 := page_lt_pagesPerChunk h
  rw [covers, fullMask, BitVec.getLsbD_allOnes]
  exact decide_eq_true hpage

@[simp] theorem covers_zero (offset : ℕ) : covers 0#16 offset = false := by
  simp [covers]

theorem covers_not (mask : PageMask) (h : offset < chunkSize) :
    covers (~~~mask) offset = !covers mask offset := by
  have hpage : offset / vfsPageSize < 16 := page_lt_pagesPerChunk h
  simp [covers, hpage]

theorem covers_lt_chunkSize {mask : PageMask}
    (h : covers mask offset = true) : offset < chunkSize := by
  unfold covers at h
  have hpage : offset / vfsPageSize < 16 := BitVec.lt_of_getLsbD h
  have hmul := (Nat.div_lt_iff_lt_mul vfsPageSize_pos).mp hpage
  simpa [chunkSize, pagesPerChunk, Nat.mul_comm] using hmul

theorem getLsbD_foldl_or (pages : List ℕ) (mask : PageMask) {page : ℕ}
    (hpage : page < 16) :
    (pages.foldl (fun mask page => mask ||| (1#16 <<< page)) mask).getLsbD
        page =
      (mask.getLsbD page || decide (page ∈ pages)) := by
  induction pages generalizing mask with
  | nil => simp
  | cons head rest ih =>
      rw [List.foldl_cons, ih]
      have hbit : (1#16 <<< head).getLsbD page = decide (page = head) := by
        by_cases h : page = head
        · subst h
          simp [hpage]
        · have hcases : page < head ∨ head < page := by omega
          rcases hcases with hlt | hlt
          · simp [hlt, h]
          · have hsub : page - head ≠ 0 := by omega
            simp [h, hpage, hsub]
      rw [BitVec.getLsbD_or, hbit]
      by_cases h : page = head <;> simp [h]

theorem covers_markPages (mask : PageMask) (first last : ℕ)
    (h : offset < chunkSize) :
    covers (markPages mask first last) offset = (covers mask offset ||
        decide (first ≤ offset / vfsPageSize ∧
          offset / vfsPageSize < last)) := by
  have hpage : offset / vfsPageSize < 16 := page_lt_pagesPerChunk h
  unfold covers markPages
  rw [getLsbD_foldl_or _ _ hpage]
  congr 1
  rw [decide_eq_decide, List.mem_range'_1]
  omega

theorem covers_pagesOf {start length offset : ℕ} (h : offset < chunkSize)
    (hstart : start ≤ offset) (hend : offset < start + length) :
    covers (pagesOf start length) offset = true := by
  unfold pagesOf
  rw [covers_markPages _ _ _ h]
  have hfirst : start / vfsPageSize ≤ offset / vfsPageSize :=
    Nat.div_le_div_right hstart
  have hmax : max 1 length = length := by omega
  have hlast :
      offset / vfsPageSize ≤ (start + max 1 length - 1) / vfsPageSize :=
    Nat.div_le_div_right (by omega)
  simp only [covers_zero, Bool.false_or, decide_eq_true_eq]
  exact ⟨hfirst, by omega⟩

/-- Whole pages: the mask of an aligned range claims exactly its bytes. -/
theorem covers_markPages_aligned {first last offset : ℕ} (mask : PageMask)
    (hfirst : first % vfsPageSize = 0) (hlast : last % vfsPageSize = 0)
    (h : offset < chunkSize) :
    covers (markPages mask (first / vfsPageSize) (last / vfsPageSize)) offset =
      (covers mask offset || decide (first ≤ offset ∧ offset < last)) := by
  rw [covers_markPages _ _ _ h]
  have hlower : first / vfsPageSize ≤ offset / vfsPageSize ↔
      first ≤ offset := by
    rw [Nat.le_div_iff_mul_le vfsPageSize_pos,
      Nat.div_mul_cancel (Nat.dvd_of_mod_eq_zero hfirst)]
  have hupper : offset / vfsPageSize < last / vfsPageSize ↔ offset < last := by
    rw [Nat.div_lt_iff_lt_mul vfsPageSize_pos,
      Nat.div_mul_cancel (Nat.dvd_of_mod_eq_zero hlast)]
  simp only [hlower, hupper]

theorem wanted_subset {wanted mask : PageMask} (h : wanted &&& ~~~mask = 0#16)
    (hwanted : covers wanted offset = true) :
    covers mask offset = true := by
  have hlt := covers_lt_chunkSize hwanted
  have hnot := covers_not mask hlt
  have hbit : covers (wanted &&& ~~~mask) offset = false := by
    rw [h]
    exact covers_zero offset
  have hand : covers (wanted &&& ~~~mask) offset =
      (covers wanted offset && covers (~~~mask) offset) := by
    simp [covers]
  rw [hand, hwanted, hnot] at hbit
  simpa using hbit

theorem chunkFloor_le_iff {keepPages chunkno : ℕ} :
    chunkFloor keepPages ≤ chunkno ↔ keepPages ≤ chunkno * pagesPerChunk := by
  unfold chunkFloor ceilDiv pagesPerChunk
  omega

end QiForge
