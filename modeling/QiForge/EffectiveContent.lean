import QiForge.DoVfs

/-!
# The effective content of a file

The bytes of a chunk are its hot row pages over its mapped R2 slot over zeros;
a pending truncation blanks the chunks past it, and a dirty chunk lies over
the result.  `Coherent v ref` says that these layers together spell the flat
byte array `ref` and that the clean cache and the pins hold stored content only.
-/

namespace QiForge

open PageTier

def effective (rows : ℕ → Option MaskedChunk) (segments : SegmentMap)
    (bucket : Bucket) (chunkno : ℕ) : Bytes :=
  overRow (rows chunkno) (slotBytes segments bucket chunkno)

/-- Two buffers hold the same chunk. -/
def Agree (a b : Bytes) : Prop :=
  ∀ offset, offset < chunkSize → a offset = b offset

def chunkOf (bytes : Bytes) (chunkno : ℕ) : Bytes :=
  fun offset => bytes (chunkno * chunkSize + offset)

def MaskLe (a b : PageMask) : Prop :=
  ∀ offset, covers a offset = true → covers b offset = true

/-- The pages outside the mask are zeros. -/
def MaskedChunk.Blank (chunk : MaskedChunk) : Prop :=
  ∀ offset, offset < chunkSize → covers chunk.mask offset = false →
    chunk.data offset = 0

theorem Agree.refl (a : Bytes) : Agree a a := fun _ _ => rfl

theorem Agree.trans {a b c : Bytes} (hab : Agree a b) (hbc : Agree b c) :
    Agree a c := fun offset h => (hab offset h).trans (hbc offset h)

theorem Agree.symm {a b : Bytes} (h : Agree a b) : Agree b a :=
  fun offset hlt => (h offset hlt).symm

theorem MaskLe.refl (a : PageMask) : MaskLe a a := fun _ h => h

theorem MaskLe.fullMask (a : PageMask) : MaskLe a fullMask :=
  fun _ h => covers_fullMask (covers_lt_chunkSize h)

theorem MaskedChunk.blank_full (data : Bytes) :
    MaskedChunk.Blank ⟨data, fullMask⟩ := by
  intro offset hlt hcov
  rw [covers_fullMask hlt] at hcov
  exact absurd hcov Bool.noConfusion

theorem placeMasked_of_covers {dst src : Bytes} {mask : PageMask}
    {offset : ℕ} (h : covers mask offset = true) :
    placeMasked dst src mask offset = src offset := if_pos h

theorem placeMasked_of_not_covers {dst src : Bytes} {mask : PageMask}
    {offset : ℕ} (h : covers mask offset = false) :
    placeMasked dst src mask offset = dst offset := by
  simp [placeMasked, h]

theorem placeMasked_fullMask (dst src : Bytes) :
    Agree (placeMasked dst src fullMask) src :=
  fun _ hlt => placeMasked_of_covers (covers_fullMask hlt)

/-- A layer that claims at least the pages of the one below hides it. -/
theorem placeMasked_placeMasked {bottom middle top : Bytes}
    {low high : PageMask} (h : MaskLe low high) :
    placeMasked (placeMasked bottom middle low) top high =
      placeMasked bottom top high := by
  funext offset
  cases hhigh : covers high offset with
  | true => simp [placeMasked, hhigh]
  | false =>
      have hlow : covers low offset = false := by
        by_contra hne
        have hcov := h offset (by simpa using hne)
        rw [hhigh] at hcov
        exact Bool.noConfusion hcov
      simp [placeMasked, hhigh, hlow]

/-- The row is still there and claims no fewer pages. -/
def RowGrows (old new : Option MaskedChunk) : Prop :=
  ∀ row, old = some row → ∃ row', new = some row' ∧ MaskLe row.mask row'.mask

theorem RowGrows.refl (row : Option MaskedChunk) : RowGrows row row :=
  fun row h => ⟨row, h, MaskLe.refl row.mask⟩

theorem RowGrows.trans {a b c : Option MaskedChunk} (hab : RowGrows a b)
    (hbc : RowGrows b c) : RowGrows a c := by
  intro row h
  rcases hab row h with ⟨row', h', hle⟩
  rcases hbc row' h' with ⟨row'', h'', hle'⟩
  exact ⟨row'', h'', fun offset hcov => hle' offset (hle offset hcov)⟩

/-- A grown row hides the one it replaces. -/
theorem overRow_overRow {old new : Option MaskedChunk}
    (h : RowGrows old new) (below : Bytes) :
    overRow new (overRow old below) = overRow new below := by
  cases old with
  | none => rfl
  | some row =>
      rcases h row rfl with ⟨row', rfl, hle⟩
      exact placeMasked_placeMasked hle

theorem Agree.overRow {a b : Bytes} (h : Agree a b)
    (row : Option MaskedChunk) :
    Agree (overRow row a) (overRow row b) := by
  cases row with
  | none => exact h
  | some row =>
      intro offset hlt
      change placeMasked a row.data row.mask offset =
        placeMasked b row.data row.mask offset
      unfold placeMasked
      rw [h offset hlt]

variable {rows : ℕ → Option MaskedChunk} {segments : SegmentMap} {chunkno : ℕ}
  {bucket : Bucket}

theorem effective_of_none (h : rows chunkno = none) :
    effective rows segments bucket chunkno =
      slotBytes segments bucket chunkno := by
  simp [effective, overRow, h]

theorem effective_of_some {row : MaskedChunk} (h : rows chunkno = some row) :
    effective rows segments bucket chunkno =
      placeMasked (slotBytes segments bucket chunkno) row.data row.mask := by
  simp [effective, overRow, h]

/-- The effective content of a chunk is a matter of its row and its slot. -/
theorem effective_congr {rows other : ℕ → Option MaskedChunk}
    {segments otherSegments : SegmentMap} {bucket otherBucket : Bucket}
    (hrow : rows chunkno = other chunkno)
    (hslot : slotBytes segments bucket chunkno =
      slotBytes otherSegments otherBucket chunkno) :
    effective rows segments bucket chunkno =
      effective other otherSegments otherBucket chunkno := by
  unfold effective
  rw [hrow, hslot]

theorem effective_full {row : MaskedChunk} (h : rows chunkno = some row)
    (hfull : row.mask = fullMask) :
    Agree (effective rows segments bucket chunkno) row.data := by
  rw [effective_of_some h, hfull]
  exact placeMasked_fullMask _ _

/-- A blank row whose slot is gone spells exactly its own buffer. -/
theorem effective_unmapped
    {row : MaskedChunk} (h : rows chunkno = some row) (hblank : row.Blank)
    (hslot : slotInR2 segments chunkno = false) :
    Agree (effective rows segments bucket chunkno) row.data := by
  intro offset hlt
  rw [effective_of_some h, slotBytes_of_not_slotInR2 bucket hslot]
  cases hcov : covers row.mask offset with
  | true => exact placeMasked_of_covers hcov
  | false =>
      rw [placeMasked_of_not_covers hcov, hblank offset hlt hcov]
      rfl

namespace ChunkCache

variable {P : ℕ → Bytes → Prop} {cache : ChunkCache}

theorem get?_refresh (cache : ChunkCache) (chunkno other : ℕ) :
    (cache.refresh chunkno).entries.get? other = cache.entries.get? other := by
  unfold refresh
  cases hget : cache.entries.get? chunkno with
  | none => rfl
  | some chunk =>
      rw [OrderedMap.get?_push]
      by_cases hother : other = chunkno
      · rw [if_pos hother, hother, hget]
      · rw [if_neg hother]

theorem all_refresh (h : cache.entries.All P) (chunkno : ℕ) :
    (cache.refresh chunkno).entries.All P := by
  intro other chunk hget
  rw [get?_refresh] at hget
  exact h other chunk hget

theorem all_set {chunkno : ℕ} {chunk : Bytes}
    (h : cache.entries.All fun other bytes => other ≠ chunkno → P other bytes)
    (hchunk : P chunkno chunk) : (cache.set chunkno chunk).entries.All P :=
  (OrderedMap.All.push h hchunk).dropOldest _

theorem all_set_of_all {chunkno : ℕ} {chunk : Bytes}
    (h : cache.entries.All P) (hchunk : P chunkno chunk) :
    (cache.set chunkno chunk).entries.All P :=
  all_set (h.mono fun _ _ hP _ => hP) hchunk

end ChunkCache

namespace DoVfs

def stored (v : DoVfs) (chunkno : ℕ) : Bytes :=
  effective v.storage.rows v.tier.segments v.bucket chunkno

def cleanView (v : DoVfs) (chunkno : ℕ) : Bytes :=
  if v.pastTruncation chunkno then zeroBytes else v.stored chunkno

def view (v : DoVfs) (chunkno : ℕ) : Bytes :=
  match v.file.dirty.get? chunkno with
  | none => v.cleanView chunkno
  | some dirty => placeMasked (v.cleanView chunkno) dirty.data dirty.mask

/-- What the clean cache and the pins may hold for a chunk. -/
def Clean (v : DoVfs) (chunkno : ℕ) (bytes : Bytes) : Prop :=
  v.pastTruncation chunkno = false ∧ Agree bytes (v.stored chunkno)

def DirtyOk (v : DoVfs) (chunkno : ℕ) (dirty : MaskedChunk) : Prop :=
  dirty.Blank ∧ (v.pastTruncation chunkno = false → ∀ row,
      v.storage.rows chunkno = some row → MaskLe row.mask dirty.mask)

structure Coherent (v : DoVfs) (ref : Bytes) : Prop where
  view : ∀ chunkno, Agree (v.view chunkno) (chunkOf ref chunkno)
  cached : v.cache.entries.All v.Clean
  pins : v.pinned.All v.Clean
  rows : ∀ chunkno row, v.storage.rows chunkno = some row → row.Blank
  dirty : v.file.dirty.All v.DirtyOk

/-- The map in memory answers as the durable rows do. -/
def InSync (v : DoVfs) : Prop :=
  ∀ segno, v.storage.tier.segments.get? segno = v.tier.segments.get? segno

/-- The content a new process would find. -/
def durable (v : DoVfs) (chunkno : ℕ) : Bytes :=
  effective v.storage.rows v.storage.tier.segments v.bucket chunkno

/-- What a lookup finds for a chunk: a buffer that agrees with storage on the
pages it claims. -/
structure LocalImage (v : DoVfs) (chunkno : ℕ) (image : MaskedChunk) :
    Prop where
  kept : v.pastTruncation chunkno = false
  blank : image.Blank
  claims : ∀ row, v.storage.rows chunkno = some row →
    MaskLe row.mask image.mask
  agrees : ∀ offset, covers image.mask offset = true →
    image.data offset = v.stored chunkno offset

variable {v : DoVfs} {ref : Bytes} {chunkno : ℕ}

theorem cleanView_of_kept (h : v.pastTruncation chunkno = false) :
    v.cleanView chunkno = v.stored chunkno := by
  simp [cleanView, h]

theorem cleanView_of_past (h : v.pastTruncation chunkno = true) :
    v.cleanView chunkno = zeroBytes := by
  simp [cleanView, h]

theorem view_of_clean (h : v.file.dirty.get? chunkno = none) :
    v.view chunkno = v.cleanView chunkno := by
  simp [view, h]

theorem view_of_dirty {dirty : MaskedChunk}
    (h : v.file.dirty.get? chunkno = some dirty) :
    v.view chunkno =
      placeMasked (v.cleanView chunkno) dirty.data dirty.mask := by
  simp [view, h]

theorem Clean.localImage {bytes : Bytes} (h : v.Clean chunkno bytes) :
    v.LocalImage chunkno ⟨bytes, fullMask⟩ where
  kept := h.1
  blank := MaskedChunk.blank_full bytes
  claims := fun row _ => MaskLe.fullMask row.mask
  agrees := fun offset hcov => h.2 offset (covers_lt_chunkSize hcov)

/-- Laying the image over storage changes nothing. -/
theorem LocalImage.overlay {image : MaskedChunk}
    (h : v.LocalImage chunkno image) :
    placeMasked (v.stored chunkno) image.data image.mask =
      v.stored chunkno := by
  funext offset
  cases hcov : covers image.mask offset with
  | true => rw [placeMasked_of_covers hcov, h.agrees offset hcov]
  | false => rw [placeMasked_of_not_covers hcov]

theorem Coherent.withCache {cache : ChunkCache} (h : v.Coherent ref)
    (hcache : cache.entries.All v.Clean) :
    (v.withCache cache).Coherent ref :=
  { h with cached := hcache }

theorem Coherent.lookupLocal_some {v' : DoVfs} {image : MaskedChunk}
    (h : v.Coherent ref)
    (hlookup : v.lookupLocal chunkno = (some image, v')) :
    v.LocalImage chunkno image ∧
      ∃ cache, v' = v.withCache cache ∧ cache.entries.All v.Clean := by
  unfold lookupLocal at hlookup
  cases hpin : v.pinned.get? chunkno with
  | some pin =>
      simp only [hpin, Prod.mk.injEq, Option.some.injEq] at hlookup
      rcases hlookup with ⟨rfl, rfl⟩
      exact ⟨(h.pins chunkno pin hpin).localImage, v.cache, rfl, h.cached⟩
  | none =>
      cases hcached : v.cache.entries.get? chunkno with
      | some cached =>
          simp only [hpin, hcached, Prod.mk.injEq, Option.some.injEq]
            at hlookup
          rcases hlookup with ⟨rfl, rfl⟩
          exact ⟨(h.cached chunkno cached hcached).localImage, _, rfl,
            ChunkCache.all_refresh h.cached chunkno⟩
      | none =>
          cases hpast : v.pastTruncation chunkno with
          | true => simp [hpin, hcached, hpast] at hlookup
          | false =>
              cases hrow : v.storage.rows chunkno with
              | none => simp [hpin, hcached, hpast, hrow] at hlookup
              | some row =>
                  simp only [hpin, hcached, hpast, hrow, Bool.false_eq_true,
                    if_false, Prod.mk.injEq, Option.some.injEq] at hlookup
                  rcases hlookup with ⟨rfl, rfl⟩
                  have himage : v.LocalImage chunkno row := by
                    refine ⟨hpast, h.rows chunkno row hrow, ?_, ?_⟩
                    · intro other hother
                      rw [hrow, Option.some.injEq] at hother
                      exact hother ▸ MaskLe.refl row.mask
                    · intro offset hcov
                      rw [stored, effective_of_some hrow,
                        placeMasked_of_covers hcov]
                  refine ⟨himage, ?_⟩
                  by_cases hfull : row.mask = fullMask
                  · rw [if_pos hfull]
                    exact ⟨_, rfl, ChunkCache.all_set_of_all h.cached
                      ⟨hpast, (effective_full hrow hfull).symm⟩⟩
                  · rw [if_neg hfull]
                    exact ⟨v.cache, rfl, h.cached⟩

theorem lookupLocal_none {v' : DoVfs}
    (hlookup : v.lookupLocal chunkno = (none, v')) :
    v' = v ∧
      (v.pastTruncation chunkno = true ∨ v.storage.rows chunkno = none) := by
  unfold lookupLocal at hlookup
  cases hpin : v.pinned.get? chunkno with
  | some pin => simp [hpin] at hlookup
  | none =>
      cases hcached : v.cache.entries.get? chunkno with
      | some cached => simp [hpin, hcached] at hlookup
      | none =>
          cases hpast : v.pastTruncation chunkno with
          | true =>
              simp only [hpin, hcached, hpast, if_true, Prod.mk.injEq,
                true_and] at hlookup
              exact ⟨hlookup.symm, Or.inl rfl⟩
          | false =>
              cases hrow : v.storage.rows chunkno with
              | some row => simp [hpin, hcached, hpast, hrow] at hlookup
              | none =>
                  simp only [hpin, hcached, hpast, hrow, Bool.false_eq_true,
                    if_false, Prod.mk.injEq, true_and] at hlookup
                  exact ⟨hlookup.symm, Or.inr rfl⟩

/-- Replacing one dirty buffer changes the reference in that chunk only. -/
theorem Coherent.setDirty {ref' : Bytes} {chunk : MaskedChunk}
    (h : v.Coherent ref) (hok : v.DirtyOk chunkno chunk)
    (hview : Agree (placeMasked (v.cleanView chunkno) chunk.data chunk.mask)
      (chunkOf ref' chunkno))
    (hframe : ∀ other, other ≠ chunkno →
      Agree (chunkOf ref other) (chunkOf ref' other)) :
    (v.setDirty chunkno chunk).Coherent ref' where
  view := by
    intro other
    have hget : (v.setDirty chunkno chunk).file.dirty.get? other =
        if other = chunkno then some chunk
        else v.file.dirty.get? other :=
      OrderedMap.get?_set _ _ _ _
    by_cases hother : other = chunkno
    · subst hother
      rw [if_pos rfl] at hget
      rw [view_of_dirty hget]
      exact hview
    · rw [if_neg hother] at hget
      have hsame : (v.setDirty chunkno chunk).view other = v.view other := by
        unfold DoVfs.view
        rw [hget]
        rfl
      rw [hsame]
      exact (h.view other).trans (hframe other hother)
  cached := h.cached
  pins := h.pins
  rows := h.rows
  dirty := OrderedMap.All.set
    (P := v.DirtyOk) (fun other dirty hget _ => h.dirty other dirty hget) hok

theorem Coherent.setBase (h : v.Coherent ref) (chunkno : ℕ)
    (image : BaseImage) :
    (v.setBase chunkno image).Coherent ref :=
  { h with }

/-- The row of a chunk below every layer that hides it. -/
theorem stored_of_not_inR2 {row : MaskedChunk}
    (hrow : v.storage.rows chunkno = some row) (hblank : row.Blank)
    (hslot : v.inR2 chunkno = false) :
    Agree (v.stored chunkno) row.data :=
  effective_unmapped hrow hblank hslot

theorem InSync.durable_eq (h : v.InSync) (chunkno : ℕ) :
    v.durable chunkno = v.stored chunkno :=
  effective_congr rfl (slotBytes_congr v.bucket (h _))

theorem stored_sparse (hrow : v.storage.rows chunkno = none)
    (hslot : v.inR2 chunkno = false) : v.stored chunkno = zeroBytes := by
  rw [stored, effective_of_none hrow, slotBytes_of_not_slotInR2 v.bucket hslot]

end DoVfs
end QiForge
