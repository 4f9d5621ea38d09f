import QiForge.StreamImport
import QiForge.DoVfsFlush

/-!
# Staging a stream

What the reading loop of a streamed import holds after any bytes, in closed
form: the rows of the complete chunks, in batches, and the bytes of the chunk
still open.  It does not depend on where the stream was cut.  The header is
looked at with the first complete chunk, or with the last one.
-/

namespace QiForge
namespace StreamImport

open PageTier

/-! ## The header of the whole and of the first chunk -/

theorem hundred_le_chunkSize : 100 ≤ chunkSize := by decide

variable {n : ℕ}

theorem startsWith_take (hn : 16 ≤ n) (bytes : List UInt8) :
    startsWith (bytes.take n) = startsWith bytes := by
  rw [startsWith, startsWith, Bool.eq_iff_iff,
    List.isPrefixOf_iff_prefix, List.isPrefixOf_iff_prefix,
    List.prefix_take_iff]
  have hlength : sqliteHeaderMagic.length ≤ n := hn
  simp [hlength]

theorem walFlagged_take (hn : 20 ≤ n) (bytes : List UInt8) :
    walFlagged (bytes.take n) = walFlagged bytes := by
  have h18 : 18 < n := by omega
  have h19 : 19 < n := by omega
  simp [walFlagged, h18, h19]

theorem rollbackMode_take (n : ℕ) (bytes : List UInt8) :
    rollbackMode (bytes.take n) = (rollbackMode bytes).take n := by
  simp [rollbackMode, List.take_set]

theorem rollbackMode_drop (hn : 20 ≤ n) (bytes : List UInt8) :
    (rollbackMode bytes).drop n = bytes.drop n := by
  rw [rollbackMode, List.drop_set_of_lt (by omega),
    List.drop_set_of_lt (by omega)]

/-- The header that both imports refuse. -/
def rejects (bytes : List UInt8) : Bool :=
  100 ≤ bytes.length && !startsWith bytes

theorem rejects_take (hn : 100 ≤ n) (bytes : List UInt8) :
    rejects (bytes.take n) = rejects bytes := by
  rw [rejects, startsWith_take (by omega), rejects, List.length_take]
  simp [hn]

theorem rejects_append {bytes : List UInt8} (hlong : 100 ≤ bytes.length)
    (more : List UInt8) :
    rejects (bytes ++ more) = rejects bytes := by
  rw [← rejects_take hlong (bytes ++ more), List.take_left' rfl]

theorem normalizeJournalModeHeader_take (hn : 100 ≤ n) (bytes : List UInt8) :
    normalizeJournalModeHeader (bytes.take n) =
      (normalizeJournalModeHeader bytes).take n := by
  have hshort :
      decide ((bytes.take n).length < 100) =
        decide (bytes.length < 100) := by
    rw [List.length_take]
    simp only [decide_eq_decide]
    omega
  rw [normalizeJournalModeHeader, normalizeJournalModeHeader, hshort,
    startsWith_take (by omega), walFlagged_take (by omega)]
  split_ifs
  · rfl
  · exact rollbackMode_take n bytes
  · rfl

theorem normalizeJournalModeHeader_drop (hn : 20 ≤ n) (bytes : List UInt8) :
    (normalizeJournalModeHeader bytes).drop n = bytes.drop n := by
  rw [normalizeJournalModeHeader]
  split_ifs
  · rfl
  · exact rollbackMode_drop hn bytes
  · rfl

@[simp] theorem length_normalizeJournalModeHeader (bytes : List UInt8) :
    (normalizeJournalModeHeader bytes).length = bytes.length := by
  rw [normalizeJournalModeHeader]
  split_ifs <;> simp [rollbackMode]

/-- The check of the stream accepts what the whole-file import accepts, and
normalises the same way. -/
theorem checkHeader_false (chunk : List UInt8) : Vfs.checkHeader false chunk =
      if rejects chunk then .error Vfs.badHeader
      else .ok (normalizeJournalModeHeader chunk) := by
  rw [Vfs.checkHeader, rejects, normalizeJournalModeHeader]
  by_cases hlong : 100 ≤ chunk.length
  · cases hmagic : startsWith chunk with
    | false => simp [hlong]
    | true =>
        have hnot : ¬chunk.length < 100 := Nat.not_lt.mpr hlong
        cases hwal : walFlagged chunk with
        | false => simp [hlong]
        | true => simp [hlong, hnot]
  · have hshort : chunk.length < 100 := Nat.not_le.mp hlong
    simp [hlong, hshort]

/-! ## The rows of a file's bytes -/

namespace Vfs

/-- The row an import of `bytes` leaves for a chunk. -/
def rowOf (bytes : List UInt8) (chunkno : ℕ) : MaskedChunk := fullRow
    (if chunkno = 0 then
      normalizeJournalModeHeader (bytes.take chunkSize)
    else cut bytes chunkno)

theorem fullRow_cut_normalize (bytes : List UInt8) (chunkno : ℕ) :
    fullRow (cut (normalizeJournalModeHeader bytes) chunkno) =
      rowOf bytes chunkno := by
  cases chunkno with
  | zero =>
      rw [rowOf, if_pos rfl, cut, Nat.zero_mul, List.drop_zero,
        normalizeJournalModeHeader_take hundred_le_chunkSize]
  | succ chunkno =>
      have hpast : 20 ≤ (chunkno + 1) * chunkSize :=
        le_trans (by decide : 20 ≤ chunkSize)
          (Nat.le_mul_of_pos_left _ (Nat.succ_pos _))
      rw [rowOf, if_neg (Nat.succ_ne_zero _), cut,
        normalizeJournalModeHeader_drop hpast, cut]

/-- Complete chunks among the bytes read. -/
def chunksRead (bytes : List UInt8) : ℕ := bytes.length / chunkSize

theorem chunksRead_mul_le (bytes : List UInt8) :
    chunksRead bytes * chunkSize ≤ bytes.length :=
  Nat.div_mul_le_self _ _

theorem length_lt_chunksRead (bytes : List UInt8) :
    bytes.length < (chunksRead bytes + 1) * chunkSize := by
  have hlt := Nat.lt_div_mul_add (a := bytes.length) chunkSize_pos
  rw [Nat.add_mul, Nat.one_mul]
  exact hlt

/-- Bytes that arrive later do not change the row of a complete chunk. -/
theorem rowOf_append {bytes : List UInt8} {chunkno : ℕ}
    (hread : chunkno < chunksRead bytes) (more : List UInt8) :
    rowOf (bytes ++ more) chunkno = rowOf bytes chunkno := by
  have hlong : (chunkno + 1) * chunkSize ≤ bytes.length :=
    le_trans (Nat.mul_le_mul_right _ hread) (chunksRead_mul_le bytes)
  rw [Nat.add_mul, Nat.one_mul] at hlong
  rw [rowOf, rowOf]
  congr 1
  split_ifs with hzero
  · rw [List.take_append_of_le_length (by omega)]
  · rw [cut, cut, List.drop_append_of_le_length (by omega),
      List.take_append_of_le_length (by rw [List.length_drop]; omega)]

theorem rowsRange_append {bytes : List UInt8} {first count : ℕ}
    (hread : first + count ≤ chunksRead bytes) (more : List UInt8) :
    ((List.range' first count).map fun i =>
        (i, rowOf (bytes ++ more) i)) =
      (List.range' first count).map fun i => (i, rowOf bytes i) := by
  apply List.map_congr_left
  intro i hi
  have hlt := (List.mem_range'_1.mp hi).2
  rw [rowOf_append (by omega)]

theorem upsertChunks_range (rows : ℕ → Option MaskedChunk)
    (row : ℕ → MaskedChunk) (first count : ℕ) :
    DoVfs.upsertChunks rows
        ((List.range' first count).map fun i => (i, row i)) =
      fun i =>
        if first ≤ i ∧ i < first + count then some (row i) else rows i := by
  have hkeys :
      ((List.range' first count).map fun i => (i, row i)).map Prod.fst =
        List.range' first count := by
    simp [Function.comp_def]
  funext i
  split_ifs with hin
  · apply upsertChunks_of_mem
    · rw [hkeys]
      exact List.nodup_range'
    · exact List.mem_map.mpr ⟨i, List.mem_range'_1.mpr hin, rfl⟩
  · apply upsertChunks_of_not_mem
    rw [hkeys]
    exact fun hmem => hin (List.mem_range'_1.mp hmem)

/-! ## The loop in closed form -/

/-- The staging file holds the rows of the first `count` chunks. -/
def stage (v : Vfs) (staging : String) (bytes : List UInt8) (count : ℕ) :
    Vfs :=
  { v with
    chunks := Function.update v.chunks staging fun i =>
      if i < count then some (rowOf bytes i) else none }

/-- Chunks of the full batches among the bytes read. -/
def chunksStored (bytes : List UInt8) : ℕ :=
  chunksRead bytes / flushBatchRows * flushBatchRows

theorem chunksStored_le (bytes : List UInt8) :
    chunksStored bytes ≤ chunksRead bytes :=
  Nat.div_mul_le_self _ _

theorem chunksRead_lt_chunksStored (bytes : List UInt8) :
    chunksRead bytes < chunksStored bytes + flushBatchRows :=
  Nat.lt_div_mul_add (by decide)

theorem stage_upsert (v : Vfs) (staging : String) (bytes : List UInt8)
    {first count : ℕ} :
    (v.stage staging bytes first).upsert staging
        ((List.range' first count).map fun i => (i, rowOf bytes i)) =
      v.stage staging bytes (first + count) := by
  simp only [upsert, stage, Function.update_self, Function.update_idem,
    upsertChunks_range]
  congr 1
  congr 1
  funext i
  by_cases hfirst : first ≤ i
  · have hnot : ¬i < first := Nat.not_lt.mpr hfirst
    simp [hfirst, hnot]
  · have hlt : i < first := Nat.not_le.mp hfirst
    have hmore : i < first + count := by omega
    simp [hfirst, hlt, hmore]

/-- The same rows staged for more bytes. -/
theorem stage_append (v : Vfs) (staging : String) {bytes : List UInt8}
    {count : ℕ} (hread : count ≤ chunksRead bytes) (more : List UInt8) :
    v.stage staging (bytes ++ more) count = v.stage staging bytes count := by
  rw [stage, stage]
  congr 1
  congr 1
  funext i
  split_ifs with hlt
  · rw [rowOf_append (by omega)]
  · rfl

theorem stage_zero (v : Vfs) (staging : String) (bytes : List UInt8)
    (hclear : v.chunks staging = fun _ => none) :
    v.stage staging bytes 0 = v := by
  have hsame : Function.update v.chunks staging
      (fun i => if i < 0 then some (rowOf bytes i) else none) =
      v.chunks := by
    simp [← hclear]
  rw [stage, hsame]

namespace Import

/-- The loop's variables once `bytes` were read. -/
def readTo (v : Vfs) (staging : String) (bytes : List UInt8) : Import where
  vfs := v.stage staging bytes (chunksStored bytes)
  pending := bytes.drop (chunksRead bytes * chunkSize)
  fits := by
    have hlt := length_lt_chunksRead bytes
    have hpos := chunkSize_pos
    rw [Nat.add_mul, Nat.one_mul] at hlt
    rw [List.length_drop]
    omega
  chunkno := chunksRead bytes
  total := bytes.length
  headerChecked := decide (chunksRead bytes ≠ 0)
  rows := (List.range' (chunksStored bytes)
      (chunksRead bytes - chunksStored bytes)).map
        fun i => (i, rowOf bytes i)

variable {v : Vfs} {staging : String} {bytes value : List UInt8}

theorem start_eq_readTo (hclear : v.chunks staging = fun _ => none) :
    start v = readTo v staging [] := by
  have hstage := stage_zero v staging [] hclear
  simp [start, readTo, chunksRead, chunksStored, hstage]

theorem length_pending : (readTo v staging bytes).pending.length =
      bytes.length - chunksRead bytes * chunkSize := by
  rw [readTo, List.length_drop]

/-! ## One value of the stream -/

theorem chunksRead_of_between {k : ℕ} (hlow : k * chunkSize ≤ bytes.length)
    (hhigh : bytes.length < (k + 1) * chunkSize) :
    chunksRead bytes = k :=
  Nat.div_eq_of_lt_le hlow hhigh

theorem filled_eq : (readTo v staging bytes).filled value =
      (bytes ++ value.take ((readTo v staging bytes).room value)).drop
        (chunksRead bytes * chunkSize) := by
  rw [filled, List.drop_append_of_le_length (chunksRead_mul_le bytes)]
  rfl

/-- The bytes that complete a chunk. -/
theorem length_of_full (hfull :
      ((readTo v staging bytes).filled value).length = chunkSize) :
    (bytes ++ value.take ((readTo v staging bytes).room value)).length =
      (chunksRead bytes + 1) * chunkSize := by
  have hle := chunksRead_mul_le bytes
  rw [filled_eq, List.length_drop, List.length_append] at hfull
  rw [List.length_append, Nat.add_mul, Nat.one_mul]
  have hpos := chunkSize_pos
  omega

theorem chunksRead_of_full {more : List UInt8}
    (hlength : (bytes ++ more).length = (chunksRead bytes + 1) * chunkSize) :
    chunksRead (bytes ++ more) = chunksRead bytes + 1 := by
  rw [chunksRead, hlength]
  exact Nat.mul_div_cancel _ chunkSize_pos

/-- The row of the chunk that just became complete. -/
theorem rowOf_last {more : List UInt8} (hlength : (bytes ++ more).length =
      (chunksRead bytes + 1) * chunkSize) :
    rowOf (bytes ++ more) (chunksRead bytes) = fullRow
        (if chunksRead bytes = 0 then
          normalizeJournalModeHeader (bytes ++ more)
        else (bytes ++ more).drop (chunksRead bytes * chunkSize)) := by
  rw [rowOf]
  congr 1
  split_ifs with hzero
  · rw [hzero, Nat.zero_add, Nat.one_mul] at hlength
    rw [List.take_of_length_le hlength.le]
  · rw [cut, List.take_of_length_le]
    rw [List.length_drop, hlength, Nat.add_mul, Nat.one_mul]
    omega

/-- A complete chunk joins the rows, and a complete batch is stored. -/
theorem flushBatch_pushed {more : List UInt8} {row : MaskedChunk}
    {pushed : Import}
    (hlength : (bytes ++ more).length = (chunksRead bytes + 1) * chunkSize)
    (hrow : row = rowOf (bytes ++ more) (chunksRead bytes))
    (hvfs : pushed.vfs = (readTo v staging bytes).vfs)
    (hpending : pushed.pending = [])
    (hchunkno : pushed.chunkno = chunksRead bytes + 1)
    (htotal : pushed.total = (bytes ++ more).length)
    (hchecked : pushed.headerChecked = true)
    (hrows : pushed.rows =
      (readTo v staging bytes).rows ++ [(chunksRead bytes, row)]) :
    pushed.flushBatch staging = readTo v staging (bytes ++ more) := by
  have hread := chunksRead_of_full hlength
  have hstored := chunksStored_le bytes
  have hlt := chunksRead_lt_chunksStored bytes
  have hrows' : pushed.rows = (List.range' (chunksStored bytes)
        (chunksRead bytes + 1 - chunksStored bytes)).map
          fun i => (i, rowOf (bytes ++ more) i) := by
    rw [hrows, hrow, Nat.sub_add_comm hstored, List.range'_concat,
      List.map_append, rowsRange_append (by omega)]
    simp [readTo, Nat.add_sub_cancel' hstored]
  have hvfs' : pushed.vfs =
      v.stage staging (bytes ++ more) (chunksStored bytes) := by
    rw [hvfs, stage_append v staging hstored]
    rfl
  have hlengthRows : pushed.rows.length =
      chunksRead bytes + 1 - chunksStored bytes := by
    rw [hrows', List.length_map, List.length_range']
  have hdrop : (bytes ++ more).drop
      (chunksRead (bytes ++ more) * chunkSize) = [] := by
    rw [hread, ← hlength, List.drop_length]
  rw [flushBatch]
  split_ifs with hbatch
  · have hstored' : chunksStored (bytes ++ more) = chunksRead bytes + 1 := by
      rw [chunksStored, hread]
      simp only [chunksStored, flushBatchRows] at *
      omega
    have hne : pushed.rows ≠ [] := by
      intro hnil
      rw [hnil] at hbatch
      exact absurd hbatch (by decide)
    rw [flushRows, if_neg hne]
    apply Import.ext
    · change pushed.vfs.upsert staging pushed.rows =
        v.stage staging (bytes ++ more) (chunksStored (bytes ++ more))
      rw [hvfs', hrows', stage_upsert, hstored',
        Nat.add_sub_cancel' (by omega)]
    · exact hpending.trans hdrop.symm
    · exact hchunkno.trans hread.symm
    · exact htotal
    · simp [readTo, hchecked, hread]
    · simp [readTo, hread, hstored']
  · have hstored' : chunksStored (bytes ++ more) = chunksStored bytes := by
      rw [hlengthRows] at hbatch
      rw [chunksStored, hread]
      simp only [chunksStored, flushBatchRows] at *
      omega
    apply Import.ext
    · change pushed.vfs =
        v.stage staging (bytes ++ more) (chunksStored (bytes ++ more))
      rw [hvfs', hstored']
    · exact hpending.trans hdrop.symm
    · exact hchunkno.trans hread.symm
    · exact htotal
    · simp [readTo, hchecked, hread]
    · simp [readTo, hread, hstored', hrows']

theorem push_eq (s : Import)
    (hchecked : s.headerChecked = decide (s.chunkno ≠ 0))
    (chunk : List UInt8) :
    s.push chunk =
      if s.chunkno = 0 ∧ rejects chunk = true then
        .error (s.vfs, badHeader)
      else
        .ok { s with
            headerChecked := true
            rows := s.rows ++ [(s.chunkno, fullRow
                  (if s.chunkno = 0 then normalizeJournalModeHeader chunk
                  else chunk))]
            chunkno := s.chunkno + 1
            pending := []
            fits := chunkSize_pos } := by
  rw [push]
  by_cases hzero : s.chunkno = 0
  · have hfalse : s.headerChecked = false := by simp [hchecked, hzero]
    rw [if_pos hzero, hfalse, checkHeader_false]
    cases hrejects : rejects chunk with
    | true => simp [hzero]
    | false => simp [hzero]
  · have htrue : s.headerChecked = true := by simp [hchecked, hzero]
    simp [hzero, htrue]

/-- The first complete chunk carries a header both imports refuse. -/
def Refused (bytes : List UInt8) : Prop :=
  chunkSize ≤ bytes.length ∧ rejects bytes = true

instance (bytes : List UInt8) : Decidable (Refused bytes) :=
  inferInstanceAs (Decidable (_ ∧ _))

theorem Refused.append (h : Refused bytes) (more : List UInt8) :
    Refused (bytes ++ more) := by
  have hlong := le_trans hundred_le_chunkSize h.1
  refine ⟨?_, (rejects_append hlong more).trans h.2⟩
  rw [List.length_append]
  exact le_trans h.1 (Nat.le_add_right _ _)

/-- Once a chunk is complete, its header decides. -/
theorem refused_append_iff (hlong : chunkSize ≤ bytes.length)
    (more : List UInt8) :
    Refused (bytes ++ more) ↔ rejects bytes = true := by
  have hhundred := le_trans hundred_le_chunkSize hlong
  rw [Refused, rejects_append hhundred, List.length_append]
  have hmore : chunkSize ≤ bytes.length + more.length := by omega
  simp [hmore]

theorem chunksRead_eq_zero_iff :
    chunksRead bytes = 0 ↔ bytes.length < chunkSize := by
  rw [chunksRead, Nat.div_eq_zero_iff]
  have hpos := chunkSize_pos
  omega

theorem filled_of_first (hzero : chunksRead bytes = 0) :
    (readTo v staging bytes).filled value =
      bytes ++ value.take ((readTo v staging bytes).room value) := by
  rw [filled_eq, hzero, Nat.zero_mul, List.drop_zero]

/-- The chunk a value completes stops the stream when it is the first and
its header is refused. -/
theorem push_full {s : Import} (hs : s = readTo v staging bytes)
    (hfull : (s.filled value).length = chunkSize)
    (hrefused : ¬Refused bytes) :
    let read := bytes ++ value.take (s.room value)
    (Refused read ∧ (s.count value).push (s.filled value) =
        .error (v.stage staging bytes (chunksStored bytes), badHeader)) ∨
    (¬Refused read ∧ ∃ pushed,
        (s.count value).push (s.filled value) = .ok pushed ∧
        pushed.flushBatch staging = readTo v staging read) := by
  subst hs
  intro read
  have hlength := length_of_full hfull
  have hlong : chunkSize ≤ read.length := by
    rw [hlength]
    exact Nat.le_mul_of_pos_left _ (Nat.succ_pos _)
  have hpush := push_eq ((readTo v staging bytes).count value) rfl
    ((readTo v staging bytes).filled value)
  by_cases hstop : chunksRead bytes = 0 ∧
      rejects ((readTo v staging bytes).filled value) = true
  · refine Or.inl ⟨⟨hlong, ?_⟩, hpush.trans (if_pos hstop)⟩
    have hfirst : (readTo v staging bytes).filled value = read :=
      filled_of_first hstop.1
    rw [← hfirst]
    exact hstop.2
  · refine Or.inr ⟨?_, _, hpush.trans (if_neg hstop), ?_⟩
    · rintro ⟨-, hbad⟩
      by_cases hzero : chunksRead bytes = 0
      · have hfirst : (readTo v staging bytes).filled value = read :=
          filled_of_first hzero
        rw [← hfirst] at hbad
        exact hstop ⟨hzero, hbad⟩
      · have hchunk : chunkSize ≤ bytes.length := by
          rw [chunksRead_eq_zero_iff] at hzero
          omega
        exact hrefused ⟨hchunk, (refused_append_iff hchunk _).mp ⟨hlong, hbad⟩⟩
    · apply flushBatch_pushed hlength rfl
      · rfl
      · rfl
      · rfl
      · change bytes.length + _ = _
        rw [List.length_append, List.length_take, room]
        omega
      · rfl
      · change (readTo v staging bytes).rows ++ [(chunksRead bytes, _)] = _
        rw [rowOf_last hlength]
        by_cases hzero : chunksRead bytes = 0
        · rw [if_pos hzero, filled_of_first hzero]
          simp [count, readTo, hzero]
        · rw [if_neg hzero, ← filled_eq]
          simp [count, readTo, hzero]

/-- A value that completes no chunk is kept whole. -/
theorem keep_readTo {s : Import} (hs : s = readTo v staging bytes)
    (hmore : (s.filled value).length ≠ chunkSize) :
    value.drop (s.room value) = [] ∧ (s.count value).keep value hmore =
        readTo v staging (bytes ++ value) := by
  have hroom : s.room value = value.length := by
    have hfits := s.fits
    rw [filled, List.length_append, List.length_take] at hmore
    rw [room] at hmore ⊢
    omega
  have hread : chunksRead (bytes ++ value) = chunksRead bytes := by
    have hle := chunksRead_mul_le bytes
    have hlt := lt_of_le_of_ne (s.length_filled_le value) hmore
    rw [hs] at hlt hroom
    rw [filled_eq, hroom, List.take_length, List.length_drop] at hlt
    apply chunksRead_of_between
    · rw [List.length_append]
      omega
    · rw [Nat.add_mul, Nat.one_mul]
      omega
  have hstored : chunksStored (bytes ++ value) = chunksStored bytes := by
    rw [chunksStored, hread, chunksStored]
  refine ⟨by rw [hroom, List.drop_length], ?_⟩
  apply Import.ext
  · change s.vfs =
      v.stage staging (bytes ++ value) (chunksStored (bytes ++ value))
    rw [hs]
    change v.stage staging bytes (chunksStored bytes) = _
    rw [hstored, stage_append v staging (chunksStored_le bytes)]
  · change s.filled value =
      (bytes ++ value).drop (chunksRead (bytes ++ value) * chunkSize)
    rw [hs] at hroom ⊢
    rw [filled_eq, hroom, List.take_length, hread]
  · change s.chunkno = _
    rw [hs]
    exact hread.symm
  · change s.total + s.room value = (bytes ++ value).length
    rw [hroom, hs, List.length_append]
    rfl
  · simp [keep, count, readTo, hs, hread]
  · change s.rows = (readTo v staging (bytes ++ value)).rows
    rw [hs, readTo, readTo]
    simp only
    rw [hstored, hread, rowsRange_append]
    have hle := chunksStored_le bytes
    omega

/-- The value is read to its end, wherever the chunks in it end; only the
header of the first chunk can stop it. -/
theorem feed_readTo (hclear : v.chunks staging = fun _ => none)
    (hrefused : ¬Refused bytes) :
    feed staging (readTo v staging bytes) value =
      if Refused (bytes ++ value) then .error (v, badHeader)
      else .ok (readTo v staging (bytes ++ value)) := by
  induction hn : value.length using Nat.strong_induction_on
    generalizing bytes value with
  | h n ih =>
  obtain ⟨s, hs⟩ : ∃ s, s = readTo v staging bytes := ⟨_, rfl⟩
  rw [← hs]
  by_cases hnil : value = []
  · rw [feed, if_pos hnil, hnil, List.append_nil, if_neg hrefused, hs]
  have hsplit := List.take_append_drop (s.room value) value
  by_cases hfull : (s.filled value).length = chunkSize
  · rw [feed, if_neg hnil, dif_pos hfull]
    rcases push_full hs hfull hrefused with
      ⟨hbad, hpush⟩ | ⟨hgood, pushed, hpush, hflushed⟩
    · have hnone : chunksStored bytes = 0 := by
        have hshort : bytes.length < chunkSize := by
          by_contra hlong
          exact hrefused ⟨Nat.not_lt.mp hlong,
            (refused_append_iff (Nat.not_lt.mp hlong) _).mp hbad⟩
        rw [chunksStored, chunksRead_eq_zero_iff.mpr hshort]
        rfl
      have hall := hbad.append (value.drop (s.room value))
      rw [List.append_assoc, hsplit] at hall
      rw [hpush, if_pos hall, hnone, stage_zero v staging bytes hclear]
    · have hrest : (value.drop (s.room value)).length < n := by
        have hfits := s.fits
        have hpos := List.length_pos_of_ne_nil hnil
        rw [List.length_drop, room]
        omega
      have hnext := ih _ hrest hgood rfl
      rw [List.append_assoc, hsplit] at hnext
      rw [hpush]
      simp only
      rw [hflushed]
      exact hnext
  · rcases keep_readTo hs hfull with ⟨hrest, hkept⟩
    have hgood : ¬Refused (bytes ++ value) := by
      rintro ⟨hlong, hbad⟩
      by_cases hchunk : chunkSize ≤ bytes.length
      · exact hrefused ⟨hchunk, (refused_append_iff hchunk _).mp ⟨hlong, hbad⟩⟩
      · have hzero := chunksRead_eq_zero_iff.mpr (Nat.not_le.mp hchunk)
        have hsame : s.chunkno = chunksRead (bytes ++ value) :=
          congrArg Import.chunkno hkept
        have hnone : chunksRead (bytes ++ value) = 0 := by
          rw [← hsame, hs]
          exact hzero
        rw [chunksRead_eq_zero_iff] at hnone
        omega
    rw [feed, if_neg hnil, dif_neg hfull, hkept, hrest, feed, if_pos rfl,
      if_neg hgood]

/-- However the stream is cut, the loop ends in the state of its bytes. -/
theorem foldlM_feed (hclear : v.chunks staging = fun _ => none)
    (chunks : List (List UInt8)) (hrefused : ¬Refused bytes) :
    chunks.foldlM (feed staging) (readTo v staging bytes) =
      if Refused (bytes ++ chunks.flatten) then .error (v, badHeader)
      else .ok (readTo v staging (bytes ++ chunks.flatten)) := by
  induction chunks generalizing bytes with
  | nil => simp [hrefused]; rfl
  | cons value rest ih =>
      rw [List.foldlM_cons, feed_readTo hclear hrefused, List.flatten_cons,
        ← List.append_assoc]
      by_cases hstop : Refused (bytes ++ value)
      · rw [if_pos hstop, if_pos (hstop.append _)]
        rfl
      · rw [if_neg hstop]
        exact ih hstop

/-! ## After the last value -/

theorem chunksOf_eq (bytes : List UInt8) : chunksOf bytes.length =
      chunksRead bytes +
        if bytes.length = chunksRead bytes * chunkSize then 0 else 1 := by
  have hle := chunksRead_mul_le bytes
  have hlt := length_lt_chunksRead bytes
  rw [Nat.add_mul, Nat.one_mul] at hlt
  have hpos := chunkSize_pos
  rw [chunksOf, ceilDiv]
  split_ifs with hexact
  · apply Nat.div_eq_of_lt_le
    · rw [Nat.add_zero]
      omega
    · rw [Nat.add_zero, Nat.add_mul, Nat.one_mul]
      omega
  · apply Nat.div_eq_of_lt_le
    · rw [Nat.add_mul, Nat.one_mul]
      omega
    · rw [Nat.add_mul, Nat.add_mul, Nat.one_mul]
      omega

theorem not_rejects_of_chunk (hrefused : ¬Refused bytes)
    (hread : chunksRead bytes ≠ 0) :
    rejects bytes = false := by
  rw [Ne, chunksRead_eq_zero_iff, Nat.not_lt] at hread
  exact Bool.eq_false_iff.mpr fun hbad => hrefused ⟨hread, hbad⟩

theorem rowOf_tail : rowOf bytes (chunksRead bytes) = fullRow
        (if chunksRead bytes = 0 then
          normalizeJournalModeHeader (readTo v staging bytes).pending
        else (readTo v staging bytes).pending) := by
  have hlt := length_lt_chunksRead bytes
  rw [Nat.add_mul, Nat.one_mul] at hlt
  change _ = fullRow (if chunksRead bytes = 0 then
      normalizeJournalModeHeader (bytes.drop (chunksRead bytes * chunkSize))
    else bytes.drop (chunksRead bytes * chunkSize))
  rw [rowOf]
  congr 1
  split_ifs with hzero
  · rw [hzero, Nat.zero_mul, List.drop_zero, List.take_of_length_le]
    rw [hzero, Nat.zero_mul] at hlt
    omega
  · rw [cut, List.take_of_length_le]
    rw [List.length_drop]
    omega

/-- Rows left in memory go to the staging file. -/
theorem flushRows_vfs {s : Import} {count : ℕ}
    (hvfs : s.vfs = v.stage staging bytes (chunksStored bytes))
    (hrows : s.rows =
      (List.range' (chunksStored bytes) (count - chunksStored bytes)).map
        fun i => (i, rowOf bytes i))
    (hcount : chunksStored bytes ≤ count) :
    (s.flushRows staging).vfs = v.stage staging bytes count := by
  have hupsert : s.vfs.upsert staging s.rows =
      v.stage staging bytes count := by
    rw [hvfs, hrows, stage_upsert, Nat.add_sub_cancel' hcount]
  rw [flushRows]
  split_ifs with hnil
  · have hnone : count - chunksStored bytes = 0 := by
      rw [hrows] at hnil
      simpa using hnil
    rw [hvfs]
    congr 1
    omega
  · exact hupsert

theorem flushRows_total (s : Import) :
    (s.flushRows staging).total = s.total := by
  rw [flushRows]
  split_ifs <;> rfl

/-- The rest of the rows is stored, unless the only chunk carries a header
both imports refuse. -/
theorem finish_readTo (hclear : v.chunks staging = fun _ => none)
    (hrefused : ¬Refused bytes) :
    (rejects bytes = true ∧
      (readTo v staging bytes).finish staging = .error (v, badHeader)) ∨
    (rejects bytes = false ∧ ∃ s,
        (readTo v staging bytes).finish staging = .ok s ∧
        s.vfs = v.stage staging bytes (chunksOf bytes.length) ∧
        s.total = bytes.length) := by
  have hle := chunksRead_mul_le bytes
  have hstored := chunksStored_le bytes
  by_cases htail : 0 < (readTo v staging bytes).pending.length
  · have hchunks : chunksOf bytes.length = chunksRead bytes + 1 := by
      rw [length_pending] at htail
      rw [chunksOf_eq, if_neg (by omega)]
    have hpush := push_eq (readTo v staging bytes) rfl
      (readTo v staging bytes).pending
    rw [finish, if_pos htail]
    by_cases hstop : chunksRead bytes = 0 ∧
        rejects (readTo v staging bytes).pending = true
    · have hall : (readTo v staging bytes).pending = bytes := by
        change bytes.drop (chunksRead bytes * chunkSize) = bytes
        rw [hstop.1, Nat.zero_mul, List.drop_zero]
      have hnone : chunksStored bytes = 0 := by
        rw [chunksStored, hstop.1]
        rfl
      refine Or.inl ⟨hall ▸ hstop.2, ?_⟩
      rw [hpush.trans (if_pos hstop)]
      change Except.error
        (v.stage staging bytes (chunksStored bytes), badHeader) = _
      rw [hnone, stage_zero v staging bytes hclear]
    · have hgood : rejects bytes = false := by
        by_cases hzero : chunksRead bytes = 0
        · have hall : (readTo v staging bytes).pending = bytes := by
            change bytes.drop (chunksRead bytes * chunkSize) = bytes
            rw [hzero, Nat.zero_mul, List.drop_zero]
          rw [hall] at hstop
          exact Bool.eq_false_iff.mpr fun hbad => hstop ⟨hzero, hbad⟩
        · exact not_rejects_of_chunk hrefused hzero
      refine Or.inr ⟨hgood, _, by rw [hpush.trans (if_neg hstop)]; rfl, ?_, ?_⟩
      · rw [hchunks]
        apply flushRows_vfs
        · rfl
        · rw [Nat.sub_add_comm hstored, List.range'_concat,
            List.map_append, List.map_singleton, Nat.one_mul,
            Nat.add_sub_cancel' hstored, rowOf_tail]
          rfl
        · omega
      · rw [flushRows_total]
        rfl
  · have hexact : bytes.length = chunksRead bytes * chunkSize := by
      rw [length_pending] at htail
      omega
    have hgood : rejects bytes = false := by
      by_cases hzero : chunksRead bytes = 0
      · rw [hzero, Nat.zero_mul] at hexact
        rw [rejects, hexact]
        rfl
      · exact not_rejects_of_chunk hrefused hzero
    rw [finish, if_neg htail]
    refine Or.inr ⟨hgood, _, rfl, ?_, ?_⟩
    · rw [chunksOf_eq, if_pos hexact]
      exact flushRows_vfs rfl rfl hstored
    · rw [flushRows_total]
      rfl

end Import
end Vfs
end StreamImport
end QiForge
