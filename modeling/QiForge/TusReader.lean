import Mathlib.Tactic

/-!
# The parts of a byte source

`PartReader` cuts a stream of chunks into parts of `partSize` bytes.  What it
has not returned yet is its carry followed by the chunks it has not read; each
part is the front of that, whatever the cuts of the chunks.
-/

namespace QiForge.Tus

abbrev Bytes := List UInt8

structure PartReader where
  carry : Option Bytes
  chunks : List Bytes
  ended : Bool
deriving DecidableEq

namespace PartReader

variable {partSize : ℕ} {out chunk : Bytes} {chunks : List Bytes}
  {r : PartReader}

def start (chunks : List Bytes) : PartReader := ⟨none, chunks, false⟩

/-- Copies what the part has room for; the rest of the chunk is carried. -/
def copy (partSize : ℕ) (out chunk : Bytes) : Bytes × Option Bytes :=
  let n := min chunk.length (partSize - out.length)
  (out ++ chunk.take n,
    if n < chunk.length then some (chunk.drop n) else none)

/-- The loop of a part over the chunks to come. -/
def fill (partSize : ℕ) : Bytes → List Bytes → Bytes × PartReader
  | out, [] => (out, ⟨none, [], decide (out.length < partSize)⟩)
  | out, chunk :: chunks =>
      if out.length < partSize then
        match copy partSize out chunk with
        | (out, none) => fill partSize out chunks
        -- what is left over of a chunk means the part is full
        | (out, some rest) => (out, ⟨some rest, chunks, false⟩)
      else (out, ⟨none, chunk :: chunks, false⟩)

/-- The next part, or none at the end of the stream. -/
def next (partSize : ℕ) (r : PartReader) : Option Bytes × PartReader :=
  if r.ended ∧ r.carry = none then (none, r)
  else
    match fill partSize [] (r.carry.toList ++ r.chunks) with
    | (out, r) => (if out.length = 0 then none else some out, r)

/-- The bytes not returned yet. -/
def rest (r : PartReader) : Bytes := r.carry.getD [] ++ r.chunks.flatten

@[simp] theorem rest_start (chunks : List Bytes) :
    (start chunks).rest = chunks.flatten := by
  simp [start, rest]

theorem fill_spec (hout : out.length ≤ partSize) :
    (fill partSize out chunks).1 =
        out ++ chunks.flatten.take (partSize - out.length) ∧
      (fill partSize out chunks).2.rest =
        chunks.flatten.drop (partSize - out.length) := by
  induction chunks generalizing out with
  | nil => simp [fill, rest]
  | cons chunk chunks ih =>
      by_cases hroom : out.length < partSize
      · by_cases hfits : chunk.length ≤ partSize - out.length
        · have hcopy : copy partSize out chunk = (out ++ chunk, none) := by
            simp [copy, hfits]
          have hlength : (out ++ chunk).length ≤ partSize := by
            rw [List.length_append]
            omega
          simp only [fill, if_pos hroom, hcopy]
          rw [(ih hlength).1, (ih hlength).2, List.flatten_cons,
            List.take_append, List.drop_append, List.take_of_length_le hfits,
            List.drop_of_length_le hfits]
          simp [Nat.sub_sub]
        · have hn : min chunk.length (partSize - out.length) =
              partSize - out.length := by omega
          have hlt : partSize - out.length < chunk.length := by omega
          simp only [fill, if_pos hroom, copy, hn, if_pos hlt]
          rw [List.flatten_cons, List.take_append_of_le_length hlt.le,
            List.drop_append_of_le_length hlt.le]
          simp [rest]
      · have hfull : partSize - out.length = 0 := by omega
        simp [fill, hroom, hfull, rest]

/-- A reader that has ended has read every chunk. -/
def Ended (r : PartReader) : Prop := r.ended = true → r.chunks = []

theorem fill_ended (partSize : ℕ) (out : Bytes) (chunks : List Bytes) :
    (fill partSize out chunks).2.Ended := by
  induction chunks generalizing out with
  | nil => exact fun _ => rfl
  | cons chunk chunks ih =>
      simp only [fill]
      split
      · split
        · exact ih _
        · exact fun h => nomatch h
      · exact fun h => nomatch h

theorem Ended.next (h : r.Ended) (partSize : ℕ) :
    (r.next partSize).2.Ended := by
  unfold PartReader.next
  split
  · exact h
  · exact fill_ended partSize [] _

theorem next_open (hopen : ¬(r.ended ∧ r.carry = none)) : (r.next partSize).1 =
        (if r.rest.take partSize = [] then none
          else some (r.rest.take partSize)) ∧
      (r.next partSize).2.rest = r.rest.drop partSize := by
  have hflatten : (r.carry.toList ++ r.chunks).flatten = r.rest := by
    cases hcarry : r.carry <;> simp [rest, hcarry]
  have hfill := @fill_spec partSize [] (r.carry.toList ++ r.chunks)
    (Nat.zero_le _)
  rw [hflatten] at hfill
  unfold next
  rw [if_neg hopen]
  refine ⟨?_, by simpa using hfill.2⟩
  simp only [hfill.1, List.nil_append, List.length_nil, Nat.sub_zero,
    List.length_eq_zero_iff]

theorem Ended.next_spec (h : r.Ended) (partSize : ℕ) : (r.next partSize).1 =
        (if r.rest.take partSize = [] then none
          else some (r.rest.take partSize)) ∧
      (r.next partSize).2.rest = r.rest.drop partSize := by
  by_cases hdone : r.ended ∧ r.carry = none
  · have hrest : r.rest = [] := by simp [rest, hdone.2, h hdone.1]
    simp [PartReader.next, hdone, hrest]
  · exact next_open hdone

theorem next_shorter {part : Bytes} {r' : PartReader}
    (hnext : r.next partSize = (some part, r')) :
    r'.rest.length < r.rest.length := by
  have hopen : ¬(r.ended ∧ r.carry = none) := by
    intro hdone
    rw [next, if_pos hdone] at hnext
    cases hnext
  have hspec := @next_open partSize r hopen
  rw [hnext] at hspec
  split at hspec
  · cases hspec.1
  · next hpart =>
    rw [hspec.2, List.length_drop]
    have hpos : 0 < (r.rest.take partSize).length :=
      List.length_pos_iff.mpr hpart
    rw [List.length_take] at hpos
    omega

end PartReader

end QiForge.Tus
