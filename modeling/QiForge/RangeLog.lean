import Mathlib.Tactic

/-!
# A log of ranges

Ranges of one sequence are worked on in turn, each from the watermark, which
moves over a range only once it is recorded.  The log keeps every range, the
newest first: the ranges below the watermark are covered by recorded ones, and
a range is worked on again only if it was not recorded.
-/

namespace QiForge

structure RangeEntry (α : Type*) where
  start : ℕ
  stop : ℕ
  recorded : Bool
  mark : α

namespace RangeLog

variable {α : Type*} {log : List (RangeEntry α)} {e : RangeEntry α}

/-- How far the recorded ranges reach. -/
def watermark : List (RangeEntry α) → ℕ
  | [] => 0
  | e :: log => if e.recorded then e.stop else watermark log

/-- Each range starts at the watermark of the ranges before it. -/
def Chained : List (RangeEntry α) → Prop
  | [] => True
  | e :: log => e.start = watermark log ∧ e.start ≤ e.stop ∧ Chained log

theorem watermark_cons : watermark (e :: log) =
    if e.recorded then e.stop else watermark log := rfl

theorem Chained.tail (h : Chained (e :: log)) : Chained log := h.2.2

theorem Chained.watermark_le (h : Chained (e :: log)) :
    watermark log ≤ watermark (e :: log) := by
  rw [watermark_cons]
  split
  · exact h.1 ▸ h.2.1
  · exact le_rfl

/-- Recording the newest range keeps the chain. -/
theorem Chained.record (h : Chained (e :: log)) :
    Chained ({ e with recorded := true } :: log) := h

/-- What is below the watermark is in a recorded range. -/
theorem Chained.covered (h : Chained log) {i : ℕ} (hi : i < watermark log) :
    ∃ e ∈ log, e.recorded = true ∧ e.start ≤ i ∧ i < e.stop := by
  induction log with
  | nil => exact absurd hi (Nat.not_lt_zero i)
  | cons e log ih =>
      by_cases hbelow : i < watermark log
      · rcases ih h.tail hbelow with ⟨found, hmem, hrest⟩
        exact ⟨found, List.mem_cons_of_mem _ hmem, hrest⟩
      · rw [watermark_cons] at hi
        cases hrecorded : e.recorded with
        | false =>
            rw [hrecorded] at hi
            exact absurd hi hbelow
        | true =>
            rw [hrecorded] at hi
            refine ⟨e, List.mem_cons_self, hrecorded, ?_, hi⟩
            rw [h.1]
            exact not_lt.mp hbelow

theorem Chained.start_le (h : Chained log) {older : RangeEntry α}
    (hmem : older ∈ log) : older.start ≤ watermark log ∧
      (older.recorded = true → older.stop ≤ watermark log) := by
  induction log with
  | nil => cases hmem
  | cons e log ih =>
      rcases List.mem_cons.mp hmem with rfl | hold
      · have hle := h.watermark_le
        rw [← h.1] at hle
        refine ⟨hle, fun hrecorded => ?_⟩
        rw [watermark_cons, if_pos hrecorded]
      · rcases ih h.tail hold with ⟨hstart, hstop⟩
        exact ⟨hstart.trans h.watermark_le,
          fun hrecorded => (hstop hrecorded).trans h.watermark_le⟩

/-- Later ranges start later, after every range recorded before. -/
theorem Chained.pairwise (h : Chained log) :
    log.Pairwise fun newer older => older.start ≤ newer.start ∧
      (older.recorded = true → older.stop ≤ newer.start) := by
  induction log with
  | nil => exact List.Pairwise.nil
  | cons e log ih =>
      refine List.Pairwise.cons ?_ (ih h.tail)
      intro older hmem
      rw [h.1]
      exact h.tail.start_le hmem

end RangeLog

end QiForge
