import QiForge.Shaper

/-!
# What splitting a text keeps

Every cut is made at white space or between whole segments, so the pieces
hold the visible characters of the text in order.  A piece is longer than the
size only where one grapheme is.
-/

namespace QiForge
namespace Shaper

open Pieces

theorem visible_append (front back : JsString) :
    visible (front ++ back) = visible front ++ visible back :=
  Pieces.visible_append ..

theorem isInvisible_of_isSpace
    (c : UInt16) (hc : isSpace c = true) : isInvisible c = true := by
  simp only [isInvisible, hc, Bool.true_or]

@[simp] theorem visible_trim
    (text : JsString) : visible (trim text) = visible text :=
  Pieces.visible_trim isInvisible_of_isSpace text

theorem isBlank_iff
    {text : JsString} : isBlank text = true ↔ visible text = [] := by
  simp only [isBlank, decide_eq_true_eq]

@[simp] theorem visible_newline : visible newline = [] := by decide

@[simp] theorem visible_blankLine : visible blankLine = [] := by decide

theorem trimmed_spread {packing : Packing UInt16} {text : JsString}
    (h : Spread isInvisible packing.close text) :
    Spread isInvisible (trimmed packing) text := by
  refine (h.map_trim isInvisible_of_isSpace).filter fun piece hblank => ?_
  exact isBlank_iff.mp (by simpa using hblank)

section Segmented

variable (segmenters : Segmenters)

/-- One grapheme, apart from white space trimmed off it. -/
def SingleGrapheme (piece : JsString) : Prop :=
  ∃ text, ∃ grapheme ∈ segmenters.grapheme.segment text,
    piece <:+: grapheme ∧ visible piece = visible grapheme

/-- A piece keeps to a size unless it is one grapheme. -/
def Sized (size : ℕ) (piece : JsString) : Prop :=
  piece.length ≤ size ∨ SingleGrapheme segmenters piece

variable {size : ℕ}

theorem Sized.trim {piece : JsString} (hsized : Sized segmenters size piece) :
    Sized segmenters size (trim piece) := by
  rcases hsized with hshort | ⟨text, grapheme, hmem, hinfix, hvisible⟩
  · exact Or.inl ((trim_length_le piece).trans hshort)
  · exact Or.inr ⟨text, grapheme, hmem,
      (infix_of_trim piece).trans hinfix, by rw [visible_trim, hvisible]⟩

theorem trimmed_sized {packing : Packing UInt16}
    (hsized : ∀ piece ∈ packing.close, Sized segmenters size piece) :
    ∀ piece ∈ trimmed packing, Sized segmenters size piece := by
  intro piece hpiece
  obtain ⟨whole, hwhole, rfl⟩ :=
    List.mem_map.mp (List.mem_of_mem_filter hpiece)
  exact (hsized whole hwhole).trim

/-! ## The hard cut -/

theorem prefixFrom_spec (max : ℕ) (out : JsString) (segments : List JsString)
    (hout : out.length ≤ max) :
    (prefixFrom max out segments).length ≤ max ∧
      prefixFrom max out segments <+: out ++ segments.flatten := by
  induction segments generalizing out with
  | nil => exact ⟨hout, by simp [prefixFrom]⟩
  | cons segment rest ih =>
      simp only [prefixFrom]
      split
      · exact ⟨hout, List.prefix_append _ _⟩
      · next hfits =>
        have hlength : (out ++ segment).length ≤ max := by
          simp only [JsReal.exceeds, Nat.cast_lt, decide_eq_true_eq,
            not_lt] at hfits
          rwa [List.length_append]
        obtain ⟨hshort, hprefix⟩ := ih (out ++ segment) hlength
        refine ⟨hshort, ?_⟩
        rw [List.flatten_cons, ← List.append_assoc]
        exact hprefix

theorem hardPiece_sized (size : ℕ) {rest : JsString} (hrest : rest ≠ []) :
    Sized segmenters size (hardPiece segmenters size rest) ∧
      hardPiece segmenters size rest <+: rest := by
  have hparts := segmenters.grapheme.parts rest
  unfold hardPiece
  split
  · unfold firstGrapheme
    cases hsegment : segmenters.grapheme.segment rest with
    | nil =>
        have hflatten := hparts.flatten
        rw [hsegment] at hflatten
        exact absurd hflatten.symm hrest
    | cons first more =>
        refine ⟨Or.inr ⟨rest, first, ?_, List.infix_rfl, rfl⟩, ?_⟩
        · rw [hsegment]
          exact List.mem_cons_self
        · have hflatten := hparts.flatten
          rw [hsegment, List.flatten_cons] at hflatten
          rw [List.headD_cons, ← hflatten]
          exact List.prefix_append _ _
  · obtain ⟨hshort, hprefix⟩ :=
      prefixFrom_spec size [] (segmenters.grapheme.segment rest)
        (Nat.zero_le _)
    rw [List.nil_append, hparts.flatten] at hprefix
    exact ⟨Or.inl hshort, hprefix⟩

theorem hardCut_spec (size : ℕ) (rest : JsString) :
    (hardCut segmenters size rest).flatten = rest ∧
      ∀ piece ∈ hardCut segmenters size rest, Sized segmenters size piece := by
  induction rest using hardCut.induct segmenters size with
  | case1 =>
      rw [hardCut]
      exact ⟨rfl, fun piece hpiece => absurd hpiece List.not_mem_nil⟩
  | case2 rest hrest ih =>
      obtain ⟨hsized, hprefix⟩ := hardPiece_sized segmenters size hrest
      obtain ⟨hflatten, hall⟩ := ih
      rw [hardCut, dif_neg hrest]
      constructor
      · rw [List.flatten_cons, hflatten]
        exact (List.prefix_append_drop hprefix).symm
      · intro piece hpiece
        rcases List.mem_cons.mp hpiece with rfl | hmem
        · exact hsized
        · exact hall piece hmem

/-! ## The split -/

/-- At a boundary stand only hidden characters, and with them between the
pieces the text is back. -/
theorem boundaryOf_join {text separator : JsString} {pieces : List JsString}
    (hboundary : boundaryOf segmenters text = some (separator, pieces)) :
    visible separator = [] ∧ separator.intercalate pieces = text := by
  have hmem := List.mem_of_find?_eq_some hboundary
  simp only [boundaries, List.mem_cons, Prod.mk.injEq, List.not_mem_nil,
    or_false] at hmem
  rcases hmem with ⟨rfl, rfl⟩ | ⟨rfl, rfl⟩ | ⟨rfl, rfl⟩ | ⟨rfl, rfl⟩
  · exact ⟨visible_blankLine, cutOn_join (List.cons_ne_nil _ _) text⟩
  · exact ⟨visible_newline, cutOn_join (List.cons_ne_nil _ _) text⟩
  · exact ⟨rfl, by rw [nil_intercalate, (segmenters.sentence.parts text).flatten]⟩
  · exact ⟨rfl, by rw [nil_intercalate, (cutAfter_parts isSpace text).flatten]⟩

theorem splitSized_short {text : JsString} (hshort : text.length ≤ size) :
    splitSized segmenters size text = [text] := by
  rw [splitSized, if_pos hshort]

theorem splitSized_boundary
    {text separator : JsString} {pieces : List JsString}
    (hlong : ¬ text.length ≤ size)
    (hboundary : boundaryOf segmenters text = some (separator, pieces)) :
    splitSized segmenters size text =
      trimmed (Pieces.pack separator size (splitSized segmenters size)
        pieces) := by
  rw [splitSized, if_neg hlong]
  split
  · next separator' pieces' hboundary' =>
    rw [hboundary] at hboundary'
    obtain ⟨rfl, rfl⟩ := Prod.mk.inj (Option.some.inj hboundary')
    rw [Pieces.pack]
    congr 1
    exact List.foldl_attach
      (f := fun packing piece => Packing.step separator size packing piece
        (splitSized segmenters size piece))
  · next hnone =>
    rw [hboundary] at hnone
    cases hnone

theorem splitSized_hard {text : JsString} (hlong : ¬ text.length ≤ size)
    (hboundary : boundaryOf segmenters text = none) :
    splitSized segmenters size text = hardCut segmenters size text := by
  rw [splitSized, if_neg hlong]
  split
  · next separator pieces hsome =>
    rw [hboundary] at hsome
    cases hsome
  · rfl

/-- What a split keeps: the visible characters, in pieces of the size that
stand in the text in order. -/
structure SplitKeeps (size : ℕ) (text : JsString) (pieces : List JsString) :
    Prop where
  spread : Spread isInvisible pieces text
  visible : visible pieces.flatten = visible text
  sized : ∀ piece ∈ pieces, Sized segmenters size piece

theorem splitSized_spread (size : ℕ) (text : JsString) :
    Spread isInvisible (splitSized segmenters size text) text := by
  induction hlength : text.length using Nat.strong_induction_on
    generalizing text with
  | _ length ih =>
      by_cases hshort : text.length ≤ size
      · rw [splitSized_short segmenters hshort]
        exact .whole text
      · cases hboundary : boundaryOf segmenters text with
        | none =>
            rw [splitSized_hard segmenters hshort hboundary]
            have hcut : Spread isInvisible (hardCut segmenters size text)
                (hardCut segmenters size text).flatten := .flatten _
            rwa [(hardCut_spec segmenters size text).1] at hcut
        | some boundary =>
            obtain ⟨separator, pieces⟩ := boundary
            obtain ⟨hseparator, hjoin⟩ := boundaryOf_join segmenters hboundary
            rw [splitSized_boundary segmenters hshort hboundary]
            apply trimmed_spread
            rw [← hjoin]
            exact pack_spread hseparator fun piece hpiece => ih piece.length
              (hlength ▸ boundaryOf_shorter segmenters hboundary hpiece)
              piece rfl

theorem splitSized_sized (size : ℕ) (text : JsString) :
    ∀ piece ∈ splitSized segmenters size text,
      Sized segmenters size piece := by
  induction hlength : text.length using Nat.strong_induction_on
    generalizing text with
  | _ length ih =>
      by_cases hshort : text.length ≤ size
      · rw [splitSized_short segmenters hshort]
        intro piece hpiece
        rw [List.mem_singleton.mp hpiece]
        exact Or.inl hshort
      · cases hboundary : boundaryOf segmenters text with
        | none =>
            rw [splitSized_hard segmenters hshort hboundary]
            exact (hardCut_spec segmenters size text).2
        | some boundary =>
            rw [splitSized_boundary segmenters hshort hboundary]
            apply trimmed_sized
            exact pack_all (fun piece hshort => Or.inl hshort)
              fun piece hpiece _ => ih piece.length
                (hlength ▸ boundaryOf_shorter segmenters hboundary hpiece)
                piece rfl

theorem splitSized_keeps (size : ℕ) (text : JsString) :
    SplitKeeps segmenters size text (splitSized segmenters size text) :=
  have hspread := splitSized_spread segmenters size text
  ⟨hspread, hspread.visible_eq, splitSized_sized segmenters size text⟩

theorem splitText_keeps (text : JsString) (max : JsReal) :
    SplitKeeps segmenters (sizeOfMax max) text
      (splitText segmenters text max) :=
  splitSized_keeps segmenters (sizeOfMax max) text

end Segmented

/-- A bound of at least one leaves room for a piece of its size. -/
theorem fits_sizeOfMax {max : JsReal} (hone : max.atLeastOne = true) {n : ℕ}
    (hn : n ≤ sizeOfMax max) :
    max.fits n = true := by
  cases max with
  | nan => cases hone
  | negInf => cases hone
  | posInf => rfl
  | fin value =>
      simp only [JsReal.atLeastOne, decide_eq_true_eq] at hone
      simp only [sizeOfMax, hone, ↓reduceIte] at hn
      have hfloor : (⌊value⌋.toNat : ℤ) = ⌊value⌋ := by
        apply Int.toNat_of_nonneg
        exact Int.floor_nonneg.mpr (by linarith)
      have hle : (n : ℤ) ≤ ⌊value⌋ := by omega
      have hvalue := Int.le_floor.mp hle
      simp only [JsReal.fits, decide_eq_true_eq]
      exact_mod_cast hvalue

end Shaper
end QiForge
