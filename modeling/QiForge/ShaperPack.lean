import QiForge.ShaperStep
import QiForge.ShaperText

/-!
# What packing keeps

The units of the blocks hold their visible characters in block order, and
each is within `bubbleMax` or carries a grapheme that fits in no other way.
Merging and grouping only put neighbouring units together, and only within a
bound.
-/

namespace QiForge

namespace JsReal

variable {max : JsReal}

theorem fits_mono {m n : ℕ} (hle : m ≤ n) (hfits : max.fits n = true) :
    max.fits m = true := by
  cases max with
  | nan => cases hfits
  | negInf => cases hfits
  | posInf => rfl
  | fin value =>
      simp only [fits, decide_eq_true_eq] at hfits ⊢
      have hcast : (m : ℚ) ≤ n := by exact_mod_cast hle
      linarith

theorem atLeastOne_iff : max.atLeastOne = true ↔ max.fits 1 = true := by
  cases max <;> simp [atLeastOne, fits]

theorem minus_fits (k n : ℕ) : (max.minus k).fits n = max.fits (n + k) := by
  cases max with
  | nan => rfl
  | negInf => rfl
  | posInf => rfl
  | fin value =>
      simp only [minus, fits, Nat.cast_add, decide_eq_decide]
      constructor <;> intro h <;> linarith

theorem fits_of_le {target : JsReal} (hle : target.le max = true) {n : ℕ}
    (hfits : target.fits n = true) :
    max.fits n = true := by
  cases target <;> cases max <;>
    simp_all only [le, fits, decide_eq_true_eq, Bool.false_eq_true]
  exact hfits.trans hle

/-- What a carry leaves, when it is at least half, has room for three
characters. -/
theorem room_of_atLeastHalf
    {carry : ℕ} (hcarry : 0 < carry) (hone : max.atLeastOne = true)
    (hhalf : (max.minus (carry + 2)).atLeastHalf max = true) :
    (max.minus (carry + 2)).atLeastOne = true := by
  cases max with
  | nan => cases hone
  | negInf => cases hone
  | posInf => rfl
  | fin value =>
      simp only [minus, atLeastHalf, decide_eq_true_eq, atLeastOne,
        Nat.cast_add, Nat.cast_ofNat] at hhalf ⊢
      have hcast : (1 : ℚ) ≤ carry := by exact_mod_cast hcarry
      linarith

end JsReal

namespace Shaper

open Pieces

/-! ## Characters -/

@[simp] theorem joinBlocks_visible (a b : JsString) :
    visible (joinBlocks a b) = visible a ++ visible b := by
  unfold joinBlocks
  split
  · next ha =>
    rw [ha]
    rfl
  · simp only [visible_append, visible_blankLine, List.append_nil]

theorem joinBlocks_length_le (a b : JsString) :
    (joinBlocks a b).length ≤ a.length + 2 + b.length := by
  unfold joinBlocks
  split
  · omega
  · simp only [blankLine, List.length_append, List.length_cons,
      List.length_nil]
    omega

def unitsVisible (units : List Unit) : JsString :=
  visible (units.map (·.text)).flatten

@[simp] theorem unitsVisible_nil : unitsVisible [] = [] := rfl

@[simp] theorem unitsVisible_cons (unit : Unit) (rest : List Unit) :
    unitsVisible (unit :: rest) = visible unit.text ++ unitsVisible rest := by
  simp only [unitsVisible, List.map_cons, List.flatten_cons, visible_append]

@[simp] theorem unitsVisible_append (front back : List Unit) :
    unitsVisible (front ++ back) =
      unitsVisible front ++ unitsVisible back := by
  simp only [unitsVisible, List.map_append, List.flatten_append,
    visible_append]

@[simp] theorem join_visible (unit next : Unit) :
    visible (unit.join next).text = visible unit.text ++ visible next.text :=
  joinBlocks_visible _ _

theorem infix_joinBlocks (a b : JsString) :
    a <:+: joinBlocks a b ∧ b <:+: joinBlocks a b := by
  unfold joinBlocks
  split
  · next ha =>
    rw [ha]
    exact ⟨List.nil_infix, List.infix_rfl⟩
  · rw [List.append_assoc]
    exact ⟨(List.prefix_append _ _).isInfix, by
      rw [← List.append_assoc]
      exact (List.suffix_append _ _).isInfix⟩

/-- Some neighbouring units are put together. -/
inductive Joined : List Unit → List Unit → Prop
  | nil : Joined [] []
  | keep {unit : Unit} {units joined : List Unit}
      (hrest : Joined units joined) : Joined (unit :: units) (unit :: joined)
  | join {unit next : Unit} {units joined : List Unit}
      (hrest : Joined (unit.join next :: units) joined) :
      Joined (unit :: next :: units) joined

namespace Joined

theorem rfl : ∀ units : List Unit, Joined units units
  | [] => nil
  | _ :: rest => keep (rfl rest)

variable {units joined : List Unit}

theorem visible_eq (h : Joined units joined) :
    unitsVisible joined = unitsVisible units := by
  induction h with
  | nil => exact Eq.refl _
  | keep _ ih => rw [unitsVisible_cons, unitsVisible_cons, ih]
  | join _ ih =>
      rw [ih]
      simp only [unitsVisible_cons, join_visible, List.append_assoc]

/-- Every unit's text stands whole in a message. -/
theorem covers (h : Joined units joined) :
    ∀ unit ∈ units, ∃ message ∈ joined, unit.text <:+: message.text := by
  induction h with
  | nil => exact fun unit hunit => absurd hunit List.not_mem_nil
  | keep _ ih =>
      intro unit hunit
      rcases List.mem_cons.mp hunit with hfirst | hlater
      · exact ⟨_, List.mem_cons_self, by rw [hfirst]⟩
      · obtain ⟨message, hmessage, hinfix⟩ := ih unit hlater
        exact ⟨message, List.mem_cons_of_mem _ hmessage, hinfix⟩
  | @join first next units joined _ ih =>
      intro unit hunit
      obtain ⟨message, hmessage, hinfix⟩ := ih _ List.mem_cons_self
      obtain ⟨hleft, hright⟩ := infix_joinBlocks first.text next.text
      rcases List.mem_cons.mp hunit with hfirst | hlater
      · exact ⟨message, hmessage, hfirst ▸ hleft.trans hinfix⟩
      · rcases List.mem_cons.mp hlater with hnext | hrest
        · exact ⟨message, hmessage, hnext ▸ hright.trans hinfix⟩
        · exact ih unit (List.mem_cons_of_mem _ hrest)

end Joined

theorem fill_joined
    (max : JsReal) (units : List Unit) : Joined units (fill max units) := by
  cases units with
  | nil => exact .nil
  | cons last units =>
      change Joined _ (fillFrom max last units)
      induction units generalizing last with
      | nil => exact .rfl _
      | cons unit rest ih =>
          simp only [fillFrom]
          split
          · exact .join (ih _)
          · exact .keep (ih _)

theorem preferFewer_joined (limits : ChatLimits) (units : List Unit) :
    Joined units (preferFewer limits units) := by
  unfold preferFewer
  split
  · exact .rfl _
  · split <;> exact fill_joined _ units

theorem mergeForward_joined (limits : ChatLimits) (units : List Unit) :
    Joined units (mergeForward limits units) := by
  cases units with
  | nil => exact .nil
  | cons unit units =>
      change Joined _ (mergeFrom limits unit units)
      induction units generalizing unit with
      | nil => exact .rfl _
      | cons next rest ih =>
          simp only [mergeFrom]
          split
          · exact .join (ih _)
          · exact .keep (ih _)

/-- What is sent of a block: parts of its Markdown in order, or, of a code
block that is cut, parts of its text between added fences.  A part is the text
of its place, so only a line that is cut off at its edge is not all there. -/
inductive Sent (block : Block) : List JsString → Prop
  | cut {pieces : List JsString}
      (hpieces : Spread isInvisible pieces block.md) : Sent block pieces
  | fenced {lang : Option JsString} {parts : List JsString}
      (htype : block.token.type = .code lang)
      (hparts : Spread isInvisible parts block.token.text) :
      Sent block (parts.map (fenced (fenceOf lang)))

/-- What is shown of a block: its Markdown, or, of a code block that is cut,
the characters of its text between added fences. -/
def Shown (block : Block) (shown : JsString) : Prop :=
  shown = visible block.md ∨ ∃ lang pieces, block.token.type = .code lang ∧
      visible (List.flatten pieces) = visible block.token.text ∧
      shown = visible (pieces.map (fenced (fenceOf lang))).flatten

theorem Sent.shown {block : Block} {pieces : List JsString}
    (h : Sent block pieces) : Shown block (visible pieces.flatten) := by
  cases h with
  | cut hpieces => exact Or.inl hpieces.visible_eq
  | fenced htype hparts =>
      exact Or.inr ⟨_, _, htype, hparts.visible_eq, rfl⟩

section Pack

variable (segmenters : Segmenters)

theorem splitBlock_sent (block : Block) (max : JsReal) :
    Sent block (splitBlock segmenters block max) := by
  have hplain : Sent block (splitText segmenters block.md max) :=
    .cut (splitText_keeps segmenters block.md max).spread
  unfold splitBlock
  split
  · exact .cut (.whole _)
  · split
    · next lang htype =>
      simp only
      split
      · exact .fenced htype
          (splitText_keeps segmenters block.token.text _).spread
      · exact hplain
    · exact hplain

theorem flush_visible (limits : ChatLimits) (carry : JsString) (opens : Bool) :
    unitsVisible (flush segmenters limits carry opens) = visible carry := by
  unfold unitsVisible flush
  rw [List.map_map]
  have hid : ((·.text) ∘ fun piece => (⟨piece, false, opens⟩ : Unit)) =
      (id : JsString → JsString) := rfl
  rw [hid, List.map_id]
  exact ((splitText_keeps segmenters carry limits.bubbleMax).spread.filter
    fun piece hblank => isBlank_iff.mp (by simpa using hblank)).visible_eq

theorem ride_visible
    (carry : JsString) (code : Bool) (pieces : List JsString) :
    unitsVisible (ride carry code pieces) =
      visible carry ++ visible pieces.flatten := by
  unfold ride
  rw [unitsVisible_cons, joinBlocks_visible, List.append_assoc]
  congr 1
  unfold unitsVisible
  rw [List.map_map]
  have hid : ((·.text) ∘ fun piece => (⟨piece, code, false⟩ : Unit)) =
      (id : JsString → JsString) := rfl
  rw [hid, List.map_id, ← visible_append]
  cases pieces <;> rfl

theorem ride_covers (carry : JsString) (code : Bool) (pieces : List JsString) :
    ∀ piece ∈ pieces, ∃ unit ∈ ride carry code pieces,
      piece <:+: unit.text := by
  intro piece hpiece
  cases pieces with
  | nil => exact absurd hpiece List.not_mem_nil
  | cons first rest =>
      rcases List.mem_cons.mp hpiece with rfl | hlater
      · exact ⟨_, List.mem_cons_self, (infix_joinBlocks carry piece).2⟩
      · exact ⟨⟨piece, code, false⟩,
          List.mem_cons_of_mem _ (List.mem_map_of_mem hlater),
          List.infix_rfl⟩

/-- The units of a block show the carry and then the block, of which they
hold every piece whole. -/
theorem blockUnits_sent
    (limits : ChatLimits) (carry : JsString) (block : Block) :
    ∃ pieces, Sent block pieces ∧
      unitsVisible (blockUnits segmenters limits carry block) =
        visible carry ++ visible pieces.flatten ∧
      ∀ piece ∈ pieces, ∃ unit ∈ blockUnits segmenters limits carry block,
        piece <:+: unit.text := by
  simp only [blockUnits]
  split
  · exact ⟨_, splitBlock_sent segmenters block _, ride_visible _ _ _,
      ride_covers _ _ _⟩
  · split
    · exact ⟨_, splitBlock_sent segmenters block _, ride_visible _ _ _,
        ride_covers _ _ _⟩
    · refine ⟨_, splitBlock_sent segmenters block limits.bubbleMax, ?_, ?_⟩
      · rw [unitsVisible_append, flush_visible, ride_visible]
        rfl
      · intro piece hpiece
        obtain ⟨unit, hunit, hinfix⟩ := ride_covers [] _ _ piece hpiece
        exact ⟨unit, List.mem_append_right _ hunit, hinfix⟩

theorem unitsFrom_visible
    (limits : ChatLimits) (carry : JsString) (blocks : List Block) :
    ∃ shown, List.Forall₂ Shown blocks shown ∧
      unitsVisible (unitsFrom segmenters limits carry blocks) =
        visible carry ++ shown.flatten := by
  induction blocks generalizing carry with
  | nil =>
      refine ⟨[], List.Forall₂.nil, ?_⟩
      rw [List.flatten_nil, List.append_nil, unitsFrom]
      split
      · next hcarry =>
        rw [hcarry]
        rfl
      · exact flush_visible segmenters limits carry false
  | cons block rest ih =>
      rw [unitsFrom]
      split
      · obtain ⟨shown, hshown, hvisible⟩ := ih (joinBlocks carry block.md)
        refine ⟨visible block.md :: shown, .cons (Or.inl rfl) hshown, ?_⟩
        rw [hvisible, joinBlocks_visible, List.flatten_cons, List.append_assoc]
      · obtain ⟨pieces, hsent, hblock, -⟩ :=
          blockUnits_sent segmenters limits carry block
        obtain ⟨shown, hshown, hvisible⟩ := ih []
        refine ⟨_, .cons hsent.shown hshown, ?_⟩
        rw [unitsVisible_append, hblock, hvisible, List.flatten_cons,
          List.append_assoc]
        rfl

theorem unitsFrom_covers
    (limits : ChatLimits) (carry : JsString) (blocks : List Block) :
    ∀ block ∈ blocks, block.kind = .code →
      ∃ pieces, Sent block pieces ∧ ∀ piece ∈ pieces,
        ∃ unit ∈ unitsFrom segmenters limits carry blocks,
          piece <:+: unit.text := by
  induction blocks generalizing carry with
  | nil => exact fun block hblock => absurd hblock List.not_mem_nil
  | cons first rest ih =>
      intro block hblock hcode
      rw [unitsFrom]
      split
      · next hcarried =>
        -- A code block is neither a heading nor a lead-in.
        have hlater : block ∈ rest := by
          rcases List.mem_cons.mp hblock with rfl | hlater
          · rcases hcarried with hheading | hlead
            · rw [hcode] at hheading
              cases hheading
            · cases hnext : rest.head? <;>
                simp [isLeadIn, hnext, hcode] at hlead
          · exact hlater
        exact ih _ block hlater hcode
      · rcases List.mem_cons.mp hblock with rfl | hlater
        · obtain ⟨pieces, hsent, -, hcovers⟩ :=
            blockUnits_sent segmenters limits carry block
          refine ⟨pieces, hsent, fun piece hpiece => ?_⟩
          obtain ⟨unit, hunit, hinfix⟩ := hcovers piece hpiece
          exact ⟨unit, List.mem_append_left _ hunit, hinfix⟩
        · obtain ⟨pieces, hsent, hcovers⟩ := ih [] block hlater hcode
          refine ⟨pieces, hsent, fun piece hpiece => ?_⟩
          obtain ⟨unit, hunit, hinfix⟩ := hcovers piece hpiece
          exact ⟨unit, List.mem_append_right _ hunit, hinfix⟩

/-! ## Sizes -/

/-- A text within a bound, or with one grapheme for which there is room for
one character at least. -/
def Within (max : JsReal) (text : JsString) : Prop :=
  max.fits text.length = true ∨ ∃ front grapheme back,
      text = front ++ grapheme ++ back ∧
      SingleGrapheme segmenters grapheme ∧
      max.fits (front.length + back.length + 1) = true

variable {segmenters} {max : JsReal}

theorem within_of_sized {piece : JsString} (hone : max.atLeastOne = true)
    (hsized : Sized segmenters (sizeOfMax max) piece) :
    Within segmenters max piece := by
  rcases hsized with hshort | hsingle
  · exact Or.inl (fits_sizeOfMax hone hshort)
  · exact Or.inr ⟨[], piece, [], by simp, hsingle,
      JsReal.atLeastOne_iff.mp hone⟩

/-- What is within the room a frame leaves is, in the frame, within the
bound. -/
theorem within_framed {piece : JsString} (front back : JsString) (hwithin :
      Within segmenters (max.minus (front.length + back.length)) piece) :
    Within segmenters max (front ++ piece ++ back) := by
  rcases hwithin with hfits | ⟨first, grapheme, last, rfl, hsingle, hfits⟩
  · rw [JsReal.minus_fits] at hfits
    refine Or.inl (JsReal.fits_mono ?_ hfits)
    simp only [List.length_append]
    omega
  · rw [JsReal.minus_fits] at hfits
    refine Or.inr ⟨front ++ first, grapheme, last ++ back, ?_, hsingle, ?_⟩
    · simp only [List.append_assoc]
    · refine JsReal.fits_mono ?_ hfits
      simp only [List.length_append]
      omega

theorem Within.of_minus {piece : JsString} {k : ℕ}
    (hwithin : Within segmenters (max.minus k) piece) :
    Within segmenters max piece := by
  rcases hwithin with hfits | ⟨front, grapheme, back, hpiece, hsingle, hfits⟩
  · rw [JsReal.minus_fits] at hfits
    exact Or.inl (JsReal.fits_mono (Nat.le_add_right _ _) hfits)
  · rw [JsReal.minus_fits] at hfits
    exact Or.inr ⟨front, grapheme, back, hpiece, hsingle,
      JsReal.fits_mono (Nat.le_add_right _ _) hfits⟩

theorem splitBlock_within (block : Block) (hone : max.atLeastOne = true) :
    ∀ piece ∈ splitBlock segmenters block max,
      Within segmenters max piece := by
  have hplain : ∀ piece ∈ splitText segmenters block.md max,
      Within segmenters max piece := fun piece hpiece =>
    within_of_sized hone
      ((splitText_keeps segmenters block.md max).sized piece hpiece)
  unfold splitBlock
  split
  · next hfits =>
    intro piece hpiece
    rw [List.mem_singleton.mp hpiece]
    exact Or.inl hfits
  · split
    · next lang htype =>
      simp only
      split
      · next hroom =>
        intro piece hpiece
        obtain ⟨part, hpart, rfl⟩ := List.mem_map.mp hpiece
        have hwithin := within_of_sized hroom
          ((splitText_keeps segmenters block.token.text _).sized part hpart)
        have hframe : (fenceOf lang).length + 5 =
            (fenceOf lang ++ newline).length + (newline ++ ticks).length := by
          simp [newline, ticks]
        rw [hframe] at hwithin
        have hframed := within_framed _ _ hwithin
        simp only [fenced, List.append_assoc] at hframed ⊢
        exact hframed
      · exact hplain
    · exact hplain

theorem headD_within {pieces : List JsString} (hone : max.atLeastOne = true)
    (hpieces : ∀ piece ∈ pieces, Within segmenters max piece) :
    Within segmenters max (pieces.headD []) := by
  cases pieces with
  | nil =>
      exact Or.inl (JsReal.fits_mono (Nat.zero_le _)
        (JsReal.atLeastOne_iff.mp hone))
  | cons piece rest => exact hpieces piece List.mem_cons_self

theorem ride_within {carry : JsString} {code : Bool} {pieces : List JsString}
    (hhead : Within segmenters max (joinBlocks carry (pieces.headD [])))
    (htail : ∀ piece ∈ pieces, Within segmenters max piece) :
    ∀ unit ∈ ride carry code pieces, Within segmenters max unit.text := by
  intro unit hunit
  rcases List.mem_cons.mp hunit with rfl | hrest
  · exact hhead
  · obtain ⟨piece, hpiece, rfl⟩ := List.mem_map.mp hrest
    exact htail piece (List.mem_of_mem_tail hpiece)

variable {limits : ChatLimits}

theorem flush_within {carry : JsString} {opens : Bool}
    (hone : limits.bubbleMax.atLeastOne = true) :
    ∀ unit ∈ flush segmenters limits carry opens,
      Within segmenters limits.bubbleMax unit.text := by
  intro unit hunit
  obtain ⟨piece, hpiece, rfl⟩ := List.mem_map.mp hunit
  exact within_of_sized hone
    ((splitText_keeps segmenters carry limits.bubbleMax).sized piece
      (List.mem_of_mem_filter hpiece))

theorem blockUnits_within (hone : limits.bubbleMax.atLeastOne = true)
    (carry : JsString) (block : Block) :
    ∀ unit ∈ blockUnits segmenters limits carry block,
      Within segmenters limits.bubbleMax unit.text := by
  have hpieces : ∀ piece ∈ splitBlock segmenters block limits.bubbleMax,
        Within segmenters limits.bubbleMax piece :=
    splitBlock_within block hone
  have hriding : ∀ unit ∈ ride [] (block.kind = .code)
          (splitBlock segmenters block limits.bubbleMax),
        Within segmenters limits.bubbleMax unit.text :=
    ride_within (headD_within hone hpieces) hpieces
  simp only [blockUnits]
  split
  · next hjoined =>
    by_cases hcarry : carry = []
    · rw [hcarry]
      exact hriding
    · have hfits := hjoined.resolve_left hcarry
      have hmd : limits.bubbleMax.fits block.md.length = true := by
        refine JsReal.fits_mono ?_ hfits
        simp only [joinBlocks, hcarry, ↓reduceIte, List.length_append]
        omega
      have hwhole :
          splitBlock segmenters block limits.bubbleMax = [block.md] := by
        simp only [splitBlock, hmd, ↓reduceIte]
      rw [hwhole] at hpieces ⊢
      exact ride_within (Or.inl hfits) hpieces
  · next hjoined =>
    have hcarry : carry ≠ [] := fun h => hjoined (Or.inl h)
    have hpos := List.length_pos_of_ne_nil hcarry
    split
    · next hhalf =>
      have hroom := JsReal.room_of_atLeastHalf hpos hone hhalf
      have hrest : ∀ piece ∈ splitBlock segmenters block
              (limits.bubbleMax.minus (carry.length + 2)),
            Within segmenters (limits.bubbleMax.minus (carry.length + 2))
              piece :=
        splitBlock_within block hroom
      refine ride_within ?_ fun piece hpiece => (hrest piece hpiece).of_minus
      have hhead := headD_within hroom hrest
      generalize (splitBlock segmenters block
        (limits.bubbleMax.minus (carry.length + 2))).headD [] = head at hhead ⊢
      have hframe : carry.length + 2 =
          (carry ++ blankLine).length + ([] : JsString).length := by
        simp [blankLine]
      rw [hframe] at hhead
      have hframed := within_framed _ _ hhead
      rw [List.append_nil] at hframed
      simp only [joinBlocks, hcarry, ↓reduceIte]
      exact hframed
    · intro unit hunit
      rcases List.mem_append.mp hunit with hflush | hride
      · exact flush_within hone unit hflush
      · exact hriding unit hride

theorem unitsFrom_within (hone : limits.bubbleMax.atLeastOne = true)
    (carry : JsString) (blocks : List Block) :
    ∀ unit ∈ unitsFrom segmenters limits carry blocks,
      Within segmenters limits.bubbleMax unit.text := by
  induction blocks generalizing carry with
  | nil =>
      rw [unitsFrom]
      split
      · exact fun unit hunit => absurd hunit List.not_mem_nil
      · exact flush_within hone
  | cons block rest ih =>
      rw [unitsFrom]
      split
      · exact ih (joinBlocks carry block.md)
      · intro unit hunit
        rcases List.mem_append.mp hunit with hblock | hrest
        · exact blockUnits_within hone carry block unit hblock
        · exact ih [] unit hrest

variable {units : List Unit}

theorem fillFrom_within
    {bound : JsReal} (hbound : ∀ n, bound.fits n = true → max.fits n = true)
    {last : Unit}
    (hall : ∀ unit ∈ last :: units, Within segmenters max unit.text) :
    ∀ unit ∈ fillFrom bound last units, Within segmenters max unit.text := by
  induction units generalizing last with
  | nil => exact hall
  | cons next rest ih =>
      have hlast := hall last List.mem_cons_self
      have hnext : ∀ unit ∈ next :: rest, Within segmenters max unit.text :=
        fun unit hunit => hall unit (List.mem_cons_of_mem _ hunit)
      simp only [fillFrom]
      split
      · next hjoins =>
        apply ih
        intro unit hunit
        rcases List.mem_cons.mp hunit with rfl | hrest
        · simp only [Bool.and_eq_true] at hjoins
          exact Or.inl (JsReal.fits_mono (joinBlocks_length_le _ _)
            (hbound _ hjoins.2))
        · exact hnext unit (List.mem_cons_of_mem _ hrest)
      · intro unit hunit
        rcases List.mem_cons.mp hunit with rfl | hrest
        · exact hlast
        · exact ih hnext unit hrest

theorem fill_within
    {bound : JsReal} (hbound : ∀ n, bound.fits n = true → max.fits n = true)
    (hall : ∀ unit ∈ units, Within segmenters max unit.text) :
    ∀ unit ∈ fill bound units, Within segmenters max unit.text := by
  cases units with
  | nil => exact hall
  | cons unit rest => exact fillFrom_within hbound hall

theorem preferFewer_within
    (htarget : limits.bubbleTarget.le limits.bubbleMax = true)
    (hall : ∀ unit ∈ units, Within segmenters limits.bubbleMax unit.text) :
    ∀ unit ∈ preferFewer limits units,
      Within segmenters limits.bubbleMax unit.text := by
  unfold preferFewer
  split
  · exact hall
  · split
    · exact fill_within (fun _ => JsReal.fits_of_le htarget) hall
    · exact fill_within (fun _ hfits => hfits) hall

theorem mergeFrom_within {unit : Unit} (hall :
      ∀ u ∈ unit :: units, Within segmenters limits.bubbleMax u.text) :
    ∀ u ∈ mergeFrom limits unit units,
      Within segmenters limits.bubbleMax u.text := by
  induction units generalizing unit with
  | nil => exact hall
  | cons next rest ih =>
      have hnext : ∀ u ∈ next :: rest,
          Within segmenters limits.bubbleMax u.text :=
        fun u hu => hall u (List.mem_cons_of_mem _ hu)
      simp only [mergeFrom]
      split
      · next hjoins =>
        apply ih
        intro u hu
        rcases List.mem_cons.mp hu with rfl | hrest
        · simp only [Bool.and_eq_true] at hjoins
          exact Or.inl hjoins.2
        · exact hnext u (List.mem_cons_of_mem _ hrest)
      · intro u hu
        rcases List.mem_cons.mp hu with rfl | hrest
        · exact hall u List.mem_cons_self
        · exact ih hnext u hrest

theorem mergeForward_within
    (hall : ∀ u ∈ units, Within segmenters limits.bubbleMax u.text) :
    ∀ u ∈ mergeForward limits units,
      Within segmenters limits.bubbleMax u.text := by
  cases units with
  | nil => exact hall
  | cons unit rest => exact mergeFrom_within hall

end Pack

/-- What packing keeps of the blocks. -/
structure PackKeeps (segmenters : Segmenters) (limits : ChatLimits)
    (blocks : List Block) (messages : List JsString) : Prop where
  within : ∀ message ∈ messages, Within segmenters limits.bubbleMax message
  visible : ∃ shown, List.Forall₂ Shown blocks shown ∧
    visible messages.flatten = shown.flatten
  code : ∀ block ∈ blocks, block.kind = .code → ∃ pieces, Sent block pieces ∧
      ∀ piece ∈ pieces, ∃ message ∈ messages, piece <:+: message

theorem pack_visible
    (segmenters : Segmenters) (limits : ChatLimits) (blocks : List Block) :
    ∃ shown, List.Forall₂ Shown blocks shown ∧
      visible (pack segmenters limits blocks).flatten = shown.flatten := by
  obtain ⟨shown, hshown, hvisible⟩ :=
    unitsFrom_visible segmenters limits [] blocks
  refine ⟨shown, hshown, ?_⟩
  change unitsVisible (preferFewer _ _) = _
  rw [(preferFewer_joined _ _).visible_eq, (mergeForward_joined _ _).visible_eq,
    hvisible]
  rfl

theorem pack_code
    (segmenters : Segmenters) (limits : ChatLimits) (blocks : List Block) :
    ∀ block ∈ blocks, block.kind = .code →
      ∃ pieces, Sent block pieces ∧ ∀ piece ∈ pieces,
        ∃ message ∈ pack segmenters limits blocks, piece <:+: message := by
  intro block hblock hcode
  obtain ⟨pieces, hsent, hcovers⟩ :=
    unitsFrom_covers segmenters limits [] blocks block hblock hcode
  refine ⟨pieces, hsent, fun piece hpiece => ?_⟩
  obtain ⟨unit, hunit, hinUnit⟩ := hcovers piece hpiece
  obtain ⟨merged, hmerged, hinMerged⟩ :=
    (mergeForward_joined limits _).covers unit hunit
  obtain ⟨message, hmessage, hinMessage⟩ :=
    (preferFewer_joined limits _).covers merged hmerged
  exact ⟨message.text, List.mem_map_of_mem hmessage,
    hinUnit.trans (hinMerged.trans hinMessage)⟩

theorem pack_keeps (segmenters : Segmenters) (limits : ResolvedLimits)
    (blocks : List Block) :
    PackKeeps segmenters limits.toChatLimits blocks
      (pack segmenters limits.toChatLimits blocks) where
  within := by
    intro message hmessage
    obtain ⟨unit, hunit, rfl⟩ := List.mem_map.mp hmessage
    exact preferFewer_within limits.target_le
      (mergeForward_within (unitsFrom_within limits.one_le [] blocks)) unit
      hunit
  visible := pack_visible segmenters limits.toChatLimits blocks
  code := pack_code segmenters limits.toChatLimits blocks

/-- Every code unit is a grapheme, every text a sentence. -/
def plainSegmenters : Segmenters where
  sentence :=
    { segment := fun text => if text = [] then [] else [text]
      parts := by
        intro text
        split
        · next hnil =>
          exact ⟨hnil.symm, fun piece hpiece =>
            absurd hpiece List.not_mem_nil⟩
        · next hne =>
          refine ⟨List.flatten_singleton, fun piece hpiece => ?_⟩
          rw [List.mem_singleton.mp hpiece]
          exact hne }
  grapheme :=
    { segment := fun text => text.map fun c => [c]
      parts := by
        intro text
        constructor
        · induction text with
          | nil => rfl
          | cons c rest ih =>
              rw [List.map_cons, List.flatten_cons, ih]
              rfl
        · intro piece hpiece
          obtain ⟨c, -, rfl⟩ := List.mem_map.mp hpiece
          exact List.cons_ne_nil _ _ }

theorem plain_within {max : JsReal} {text : JsString}
    (hwithin : Within plainSegmenters max text) :
    max.fits text.length = true := by
  rcases hwithin with hfits | ⟨front, grapheme, back, rfl, hsingle, hfits⟩
  · exact hfits
  · obtain ⟨whole, found, hfound, hinfix, -⟩ := hsingle
    obtain ⟨c, -, rfl⟩ := List.mem_map.mp hfound
    have hlength : grapheme.length ≤ 1 := hinfix.length_le
    refine JsReal.fits_mono ?_ hfits
    simp only [List.length_append]
    omega

/-- Messages of at most `bubbleMax`, grouped up to another size. -/
def limitsOf (bubbleMax bubbleTarget maxBubbles : ℕ) : ChatLimits where
  bubbleTarget := bubbleTarget
  bubbleMax := bubbleMax
  minBubble := .fin 1
  maxBubbles := maxBubbles
  maxPartsPerRun := .fin 8
  spillChars := .fin 4500
  maxListItems := .fin 15
  maxCodeLines := .fin 40
  previewItems := .fin 3
  tables := false

def paragraphOf (text : String) : Block := ⟨.paragraph, utf16 text.toList,
    ⟨.other, utf16 text.toList, utf16 text.toList, []⟩⟩

def codeOf (text : String) : Block :=
  let md := fenced ticks (utf16 text.toList)
  ⟨.code, md, ⟨.code none, md, utf16 text.toList, []⟩⟩

end Shaper
end QiForge
