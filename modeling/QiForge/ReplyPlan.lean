import QiForge.ShaperStep

/-!
# The Reply Plan

`draftReplyPlan` turns the steps of a finished run into parts in order, a
document-length step into the draft of a spill.  `materializeReplyPlan` makes
the spills' artifacts, falls back to messages where one cannot be made, and
merges or drops texts while the run has too many parts.
-/

namespace QiForge
namespace ReplyPlan

open Shaper

/-- What a part delivers: artifact, file, action and Hub references are plain
data. -/
inductive ReplyContent (A F R H : Type) where
  | text (text : JsString)
  | artifact (artifact : A)
  | file (file : F)
  | action (action : R)
  | hubAction (actionReference : H) (summary : JsString)
deriving DecidableEq

inductive DraftPart (A F R H : Type) where
  | content (content : ReplyContent A F R H)
  | spill (key : String) (spill : SpillShape)

variable {A F R H : Type}

namespace ReplyContent

/-- What is not a text. -/
def isItem : ReplyContent A F R H → Bool
  | .text _ => false
  | .artifact _ | .file _ | .action _ | .hubAction _ _ => true

/-- A text that would look empty. -/
def isBlankText : ReplyContent A F R H → Bool
  | .text said => isBlank said
  | .artifact _ | .file _ | .action _ | .hubAction _ _ => false

end ReplyContent

/-- A part before it is numbered.  `framing` marks a spill's lead or closing
text, which its artifact holds as well. -/
structure PlanPart (A F R H : Type) where
  content : ReplyContent A F R H
  framing : Bool

structure ReplyPart (A F R H : Type) where
  partId : String
  content : ReplyContent A F R H

/-! ## The cap on a run's parts -/

/-- What two neighbouring texts would be long as one. -/
def pairLength : PlanPart A F R H → PlanPart A F R H → Option ℕ
  | ⟨.text a, _⟩, ⟨.text b, _⟩ => some (a.length + 2 + b.length)
  | _, _ => none

/-- The best pair so far, with its length. -/
def better (max : JsReal) (index : ℕ) (length : Option ℕ)
    (best : Option (ℕ × ℕ)) : Option (ℕ × ℕ) :=
  match length with
  | none => best
  | some length =>
      if max.fits length && best.all fun found => length < found.2 then
        some (index, length)
      else best

/-- The loop over the neighbours, from this index. -/
def bestPair (max : JsReal) :
    ℕ → Option (ℕ × ℕ) → List (PlanPart A F R H) → Option (ℕ × ℕ)
  | index, best, a :: b :: rest =>
      bestPair max (index + 1) (better max index (pairLength a b) best)
        (b :: rest)
  | _, best, [_] | _, best, [] => best

def PlanPart.join (a b : PlanPart A F R H) : PlanPart A F R H :=
  match a.content, b.content with
  | .text first, .text second =>
      ⟨.text (first ++ blankLine ++ second), a.framing && b.framing⟩
  | _, _ => a

def joinAt : ℕ → List (PlanPart A F R H) → List (PlanPart A F R H)
  | 0, a :: b :: rest => a.join b :: rest
  | index + 1, part :: rest => part :: joinAt index rest
  | _, parts => parts

/-- Merge the shortest neighbouring texts that fit. -/
def merge (max : JsReal) (parts : List (PlanPart A F R H)) :
    Option (List (PlanPart A F R H)) :=
  (bestPair max 0 none parts).map fun best => joinAt best.1 parts

/-- The framing to drop, the last part as late as possible. -/
def framingIndex (parts : List (PlanPart A F R H)) : Option ℕ :=
  let framing := parts.findIdxs (·.framing)
  (framing.find? fun index => index < parts.length - 1).or framing.head?

def dropFraming (parts : List (PlanPart A F R H)) :
    Option (List (PlanPart A F R H)) :=
  (framingIndex parts).map parts.eraseIdx

theorem bestPair_index
    {max : JsReal} {parts : List (PlanPart A F R H)} {start : ℕ}
    {best : Option (ℕ × ℕ)} {found : ℕ × ℕ}
    (hfound : bestPair max start best parts = some found) :
    best = some found ∨ ∃ front a b back, parts = front ++ a :: b :: back ∧
        found.1 = start + front.length ∧
        pairLength a b = some found.2 ∧
        max.fits found.2 = true := by
  induction parts generalizing start best with
  | nil => exact Or.inl hfound
  | cons a rest ih =>
      cases rest with
      | nil => exact Or.inl hfound
      | cons b rest =>
          rcases ih hfound with hbest | ⟨front, c, d, back, hrest, hindex, hpair⟩
          · unfold better at hbest
            cases hpair : pairLength a b with
            | none =>
                rw [hpair] at hbest
                exact Or.inl hbest
            | some length =>
                rw [hpair] at hbest
                simp only at hbest
                split at hbest
                · next hfits =>
                  cases hbest
                  simp only [Bool.and_eq_true] at hfits
                  exact Or.inr ⟨[], a, b, rest, rfl, rfl, hpair, hfits.1⟩
                · exact Or.inl hbest
          · refine Or.inr ⟨a :: front, c, d, back, ?_, ?_, hpair⟩
            · rw [hrest, List.cons_append]
            · rw [hindex, List.length_cons]
              omega

theorem joinAt_append
    (front : List (PlanPart A F R H)) (a b : PlanPart A F R H)
    (back : List (PlanPart A F R H)) :
    joinAt front.length (front ++ a :: b :: back) =
      front ++ a.join b :: back := by
  induction front with
  | nil => rfl
  | cons part rest ih =>
      rw [List.length_cons, List.cons_append, joinAt, ih, List.cons_append]

/-- A merge joins two neighbouring texts that fit. -/
theorem merge_eq_some {max : JsReal} {parts merged : List (PlanPart A F R H)}
    (hmerge : merge max parts = some merged) :
    ∃ front a b back length, parts = front ++ a :: b :: back ∧
      merged = front ++ a.join b :: back ∧
      pairLength a b = some length ∧
      max.fits length = true := by
  obtain ⟨best, hbest, rfl⟩ := Option.map_eq_some_iff.mp hmerge
  rcases bestPair_index hbest with hnone | hpair
  · cases hnone
  · obtain ⟨front, a, b, back, rfl, hindex, hlength, hfits⟩ := hpair
    refine ⟨front, a, b, back, best.2, rfl, ?_, hlength, hfits⟩
    rw [hindex, Nat.zero_add, joinAt_append]

theorem framingIndex_eq_some {parts : List (PlanPart A F R H)} {index : ℕ}
    (hindex : framingIndex parts = some index) :
    ∃ hlt : index < parts.length, parts[index].framing = true := by
  have hmem : index ∈ parts.findIdxs (·.framing) := by
    rcases Option.or_eq_some_iff.mp hindex with hfind | ⟨-, hhead⟩
    · exact List.mem_of_find?_eq_some hfind
    · exact List.mem_of_mem_head? hhead
  exact List.mem_findIdxs_iff_exists_getElem_pos.mp hmem

theorem merge_length {max : JsReal} {parts merged : List (PlanPart A F R H)}
    (hmerge : merge max parts = some merged) :
    merged.length < parts.length := by
  obtain ⟨front, a, b, back, length, rfl, rfl, -⟩ := merge_eq_some hmerge
  simp only [List.length_append, List.length_cons]
  omega

theorem dropFraming_length {parts dropped : List (PlanPart A F R H)}
    (hdrop : dropFraming parts = some dropped) :
    dropped.length < parts.length := by
  obtain ⟨index, hindex, rfl⟩ := Option.map_eq_some_iff.mp hdrop
  obtain ⟨hlt, -⟩ := framingIndex_eq_some hindex
  rw [List.length_eraseIdx_of_lt hlt]
  omega

/-- Over the cap, merge or else drop framing, until neither is left. -/
def capLoop (limits : ChatLimits) (parts : List (PlanPart A F R H)) :
    List (PlanPart A F R H) :=
  if limits.maxPartsPerRun.exceeds parts.length then
    match _hmerge : merge limits.bubbleMax parts with
    | some merged => capLoop limits merged
    | none =>
        match _hdrop : dropFraming parts with
        | some dropped => capLoop limits dropped
        | none => parts
  else parts
termination_by parts.length
decreasing_by
  · exact merge_length _hmerge
  · exact dropFraming_length _hdrop

section

variable {limits : ChatLimits} {parts changed : List (PlanPart A F R H)}

theorem capLoop_merge
    (hover : limits.maxPartsPerRun.exceeds parts.length = true)
    (hmerge : merge limits.bubbleMax parts = some changed) :
    capLoop limits parts = capLoop limits changed := by
  rw [capLoop, if_pos hover]
  split
  · next other hother =>
    obtain rfl := Option.some.inj (hmerge.symm.trans hother)
    rfl
  · next hnone => cases hmerge.symm.trans hnone

theorem capLoop_drop
    (hover : limits.maxPartsPerRun.exceeds parts.length = true)
    (hmerge : merge limits.bubbleMax parts = none)
    (hdrop : dropFraming parts = some changed) :
    capLoop limits parts = capLoop limits changed := by
  rw [capLoop, if_pos hover]
  split
  · next other hother => cases hmerge.symm.trans hother
  · split
    · next other hother =>
      obtain rfl := Option.some.inj (hdrop.symm.trans hother)
      rfl
    · next hnone => cases hdrop.symm.trans hnone

theorem capLoop_stuck (hmerge : merge limits.bubbleMax parts = none)
    (hdrop : dropFraming parts = none) :
    capLoop limits parts = parts := by
  rw [capLoop]
  split
  · split
    · next other hother => cases hmerge.symm.trans hother
    · split
      · next other hother => cases hdrop.symm.trans hother
      · rfl
  · rfl

theorem capLoop_under
    (hunder : ¬ limits.maxPartsPerRun.exceeds parts.length = true) :
    capLoop limits parts = parts := by
  rw [capLoop, if_neg hunder]

end

def capParts (limits : ChatLimits) (parts : List (PlanPart A F R H)) :
    List (ReplyContent A F R H) :=
  (capLoop limits parts).map (·.content)

/-! ## From the draft to the plan -/

section Materialize

variable (segmenters : Segmenters) (lexer : JsString → List Token)
  (limits : ChatLimits) (createSpill : ℕ → Option A)

def textPart (text : JsString) : PlanPart A F R H := ⟨.text text, false⟩

def framingPart (text : JsString) : PlanPart A F R H := ⟨.text text, true⟩

/-- The messages of a spill that has no artifact. -/
def fallback (spill : SpillShape) : List JsString :=
  match shapeStep segmenters lexer limits false spill.markdown with
  | .messages messages => messages
  | .spill _ => []

theorem fallback_eq (spill : SpillShape) :
    fallback segmenters lexer limits spill =
      pack segmenters limits (toBlocks lexer limits (trim spill.markdown)) :=
  rfl

/-- A spill's parts, with what creating its artifact answered. -/
def spillParts (spill : SpillShape) : Option A → List (PlanPart A F R H)
  | some artifact =>
      (if spill.lead = [] then [] else [framingPart spill.lead]) ++
        ⟨.artifact artifact, false⟩ ::
          ((spill.closing.filter fun closing => closing ≠ []).map
            framingPart).toList
  | none => (fallback segmenters lexer limits spill).map textPart

/-- The parts of a draft from this index on. -/
def partsFrom : ℕ → List (DraftPart A F R H) → List (PlanPart A F R H)
  | _, [] => []
  | index, .content content :: rest =>
      ⟨content, false⟩ :: partsFrom (index + 1) rest
  | index, .spill _ spill :: rest =>
      spillParts segmenters lexer limits spill (createSpill index) ++
        partsFrom (index + 1) rest

def planParts (draft : List (DraftPart A F R H)) : List (PlanPart A F R H) :=
  (partsFrom segmenters lexer limits createSpill 0 draft).filter
    fun part => !part.content.isBlankText

def materializeReplyPlan (draft : List (DraftPart A F R H)) :
    List (ReplyPart A F R H) :=
  (capParts limits
      (planParts segmenters lexer limits createSpill draft)).mapIdx
    fun index content => ⟨"p" ++ toString (index + 1), content⟩

end Materialize

end ReplyPlan
end QiForge
