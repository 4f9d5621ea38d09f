import QiForge.ReplyPlan
import QiForge.ShaperPack

/-!
# What a Reply Plan drops

A plan is read as the visible characters of its texts and its other parts, in
order.  Merging and dropping change that reading only by framing: a merged
part is framing only if both halves are, so what may be dropped is at every
step a run of lead and closing texts.
-/

namespace QiForge
namespace ReplyPlan

open Shaper

variable {A F R H : Type}

/-- What a reader of a plan takes in: a visible character, or a part that is
not a text. -/
inductive Symbol (A F R H : Type) where
  | char (c : UInt16)
  | item (content : ReplyContent A F R H)
deriving DecidableEq

def words (text : JsString) : List (Symbol A F R H) := (visible text).map .char

namespace ReplyContent

def trace : ReplyContent A F R H → List (Symbol A F R H)
  | .text said => words said
  | .artifact made => [.item (.artifact made)]
  | .file sent => [.item (.file sent)]
  | .action prepared => [.item (.action prepared)]
  | .hubAction reference summary => [.item (.hubAction reference summary)]

end ReplyContent

def planTrace (plan : List (ReplyPart A F R H)) : List (Symbol A F R H) :=
  plan.flatMap fun part => part.content.trace

def partsTrace (parts : List (PlanPart A F R H)) : List (Symbol A F R H) :=
  parts.flatMap fun part => part.content.trace

theorem words_append (front back : JsString) :
    (words (front ++ back) : List (Symbol A F R H)) =
      words front ++ words back := by
  rw [words, visible_append, List.map_append]
  rfl

theorem trace_of_blank {content : ReplyContent A F R H}
    (hblank : content.isBlankText = true) :
    content.trace = [] := by
  cases content with
  | text said =>
      change words said = []
      rw [words, isBlank_iff.mp hblank, List.map_nil]
  | artifact | file | action | hubAction => cases hblank

theorem trace_join {a b : PlanPart A F R H} {length : ℕ}
    (hpair : pairLength a b = some length) :
    (a.join b).content.trace = a.content.trace ++ b.content.trace := by
  obtain ⟨first, aFraming⟩ := a
  obtain ⟨second, bFraming⟩ := b
  cases first with
  | text first =>
      cases second with
      | text second =>
          change words (first ++ blankLine ++ second) =
            words first ++ words second
          rw [words_append, words_append]
          simp only [words, visible_blankLine, List.map_nil, List.append_nil]
      | artifact | file | action | hubAction => cases hpair
  | artifact | file | action | hubAction => cases hpair

theorem join_framing {a b : PlanPart A F R H} {length : ℕ}
    (hpair : pairLength a b = some length)
    (hframing : (a.join b).framing = true) :
    a.framing = true ∧ b.framing = true := by
  obtain ⟨first, aFraming⟩ := a
  obtain ⟨second, bFraming⟩ := b
  cases first with
  | text first =>
      cases second with
      | text second => exact Bool.and_eq_true_iff.mp hframing
      | artifact | file | action | hubAction => cases hpair
  | artifact | file | action | hubAction => cases hpair

/-! ## Leaving out framing -/

/-- A reading of the parts, with some of the framing left out. -/
inductive Leaves :
    List (PlanPart A F R H) → List (Symbol A F R H) → Prop
  | nil : Leaves [] []
  | keep (part : PlanPart A F R H) {rest trace} (hrest : Leaves rest trace) :
      Leaves (part :: rest) (part.content.trace ++ trace)
  | drop (part : PlanPart A F R H) {rest trace}
      (hframing : part.framing = true) (hrest : Leaves rest trace) :
      Leaves (part :: rest) trace

namespace Leaves

theorem all
    (parts : List (PlanPart A F R H)) : Leaves parts (partsTrace parts) := by
  induction parts with
  | nil => exact .nil
  | cons part rest ih => exact .keep part ih

theorem append {front back : List (PlanPart A F R H)}
    {shown more : List (Symbol A F R H)}
    (hfront : Leaves front shown) (hback : Leaves back more) :
    Leaves (front ++ back) (shown ++ more) := by
  induction hfront with
  | nil => exact hback
  | keep part hrest ih =>
      rw [List.cons_append, List.append_assoc]
      exact .keep part ih
  | drop part hframing hrest ih => exact .drop part hframing ih

variable {trace : List (Symbol A F R H)}

theorem split {front back : List (PlanPart A F R H)}
    (hleaves : Leaves (front ++ back) trace) :
    ∃ shown more,
      trace = shown ++ more ∧ Leaves front shown ∧ Leaves back more := by
  induction front generalizing trace with
  | nil => exact ⟨[], trace, rfl, .nil, hleaves⟩
  | cons part rest ih =>
      cases hleaves with
      | keep _ hrest =>
          obtain ⟨shown, more, rfl, hfront, hback⟩ := ih hrest
          exact ⟨part.content.trace ++ shown, more,
            (List.append_assoc ..).symm, .keep part hfront, hback⟩
      | drop _ hframing hrest =>
          obtain ⟨shown, more, rfl, hfront, hback⟩ := ih hrest
          exact ⟨shown, more, rfl, .drop part hframing hfront, hback⟩

/-- A reading of merged parts reads the parts. -/
theorem of_merge {max : JsReal} {parts merged : List (PlanPart A F R H)}
    (hmerge : merge max parts = some merged)
    (hleaves : Leaves merged trace) : Leaves parts trace := by
  obtain ⟨front, a, b, back, length, rfl, rfl, hpair, -⟩ :=
    merge_eq_some hmerge
  obtain ⟨shown, more, rfl, hfront, hback⟩ := hleaves.split
  refine hfront.append ?_
  cases hback with
  | keep _ hrest =>
      rw [trace_join hpair, List.append_assoc]
      exact .keep a (.keep b hrest)
  | drop _ hframing hrest =>
      obtain ⟨ha, hb⟩ := join_framing hpair hframing
      exact .drop a ha (.drop b hb hrest)

theorem of_dropFraming {parts dropped : List (PlanPart A F R H)}
    (hdrop : dropFraming parts = some dropped)
    (hleaves : Leaves dropped trace) : Leaves parts trace := by
  obtain ⟨index, hindex, rfl⟩ := Option.map_eq_some_iff.mp hdrop
  obtain ⟨hlt, hframing⟩ := framingIndex_eq_some hindex
  rw [List.eraseIdx_eq_take_drop_succ] at hleaves
  obtain ⟨shown, more, rfl, hfront, hback⟩ := hleaves.split
  have hparts :
      parts = parts.take index ++ parts[index] :: parts.drop (index + 1) := by
    rw [← List.drop_eq_getElem_cons hlt, List.take_append_drop]
  rw [hparts]
  exact hfront.append (.drop _ hframing hback)

theorem of_capLoop {limits : ChatLimits} {parts : List (PlanPart A F R H)}
    (hleaves : Leaves (capLoop limits parts) trace) :
    Leaves parts trace := by
  induction parts using capLoop.induct limits with
  | case1 parts hover merged hmerge ih =>
      rw [capLoop_merge hover hmerge] at hleaves
      exact (ih hleaves).of_merge hmerge
  | case2 parts hover hmerge dropped hdrop ih =>
      rw [capLoop_drop hover hmerge hdrop] at hleaves
      exact (ih hleaves).of_dropFraming hdrop
  | case3 parts hover hmerge hdrop =>
      rwa [capLoop_stuck hmerge hdrop] at hleaves
  | case4 parts hunder => rwa [capLoop_under hunder] at hleaves

theorem of_filter {parts : List (PlanPart A F R H)} (hleaves :
      Leaves (parts.filter fun part => !part.content.isBlankText) trace) :
    Leaves parts trace := by
  induction parts generalizing trace with
  | nil => exact hleaves
  | cons part rest ih =>
      cases hblank : part.content.isBlankText with
      | true =>
          rw [List.filter_cons_of_neg (by simp [hblank])] at hleaves
          have hkeep := Leaves.keep part (ih hleaves)
          rwa [trace_of_blank hblank, List.nil_append] at hkeep
      | false =>
          rw [List.filter_cons_of_pos (by simp [hblank])] at hleaves
          cases hleaves with
          | keep _ hrest => exact .keep part (ih hrest)
          | drop _ hframing hrest => exact .drop part hframing (ih hrest)

end Leaves

/-! ## What a draft delivers -/

section Delivers

variable (lexer : JsString → List Token) (limits : ChatLimits)
  (createSpill : ℕ → Option A)

/-- Readings of a draft.  A spill whose artifact was created shows the
artifact, and each of its lead and closing text or nothing in its place;
another spill shows its blocks; any other part shows itself. -/
inductive Delivers :
    ℕ → List (DraftPart A F R H) → List (Symbol A F R H) → Prop
  | nil (index : ℕ) : Delivers index [] []
  | content {index : ℕ} (content : ReplyContent A F R H) {rest trace}
      (hrest : Delivers (index + 1) rest trace) :
      Delivers index (.content content :: rest) (content.trace ++ trace)
  | created {index : ℕ} {key : String} {spill : SpillShape} {artifact : A}
      {lead closing rest trace}
      (hcreated : createSpill index = some artifact)
      (hlead : lead = [] ∨ lead = words spill.lead)
      (hclosing : closing = [] ∨ closing = words (spill.closing.getD []))
      (hrest : Delivers (index + 1) rest trace) :
      Delivers index (.spill key spill :: rest)
        (lead ++ .item (.artifact artifact) :: closing ++ trace)
  | fallback {index : ℕ} {key : String} {spill : SpillShape}
      {shown : List JsString} {rest trace}
      (hfailed : createSpill index = none)
      (hshown : List.Forall₂ Shown
        (toBlocks lexer limits (trim spill.markdown)) shown)
      (hrest : Delivers (index + 1) rest trace) :
      Delivers index (.spill key spill :: rest)
        (shown.flatten.map .char ++ trace)

variable {lexer limits createSpill}

namespace Leaves

variable {trace : List (Symbol A F R H)}

theorem eq_all_of_kept {parts : List (PlanPart A F R H)}
    (hkept : ∀ part ∈ parts, part.framing = false)
    (hleaves : Leaves parts trace) : trace = partsTrace parts := by
  induction hleaves with
  | nil => rfl
  | keep part hrest ih =>
      rw [ih fun other hother => hkept other (List.mem_cons_of_mem _ hother)]
      rfl
  | drop part hframing hrest ih =>
      rw [hkept part List.mem_cons_self] at hframing
      cases hframing

/-- A framing part is shown or left out. -/
theorem of_framingPart {text : JsString}
    (hleaves : Leaves [framingPart text] trace) :
    trace = [] ∨ trace = words text := by
  cases hleaves with
  | keep _ hrest =>
      cases hrest
      exact Or.inr (List.append_nil _)
  | drop _ _ hrest =>
      cases hrest
      exact Or.inl rfl

theorem of_lead {lead : JsString} (hleaves :
      Leaves (if lead = [] then [] else [framingPart lead]) trace) :
    trace = [] ∨ trace = words lead := by
  split at hleaves
  · cases hleaves
    exact Or.inl rfl
  · exact hleaves.of_framingPart

theorem of_closing {closing : Option JsString} (hleaves : Leaves
        ((closing.filter fun closing => closing ≠ []).map framingPart).toList
        trace) :
    trace = [] ∨ trace = words (closing.getD []) := by
  cases closing with
  | none =>
      cases hleaves
      exact Or.inl rfl
  | some closing =>
      by_cases hempty : closing = []
      · subst hempty
        cases hleaves
        exact Or.inl rfl
      · rw [Option.filter_some, if_pos (by simpa using hempty)] at hleaves
        exact hleaves.of_framingPart

end Leaves

theorem partsTrace_textParts (messages : List JsString) :
    partsTrace (messages.map (textPart : JsString → PlanPart A F R H)) =
      words messages.flatten := by
  induction messages with
  | nil => rfl
  | cons message rest ih =>
      rw [List.flatten_cons, words_append, ← ih]
      rfl

/-- A reading of a draft's parts reads the draft. -/
theorem Delivers.of_leaves (segmenters : Segmenters) (limits : ChatLimits)
    {index : ℕ} {draft : List (DraftPart A F R H)}
    {trace : List (Symbol A F R H)}
    (hleaves :
      Leaves (partsFrom segmenters lexer limits createSpill index draft)
        trace) :
    Delivers lexer limits createSpill index draft trace := by
  induction draft generalizing index trace with
  | nil =>
      cases hleaves
      exact .nil index
  | cons part rest ih =>
      cases part with
      | content content =>
          cases hleaves with
          | keep _ hrest => exact .content content (ih hrest)
          | drop _ hframing _ => cases hframing
      | spill key spill =>
          obtain ⟨shown, more, rfl, hspill, hrest⟩ := hleaves.split
          cases hcreate : createSpill index with
          | some artifact =>
              rw [hcreate] at hspill
              obtain ⟨lead, others, rfl, hlead, hothers⟩ := hspill.split
              cases hothers with
              | keep _ hclosing =>
                  exact .created hcreate hlead.of_lead hclosing.of_closing
                    (ih hrest)
              | drop _ hframing _ => cases hframing
          | none =>
              rw [hcreate] at hspill
              have hall : shown = partsTrace
                    ((ReplyPlan.fallback segmenters lexer limits spill).map
                      textPart) := by
                refine hspill.eq_all_of_kept fun other hother => ?_
                obtain ⟨message, -, rfl⟩ := List.mem_map.mp hother
                rfl
              obtain ⟨blocks, hblocks, hvisible⟩ :=
                pack_visible segmenters limits
                  (toBlocks lexer limits (trim spill.markdown))
              rw [hall, partsTrace_textParts, words, fallback_eq, hvisible]
              exact .fallback hcreate hblocks (ih hrest)

/-! ## The parts that are not texts -/

def Symbol.item? : Symbol A F R H → Option (ReplyContent A F R H)
  | .char _ => none
  | .item content => some content

def itemsOf (trace : List (Symbol A F R H)) : List (ReplyContent A F R H) :=
  trace.filterMap Symbol.item?

variable (createSpill) in
/-- The files, actions and artifacts of a draft from this index on. -/
def draftItems : ℕ → List (DraftPart A F R H) → List (ReplyContent A F R H)
  | _, [] => []
  | index, .content content :: rest =>
      (if content.isItem then [content] else []) ++ draftItems (index + 1) rest
  | index, .spill _ _ :: rest =>
      ((createSpill index).map .artifact).toList ++ draftItems (index + 1) rest

theorem itemsOf_chars (text : JsString) :
    itemsOf (text.map (.char : UInt16 → Symbol A F R H)) = [] := by
  rw [itemsOf, List.filterMap_eq_nil_iff]
  intro symbol hsymbol
  obtain ⟨c, -, rfl⟩ := List.mem_map.mp hsymbol
  rfl

theorem itemsOf_trace (content : ReplyContent A F R H) :
    itemsOf content.trace = if content.isItem then [content] else [] := by
  cases content with
  | text said => exact itemsOf_chars _
  | artifact | file | action | hubAction => rfl

theorem itemsOf_append (front back : List (Symbol A F R H)) :
    itemsOf (front ++ back) = itemsOf front ++ itemsOf back :=
  List.filterMap_append

theorem itemsOf_framing {shown : List (Symbol A F R H)} {text : JsString}
    (hshown : shown = [] ∨ shown = words text) :
    itemsOf shown = [] := by
  rcases hshown with rfl | rfl
  · rfl
  · exact itemsOf_chars _

theorem Delivers.items {index : ℕ} {draft : List (DraftPart A F R H)}
    {trace : List (Symbol A F R H)}
    (hdelivers : Delivers lexer limits createSpill index draft trace) :
    itemsOf trace = draftItems createSpill index draft := by
  induction hdelivers with
  | nil index => rfl
  | content content hrest ih =>
      rw [itemsOf_append, itemsOf_trace, ih]
      rfl
  | created hcreated hlead hclosing hrest ih =>
      rw [itemsOf_append, itemsOf_append, itemsOf_framing hlead, ih,
        draftItems, hcreated]
      change _ :: itemsOf _ ++ _ = _
      rw [itemsOf_framing hclosing]
      rfl
  | fallback hfailed hshown hrest ih =>
      rw [itemsOf_append, itemsOf_chars, ih, draftItems, hfailed]
      rfl

theorem itemsOf_planTrace (plan : List (ReplyPart A F R H)) :
    itemsOf (planTrace plan) = (plan.map (·.content)).filter (·.isItem) := by
  induction plan with
  | nil => rfl
  | cons part rest ih =>
      rw [planTrace, List.flatMap_cons, itemsOf_append, itemsOf_trace,
        ← planTrace, ih, List.map_cons, List.filter_cons]
      split <;> rfl

end Delivers

/-! ## Over the cap -/

theorem better_eq_none
    {max : JsReal} {index : ℕ} {length : Option ℕ} {best : Option (ℕ × ℕ)}
    (hnone : better max index length best = none) :
    best = none ∧ ∀ n, length = some n → max.fits n = false := by
  unfold better at hnone
  cases length with
  | none => exact ⟨hnone, fun n hn => nomatch hn⟩
  | some length =>
      simp only at hnone
      split at hnone
      · cases hnone
      · next hfits =>
        subst hnone
        refine ⟨rfl, fun n hn => ?_⟩
        cases hn
        simpa using hfits

/-- Where no pair is found, no neighbouring texts fit. -/
theorem bestPair_eq_none
    {max : JsReal} {parts : List (PlanPart A F R H)} {index : ℕ}
    {best : Option (ℕ × ℕ)}
    (hnone : bestPair max index best parts = none) :
    best = none ∧ ∀ front a b back length, parts = front ++ a :: b :: back →
        pairLength a b = some length → max.fits length = false := by
  induction parts generalizing index best with
  | nil =>
      refine ⟨hnone, fun front a b back length hparts => ?_⟩
      exact absurd hparts.symm (by simp)
  | cons first rest ih =>
      cases rest with
      | nil =>
          refine ⟨hnone, fun front a b back length hparts => ?_⟩
          have hlength := congrArg List.length hparts
          simp only [List.length_append, List.length_cons,
            List.length_nil] at hlength
          omega
      | cons second rest =>
          obtain ⟨hbetter, hrest⟩ := ih hnone
          obtain ⟨hbest, hfits⟩ := better_eq_none hbetter
          refine ⟨hbest, fun front a b back length hparts hpair => ?_⟩
          cases front with
          | nil =>
              obtain ⟨rfl, rfl, -⟩ : first = a ∧ second = b ∧ rest = back := by
                simpa using hparts
              exact hfits length hpair
          | cons head front =>
              exact hrest front a b back length (List.cons.inj hparts).2 hpair

theorem framingIndex_eq_none {parts : List (PlanPart A F R H)}
    (hnone : framingIndex parts = none) :
    ∀ part ∈ parts, part.framing = false := by
  intro part hpart
  obtain ⟨-, hhead⟩ := Option.or_eq_none_iff.mp hnone
  have hempty := List.head?_eq_none_iff.mp hhead
  rw [List.findIdxs_eq_nil_iff] at hempty
  simpa using hempty part hpart

/-- Parts the cap can neither merge nor drop. -/
structure Stuck (limits : ChatLimits) (parts : List (PlanPart A F R H)) :
    Prop where
  apart : ∀ front a b back first second, parts = front ++ a :: b :: back →
    a.content = .text first → b.content = .text second →
    limits.bubbleMax.fits (first.length + 2 + second.length) = false
  content : ∀ part ∈ parts, part.framing = false

theorem capLoop_over (limits : ChatLimits) (parts : List (PlanPart A F R H))
    (hover :
      limits.maxPartsPerRun.exceeds (capLoop limits parts).length = true) :
    Stuck limits (capLoop limits parts) := by
  induction parts using capLoop.induct limits with
  | case1 parts habove merged hmerge ih =>
      rw [capLoop_merge habove hmerge] at hover ⊢
      exact ih hover
  | case2 parts habove hmerge dropped hdrop ih =>
      rw [capLoop_drop habove hmerge hdrop] at hover ⊢
      exact ih hover
  | case3 parts habove hmerge hdrop =>
      rw [capLoop_stuck hmerge hdrop]
      constructor
      · intro front a b back first second hparts ha hb
        refine (bestPair_eq_none (Option.map_eq_none_iff.mp hmerge)).2 front
          a b back _ hparts ?_
        obtain ⟨_, aFraming⟩ := a
        obtain ⟨_, bFraming⟩ := b
        subst ha hb
        rfl
      · exact framingIndex_eq_none (Option.map_eq_none_iff.mp hdrop)
  | case4 parts hunder =>
      rw [capLoop_under hunder] at hover
      exact absurd hover hunder

/-! ## The plan -/

/-- What a Reply Plan keeps of its draft. -/
structure Keeps (segmenters : Segmenters) (lexer : JsString → List Token)
    (limits : ChatLimits) (createSpill : ℕ → Option A)
    (draft : List (DraftPart A F R H)) (plan : List (ReplyPart A F R H)) :
    Prop where
  items :
    (plan.map (·.content)).filter (·.isItem) = draftItems createSpill 0 draft
  delivers : Delivers lexer limits createSpill 0 draft (planTrace plan)
  parts : plan.map (·.content) = (capLoop limits
        (planParts segmenters lexer limits createSpill draft)).map
        (·.content)
  overCap : limits.maxPartsPerRun.exceeds plan.length = true → Stuck limits
        (capLoop limits (planParts segmenters lexer limits createSpill draft))
  numbered : plan.map (·.partId) =
      (List.range plan.length).map fun index => "p" ++ toString (index + 1)

section Plan

variable (segmenters : Segmenters) (lexer : JsString → List Token)
  (limits : ChatLimits) (createSpill : ℕ → Option A)
  (draft : List (DraftPart A F R H))

theorem materializeReplyPlan_content :
    (materializeReplyPlan segmenters lexer limits createSpill draft).map
        (·.content) =
      (capLoop limits
        (planParts segmenters lexer limits createSpill draft)).map
        (·.content) := by
  rw [materializeReplyPlan, capParts]
  refine List.ext_getElem (by simp) fun index _ _ => ?_
  simp

theorem planTrace_eq
    {plan : List (ReplyPart A F R H)} {parts : List (PlanPart A F R H)}
    (hcontent : plan.map (·.content) = parts.map (·.content)) :
    planTrace plan = partsTrace parts := by
  have hflat := congrArg (List.flatMap ReplyContent.trace) hcontent
  rwa [List.flatMap_map, List.flatMap_map] at hflat

end Plan

/-! ## A table that falls back to chat -/

def budgetText : JsString :=
  utf16 "## Budget\n\n| A | B |\n|---|---|\n| 1 | 2 |".toList

/-- What the lexer makes of it. -/
def budgetTokens : List Token :=
  [⟨.heading, utf16 "## Budget\n\n".toList, utf16 "Budget".toList, []⟩,
    ⟨.table [utf16 "A".toList, utf16 "B".toList]
        [[utf16 "1".toList, utf16 "2".toList]],
      budgetText.drop 11, [], []⟩]

end ReplyPlan
end QiForge
