import QiForge.ReplyPlanDraft
import QiForge.ShaperPack

/-!
# Where a continuation is delivered

The texts of the steps a checkpoint kept are found again at the front of what
was streamed before the reset, whatever white space stands between them.  What
follows them is the text that was cut off, and it goes in front of the first
text of the resumed attempt.
-/

namespace QiForge
namespace ReplyPlan

open Shaper

/-! ## White space in front of a text -/

theorem trimStart_idem
    (text : JsString) : trimStart (trimStart text) = trimStart text :=
  List.dropWhile_idempotent _ _

theorem trimStart_append_of_blank
    {space text : JsString} (hspace : ∀ c ∈ space, isSpace c = true) :
    trimStart (space ++ text) = trimStart text :=
  List.dropWhile_append_of_pos hspace

theorem trimStart_trimStart_append (front back : JsString) :
    trimStart (trimStart front ++ back) = trimStart (front ++ back) := by
  induction front with
  | nil => rfl
  | cons c rest ih =>
      by_cases hc : isSpace c = true
      · have hdrop : trimStart (c :: rest) = trimStart rest :=
          List.dropWhile_cons_of_pos hc
        have hcons : trimStart (c :: rest ++ back) = trimStart (rest ++ back) :=
          List.dropWhile_cons_of_pos hc
        rw [hdrop, ih, hcons]
      · have hkeep : trimStart (c :: rest) = c :: rest :=
          List.dropWhile_cons_of_neg hc
        rw [hkeep]

theorem trim_eq_of_trimStart
    {front back : JsString} (heq : trimStart front = trimStart back) :
    trim front = trim back :=
  congrArg (List.rdropWhile isSpace) heq

/-- Texts that differ in white space at the front only. -/
theorem trim_append_congr {first second back : JsString}
    (heq : trimStart first = trimStart second) :
    trim (first ++ back) = trim (second ++ back) := by
  apply trim_eq_of_trimStart
  rw [← trimStart_trimStart_append, heq, trimStart_trimStart_append]

theorem isBlank_trimStart
    (text : JsString) : isBlank (trimStart text) = isBlank text := by
  unfold isBlank
  rw [trimStart, Shaper.visible, Shaper.visible,
    Pieces.visible_dropWhile isInvisible_of_isSpace]

theorem isBlank_append (front back : JsString) :
    isBlank (front ++ back) = (isBlank front && isBlank back) := by
  rw [Bool.eq_iff_iff, Bool.and_eq_true, isBlank_iff, isBlank_iff,
    isBlank_iff, visible_append, List.append_eq_nil_iff]

theorem isBlank_trim
    (text : JsString) : isBlank (trim text) = isBlank text := by
  unfold isBlank
  rw [visible_trim]

/-- A trimmed text that is not empty starts without white space. -/
theorem trimStart_of_trimmed {text : JsString} (htrimmed : trim text = text) :
    trimStart text = text := by
  have hlength := congrArg List.length htrimmed
  have hstart : (trimStart text).length ≤ text.length :=
    (List.dropWhile_suffix _).length_le
  have hend : (trim text).length ≤ (trimStart text).length :=
    (List.rdropWhile_prefix _ _).length_le
  exact (List.dropWhile_suffix _).eq_of_length (by
    change (trimStart text).length = _
    omega)

theorem trimStart_append_of_trimmed
    {text back : JsString} (htrimmed : trim text = text) (hne : text ≠ []) :
    trimStart (text ++ back) = text ++ back := by
  have hstart := trimStart_of_trimmed htrimmed
  cases text with
  | nil => exact absurd rfl hne
  | cons c rest =>
      by_cases hc : isSpace c = true
      · have hdrop : trimStart (c :: rest) = trimStart rest :=
          List.dropWhile_cons_of_pos hc
        have hshort : (trimStart rest).length ≤ rest.length :=
          (List.dropWhile_suffix _).length_le
        rw [← hdrop, hstart, List.length_cons] at hshort
        omega
      · exact List.dropWhile_cons_of_neg hc

/-! ## What was streamed before a reset -/

variable {Args Handed A F R H : Type}

/-- The texts of the kept steps in order, white space in front of each, and
then the rest. -/
inductive Streamed (rest : JsString) :
    List (TurnStep Args) → JsString → Prop
  | done : Streamed rest [] rest
  | step {space : JsString} (step : TurnStep Args) {steps streamed}
      (hspace : ∀ c ∈ space, isSpace c = true)
      (hsteps : Streamed rest steps streamed) :
      Streamed rest (step :: steps) (space ++ step.text ++ streamed)

theorem Streamed.concat {front : List (TurnStep Args)} {last : TurnStep Args}
    {rest streamed : JsString}
    (hstreamed : Streamed rest (front ++ [last]) streamed) :
    ∃ space, (∀ c ∈ space, isSpace c = true) ∧
      Streamed (space ++ last.text ++ rest) front streamed := by
  induction front generalizing streamed with
  | nil =>
      cases hstreamed with
      | @step space _ _ _ hspace hsteps =>
          cases hsteps
          exact ⟨space, hspace, .done⟩
  | cons first front ih =>
      cases hstreamed with
      | step _ hspace hsteps =>
          obtain ⟨space, hlast, hfront⟩ := ih hsteps
          exact ⟨space, hlast, .step first hspace hfront⟩

theorem Streamed.suffix
    {kept : List (TurnStep Args)} {rest streamed : JsString}
    (hstreamed : Streamed rest kept streamed) : rest <:+ streamed := by
  induction hstreamed with
  | done => exact List.suffix_rfl
  | step _ _ _ ih => exact ih.trans (List.suffix_append _ _)

/-- One step is found at the front, up to white space. -/
theorem matchSteps_step {step : TurnStep Args} {rest found : JsString}
    (htrimmed : trim step.text = step.text)
    (hfound : trimStart found = trimStart (step.text ++ rest)) :
    ∃ left, trimStart left = trimStart rest ∧ (step.text ≠ [] → left = rest) ∧
      ∀ index steps, matchSteps found index (step :: steps) =
          matchSteps left (index + 1) steps := by
  by_cases hempty : step.text = []
  · rw [hempty, List.nil_append] at hfound
    refine ⟨trimStart found, ?_, fun hne => absurd hempty hne, ?_⟩
    · rw [trimStart_idem, hfound]
    · intro index steps
      rw [matchSteps, hempty, List.length_nil, List.drop_zero,
        if_pos (List.isPrefixOf_iff_prefix.mpr List.nil_prefix)]
  · rw [trimStart_append_of_trimmed htrimmed hempty] at hfound
    refine ⟨rest, rfl, fun _ => rfl, fun index steps => ?_⟩
    rw [matchSteps, hfound, List.drop_left,
      if_pos (List.isPrefixOf_iff_prefix.mpr (List.prefix_append _ _))]

/-- The kept steps are found at the front, up to white space. -/
theorem matchSteps_streamed
    {kept : List (TurnStep Args)} {rest streamed found : JsString}
    (htrimmed : ∀ step ∈ kept, trim step.text = step.text)
    (hstreamed : Streamed rest kept streamed)
    (hfound : trimStart found = trimStart streamed) :
    ∃ left, trimStart left = trimStart rest ∧ ∀ index steps,
        matchSteps found index (kept ++ steps) =
          matchSteps left (index + kept.length) steps := by
  induction hstreamed generalizing found with
  | done => exact ⟨found, hfound, fun _ _ => rfl⟩
  | @step space step more streamed hspace hsteps ih =>
      rw [List.append_assoc, trimStart_append_of_blank hspace] at hfound
      obtain ⟨left, hleft, -, hstep⟩ :=
        matchSteps_step (htrimmed step List.mem_cons_self) hfound
      obtain ⟨last, hlast, hmore⟩ :=
        ih (fun other hother => htrimmed other (List.mem_cons_of_mem _ hother))
          hleft
      refine ⟨last, hlast, fun index steps => ?_⟩
      rw [List.cons_append, hstep, hmore, List.length_cons,
        Nat.add_right_comm, Nat.add_assoc]

/-- Steps without a text match anything. -/
theorem matchSteps_silent {silent : List (TurnStep Args)} {found : JsString}
    (hsilent : ∀ step ∈ silent, step.text = []) :
    ∃ left, trimStart left = trimStart found ∧ ∀ index steps,
        matchSteps found index (silent ++ steps) =
          matchSteps left (index + silent.length) steps := by
  have htrimmed : ∀ step ∈ silent, trim step.text = step.text := by
    intro step hstep
    rw [hsilent step hstep]
    rfl
  have hstreamed : Streamed found silent found := by
    clear htrimmed
    induction silent with
    | nil => exact .done
    | cons step more ih =>
        have hmore := ih fun other hother =>
          hsilent other (List.mem_cons_of_mem _ hother)
        have hstep :
            Streamed found (step :: more) ([] ++ step.text ++ found) :=
          .step step (fun c hc => absurd hc List.not_mem_nil) hmore
        rwa [hsilent step List.mem_cons_self] at hstep
  exact matchSteps_streamed htrimmed hstreamed rfl

theorem matchSteps_stops {step : TurnStep Args} {found : JsString}
    (hstop : ¬ step.text <+: trimStart found)
    (index : ℕ) (steps : List (TurnStep Args)) :
    matchSteps found index (step :: steps) = (found, index) := by
  rw [matchSteps, if_neg]
  rwa [List.isPrefixOf_iff_prefix]

variable {steps : List (TurnStep Args)}

theorem pendingContinuation_before {continuation left : JsString} {index : ℕ}
    (hfound : matchSteps continuation 0 steps = (left, index))
    (hindex : index < steps.length) :
    pendingContinuation continuation steps = ⟨left, index, false⟩ := by
  rw [pendingContinuation, hfound]
  exact if_pos hindex

theorem pendingContinuation_behind {continuation left : JsString}
    (hfound : matchSteps continuation 0 steps = (left, steps.length)) :
    pendingContinuation continuation steps =
      ⟨left, steps.length - 1, true⟩ := by
  rw [pendingContinuation, hfound]
  exact if_neg (lt_irrefl _)

/-! ## The steps with their texts -/

theorem planSteps_some {continuation : JsString}
    (hcontinuation : continuation ≠ []) (hsteps : steps ≠ []) :
    planSteps steps (some continuation) = steps.mapIdx
        (withContinuation (some (pendingContinuation continuation steps))) := by
  rw [planSteps, Option.filter_some, if_pos (by simpa using hcontinuation)]
  exact if_neg hsteps

/-- The text a continuation goes with. -/
def PendingContinuation.joined (pending : PendingContinuation)
    (text : JsString) : JsString :=
  if pending.after then trim (text ++ pending.text)
  else trim (pending.text ++ text)

theorem mapIdx_withContinuation
    {front back : List (TurnStep Args)} {step : TurnStep Args}
    {pending : PendingContinuation}
    (hstep : pending.step = front.length)
    (hblank : isBlank pending.text = false) :
    (front ++ step :: back).mapIdx (withContinuation (some pending)) =
      front ++ { step with text := pending.joined step.text } :: back := by
  have hother : ∀ (index : ℕ) (other : TurnStep Args), index ≠ front.length →
        withContinuation (some pending) index other = other := by
    intro index other hne
    simp only [withContinuation, hstep, ne_eq, hne, not_false_eq_true,
      decide_true, Bool.true_or, if_true]
  have hhere : withContinuation (some pending) front.length step =
        { step with text := pending.joined step.text } := by
    simp only [withContinuation, hstep, ne_eq, not_true_eq_false,
      decide_false, hblank, Bool.or_self, Bool.false_eq_true, if_false,
      PendingContinuation.joined]
    split <;> rfl
  rw [List.mapIdx_append, List.mapIdx_cons, Nat.zero_add, hhere]
  congr 1
  · refine List.ext_getElem (by simp) fun index h₁ h₂ => ?_
    rw [List.getElem_mapIdx]
    exact hother _ _ (by omega)
  · congr 1
    refine List.ext_getElem (by simp) fun index h₁ h₂ => ?_
    rw [List.getElem_mapIdx]
    exact hother _ _ (by omega)

/-! ## A resumed run -/

/-- A run that kept some steps over a reset and made others after it.  What
was streamed before the reset is the kept texts, a gap, and the text that was
cut off; no text of the resumed attempt starts it again. -/
structure Resumed (kept fresh : List (TurnStep Args))
    (gap cut continuation : JsString) : Prop where
  trimmed : ∀ step ∈ kept ++ fresh, trim step.text = step.text
  space : ∀ c ∈ gap, isSpace c = true
  streamed : Streamed (gap ++ cut) kept continuation
  visible : isBlank cut = false
  unmatched : ∀ step ∈ fresh, step.text ≠ [] → ¬ step.text <+: trimStart cut

namespace Resumed

variable {kept fresh : List (TurnStep Args)} {gap cut continuation : JsString}

theorem trimStart_gap (hresumed : Resumed kept fresh gap cut continuation) :
    trimStart (gap ++ cut) = trimStart cut :=
  trimStart_append_of_blank hresumed.space

theorem continuation_ne_nil
    (hresumed : Resumed kept fresh gap cut continuation) :
    continuation ≠ [] := by
  rintro rfl
  have hnil := List.suffix_nil.mp hresumed.streamed.suffix
  obtain ⟨-, rfl⟩ := List.append_eq_nil_iff.mp hnil
  cases hresumed.visible

theorem isBlank_left (hresumed : Resumed kept fresh gap cut continuation)
    {left : JsString} (hleft : trimStart left = trimStart cut) :
    isBlank left = false := by
  rw [← isBlank_trimStart, hleft, isBlank_trimStart, hresumed.visible]

/-- The kept steps and the silent ones behind them are passed over. -/
theorem matchSteps_kept (hresumed : Resumed kept fresh gap cut continuation)
    {silent : List (TurnStep Args)}
    (hsilent : ∀ step ∈ silent, step.text = []) :
    ∃ left, trimStart left = trimStart cut ∧ ∀ steps,
        matchSteps continuation 0 (kept ++ (silent ++ steps)) =
          matchSteps left (kept.length + silent.length) steps := by
  obtain ⟨behind, hbehind, hkept⟩ := matchSteps_streamed (fun step hstep =>
        hresumed.trimmed step (List.mem_append_left _ hstep))
      hresumed.streamed rfl
  obtain ⟨left, hleft, hpast⟩ : ∃ left, trimStart left = trimStart behind ∧
        ∀ index steps, matchSteps behind index (silent ++ steps) =
            matchSteps left (index + silent.length) steps :=
    matchSteps_silent hsilent
  refine ⟨left, hleft.trans (hbehind.trans hresumed.trimStart_gap), ?_⟩
  intro steps
  rw [hkept, hpast, Nat.zero_add]

/-- The cut-off text goes in front of the first text behind the kept steps. -/
theorem planSteps_inFront (hresumed : Resumed kept fresh gap cut continuation)
    {silent rest : List (TurnStep Args)} {first : TurnStep Args}
    (hfresh : fresh = silent ++ first :: rest)
    (hsilent : ∀ step ∈ silent, step.text = [])
    (hfirst : first.text = [] → rest = []) :
    planSteps (kept ++ fresh) (some continuation) = (kept ++ silent) ++
        { first with text := trim (cut ++ first.text) } :: rest := by
  subst hfresh
  obtain ⟨left, hleft, hmatch⟩ := hresumed.matchSteps_kept hsilent
  have hsteps : kept ++ (silent ++ first :: rest) =
        (kept ++ silent) ++ first :: rest := by
    rw [List.append_assoc]
  have hjoined : ∀ text, trim (left ++ text) = trim (cut ++ text) :=
    fun text => trim_append_congr hleft
  rw [planSteps_some hresumed.continuation_ne_nil (by simp)]
  by_cases hempty : first.text = []
  · obtain rfl := hfirst hempty
    have hfound : trimStart left = trimStart (first.text ++ left) := by
      rw [hempty, List.nil_append]
    obtain ⟨last, hlast, -, hstep⟩ :=
      matchSteps_step (hresumed.trimmed first (by simp)) hfound
    have hpending :
        pendingContinuation continuation ((kept ++ silent) ++ [first]) =
          ⟨last, (kept ++ silent).length, true⟩ := by
      rw [pendingContinuation_behind]
      · rw [List.length_append, List.length_singleton, Nat.add_sub_cancel]
      · rw [List.append_assoc, hmatch, hstep, matchSteps, ← List.append_assoc,
          List.length_append, List.length_append, List.length_singleton]
    rw [hsteps, hpending,
      mapIdx_withContinuation rfl (hresumed.isBlank_left (hlast.trans hleft)),
      PendingContinuation.joined, if_pos rfl, hempty, List.nil_append,
      List.append_nil, trim_eq_of_trimStart (hlast.trans hleft)]
  · have hstop : ¬ first.text <+: trimStart left := by
      rw [hleft]
      exact hresumed.unmatched first (by simp) hempty
    have hpending :
        pendingContinuation continuation ((kept ++ silent) ++ first :: rest) =
          ⟨left, (kept ++ silent).length, false⟩ := by
      apply pendingContinuation_before
      · rw [List.append_assoc, hmatch, matchSteps_stops hstop,
          List.length_append]
      · simp only [List.length_append, List.length_cons]
        omega
    rw [hsteps, hpending,
      mapIdx_withContinuation rfl (hresumed.isBlank_left hleft),
      PendingContinuation.joined, if_neg Bool.false_ne_true, hjoined]

/-- With no step behind the kept ones, it goes behind the last of them. -/
theorem planSteps_behind (hresumed : Resumed kept fresh gap cut continuation)
    {front : List (TurnStep Args)} {last : TurnStep Args}
    (hkept : kept = front ++ [last]) (hfresh : fresh = []) :
    planSteps (kept ++ fresh) (some continuation) =
      front ++ [{ last with text := trim (last.text ++ (gap ++ cut)) }] := by
  subst hkept hfresh
  obtain ⟨space, hspace, hstreamed⟩ := hresumed.streamed.concat
  have htrimmed : ∀ step ∈ front ++ [last], trim step.text = step.text :=
    fun step hstep => hresumed.trimmed step (List.mem_append_left _ hstep)
  obtain ⟨behind, hbehind, hfront⟩ := matchSteps_streamed
      (fun step hstep => htrimmed step (List.mem_append_left _ hstep))
      hstreamed rfl
  rw [List.append_assoc, trimStart_append_of_blank hspace] at hbehind
  obtain ⟨left, hleft, hexact, hstep⟩ :=
    matchSteps_step (htrimmed last (by simp)) hbehind
  have hcut := hleft.trans hresumed.trimStart_gap
  have hpending : pendingContinuation continuation (front ++ [last]) =
        ⟨left, front.length, true⟩ := by
    rw [pendingContinuation_behind]
    · rw [List.length_append, List.length_singleton, Nat.add_sub_cancel]
    · rw [hfront, hstep, matchSteps, Nat.zero_add, List.length_append,
        List.length_singleton]
  have htext :
      trim (last.text ++ left) = trim (last.text ++ (gap ++ cut)) := by
    by_cases hempty : last.text = []
    · rw [hempty, List.nil_append, List.nil_append, trim_eq_of_trimStart hleft]
    · rw [hexact hempty]
  rw [List.append_nil, planSteps_some hresumed.continuation_ne_nil (by simp),
    hpending, mapIdx_withContinuation rfl (hresumed.isBlank_left hcut),
    PendingContinuation.joined, if_pos rfl, htext]

theorem planSteps_alone (hresumed : Resumed kept fresh gap cut continuation)
    (hkept : kept = []) (hfresh : fresh = []) :
    planSteps (kept ++ fresh) (some continuation) = [⟨trim cut, []⟩] := by
  have hne := hresumed.continuation_ne_nil
  subst hkept hfresh
  have hstreamed := hresumed.streamed
  cases hstreamed
  rw [List.append_nil, planSteps, Option.filter_some,
    if_pos (decide_eq_true hne)]
  exact congrArg (fun text => [(⟨text, []⟩ : TurnStep Args)])
    (trim_eq_of_trimStart hresumed.trimStart_gap)

end Resumed

/-! ## The draft of a resumed run -/

section Draft

variable (results : TurnResults Args Handed A F R H) (surface : Surface)

/-- What the calls of these steps deliver, with the paths sent before. -/
def calledFrom (sentPaths : List String) :
    List (TurnStep Args) → List (ReplyContent A F R H)
  | [] => []
  | step :: steps =>
      let called := callsParts results sentPaths step.toolCalls
      called.1 ++ calledFrom called.2 steps

def pathsAfter (sentPaths : List String) : List (TurnStep Args) → List String
  | [] => sentPaths
  | step :: steps =>
      pathsAfter (callsParts results sentPaths step.toolCalls).2 steps

theorem pathsAfter_append
    (sentPaths : List String) (front back : List (TurnStep Args)) :
    pathsAfter results sentPaths (front ++ back) =
      pathsAfter results (pathsAfter results sentPaths front) back := by
  induction front generalizing sentPaths with
  | nil => rfl
  | cons step front ih => exact ih _

/-- Each part of a plan stands with its step. -/
theorem draftFrom_append (later : Bool) (index : ℕ) (sentPaths : List String)
    (front back : List (TurnStep Args)) :
    draftFrom results surface later index sentPaths (front ++ back) =
      draftFrom results surface (later || back.any speaks) index sentPaths
          front ++
        draftFrom results surface later (index + front.length)
          (pathsAfter results sentPaths front) back := by
  induction front generalizing index sentPaths with
  | nil => rfl
  | cons step front ih =>
      have hmore : (later || (front ++ back).any speaks) =
            (later || back.any speaks || front.any speaks) := by
        rw [List.any_append, Bool.or_assoc, Bool.or_comm (back.any _)]
      have hindex :
          index + (step :: front).length = index + 1 + front.length := by
        rw [List.length_cons]
        omega
      simp only [List.cons_append, draftFrom, ih, hmore, hindex, pathsAfter,
        List.append_assoc]

theorem textParts_of_blank {index : ℕ} {saysMore : Bool} {step : TurnStep Args}
    (hblank : isBlank step.text = true) :
    (textParts surface index saysMore step : List (DraftPart A F R H)) = [] :=
  if_pos (Or.inl hblank)

/-- Steps without a text or a part leave the plan as it is. -/
theorem draftFrom_silent
    {silent : List (TurnStep Args)} (later : Bool) (index : ℕ)
    (sentPaths : List String)
    (hsilent : ∀ step ∈ silent, step.text = [])
    (hcalled : calledFrom results sentPaths silent = []) :
    draftFrom results surface later index sentPaths silent = [] := by
  induction silent generalizing index sentPaths with
  | nil => rfl
  | cons step silent ih =>
      obtain ⟨hhere, hothers⟩ := List.append_eq_nil_iff.mp hcalled
      have hblank : isBlank step.text = true := by
        rw [hsilent step List.mem_cons_self]
        rfl
      rw [draftFrom, textParts_of_blank surface hblank, hhere,
        ih _ _ (fun other hother =>
          hsilent other (List.mem_cons_of_mem _ hother)) hothers]
      rfl

/-- Where a plan delivers a text that was cut off: in front of the first text
of the resumed attempt and of the parts of its steps, or, where the attempt
made no step, behind the last kept text.  The kept steps are delivered as
ever.  A fresh step in front of that first text has no part of its own. -/
structure InPlace (kept fresh : List (TurnStep Args)) (gap cut : JsString)
    (draft : List (DraftPart A F R H)) : Prop where
  inFront : ∀ silent first rest, fresh = silent ++ first :: rest →
    (∀ step ∈ silent, step.text = []) →
    (first.text = [] → rest = []) →
    calledFrom results (pathsAfter results [] kept) silent = [] →
    let index := kept.length + silent.length
    let paths := pathsAfter results [] (kept ++ silent)
    let called := callsParts results paths first.toolCalls
    draft = draftFrom results surface true 0 [] kept ++
      (textParts surface index (rest.any speaks || createsArtifact first)
          { first with text := trim (cut ++ first.text) } ++
        called.1.map .content ++
        draftFrom results surface false (index + 1) called.2 rest)
  behind : ∀ front last, fresh = [] → kept = front ++ [last] →
    let paths := pathsAfter results [] front
    draft = draftFrom results surface true 0 [] front ++
      (textParts surface front.length (createsArtifact last)
          { last with text := trim (last.text ++ (gap ++ cut)) } ++
        (callsParts results paths last.toolCalls).1.map .content)
  alone : fresh = [] → kept = [] →
    draft = textParts surface 0 false (⟨trim cut, []⟩ : TurnStep Args)

theorem speaks_of_visible {step : TurnStep Args} {text : JsString}
    (hvisible : isBlank text = false) :
    speaks { step with text := text } = true := by
  rw [speaks, hvisible]
  rfl

/-- A continuation is delivered once and in place. -/
theorem draftReplyPlan_inPlace
    {kept fresh : List (TurnStep Args)} {gap cut continuation : JsString}
    (hresumed : Resumed kept fresh gap cut continuation) :
    InPlace results surface kept fresh gap cut
      (draftReplyPlan results surface (kept ++ fresh) (some continuation)) where
  inFront := by
    intro silent first rest hfresh hsilent hfirst hcalled index paths called
    have hvisible : isBlank (trim (cut ++ first.text)) = false := by
      rw [isBlank_trim, isBlank_append, hresumed.visible, Bool.false_and]
    have hpaths :
        paths = pathsAfter results (pathsAfter results [] kept) silent :=
      pathsAfter_append results [] kept silent
    have hlater : (false ||
          (silent ++ { first with text := trim (cut ++ first.text) } ::
            rest).any speaks) = true := by
      rw [List.any_append, List.any_cons, speaks_of_visible hvisible,
        Bool.true_or, Bool.or_true, Bool.or_true]
    rw [draftReplyPlan, hresumed.planSteps_inFront hfresh hsilent hfirst,
      List.append_assoc, draftFrom_append, draftFrom_append,
      draftFrom_silent results surface _ _ _ hsilent hcalled, ← hpaths,
      hlater, Nat.zero_add, List.nil_append, draftFrom, Bool.false_or]
    rfl
  behind := by
    intro front last hfresh hkept paths
    have hvisible : isBlank (trim (last.text ++ (gap ++ cut))) = false := by
      rw [isBlank_trim, isBlank_append, isBlank_append, hresumed.visible,
        Bool.and_false, Bool.and_false]
    rw [draftReplyPlan, hresumed.planSteps_behind hkept hfresh,
      draftFrom_append, List.any_cons, speaks_of_visible hvisible,
      Nat.zero_add]
    congr 1
    rw [draftFrom, draftFrom, List.append_nil]
    rfl
  alone := by
    intro hfresh hkept
    rw [draftReplyPlan, hresumed.planSteps_alone hkept hfresh]
    simp [draftFrom, callsParts, createsArtifact]

end Draft

/-! ## A run reset behind a line of narration -/

def keptSteps : List (TurnStep String) :=
  [⟨utf16 "Checking your calendar.".toList, [⟨"c1", "calendar_list", ""⟩]⟩]

/-- The resumed attempt calls a tool again before it says anything. -/
def freshSteps : List (TurnStep String) :=
  [⟨[], [⟨"c2", "calendar_list", ""⟩]⟩, ⟨utf16 "14 meetings.".toList, []⟩]

def cutText : JsString := utf16 "You have ".toList

def streamedText : JsString :=
  utf16 "Checking your calendar.\n\nYou have ".toList

/-- No call of the run left a result. -/
def noResults : TurnResults String String String String String String where
  toolResults := fun _ => none
  toolArtifacts := fun _ => none
  createArtifactArgs := fun _ => none
  createArtifactResult := fun _ => none
  preparedReference := fun _ => none
  preparedSummary := fun _ => none
  title := fun _ => []
  preparedAction := fun _ => none
  sentFile := fun _ => none

/-- A surface that takes a text as one paragraph. -/
def plainSurface : Surface where
  segmenters := plainSegmenters
  lexer := fun text => [⟨.other, text, text, []⟩]
  limits := limitsOf 1000 400 8
  canSpill := false

theorem resumed :
    Resumed keptSteps freshSteps blankLine cutText streamedText where
  trimmed := by decide +kernel
  space := @of_decide_eq_true _ (List.decidableBAll _ _) rfl
  streamed := by
    have hstep : Streamed (blankLine ++ cutText) keptSteps
          ([] ++ utf16 "Checking your calendar.".toList ++
            (blankLine ++ cutText)) :=
      .step _ nofun .done
    have hstreamed : streamedText =
          [] ++ utf16 "Checking your calendar.".toList ++
            (blankLine ++ cutText) := by
      decide +kernel
    rwa [hstreamed]
  visible := by decide +kernel
  unmatched := by decide +kernel

theorem draftReplyPlan_inPlace_resumed :
    InPlace noResults plainSurface keptSteps freshSteps blankLine cutText
      (draftReplyPlan noResults plainSurface (keptSteps ++ freshSteps)
        (some streamedText)) :=
  draftReplyPlan_inPlace noResults plainSurface resumed

def DraftPart.text? {A F R H : Type} : DraftPart A F R H → Option JsString
  | .content (.text text) => some text
  | .content (.artifact _) | .content (.file _) | .content (.action _)
  | .content (.hubAction _ _) | .spill _ _ => none

/-- A short kept line before a call is dropped: the plan holds the cut-off
text, and not the line. -/
theorem kept_narration_left_out :
    Resumed keptSteps freshSteps blankLine cutText streamedText ∧
    (draftReplyPlan noResults plainSurface (keptSteps ++ freshSteps)
        (some streamedText)).map DraftPart.text? =
      [some (utf16 "You have 14 meetings.".toList)] ∧
    ¬ ∃ step ∈ keptSteps, ∃ text ∈
      (draftReplyPlan noResults plainSurface (keptSteps ++ freshSteps)
        (some streamedText)).filterMap DraftPart.text?,
      step.text <:+: text :=
  ⟨resumed, by decide +kernel, by decide +kernel⟩

end ReplyPlan
end QiForge
