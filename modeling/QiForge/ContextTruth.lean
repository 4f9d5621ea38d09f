import QiForge.ContextPruning

/-!
# What the guard's passes promise

A pass keeps its promises exactly when it spares, for every reference it
writes or leaves, some later result with the same text that no pass has
replaced, when it replaces no stub that alone says how a result is read back,
and when it replaces no message with an empty id.
-/

namespace QiForge
namespace ContextGuard
namespace Request

section Truth

variable (dateParse : JsString → Option ℤ) (budget : ContextBudget)
  (readResultChars : Option ℕ) (request : Request)

/-- A later result with the same text is in the request in full. -/
def Backed (pass : Applied) (earlier : List Applied) (index : ℕ) : Prop :=
  ∃ later, index < later ∧ SameResult request.messages index later ∧
    request.mark dateParse budget readResultChars (pass :: earlier) later =
      none ∧
    pass.after[later]? = request.messages[later]?

/-- What a pass promises, after those made before it. -/
structure TellsTruth (pass : Applied) (earlier : List Applied) : Prop where
  length : pass.after.length = pass.before.length
  others : ∀ (index : ℕ) message, pass.before[index]? = some message →
    (∀ result, message = .tool result → request.keep result = true) →
    pass.after[index]? = some message
  tail : ∀ options, pass.stage.options = some options →
    ∀ index : ℕ, pass.before.length ≤ index + options.keepTail →
      pass.after[index]? = pass.before[index]?
  identity : ∀ (index : ℕ) result, pass.before[index]? = some (.tool result) →
    ∃ shown, pass.after[index]? = some (.tool shown) ∧ shown.id = result.id ∧
      shown.toolCallId = result.toolCallId ∧
      shown.status = result.status
  references : ∀ index,
    request.mark dateParse budget readResultChars (pass :: earlier) index =
      some .duplicate →
    request.Backed dateParse budget readResultChars pass earlier index
  handles : ∀ (index : ℕ) result id,
    pass.before[index]? = some (.tool result) →
    result.readable readResultChars
        (request.mark dateParse budget readResultChars earlier index) =
      some id →
    (∃ shown, pass.after[index]? = some (.tool shown) ∧
      shown.readable readResultChars
          (request.mark dateParse budget readResultChars (pass :: earlier)
            index) =
        some id ∧
      (Applied.reason dateParse budget readResultChars request pass index ≠
          none →
        id <:+: textOf shown.content)) ∨
    Applied.reason dateParse budget readResultChars request pass index =
        some .duplicate ∧
      request.Backed dateParse budget readResultChars pass earlier index

/-- Before the pass: a later result with the same text that no pass has
replaced and this one has no reason to. -/
def Spared (pass : Applied) (earlier : List Applied) (index : ℕ) : Prop :=
  ∃ later, index < later ∧ SameResult request.messages index later ∧
    request.mark dateParse budget readResultChars earlier later = none ∧
    Applied.reason dateParse budget readResultChars request pass later = none

/-- When a pass keeps its promises, by the messages before it. -/
structure Spares (pass : Applied) (earlier : List Applied) : Prop where
  ids : ∀ (index : ℕ) result, pass.before[index]? = some (.tool result) →
    Applied.reason dateParse budget readResultChars request pass index ≠ none →
    result.id ≠ some []
  duplicates : ∀ index,
    Applied.reason dateParse budget readResultChars request pass index =
      some .duplicate →
    request.Spared dateParse budget readResultChars pass earlier index
  references : ∀ index,
    request.mark dateParse budget readResultChars earlier index =
      some .duplicate →
    Applied.reason dateParse budget readResultChars request pass index = none →
    request.Spared dateParse budget readResultChars pass earlier index
  stubs : ∀ (index : ℕ) result, pass.before[index]? = some (.tool result) →
    request.mark dateParse budget readResultChars earlier index = some .stale →
    Applied.reason dateParse budget readResultChars request pass index =
      some .pruned →
    readResultChars ≠ none →
    result.capped.join = none →
    result.toolCallId = []

/-- A condition on each pass and those before it. -/
def EveryPass (condition : Applied → List Applied → Prop) : List Applied → Prop
  | [] => True
  | pass :: earlier =>
      condition pass earlier ∧ EveryPass condition earlier

end Truth

section Linked

variable {dateParse : JsString → Option ℤ} {budget : ContextBudget}
  {readResultChars : Option ℕ} {request : Request}
  {pass : Applied} {earlier : List Applied}

variable {index : ℕ}

theorem mark_cons_eq_none :
    request.mark dateParse budget readResultChars (pass :: earlier) index =
        none ↔
      Applied.reason dateParse budget readResultChars request pass index =
          none ∧
        request.mark dateParse budget readResultChars earlier index =
          none := by
  simp only [mark, Option.or_eq_none_iff]

theorem mark_cons_of_some {reason : Reason} (hreason :
      Applied.reason dateParse budget readResultChars request pass index =
        some reason) :
    request.mark dateParse budget readResultChars (pass :: earlier) index =
      some reason := by
  simp only [mark, hreason, Option.some_or]

theorem mark_cons_of_none (hreason :
      Applied.reason dateParse budget readResultChars request pass index =
        none) :
    request.mark dateParse budget readResultChars (pass :: earlier) index =
      request.mark dateParse budget readResultChars earlier index := by
  simp only [mark, hreason, Option.none_or]

/-- A message no pass has replaced is the one the request came with. -/
theorem Linked.untouched {passes : List Applied}
    (hlinked : request.Linked dateParse budget readResultChars passes)
    (huntouched :
      request.mark dateParse budget readResultChars passes index = none) :
    (request.latest passes)[index]? = request.messages[index]? := by
  induction passes with
  | nil => rfl
  | cons pass earlier ih =>
      obtain ⟨hbefore, hafter, hearlier⟩ := hlinked
      obtain ⟨hreason, huntouched⟩ := mark_cons_eq_none.mp huntouched
      have hsame := ih hearlier huntouched
      rw [← hbefore] at hsame
      simp only [latest]
      rw [hafter, hreason, ← hsame]
      cases pass.before[index]? with
      | none => rfl
      | some message => simp only [Option.map_some, rewritten_none]

/-- Only results that are not kept are replaced. -/
theorem reason_eq_none_of_kept {message : Message}
    (hbefore : pass.before[index]? = some message)
    (hkept : ∀ result, message = .tool result → request.keep result = true) :
    Applied.reason dateParse budget readResultChars request pass index =
      none := by
  simp only [Applied.reason, reasonAt, hbefore, Option.bind_some]
  cases message with
  | human _ | ai _ _ _ | other _ _ =>
      cases pass.stage.options with
      | none => simp only [staleReason, staleStub, Option.map_none, ite_self]
      | some options => simp only [pruneReason]
  | tool result =>
      have hkeep := hkept result rfl
      cases pass.stage.options with
      | none =>
          simp only [staleReason, staleStub, trimOptions, hkeep, ↓reduceIte,
            Option.map_none, ite_self]
      | some options => simp only [pruneReason, hkeep, ↓reduceIte]

/-- Nor is anything in the kept tail. -/
theorem reason_eq_none_of_tail {options : PruneOptions}
    (hoptions : pass.stage.options = some options)
    (htail : pass.before.length ≤ index + options.keepTail) :
    Applied.reason dateParse budget readResultChars request pass index =
      none := by
  simp only [Applied.reason, reasonAt, hoptions]
  cases hbefore : pass.before[index]? with
  | none => rfl
  | some message =>
      have hcutoff : pass.before.length - options.keepTail ≤ index := by omega
      cases message with
      | human _ | ai _ _ _ | other _ _ =>
          simp only [Option.bind_some, pruneReason]
      | tool result =>
          simp only [Option.bind_some, pruneReason, hcutoff, ↓reduceIte,
            ite_self]

variable (hlinked :
    request.Linked dateParse budget readResultChars (pass :: earlier))

include hlinked

theorem Linked.getElem?_tool {result : ToolMessage}
    (hbefore : pass.before[index]? = some (.tool result)) :
    pass.after[index]? = some (rewritten readResultChars
        (Applied.reason dateParse budget readResultChars request pass index)
        (.tool result)) := by
  rw [hlinked.2.1, hbefore, Option.map_some]

theorem Linked.getElem?_of_none (hreason :
      Applied.reason dateParse budget readResultChars request pass index =
        none) :
    pass.after[index]? = pass.before[index]? := by
  rw [hlinked.2.1, hreason]
  cases pass.before[index]? with
  | none => rfl
  | some message => simp only [Option.map_some, rewritten_none]

theorem Linked.length_eq : pass.after.length = pass.before.length := by
  have hnone (index : ℕ) :
      pass.after.length ≤ index ↔ pass.before.length ≤ index := by
    rw [← List.getElem?_eq_none_iff, ← List.getElem?_eq_none_iff,
      hlinked.2.1, Option.map_eq_none_iff]
  exact Nat.le_antisymm ((hnone _).mpr le_rfl) ((hnone _).mp le_rfl)

theorem Linked.backed_iff :
    request.Backed dateParse budget readResultChars pass earlier index ↔
      request.Spared dateParse budget readResultChars pass earlier index := by
  constructor
  · rintro ⟨later, hlater, hsame, huntouched, -⟩
    obtain ⟨hreason, hearlier⟩ := mark_cons_eq_none.mp huntouched
    exact ⟨later, hlater, hsame, hearlier, hreason⟩
  · rintro ⟨later, hlater, hsame, hearlier, hreason⟩
    have huntouched :
        request.mark dateParse budget readResultChars (pass :: earlier)
          later = none :=
      mark_cons_eq_none.mpr ⟨hreason, hearlier⟩
    exact ⟨later, hlater, hsame, huntouched, hlinked.untouched huntouched⟩

/-! ## Promises and conditions, one by one -/

theorem Linked.identity_iff : (∀ (index : ℕ) result,
      pass.before[index]? = some (.tool result) →
      ∃ shown, pass.after[index]? = some (.tool shown) ∧ shown.id = result.id ∧
        shown.toolCallId = result.toolCallId ∧
        shown.status = result.status) ↔
      ∀ (index : ℕ) result, pass.before[index]? = some (.tool result) →
        Applied.reason dateParse budget readResultChars request pass index ≠
          none →
        result.id ≠ some [] := by
  constructor
  · rintro hidentity index result hbefore hreason hempty
    obtain ⟨shown, hshown, hid, -⟩ := hidentity index result hbefore
    rw [hlinked.getElem?_tool hbefore] at hshown
    obtain ⟨reason, hreason⟩ := Option.ne_none_iff_exists'.mp hreason
    rw [hreason] at hshown
    obtain rfl := Message.tool.inj (Option.some.inj hshown)
    rw [hempty] at hid
    have hfiltered : (placeholder result reason
        (bodyOf readResultChars result reason)).id = none := by
      simp only [placeholder, hempty]
      rfl
    rw [hfiltered] at hid
    cases hid
  · intro hids index result hbefore
    have hafter := hlinked.getElem?_tool hbefore
    cases hreason :
      Applied.reason dateParse budget readResultChars request pass index with
    | none =>
        rw [hreason] at hafter
        exact ⟨result, hafter, rfl, rfl, rfl⟩
    | some reason =>
        rw [hreason] at hafter
        refine ⟨_, hafter, ?_, rfl, rfl⟩
        have hid : result.id ≠ some [] :=
          hids index result hbefore (by simp [hreason])
        cases hresult : result.id with
        | none => simp only [placeholder, hresult, Option.filter_none]
        | some id =>
            have hne : id ≠ [] := fun h => hid (by rw [hresult, h])
            simp only [placeholder, hresult, Option.filter_some, hne,
              ne_eq, not_false_eq_true, decide_true, ↓reduceIte]

theorem Linked.references_iff : (∀ index,
      request.mark dateParse budget readResultChars (pass :: earlier) index =
        some .duplicate →
      request.Backed dateParse budget readResultChars pass earlier index) ↔
      (∀ index,
        Applied.reason dateParse budget readResultChars request pass index =
          some .duplicate →
        request.Spared dateParse budget readResultChars pass earlier index) ∧
      ∀ index, request.mark dateParse budget readResultChars earlier index =
          some .duplicate →
        Applied.reason dateParse budget readResultChars request pass index =
          none →
        request.Spared dateParse budget readResultChars pass earlier
          index := by
  constructor
  · intro hreferences
    constructor
    · intro index hreason
      exact hlinked.backed_iff.mp
        (hreferences index (mark_cons_of_some hreason))
    · intro index hmark hreason
      exact hlinked.backed_iff.mp
        (hreferences index ((mark_cons_of_none hreason).trans hmark))
  · rintro ⟨hduplicates, hleft⟩ index hmark
    rw [hlinked.backed_iff]
    cases hreason :
      Applied.reason dateParse budget readResultChars request pass index with
    | none =>
        rw [mark_cons_of_none hreason] at hmark
        exact hleft index hmark hreason
    | some reason =>
        rw [mark_cons_of_some hreason] at hmark
        rw [hmark] at hreason
        exact hduplicates index hreason

/-- A stub that names the saved copy can be replaced, one that names the tool
call cannot. -/
theorem Linked.handles_iff (hduplicates : ∀ index,
        Applied.reason dateParse budget readResultChars request pass index =
          some .duplicate →
        request.Spared dateParse budget readResultChars pass earlier index) :
    (∀ (index : ℕ) result id, pass.before[index]? = some (.tool result) →
      result.readable readResultChars
          (request.mark dateParse budget readResultChars earlier index) =
        some id →
      (∃ shown, pass.after[index]? = some (.tool shown) ∧
        shown.readable readResultChars
            (request.mark dateParse budget readResultChars (pass :: earlier)
              index) =
          some id ∧
        (Applied.reason dateParse budget readResultChars request pass index ≠
            none →
          id <:+: textOf shown.content)) ∨
      Applied.reason dateParse budget readResultChars request pass index =
          some .duplicate ∧
        request.Backed dateParse budget readResultChars pass earlier index) ↔
      ∀ (index : ℕ) result, pass.before[index]? = some (.tool result) →
        request.mark dateParse budget readResultChars earlier index =
          some .stale →
        Applied.reason dateParse budget readResultChars request pass index =
          some .pruned →
        readResultChars ≠ none →
        result.capped.join = none →
        result.toolCallId = [] := by
  constructor
  · intro hhandles index result hbefore hmark hreason hbound hsaved
    by_contra hcall
    obtain ⟨length, hlength⟩ := Option.ne_none_iff_exists'.mp hbound
    have hreadable : result.readable readResultChars
            (request.mark dateParse budget readResultChars earlier index) =
          some result.toolCallId := by
      rw [hmark, hlength]
      exact ToolMessage.stub_handle hsaved hcall
    rcases hhandles index result _ hbefore hreadable with
      ⟨shown, hshown, hnamed, -⟩ | ⟨hduplicate, -⟩
    · rw [hlinked.getElem?_tool hbefore, hreason] at hshown
      obtain rfl := Message.tool.inj (Option.some.inj hshown)
      rw [mark_cons_of_some hreason, ToolMessage.placeholder_readable,
        hlength] at hnamed
      have hnone : result.savedId = none := by
        rw [ToolMessage.savedId, hsaved, Option.filter_none]
      have hsome : result.savedId = some result.toolCallId := hnamed
      rw [hnone] at hsome
      cases hsome
    · rw [hreason] at hduplicate
      cases hduplicate
  · intro hstubs index result id hbefore hreadable
    obtain ⟨length, hlength, hhandle⟩ := Option.bind_eq_some_iff.mp hreadable
    have hafter := hlinked.getElem?_tool hbefore
    cases hreason :
      Applied.reason dateParse budget readResultChars request pass index with
    | none =>
        rw [hreason, rewritten_none] at hafter
        refine Or.inl ⟨result, hafter, ?_, fun hne => absurd rfl hne⟩
        rw [mark_cons_of_none hreason]
        exact hreadable
    | some reason =>
        rw [hreason] at hafter
        cases reason with
        | duplicate =>
            exact Or.inr
              ⟨rfl, hlinked.backed_iff.mpr (hduplicates index hreason)⟩
        | stale =>
            have hstale :
                result.readable readResultChars (some .stale) = some id := by
              rw [hlength]
              exact ToolMessage.handle_stale hhandle
            refine Or.inl ⟨_, hafter, ?_, fun _ =>
              ToolMessage.readable_named hstale⟩
            rw [mark_cons_of_some hreason, ToolMessage.placeholder_readable,
              hstale]
        | pruned =>
            rcases ToolMessage.handle_pruned hhandle with
              hpruned | ⟨hmark, hsaved, hcall⟩
            · have hshown : result.readable readResultChars (some .pruned) =
                    some id := by
                rw [hlength]
                exact hpruned
              refine Or.inl ⟨_, hafter, ?_, fun _ =>
                ToolMessage.readable_named hshown⟩
              rw [mark_cons_of_some hreason,
                ToolMessage.placeholder_readable, hshown]
            · exact absurd (hstubs index result hbefore hmark hreason
                (by simp [hlength]) hsaved) hcall

/-- A pass keeps its promises exactly when it spares what they rest on. -/
theorem Linked.tellsTruth_iff :
    request.TellsTruth dateParse budget readResultChars pass earlier ↔
      request.Spares dateParse budget readResultChars pass earlier := by
  constructor
  · intro htruth
    obtain ⟨hduplicates, hreferences⟩ :=
      hlinked.references_iff.mp htruth.references
    exact
      { ids := hlinked.identity_iff.mp htruth.identity
        duplicates := hduplicates
        references := hreferences
        stubs := (hlinked.handles_iff hduplicates).mp htruth.handles }
  · intro hspares
    exact
      { length := hlinked.length_eq
        others := by
          intro index message hbefore hkept
          rw [hlinked.getElem?_of_none
            (reason_eq_none_of_kept hbefore hkept), hbefore]
        tail := by
          intro options hoptions index htail
          exact hlinked.getElem?_of_none
            (reason_eq_none_of_tail hoptions htail)
        identity := hlinked.identity_iff.mpr hspares.ids
        references := hlinked.references_iff.mpr
            ⟨hspares.duplicates, hspares.references⟩
        handles := (hlinked.handles_iff hspares.duplicates).mpr hspares.stubs }

end Linked

section Run

variable {dateParse : JsString → Option ℤ} {budget : ContextBudget}
  {readResultChars : Option ℕ} {request : Request}

theorem Linked.everyPass_iff {passes : List Applied}
    (hlinked : request.Linked dateParse budget readResultChars passes) :
    EveryPass (request.TellsTruth dateParse budget readResultChars) passes ↔
      EveryPass (request.Spares dateParse budget readResultChars) passes := by
  induction passes with
  | nil => exact Iff.rfl
  | cons pass earlier ih =>
      exact and_congr hlinked.tellsTruth_iff (ih hlinked.2.2)

/-- Every pass the guard makes over one request keeps its promises exactly
when every pass spares what they rest on. -/
theorem wrapModelCall_tellsTruth_iff
    {R F : Type} (dateParse : JsString → Option ℤ) (budget : ContextBudget)
    (readResultChars : Option ℕ) (request : Request) (staleReported : Bool)
    (answer again : Answer R F) :
    EveryPass (request.TellsTruth dateParse budget readResultChars)
        (request.wrapModelCall dateParse budget readResultChars staleReported
          answer again).guarding.applied ↔
      EveryPass (request.Spares dateParse budget readResultChars)
        (request.wrapModelCall dateParse budget readResultChars staleReported
          answer again).guarding.applied :=
  (wrapModelCall_tracks staleReported answer again).linked.everyPass_iff

/-- A reference tells no truth when every later result with the same text has
been replaced. -/
theorem not_tellsTruth_of_replaced {passes : List Applied} {index : ℕ} (hmark :
      request.mark dateParse budget readResultChars passes index =
        some .duplicate)
    (hreplaced : ∀ later < request.messages.length, index < later →
        SameResult request.messages index later →
        request.mark dateParse budget readResultChars passes later ≠ none) :
    ¬ EveryPass (request.TellsTruth dateParse budget readResultChars)
      passes := by
  intro htruth
  cases passes with
  | nil => cases hmark
  | cons pass earlier =>
      obtain ⟨later, hlater, hsame, huntouched, -⟩ :=
        htruth.1.references index hmark
      have hlength : later < request.messages.length := by
        by_contra hlong
        obtain ⟨hsome, htext⟩ := hsame
        have hnone : toolTextAt request.messages later = none := by
          rw [toolTextAt, List.getElem?_eq_none (by omega)]
        rw [← htext, hnone] at hsome
        cases hsome
      exact hreplaced later hlength hlater hsame huntouched

end Run

/-! ## The same result twice -/

def repeatedResult (call : String) : Message := .tool
    { id := some (str call)
      toolCallId := str call
      name := some (str "fetch")
      status := some .success
      content := .text (List.replicate 700 (UInt16.ofNat 83))
      capped := none
      usageCarried := []
      pruned := none }

/-- A question, the same long result twice, and ten short messages. -/
def repeatedRequest : Request where
  messages := .human ⟨none, .text (str "fetch it twice"), none, false, none⟩ ::
      repeatedResult "a" :: repeatedResult "b" ::
      List.replicate 10 (.ai none (.text (str "noted")) none)
  systemTokens := 100
  schemaTokens := 0
  loadedPlugins := none

def repeatedBudget : ContextBudget where
  windowTokens := 1000
  pruneAtTokens := 350
  requestCapTokens := 950
  staleResultTurns := 2
  cacheColdMs := 2100000

def repeatedPasses : List Applied :=
  (repeatedRequest.wrapModelCall (fun _ => none) repeatedBudget (some 16000)
    false (.response () : Answer Unit Unit) (.response ())).guarding.applied

/-- The earlier result refers to the later one, which is pruned. -/
theorem not_tellsTruth_repeated : ¬ EveryPass
      (repeatedRequest.TellsTruth (fun _ => none) repeatedBudget (some 16000))
      repeatedPasses :=
  not_tellsTruth_of_replaced (show
      repeatedRequest.mark (fun _ => none) repeatedBudget (some 16000)
        repeatedPasses 1 = some .duplicate by decide +kernel)
    (by decide +kernel)

end Request

end ContextGuard
end QiForge
