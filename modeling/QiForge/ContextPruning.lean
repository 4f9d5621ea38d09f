import QiForge.StaleLine

/-!
# What pruning tells the model

Every pass replaces some tool results by a line about them.  Which ones, and
with what line, can be read off the messages before the pass.  A reference
says that a later result has the same text, and holds as long as no pass
replaces that result: the passes compare and measure the lines of the passes
before them like any other text, and so take different results for the same
one, or replace the copy a reference stands for.
-/

namespace QiForge
namespace ContextGuard

/-! ## What one pass replaces -/

def bodyOf (readResultChars : Option ℕ) (message : ToolMessage) :
    Reason → JsString
  | .pruned => prunedBody message (textOf message.content)
  | .duplicate => duplicateBody message
  | .stale => staleBody message (textOf message.content) readResultChars

def rewritten (readResultChars : Option ℕ) (reason : Option Reason) :
    Message → Message
  | .tool message =>
      match reason with
      | none => .tool message
      | some reason =>
          .tool (placeholder message reason
            (bodyOf readResultChars message reason))
  | .human message => .human message
  | .ai id content toolCalls => .ai id content toolCalls
  | .other id content => .other id content

@[simp] theorem rewritten_none
    (readResultChars : Option ℕ) (message : Message) :
    rewritten readResultChars none message = message := by
  cases message <;> rfl

/-- The texts of the results a pass looks at. -/
def comparedTexts (keep : ToolMessage → Bool) (messages : List Message) :
    List JsString :=
  messages.filterMap fun
    | .tool message =>
        if keep message then none else some (textOf message.content)
    | .human _ | .ai _ _ _ | .other _ _ => none

-- the equality test of the membership below
local instance : LawfulBEq JsString := inferInstance

/-- Why a prune replaces the message at `index`, with `later` behind it. -/
def pruneReason (options : PruneOptions) (keep : ToolMessage → Bool)
    (cutoff index : ℕ) (later : List Message) : Message → Option Reason
  | .tool message =>
      if keep message then none
      else if cutoff ≤ index then none
      else if duplicateMinChars ≤ (textOf message.content).length ∧
          textOf message.content ∈ comparedTexts keep later then
        some .duplicate
      else if options.demoteMinChars < (textOf message.content).length then
        some .pruned
      else none
  | .human _ | .ai _ _ _ | .other _ _ => none

def staleReason (options : TrimOptions) (cutoff index : ℕ)
    (message : Message) : Option Reason :=
  if index < cutoff then (staleStub options message).map fun _ => .stale
  else none

theorem sweep_saw_seenLater (sweep : Sweep) (seen text : JsString) :
    text ∈ (sweep.saw seen).seenLater ↔ text ∈ sweep.seenLater ∨
        (duplicateMinChars ≤ text.length ∧ text = seen) := by
  unfold Sweep.saw
  split
  · next hlong =>
    simp only [List.mem_cons]
    constructor
    · rintro (rfl | hseen)
      · exact Or.inr ⟨hlong, rfl⟩
      · exact Or.inl hseen
    · rintro (hseen | ⟨-, rfl⟩)
      · exact Or.inr hseen
      · exact Or.inl rfl
  · next hshort =>
    constructor
    · exact Or.inl
    · rintro (hseen | ⟨hlong, rfl⟩)
      · exact hseen
      · exact absurd hlong hshort

@[simp] theorem sweep_saw_out (sweep : Sweep) (text : JsString) :
    (sweep.saw text).out = sweep.out := by
  unfold Sweep.saw
  split <;> rfl

theorem sweepResult_seenLater
    (options : PruneOptions) (cutoff index : ℕ) (message : ToolMessage)
    (later : Sweep) (text : JsString) :
    text ∈ (sweepResult options cutoff index message later).seenLater ↔
      text ∈ later.seenLater ∨ (duplicateMinChars ≤ text.length ∧
          text = textOf message.content) := by
  simp only [sweepResult]
  split
  · exact sweep_saw_seenLater later _ text
  · split
    · next hseen =>
      constructor
      · exact Or.inl
      · rintro (hmem | ⟨-, rfl⟩)
        · exact hmem
        · exact hseen.2
    · split
      · exact sweep_saw_seenLater later _ text
      · exact sweep_saw_seenLater later _ text

/-- What the loop has seen are the long texts it has passed. -/
theorem sweepFrom_seenLater
    (options : PruneOptions) (keep : ToolMessage → Bool) (cutoff : ℕ)
    (messages : List Message) (start : ℕ) (text : JsString) :
    text ∈ (sweepFrom options keep cutoff start messages).seenLater ↔
      duplicateMinChars ≤ text.length ∧
        text ∈ comparedTexts keep messages := by
  induction messages generalizing start with
  | nil => simp [sweepFrom, comparedTexts]
  | cons message rest ih =>
      have hlater := ih (start + 1)
      cases message with
      | human _ | ai _ _ _ | other _ _ =>
          simpa only [sweepFrom, Sweep.pass, comparedTexts,
            List.filterMap_cons] using hlater
      | tool result =>
          cases hkeep : keep result with
          | true =>
              simpa only [sweepFrom, hkeep, ↓reduceIte, Sweep.pass,
                comparedTexts, List.filterMap_cons] using hlater
          | false =>
              have hcons : comparedTexts keep (.tool result :: rest) =
                  textOf result.content :: comparedTexts keep rest := by
                simp only [comparedTexts, List.filterMap_cons, hkeep,
                  Bool.false_eq_true, ↓reduceIte]
              simp only [sweepFrom, hkeep, Bool.false_eq_true, ↓reduceIte,
                sweepResult_seenLater, hlater, hcons, List.mem_cons]
              tauto

/-- The message the loop writes for a result, in front of those behind it. -/
theorem sweepResult_out (options : PruneOptions) (keep : ToolMessage → Bool)
    (readResultChars : Option ℕ) (cutoff index : ℕ)
    (message : ToolMessage) (rest : List Message)
    (hkeep : keep message = false) :
    (sweepResult options cutoff index message
        (sweepFrom options keep cutoff (index + 1) rest)).out =
      rewritten readResultChars
          (pruneReason options keep cutoff index rest (.tool message))
          (.tool message) ::
        (sweepFrom options keep cutoff (index + 1) rest).out := by
  have hrepeated : (duplicateMinChars ≤ (textOf message.content).length ∧
          textOf message.content ∈
            (sweepFrom options keep cutoff (index + 1) rest).seenLater) ↔
        (duplicateMinChars ≤ (textOf message.content).length ∧
          textOf message.content ∈ comparedTexts keep rest) := by
    rw [sweepFrom_seenLater]
    tauto
  simp only [sweepResult, pruneReason, hkeep, Bool.false_eq_true, ↓reduceIte,
    hrepeated]
  split
  · simp only [Sweep.pass, sweep_saw_out, rewritten]
  · split
    · simp only [Sweep.replace, rewritten, bodyOf]
    · split
      · simp only [Sweep.replace, sweep_saw_out, rewritten, bodyOf]
      · simp only [Sweep.pass, sweep_saw_out, rewritten]

theorem sweepFrom_cons_out (options : PruneOptions) (keep : ToolMessage → Bool)
    (readResultChars : Option ℕ) (cutoff index : ℕ)
    (message : Message) (rest : List Message) :
    (sweepFrom options keep cutoff index (message :: rest)).out =
      rewritten readResultChars
          (pruneReason options keep cutoff index rest message) message ::
        (sweepFrom options keep cutoff (index + 1) rest).out := by
  cases message with
  | human _ | ai _ _ _ | other _ _ =>
      simp only [sweepFrom, Sweep.pass, rewritten]
  | tool result =>
      cases hkeep : keep result with
      | true =>
          simp only [sweepFrom, hkeep, ↓reduceIte, Sweep.pass, pruneReason,
            rewritten]
      | false =>
          simp only [sweepFrom, hkeep, Bool.false_eq_true, ↓reduceIte]
          exact sweepResult_out options keep readResultChars cutoff index
            result rest hkeep

theorem sweepFrom_out_getElem?
    (options : PruneOptions) (keep : ToolMessage → Bool)
    (readResultChars : Option ℕ) (cutoff start : ℕ)
    (messages : List Message) (index : ℕ) :
    (sweepFrom options keep cutoff start messages).out[index]? =
      messages[index]?.map fun message =>
        rewritten readResultChars
          (pruneReason options keep cutoff (start + index)
            (messages.drop (index + 1)) message) message := by
  induction messages generalizing start index with
  | nil => rfl
  | cons message rest ih =>
      rw [sweepFrom_cons_out options keep readResultChars]
      cases index with
      | zero => rfl
      | succ index =>
          rw [List.getElem?_cons_succ, ih, List.getElem?_cons_succ,
            List.drop_succ_cons, Nat.add_assoc, Nat.add_comm 1 index]

theorem pruneToolResults_getElem?
    (readResultChars : Option ℕ) (messages : List Message)
    (options : PruneOptions) (keep : ToolMessage → Bool) (index : ℕ) :
    (pruneToolResults messages options keep).messages[index]? =
      messages[index]?.map fun message =>
        rewritten readResultChars
          (pruneReason options keep (messages.length - options.keepTail)
            index (messages.drop (index + 1)) message) message := by
  have hout := sweepFrom_out_getElem? options keep readResultChars
    (messages.length - options.keepTail) 0 messages index
  rw [Nat.zero_add] at hout
  exact hout

theorem staleStub_eq_rewritten (options : TrimOptions) (message : Message) :
    ((staleStub options message).map Message.tool).getD message =
      rewritten options.readResultChars
        ((staleStub options message).map fun _ => .stale) message := by
  cases message with
  | human _ | ai _ _ _ | other _ _ => rfl
  | tool result =>
      simp only [staleStub]
      split
      · rfl
      · split <;> rfl

theorem trimStaleResults_rewritten
    (messages : List Message) (cutoff : ℕ) (options : TrimOptions)
    (index : ℕ) :
    (trimStaleResults messages cutoff options).messages[index]? =
      messages[index]?.map fun message =>
        rewritten options.readResultChars
          (staleReason options cutoff index message) message := by
  rw [trimStaleResults_getElem?]
  simp only [staleReason]
  split
  · simp only [staleStub_eq_rewritten]
  · simp

/-! ## The handles a result is read back by -/

namespace ToolMessage

/-- What a result shows of where it can be read back, by what was last written
over it.  A result no pass has replaced shows its own footer. -/
def handle (message : ToolMessage) : Option Reason → Option JsString
  | none | some .pruned => message.savedId
  | some .stale => (some message.readBackId).filter fun id => id ≠ []
  | some .duplicate => none

/-- Nothing can be read back when `read_result` is not bound. -/
def readable (message : ToolMessage) (readResultChars : Option ℕ)
    (mark : Option Reason) : Option JsString :=
  readResultChars.bind fun _ => message.handle mark

theorem placeholder_readable
    (message : ToolMessage) (reason : Reason) (body : JsString)
    (readResultChars : Option ℕ) (mark : Option Reason) :
    (placeholder message reason body).readable readResultChars mark =
      message.readable readResultChars mark := rfl

section Handle

variable {message : ToolMessage} {id : JsString}

theorem savedId_eq_some :
    message.savedId = some id ↔ message.capped.join = some id ∧ id ≠ [] := by
  simp only [savedId, Option.filter_eq_some_iff, decide_eq_true_eq]

theorem handle_stale_eq_some : message.handle (some .stale) = some id ↔
      message.readBackId = id ∧ id ≠ [] := by
  simp only [handle, Option.filter_eq_some_iff, Option.some.injEq,
    decide_eq_true_eq]

/-- The stub of a result without a saved copy names the tool call. -/
theorem stub_handle (hsaved : message.capped.join = none)
    (hcall : message.toolCallId ≠ []) :
    message.handle (some .stale) = some message.toolCallId :=
  handle_stale_eq_some.mpr
    ⟨by rw [readBackId, hsaved, Option.getD_none], hcall⟩

/-- A stub names whatever handle the result showed. -/
theorem handle_stale {mark : Option Reason}
    (hhandle : message.handle mark = some id) :
    message.handle (some .stale) = some id := by
  have hsaved (hid : message.savedId = some id) :
      message.handle (some .stale) = some id := by
    obtain ⟨hjoin, hne⟩ := savedId_eq_some.mp hid
    exact handle_stale_eq_some.mpr
      ⟨by rw [readBackId, hjoin, Option.getD_some], hne⟩
  rcases mark with _ | reason
  · exact hsaved hhandle
  · cases reason with
    | pruned => exact hsaved hhandle
    | duplicate => cases hhandle
    | stale => exact hhandle

/-- A placeholder names the handle the result showed unless that was the tool
call under a stub. -/
theorem handle_pruned {mark : Option Reason}
    (hhandle : message.handle mark = some id) :
    message.handle (some .pruned) = some id ∨
      mark = some .stale ∧ message.capped.join = none ∧
        message.toolCallId ≠ [] := by
  rcases mark with _ | reason
  · exact Or.inl hhandle
  · cases reason with
    | pruned => exact Or.inl hhandle
    | duplicate => cases hhandle
    | stale =>
        obtain ⟨hid, hne⟩ := handle_stale_eq_some.mp hhandle
        cases hjoin : message.capped.join with
        | none =>
            rw [readBackId, hjoin, Option.getD_none] at hid
            exact Or.inr ⟨rfl, rfl, by rw [hid]; exact hne⟩
        | some saved =>
            rw [readBackId, hjoin, Option.getD_some] at hid
            exact Or.inl (savedId_eq_some.mpr ⟨by rw [hjoin, hid], hne⟩)

end Handle

theorem infix_framed (id front a b c : JsString) :
    id <:+: front ++ id ++ a ++ b ++ c :=
  ⟨front, a ++ b ++ c, by simp only [List.append_assoc]⟩

/-- The line written over a result names its handle. -/
theorem readable_named
    {message : ToolMessage} {readResultChars : Option ℕ} {reason : Reason}
    {id : JsString}
    (hreadable : message.readable readResultChars (some reason) = some id) :
    id <:+: bodyOf readResultChars message reason := by
  cases readResultChars with
  | none => cases hreadable
  | some length =>
      cases reason with
      | pruned =>
          have hsaved : message.savedId = some id := hreadable
          simp only [bodyOf, prunedBody, hsaved]
          refine List.infix_append_of_infix_left
            (List.infix_append_of_infix_right ?_)
          exact infix_framed id _ _ _ _
      | duplicate => cases hreadable
      | stale =>
          obtain ⟨rfl, -⟩ := handle_stale_eq_some.mp hreadable
          simp only [bodyOf, staleBody]
          refine List.infix_append_of_infix_left
            (List.infix_append_of_infix_right ?_)
          exact infix_framed message.readBackId _ _ _ _

end ToolMessage

/-! ## The passes of a call -/

/-- The stages that prune, with what they prune by. -/
def Stage.options : Stage → Option PruneOptions
  | .stale => none
  | .soft => some pruneSoft
  | .hard | .overflow => some pruneHard

def toolTextAt (messages : List Message) (index : ℕ) : Option JsString :=
  match messages[index]? with
  | some (.tool message) => some (textOf message.content)
  | _ => none

/-- Two tool results with the same text. -/
def SameResult (messages : List Message) (index later : ℕ) : Prop :=
  (toolTextAt messages index).isSome ∧
    toolTextAt messages later = toolTextAt messages index

instance (messages : List Message) (index later : ℕ) :
    Decidable (SameResult messages index later) :=
  inferInstanceAs (Decidable (_ ∧ _))

namespace Request

section Passes

variable (dateParse : JsString → Option ℤ) (budget : ContextBudget)
  (readResultChars : Option ℕ) (request : Request)

/-- Why a stage replaces the message at an index of those before it. -/
def reasonAt (stage : Stage) (before : List Message) (index : ℕ) :
    Option Reason :=
  before[index]?.bind fun message =>
    match stage.options with
    | none =>
        staleReason (request.trimOptions readResultChars)
          (request.cutoff dateParse budget) index message
    | some options =>
        pruneReason options request.keep
          (before.length - options.keepTail) index (before.drop (index + 1))
          message

def Applied.reason (pass : Applied) (index : ℕ) : Option Reason :=
  request.reasonAt dateParse budget readResultChars pass.stage pass.before
    index

/-- Why the latest pass that replaced a message did; `none` for one that no
pass has replaced. -/
def mark : List Applied → ℕ → Option Reason
  | [], _ => none
  | pass :: earlier, index =>
      (Applied.reason dateParse budget readResultChars request pass index).or
        (mark earlier index)

/-- The messages the passes left. -/
def latest : List Applied → List Message
  | [] => request.messages
  | pass :: _ => pass.after

/-- Each pass starts from what the one before it left, and replaces what it
has a reason to. -/
def Linked : List Applied → Prop
  | [] => True
  | pass :: earlier =>
      pass.before = request.latest earlier ∧
      (∀ index, pass.after[index]? = pass.before[index]?.map
            (rewritten readResultChars
              (Applied.reason dateParse budget readResultChars request pass
                index))) ∧
      Linked earlier

/-- The guard's variables agree with the passes it made. -/
structure Tracks (guarding : Guarding) : Prop where
  linked : request.Linked dateParse budget readResultChars guarding.applied
  messages : guarding.messages = request.latest guarding.applied

end Passes

section Run

variable {dateParse : JsString → Option ℤ} {budget : ContextBudget}
  {readResultChars : Option ℕ} {request : Request}

theorem stale_tracks (staleReported : Bool) :
    request.Tracks dateParse budget readResultChars
      (request.stale dateParse budget readResultChars staleReported) where
  linked := by
    refine ⟨rfl, fun index => ?_, trivial⟩
    refine (trimStaleResults_rewritten _ _ _ index).trans ?_
    cases hmessage : request.messages[index]? with
    | none => simp only [Option.map_none]
    | some message =>
        simp only [Option.map_some, Applied.reason, reasonAt, Stage.options,
          hmessage, Option.bind_some]
        rfl
  messages := rfl

theorem Tracks.shrink
    {guarding : Guarding} {options : PruneOptions} {stage : Stage}
    (htracks : request.Tracks dateParse budget readResultChars guarding)
    (hoptions : stage.options = some options) :
    request.Tracks dateParse budget readResultChars
      (request.shrink options stage guarding) where
  linked := by
    refine ⟨htracks.messages, fun index => ?_, htracks.linked⟩
    refine (pruneToolResults_getElem? readResultChars _ _ _ index).trans ?_
    cases hmessage : guarding.messages[index]? with
    | none => simp only [Option.map_none]
    | some message =>
        simp only [Option.map_some, Applied.reason, reasonAt, hoptions,
          hmessage, Option.bind_some]
  messages := rfl

theorem Tracks.shrinkAbove
    {guarding : Guarding} {options : PruneOptions} {stage : Stage}
    (htracks : request.Tracks dateParse budget readResultChars guarding)
    (hoptions : stage.options = some options) (limit : ℤ) :
    request.Tracks dateParse budget readResultChars
      (request.shrinkAbove limit options stage guarding) := by
  unfold Request.shrinkAbove
  split
  · exact htracks.shrink hoptions
  · exact htracks

theorem prepare_tracks (staleReported : Bool) :
    request.Tracks dateParse budget readResultChars
      (request.prepare dateParse budget readResultChars staleReported) :=
  ((stale_tracks staleReported).shrinkAbove rfl _).shrinkAbove rfl _

theorem overflow_tracks {guarding : Guarding} (learned : Option ℕ)
    (htracks : request.Tracks dateParse budget readResultChars guarding) :
    request.Tracks dateParse budget readResultChars
      (request.overflow learned guarding) :=
  Tracks.shrink ⟨htracks.linked, htracks.messages⟩ rfl

theorem wrapModelCall_tracks
    {R F : Type} (staleReported : Bool) (answer again : Answer R F) :
    request.Tracks dateParse budget readResultChars
      (request.wrapModelCall dateParse budget readResultChars staleReported
        answer again).guarding := by
  have hready : request.Tracks dateParse budget readResultChars
        (request.prepare dateParse budget readResultChars staleReported) :=
    prepare_tracks staleReported
  simp only [wrapModelCall]
  split
  · exact ⟨hready.linked, hready.messages⟩
  · cases answer with
    | response response => exact hready
    | failure failure => exact hready
    | overflow learned =>
        have hharder := overflow_tracks learned hready
        dsimp only
        split
        · exact hharder
        · exact hharder

end Run

end Request

end ContextGuard
end QiForge
