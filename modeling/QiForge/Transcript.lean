import Mathlib.Tactic

/-!
# The transcript of a thread

Which stored messages a user sees, and how a list of them becomes the client's
messages: each visible one is listed, and a tool result folds into the first
listed reply that made its call.  What other modules read out of a value
(JSON text, a digest, the text of an artifact, the name of a sent file) comes
with `TranscriptText`.
-/

namespace QiForge

/-- A string in a content list, or an object with its `type` and `text`. -/
inductive ContentPart where
  | str (text : String)
  | block (type : String) (text : Option String)
deriving DecidableEq, Repr

inductive MessageContent where
  | text (s : String)
  | parts (ps : List ContentPart)
deriving DecidableEq, Repr

structure TranscriptText (J : Type) where
  stringify : J → String
  contentJson : MessageContent → String
  digest : String → String
  artifactText : J → String → String
  sentFileText : J → Option String

inductive MessageType where
  | human
  | ai
  | system
  | tool
  | other
deriving DecidableEq, Repr

inductive StoredReasoning where
  | absent
  | text (s : String)
  | summary (parts : List (Option String))
deriving DecidableEq, Repr

structure MessageKwargs (J : Type) where
  lcSource : Option String := none
  lcSummaryMessage : Bool := false
  summary : Bool := false
  isError : Bool := false
  attachment : Option J := none
  attachments : Option (List J) := none
  reasoning : StoredReasoning := .absent
  timestamp : Option String := none
  origin : Option J := none
  reply : Option J := none
  turnTimeNote : Option String := none
  turnGuideNote : Option String := none
  replyNote : Option String := none
  deliveryNotice : Option String := none
deriving DecidableEq

structure MessageToolCall (J : Type) where
  name : String
  args : J
  id : Option String
deriving DecidableEq

structure ThreadMessage (J : Type) where
  type : MessageType
  id : String
  content : MessageContent
  kwargs : MessageKwargs J := {}
  toolCalls : List (MessageToolCall J) := []
  toolCallId : Option String := none
  lcToolCallId : Option String := none
  lcArgs : Option J := none
  artifact : Option J := none
deriving DecidableEq

structure ToolCallDto (J : Type) where
  name : String
  id : String
  args : J
  done : Bool
  output : Option String
deriving DecidableEq

structure MessageDto (J : Type) where
  id : String
  fromAgent : Bool
  content : String
  toolCalls : List (ToolCallDto J)
  reasoning : Option String
  createdAt : Option String
  attachment : Option J
  attachments : Option (List J)
  metadata : Option (J × Option J)
deriving DecidableEq

def isHexDigit (c : Char) : Bool :=
  ('0' ≤ c && c ≤ '9') || ('a' ≤ c && c ≤ 'f') || ('A' ≤ c && c ≤ 'F')

def isUuid (s : String) : Bool :=
  decide (s.toList.length = 36) && s.toList.zipIdx.all fun (c, i) =>
    if i ∈ [8, 13, 18, 23] then c == '-' else isHexDigit c

/-- White space as `trim` takes it off. -/
def isTrimmed (c : Char) : Bool :=
  c.toNat ∈ [9, 10, 11, 12, 13, 32, 160, 5760, 8192, 8193, 8194, 8195, 8196,
    8197, 8198, 8199, 8200, 8201, 8202, 8232, 8233, 8239, 8287, 12288, 65279]

def isBlank (s : String) : Bool := s.toList.all isTrimmed

def attachmentPlaceholderPrefix : String := "[attachment offloaded]"

def attachmentViewSource : String := "attachment_view"

def summaryPrefix : String := "Here is a summary of the conversation to date:"

def createArtifactTool : String := "create_artifact"

def sendFileTool : String := "send_file"

def isAttachmentPlaceholderText (s : String) : Bool :=
  attachmentPlaceholderPrefix.toList.isPrefixOf s.toList

def ContentPart.shown : ContentPart → String
  | .str text => text
  | .block _ (some text) =>
      if isAttachmentPlaceholderText text then "" else text
  | .block _ none => ""

def contentToText : MessageContent → String
  | .text s => s
  | .parts ps => String.join (ps.map ContentPart.shown)

def stripTurnTimeNote (content : MessageContent) :
    Option String → MessageContent
  | none => content
  | some note =>
      if note = "" then content
      else
        match content with
        | .text s =>
            let lead := (note ++ "\n\n").toList
            if lead.isPrefixOf s.toList then
              .text (String.ofList (s.toList.drop lead.length))
            else content
        | .parts (first :: rest) =>
            if first = .block "text" (some note) then .parts rest
            else content
        | .parts [] => content

namespace ThreadMessage

variable {J : Type} (text : TranscriptText J)

/-- The content as the person sent it. -/
def userContent (m : ThreadMessage J) : MessageContent := stripTurnTimeNote
    (stripTurnTimeNote (stripTurnTimeNote
        (stripTurnTimeNote m.content m.kwargs.turnTimeNote)
        m.kwargs.turnGuideNote)
      m.kwargs.replyNote)
    m.kwargs.deliveryNotice

def visibleContent (m : ThreadMessage J) : MessageContent :=
  if m.type = .human then m.userContent else m.content

def visibleText (m : ThreadMessage J) : String :=
  contentToText m.visibleContent

def isAttachmentView (m : ThreadMessage J) : Bool :=
  decide (m.type = .human ∧ m.kwargs.lcSource = some attachmentViewSource)

def isDeliveryNotice (m : ThreadMessage J) : Bool :=
  decide (m.type = .human) && m.kwargs.deliveryNotice.isSome

def isSummarization (m : ThreadMessage J) : Bool :=
  decide (m.kwargs.lcSource = some "summarization") ||
    m.kwargs.lcSummaryMessage || m.kwargs.summary ||
    summaryPrefix.toList.isPrefixOf (contentToText m.content).toList ||
    (decide (m.type = .system) &&
      ((contentToText m.content).toList.map Char.toLower).tails.any
        fun t => "summary of the conversation".toList.isPrefixOf t)

def visibleToUser (m : ThreadMessage J) : Bool :=
  !decide (m.type = .system ∨ m.type = .tool) && !m.kwargs.isError &&
    !(decide (m.type = .ai) && m.kwargs.attachment.isSome) &&
    !m.isAttachmentView && !m.isDeliveryNotice

/-- What a user's message starts; the summarizer's row and a delivery notice
start none. -/
def startsTurn (m : ThreadMessage J) : Bool :=
  decide (m.type = .human) && !m.isSummarization && !m.isDeliveryNotice

end ThreadMessage

def reasoningToText : StoredReasoning → Option String
  | .absent => none
  | .text s => if s = "" then none else some s
  | .summary parts =>
      let s := String.join (parts.map fun part => part.getD "")
      if s = "" then none else some s

namespace TranscriptText

variable {J : Type} (text : TranscriptText J)

def uuidFromString (s : String) : String :=
  if isUuid s then s else text.digest s

def callId (call : MessageToolCall J) : String :=
  call.id.getD (text.uuidFromString (text.stringify call.args))

/-- The call a tool message answers. -/
def resultId (m : ThreadMessage J) : String :=
  match m.toolCallId.or m.lcToolCallId, m.lcArgs with
  | some id, _ => id
  | none, some args => text.uuidFromString (text.stringify args)
  | none, none => text.digest ""

def toToolCallDto (call : MessageToolCall J) : ToolCallDto J :=
  ⟨call.name, text.callId call, call.args, false, none⟩

def attachmentsOf (m : ThreadMessage J) : Option (List J) :=
  if m.type = .human then
    m.kwargs.attachments.or (m.kwargs.attachment.map fun a => [a])
  else none

def toDto (m : ThreadMessage J) : MessageDto J where
  id := text.uuidFromString m.id
  fromAgent := decide (m.type = .ai)
  content := m.visibleText
  toolCalls := m.toolCalls.map text.toToolCallDto
  reasoning := reasoningToText m.kwargs.reasoning
  createdAt := m.kwargs.timestamp.filter fun s => decide (s ≠ "")
  attachment := (attachmentsOf m).bind List.head?
  attachments := (attachmentsOf m).filter fun as => !as.isEmpty
  metadata :=
    if m.type = .human then
      m.kwargs.origin.map fun origin => (origin, m.kwargs.reply)
    else none

end TranscriptText

/-- The listed messages, the first of them that made each call, and those that
list files alone. -/
structure TranscriptState (J : Type) where
  acc : List (MessageDto J)
  callers : String → Option ℕ
  filesOnly : List ℕ

namespace TranscriptState

variable {J : Type}

def empty : TranscriptState J := ⟨[], fun _ => none, []⟩

def setCaller (callers : String → Option ℕ) (id : String) (i : ℕ) :
    String → Option ℕ :=
  if (callers id).isSome then callers else Function.update callers id (some i)

def list (s : TranscriptState J) (dto : MessageDto J) : TranscriptState J :=
  { s with
    acc := s.acc ++ [dto]
    callers := dto.toolCalls.foldl
      (fun callers call => setCaller callers call.id s.acc.length)
      s.callers }

end TranscriptState

namespace MessageDto

variable {J : Type}

def call (dto : MessageDto J) (id : String) : Option (ToolCallDto J) :=
  dto.toolCalls.find? fun call => decide (call.id = id)

/-- What the tool's result says of the reply's own text. -/
def withContent (dto : MessageDto J) (content : String) : MessageDto J :=
  { dto with content := content }

def withOutput (dto : MessageDto J) (id output : String) : MessageDto J :=
  { dto with
    toolCalls := dto.toolCalls.map fun call =>
      if call.id = id then { call with done := true, output := some output }
      else call }

end MessageDto

namespace TranscriptText

variable {J : Type} (text : TranscriptText J)

/-- A reply that ended in an artifact wrote no text of its own. -/
def foldArtifact (m : ThreadMessage J) (dto : MessageDto J)
    (call : Option (ToolCallDto J)) : MessageDto J :=
  match call with
  | some c =>
      if c.name = createArtifactTool ∧ isBlank dto.content then
        dto.withContent (text.artifactText c.args (contentToText m.content))
      else dto
  | none => dto

/-- The file's name a reply of files alone lists, if this result sent one. -/
def sentName (m : ThreadMessage J) (dto : MessageDto J)
    (call : Option (ToolCallDto J)) (filesOnly : Bool) : Option String :=
  match call with
  | some c =>
      if c.name = sendFileTool ∧ (filesOnly || isBlank dto.content) then
        m.artifact.bind text.sentFileText
      else none
  | none => none

/-- The reply with the result folded in, and whether it lists files alone. -/
def foldInto (m : ThreadMessage J) (dto : MessageDto J) (filesOnly : Bool) :
    MessageDto J × Bool :=
  let id := text.resultId m
  let call := dto.call id
  let dto := text.foldArtifact m dto call
  let output := text.contentJson m.content
  match text.sentName m dto call filesOnly with
  | some named =>
      ((dto.withContent (if dto.content = "" then named
          else dto.content ++ "\n\n" ++ named)).withOutput id output, true)
  | none => (dto.withOutput id output, filesOnly)

def foldResult (s : TranscriptState J) (m : ThreadMessage J) :
    TranscriptState J :=
  match s.callers (text.resultId m) with
  | none => s
  | some i =>
      match s.acc[i]? with
      | none => s
      | some dto =>
          let folded := text.foldInto m dto (decide (i ∈ s.filesOnly))
          { s with
            acc := s.acc.set i folded.1
            filesOnly :=
              if folded.2 then i :: s.filesOnly else s.filesOnly }

def listVisible (s : TranscriptState J) (m : ThreadMessage J) :
    TranscriptState J :=
  if m.visibleToUser then s.list (text.toDto m) else s

def transformStep (s : TranscriptState J) (m : ThreadMessage J) :
    TranscriptState J :=
  let s := text.listVisible s m
  if m.type = .tool then text.foldResult s m else s

def transform (messages : List (ThreadMessage J)) : TranscriptState J :=
  messages.foldl text.transformStep .empty

def transformTranscript (messages : List (ThreadMessage J)) :
    List (MessageDto J) :=
  (text.transform messages).acc

/-- Without the summarizer's rows. -/
def toPage (messages : List (ThreadMessage J)) : List (MessageDto J) :=
  text.transformTranscript (messages.filter fun m => !m.isSummarization)

/-- The message lists a call of that id. -/
def Makes (m : ThreadMessage J) (id : String) : Prop :=
  m.visibleToUser = true ∧ id ∈ m.toolCalls.map text.callId

end TranscriptText

namespace TranscriptState

variable {J : Type} {base s t : TranscriptState J}

theorem setCaller_other {callers : String → Option ℕ} {id other : String}
    (hne : other ≠ id) (i : ℕ) :
    setCaller callers id i other = callers other := by
  unfold setCaller
  split_ifs
  · rfl
  · exact Function.update_of_ne hne _ _

theorem setCaller_self (callers : String → Option ℕ) (id : String) (i : ℕ) :
    setCaller callers id i id = (callers id).or (some i) := by
  unfold setCaller
  cases hcaller : callers id with
  | none => simp
  | some j => simp [hcaller]

/-- The state of the rest alone, seen from the state after a front. -/
structure Shifted (base s t : TranscriptState J) : Prop where
  acc : s.acc = base.acc ++ t.acc
  callers : ∀ id, s.callers id =
    (base.callers id).or ((t.callers id).map (base.acc.length + ·))
  filesOnly : ∀ i, base.acc.length + i ∈ s.filesOnly ↔ i ∈ t.filesOnly

/-- The callers and the replies of files are listed. -/
structure Listed (s : TranscriptState J) : Prop where
  callers : ∀ id i, s.callers id = some i → i < s.acc.length
  filesOnly : ∀ i ∈ s.filesOnly, i < s.acc.length

theorem Listed.shifted (h : s.Listed) : Shifted s s empty := by
  constructor
  · simp [empty]
  · simp [empty]
  · intro i
    constructor
    · intro hmem
      have hlt := h.filesOnly _ hmem
      omega
    · intro hmem
      cases hmem

theorem foldl_setCaller_shifted (calls : List (ToolCallDto J)) (n i : ℕ)
    (bases : String → Option ℕ) {whole rest : String → Option ℕ}
    (h : ∀ id, whole id = (bases id).or ((rest id).map (n + ·))) :
    ∀ id, calls.foldl (fun c call => setCaller c call.id (n + i)) whole id =
      (bases id).or ((calls.foldl
        (fun c call => setCaller c call.id i) rest id).map (n + ·)) := by
  induction calls generalizing whole rest with
  | nil => exact h
  | cons call calls ih =>
      rw [List.foldl_cons, List.foldl_cons]
      apply ih
      intro id
      by_cases hsame : id = call.id
      · subst hsame
        rw [setCaller_self, setCaller_self, h]
        cases bases call.id <;> cases rest call.id <;> rfl
      · rw [setCaller_other hsame, setCaller_other hsame, h]

theorem Shifted.list (h : Shifted base s t) (dto : MessageDto J) :
    Shifted base (s.list dto) (t.list dto) := by
  have hlength : s.acc.length = base.acc.length + t.acc.length := by
    rw [h.acc, List.length_append]
  constructor
  · unfold TranscriptState.list
    rw [h.acc, List.append_assoc]
  · unfold TranscriptState.list
    rw [hlength]
    exact foldl_setCaller_shifted _ _ _ _ h.callers
  · exact h.filesOnly

theorem foldl_setCaller_cases (calls : List (ToolCallDto J)) (i : ℕ)
    (callers : String → Option ℕ) (id : String) :
    calls.foldl (fun c call => setCaller c call.id i) callers id =
      (callers id).or
        (if id ∈ calls.map ToolCallDto.id then some i else none) := by
  induction calls generalizing callers with
  | nil => simp
  | cons call calls ih =>
      rw [List.foldl_cons, ih]
      by_cases hsame : id = call.id
      · subst hsame
        rw [setCaller_self]
        cases callers call.id <;> simp
      · rw [setCaller_other hsame]
        simp [hsame]

end TranscriptState

namespace TranscriptText

variable {J : Type} (text : TranscriptText J)
variable {base s t : TranscriptState J}

theorem foldResult_shifted (h : TranscriptState.Shifted base s t)
    (m : ThreadMessage J) (hnone : base.callers (text.resultId m) = none) :
    TranscriptState.Shifted base (text.foldResult s m)
      (text.foldResult t m) := by
  have hcaller := h.callers (text.resultId m)
  rw [hnone, Option.none_or] at hcaller
  unfold foldResult
  rw [hcaller]
  cases ht : t.callers (text.resultId m) with
  | none => exact h
  | some i =>
      have hget : s.acc[base.acc.length + i]? = t.acc[i]? := by
        rw [h.acc, List.getElem?_append_right (Nat.le_add_right _ _),
          Nat.add_sub_cancel_left]
      dsimp only [Option.map_some]
      rw [hget]
      cases hi : t.acc[i]? with
      | none => exact h
      | some dto =>
          have hfiles : decide (base.acc.length + i ∈ s.filesOnly) =
              decide (i ∈ t.filesOnly) := by
            simp [h.filesOnly i]
          rw [hfiles]
          constructor
          · dsimp only
            rw [h.acc, List.set_append_right _ _ (Nat.le_add_right _ _),
              Nat.add_sub_cancel_left]
          · exact h.callers
          · intro j
            dsimp only
            split_ifs
            · simp [h.filesOnly j]
            · exact h.filesOnly j

theorem transformStep_shifted (h : TranscriptState.Shifted base s t)
    (m : ThreadMessage J)
    (hnone : m.type = .tool → base.callers (text.resultId m) = none) :
    TranscriptState.Shifted base (text.transformStep s m)
      (text.transformStep t m) := by
  have hlisted : TranscriptState.Shifted base (text.listVisible s m)
      (text.listVisible t m) := by
    unfold listVisible
    split_ifs
    · exact h.list _
    · exact h
  unfold transformStep
  split_ifs with htool
  · exact text.foldResult_shifted hlisted m (hnone htool)
  · exact hlisted

theorem foldInto_id (m : ThreadMessage J) (dto : MessageDto J)
    (filesOnly : Bool) : (text.foldInto m dto filesOnly).1.id = dto.id := by
  have hartifact : (text.foldArtifact m dto
      (dto.call (text.resultId m))).id = dto.id := by
    unfold foldArtifact
    split
    · split_ifs <;> rfl
    · rfl
  unfold foldInto
  dsimp only
  split <;> exact hartifact

theorem foldResult_ids (s : TranscriptState J) (m : ThreadMessage J) :
    (text.foldResult s m).acc.map MessageDto.id = s.acc.map MessageDto.id := by
  unfold foldResult
  split
  · rfl
  · next i hcaller =>
      split
      · rfl
      · next dto hdto =>
          rcases List.getElem?_eq_some_iff.mp hdto with ⟨hlt, hget⟩
          have hlt' : i < (s.acc.map MessageDto.id).length := by
            simpa using hlt
          have hsame : (text.foldInto m dto (decide (i ∈ s.filesOnly))).1.id =
              (s.acc.map MessageDto.id)[i] := by
            rw [foldInto_id, List.getElem_map, hget]
          rw [List.map_set, hsame, List.set_getElem_self hlt']

theorem foldResult_listed (h : s.Listed) (m : ThreadMessage J) :
    (text.foldResult s m).Listed := by
  have hlength : (text.foldResult s m).acc.length = s.acc.length := by
    simpa using congrArg List.length (text.foldResult_ids s m)
  constructor
  · intro id i hid
    rw [hlength]
    apply h.callers id i
    rw [← hid]
    unfold foldResult
    split
    · rfl
    · split <;> rfl
  · intro i hi
    rw [hlength]
    unfold foldResult at hi
    split at hi
    · exact h.filesOnly i hi
    · next j hcaller =>
        split at hi
        · exact h.filesOnly i hi
        · dsimp only at hi
          split_ifs at hi
          · rcases List.mem_cons.mp hi with rfl | hold
            · exact h.callers _ i hcaller
            · exact h.filesOnly i hold
          · exact h.filesOnly i hi

theorem list_listed (h : s.Listed) (dto : MessageDto J) :
    (s.list dto).Listed := by
  unfold TranscriptState.list
  constructor
  · intro id i hid
    dsimp only at hid ⊢
    rw [TranscriptState.foldl_setCaller_cases] at hid
    rw [List.length_append, List.length_singleton]
    cases hold : s.callers id with
    | some j =>
        rw [hold, Option.some_or] at hid
        obtain rfl := Option.some.inj hid
        exact Nat.lt_succ_of_lt (h.callers id j hold)
    | none =>
        rw [hold, Option.none_or] at hid
        rcases Option.ite_none_right_eq_some.mp hid with ⟨-, hsome⟩
        obtain rfl := Option.some.inj hsome
        exact Nat.lt_succ_self _
  · intro i hi
    rw [List.length_append, List.length_singleton]
    exact Nat.lt_succ_of_lt (h.filesOnly i hi)

theorem transformStep_listed (h : s.Listed) (m : ThreadMessage J) :
    (text.transformStep s m).Listed := by
  have hlisted : (text.listVisible s m).Listed := by
    unfold listVisible
    split_ifs
    · exact list_listed h _
    · exact h
  unfold transformStep
  split_ifs
  · exact text.foldResult_listed hlisted m
  · exact hlisted

theorem transform_listed (messages : List (ThreadMessage J)) :
    (text.transform messages).Listed := by
  unfold transform
  suffices hfold : ∀ s : TranscriptState J, s.Listed →
      (messages.foldl text.transformStep s).Listed by
    apply hfold
    constructor <;> simp [TranscriptState.empty]
  induction messages with
  | nil => exact fun s h => h
  | cons m messages ih =>
      intro s h
      exact ih _ (text.transformStep_listed h m)

theorem foldResult_callers (s : TranscriptState J) (m : ThreadMessage J) :
    (text.foldResult s m).callers = s.callers := by
  unfold foldResult
  split
  · rfl
  · split <;> rfl

theorem toDto_callIds (m : ThreadMessage J) :
    (text.toDto m).toolCalls.map ToolCallDto.id =
      m.toolCalls.map text.callId := by
  simp [toDto, toToolCallDto]

theorem transformStep_callers (s : TranscriptState J) (m : ThreadMessage J)
    (id : String) (hid : (text.transformStep s m).callers id ≠ none) :
    s.callers id ≠ none ∨ text.Makes m id := by
  have hlisted : (text.listVisible s m).callers id ≠ none →
      s.callers id ≠ none ∨ text.Makes m id := by
    intro hsome
    unfold listVisible at hsome
    split_ifs at hsome with hvisible
    · unfold TranscriptState.list at hsome
      dsimp only at hsome
      rw [TranscriptState.foldl_setCaller_cases, toDto_callIds] at hsome
      by_cases hmakes : id ∈ m.toolCalls.map text.callId
      · exact Or.inr ⟨hvisible, hmakes⟩
      · rw [if_neg hmakes, Option.or_none] at hsome
        exact Or.inl hsome
    · exact Or.inl hsome
  unfold transformStep at hid
  dsimp only at hid
  split_ifs at hid
  · rw [foldResult_callers] at hid
    exact hlisted hid
  · exact hlisted hid

/-- A call that has a caller was made by a listed message. -/
theorem transform_callers (messages : List (ThreadMessage J)) (id : String)
    (hid : (text.transform messages).callers id ≠ none) :
    ∃ m ∈ messages, text.Makes m id := by
  unfold transform at hid
  suffices hfold : ∀ s : TranscriptState J,
      (messages.foldl text.transformStep s).callers id ≠ none →
      s.callers id ≠ none ∨ ∃ m ∈ messages, text.Makes m id by
    rcases hfold _ hid with hempty | hmade
    · exact absurd rfl hempty
    · exact hmade
  clear hid
  induction messages with
  | nil => exact fun s h => Or.inl h
  | cons m messages ih =>
      intro s h
      rcases ih _ h with hstep | ⟨m', hm', hmakes⟩
      · rcases text.transformStep_callers s m id hstep with hold | hmakes
        · exact Or.inl hold
        · exact Or.inr ⟨m, List.mem_cons_self, hmakes⟩
      · exact Or.inr ⟨m', List.mem_cons_of_mem m hm', hmakes⟩

/-- Where no result of the back answers a call of the front, the two are
transformed apart. -/
theorem transform_append {front back : List (ThreadMessage J)}
    (happart : ∀ m ∈ back, m.type = .tool → ∀ caller ∈ front,
      ¬ text.Makes caller (text.resultId m)) :
    text.transformTranscript (front ++ back) =
      text.transformTranscript front ++ text.transformTranscript back := by
  set base := text.transform front with hbase
  have hnone : ∀ m ∈ back, m.type = .tool →
      base.callers (text.resultId m) = none := by
    intro m hm htool
    by_contra hsome
    rcases text.transform_callers front _ hsome with ⟨c, hc, hmakes⟩
    exact happart m hm htool c hc hmakes
  have hfold : ∀ (rest : List (ThreadMessage J)) (s t : TranscriptState J),
      (∀ m ∈ rest, m ∈ back) → TranscriptState.Shifted base s t →
      TranscriptState.Shifted base (rest.foldl text.transformStep s)
        (rest.foldl text.transformStep t) := by
    intro rest
    induction rest with
    | nil => exact fun s t _ h => h
    | cons m rest ih =>
        intro s t hsub h
        apply ih
        · exact fun m' hm' => hsub m' (List.mem_cons_of_mem m hm')
        · exact text.transformStep_shifted h m
            (hnone m (hsub m List.mem_cons_self))
  have hshifted := hfold back base .empty (fun _ hm => hm)
    (text.transform_listed front).shifted
  unfold transformTranscript transform
  rw [List.foldl_append]
  exact hshifted.acc

theorem transformStep_ids (s : TranscriptState J) (m : ThreadMessage J) :
    (text.transformStep s m).acc.map MessageDto.id = s.acc.map MessageDto.id ++
        if m.visibleToUser then [text.uuidFromString m.id] else [] := by
  have hlist : (text.listVisible s m).acc.map MessageDto.id =
      s.acc.map MessageDto.id ++
        if m.visibleToUser then [text.uuidFromString m.id] else [] := by
    unfold listVisible
    split_ifs
    · simp [TranscriptState.list, toDto]
    · rw [List.append_nil]
  unfold transformStep
  by_cases htool : m.type = .tool
  · rw [if_pos htool, foldResult_ids, hlist]
  · rw [if_neg htool, hlist]

/-- The visible messages are listed in their order. -/
theorem transform_ids (messages : List (ThreadMessage J)) :
    (text.transformTranscript messages).map MessageDto.id =
      (messages.filter ThreadMessage.visibleToUser).map
        fun m => text.uuidFromString m.id := by
  unfold transformTranscript transform
  suffices hfold : ∀ s : TranscriptState J,
      (messages.foldl text.transformStep s).acc.map MessageDto.id =
        s.acc.map MessageDto.id ++
          (messages.filter ThreadMessage.visibleToUser).map
            fun m => text.uuidFromString m.id by
    simpa [TranscriptState.empty] using hfold .empty
  induction messages with
  | nil => simp
  | cons m messages ih =>
      intro s
      rw [List.foldl_cons, ih, transformStep_ids]
      by_cases hvisible : m.visibleToUser = true
      · simp [hvisible]
      · simp [hvisible]

end TranscriptText

end QiForge
