import QiForge.ToolRepetitionGuard
import QiForge.Transition

/-!
# The repetition caps of a turn and its summaries

A summary written mid-turn takes the calls it removes into its carry.  When
every result bears its tool's name, the guard reads the same calls from the
carry and the rest as it would from the whole turn; only the discovery results
are counted on what is left.  The caps follow on the turn without summaries,
where each call that runs leaves a result the next decision counts.
-/

namespace QiForge
namespace RepetitionGuard

open Message

theorem turnStart_concat (messages : List Message) (message : Message) :
    turnStart (messages ++ [message]) =
      if message.opensTurn then messages.length else turnStart messages := by
  unfold turnStart
  rw [List.length_append, List.length_singleton, List.range_succ,
    List.reverse_append, List.reverse_singleton, List.singleton_append,
    List.find?_cons]
  have hlast : (messages ++ [message])[messages.length]? = some message := by
    simp
  rw [hlast]
  cases hopens : message.opensTurn with
  | true => simp [hopens]
  | false =>
      simp only [Option.any_some, hopens, Bool.false_eq_true, if_false]
      congr 1
      apply List.find?_congr
      intro i hi
      rw [List.mem_reverse, List.mem_range] at hi
      rw [List.getElem?_append_left hi]

variable {first : Message}

/-- The turn starts at its last opening. -/
theorem turnStart_eq {before rest : List Message}
    (hfirst : first.opensTurn = true)
    (hrest : ∀ message ∈ rest, message.opensTurn = false) :
    turnStart (before ++ first :: rest) = before.length := by
  induction rest using List.reverseRecOn with
  | nil => rw [turnStart_concat, if_pos hfirst]
  | append_singleton rest last ih =>
      have hlast := hrest last (by simp)
      rw [← List.cons_append, ← List.append_assoc, turnStart_concat, hlast]
      simp only [Bool.false_eq_true, if_false]
      exact ih fun message hmem => hrest message (by simp [hmem])

/-- No call comes after a result with its id. -/
def Ordered (messages : List Message) : Prop :=
  messages.Pairwise fun earlier later =>
    ∀ id ∈ earlier.answers, ∀ call ∈ later.toolCalls, call.id ≠ id

/-- The call a result belongs to. -/
def callOf (calls : List ToolCall) (id : String) : Option ToolCall :=
  calls.reverse.find? fun call => decide (call.id = id) && !decide (call.id = "")

theorem toolCallArgs_eq (messages : List Message) (id : String) :
    toolCallArgs messages id =
      (callOf (messages.flatMap toolCalls) id).map ToolCall.args := rfl

variable {left right : List ToolCall}

theorem callOf_append_left {id : String} (h : ∀ call ∈ right, call.id ≠ id) :
    callOf (left ++ right) id = callOf left id := by
  have hnone : right.reverse.find? (fun call =>
      decide (call.id = id) && !decide (call.id = "")) = none := by
    rw [List.find?_eq_none]
    intro call hcall
    have hne := h call (List.mem_reverse.mp hcall)
    simp [hne]
  unfold callOf
  rw [List.reverse_append, List.find?_append, hnone, Option.none_or]

theorem callOf_append_right {id : String} (h : ∀ call ∈ left, call.id ≠ id) :
    callOf (left ++ right) id = callOf right id := by
  have hnone : left.reverse.find? (fun call =>
      decide (call.id = id) && !decide (call.id = "")) = none := by
    rw [List.find?_eq_none]
    intro call hcall
    have hne := h call (List.mem_reverse.mp hcall)
    simp [hne]
  unfold callOf
  rw [List.reverse_append, List.find?_append, hnone, Option.or_none]

/-- What a summary carries of one message, given the calls around it. -/
def carriedOf (calls : List ToolCall) : Message → Option CarriedToolCall
  | .tool _ name toolCallId status =>
      if status.isCapabilityGateRefusal || status.isToolNotRun then none
      else
        (callOf calls toolCallId).map fun call =>
          ⟨name.getD call.name, call.args, status.isError⟩
  | .human _ _ | .ai _ _ => none

variable {message : Message}

theorem carriedOf_congr
    (h : ∀ id ∈ message.answers, callOf left id = callOf right id) :
    carriedOf left message = carriedOf right message := by
  cases message with
  | human id kind => rfl
  | ai id calls => rfl
  | tool id name toolCallId status =>
      simp only [carriedOf]
      rw [h toolCallId (by simp [answers])]

theorem condensedCalls_cons (keptIds : List String) (seen : List ToolCall)
    (message : Message) (messages : List Message) :
    condensedCalls keptIds seen (message :: messages) =
      if message.id ∈ keptIds then condensedCalls keptIds seen messages
      else
        match message with
        | .ai _ calls => condensedCalls keptIds (seen ++ calls) messages
        | .human _ _ => condensedCalls keptIds seen messages
        | .tool _ name toolCallId status =>
            if status.isCapabilityGateRefusal || status.isToolNotRun then
              condensedCalls keptIds seen messages
            else
              match callOf seen toolCallId with
              | none => condensedCalls keptIds seen messages
              | some call =>
                  ⟨name.getD call.name, call.args, status.isError⟩ ::
                    condensedCalls keptIds seen messages := by
  rw [condensedCalls.eq_def]
  rfl

theorem condensedCalls_of_removed {keptIds : List String}
    {messages : List Message} (hremoved : ∀ message ∈ messages,
      message.id ∉ keptIds) (hordered : Ordered messages)
    (seen : List ToolCall) :
    condensedCalls keptIds seen messages =
      messages.filterMap (carriedOf (seen ++ messages.flatMap toolCalls)) := by
  induction messages generalizing seen with
  | nil => rfl
  | cons message messages ih =>
      rw [Ordered, List.pairwise_cons] at hordered
      have hih := ih (fun m hm => hremoved m (by simp [hm])) hordered.2
      have hid : message.id ∉ keptIds := hremoved message (by simp)
      rw [condensedCalls_cons, if_neg hid]
      cases message with
      | human id kind =>
          rw [hih seen, List.filterMap_cons_none (by rfl)]
          simp [toolCalls]
      | ai id calls =>
          dsimp only
          rw [hih (seen ++ calls), List.filterMap_cons_none (by rfl)]
          simp [toolCalls]
      | tool id name toolCallId status =>
          have hafter : ∀ call ∈ messages.flatMap toolCalls,
              call.id ≠ toolCallId := by
            intro call hcall
            rcases List.mem_flatMap.mp hcall with ⟨later, hlater, hmem⟩
            exact hordered.1 later hlater toolCallId (by simp [answers])
              call hmem
          have hcalls : (Message.tool id name toolCallId status ::
              messages).flatMap toolCalls = messages.flatMap toolCalls := by
            simp [toolCalls]
          rw [hcalls, List.filterMap_cons]
          simp only [carriedOf, callOf_append_left hafter]
          split_ifs with hskip
          · exact hih seen
          · cases callOf seen toolCallId with
            | none => exact hih seen
            | some call =>
                simp only [Option.map_some]
                rw [hih seen]

theorem condensedCalls_of_kept {keptIds : List String}
    {messages : List Message} (hkept : ∀ message ∈ messages,
      message.id ∈ keptIds) (seen : List ToolCall) :
    condensedCalls keptIds seen messages = [] := by
  induction messages generalizing seen with
  | nil => rfl
  | cons message messages ih =>
      rw [condensedCalls_cons, if_pos (hkept message (by simp))]
      exact ih (fun m hm => hkept m (by simp [hm])) seen

theorem condensedCalls_append_kept {keptIds : List String}
    {removed kept : List Message}
    (hkept : ∀ message ∈ kept, message.id ∈ keptIds)
    (seen : List ToolCall) :
    condensedCalls keptIds seen (removed ++ kept) =
      condensedCalls keptIds seen removed := by
  induction removed generalizing seen with
  | nil => exact condensedCalls_of_kept hkept seen
  | cons message removed ih =>
      rw [List.cons_append, condensedCalls_cons, condensedCalls_cons]
      split
      next => exact ih seen
      next =>
        cases message with
        | human id kind => exact ih seen
        | ai id calls => exact ih (seen ++ calls)
        | tool id name toolCallId status =>
            rw [ih seen]

/-- What the whole removed part of a turn leaves in the carry. -/
def carryOf (gone : List Message) : List CarriedToolCall :=
  gone.filterMap (carriedOf (gone.flatMap toolCalls))

theorem carryOf_append {gone more : List Message}
    (hordered : Ordered (gone ++ more)) (hunsplit : Turn.Unsplit gone more) :
    carryOf (gone ++ more) = carryOf gone ++ carryOf more := by
  rw [Ordered, List.pairwise_append] at hordered
  unfold carryOf
  rw [List.filterMap_append, List.flatMap_append]
  congr 1
  · apply List.filterMap_congr
    intro message hmessage
    apply carriedOf_congr
    intro id hid
    apply callOf_append_left
    intro call hcall
    rcases List.mem_flatMap.mp hcall with ⟨later, hlater, hmem⟩
    exact hordered.2.2 message hmessage later hlater id hid call hmem
  · apply List.filterMap_congr
    intro message hmessage
    apply carriedOf_congr
    intro id hid
    apply callOf_append_right
    intro call hcall
    exact hunsplit message hmessage id hid call hcall

theorem toolCallArgs_congr {left right : List Message} {id : String}
    (h : callOf (left.flatMap toolCalls) id =
      callOf (right.flatMap toolCalls) id) :
    toolCallArgs left id = toolCallArgs right id := by
  rw [toolCallArgs_eq, toolCallArgs_eq, h]

variable {call : ToolCall}

theorem isIdentical_congr {left right : List Message}
    (h : ∀ id ∈ message.answers, callOf (left.flatMap toolCalls) id =
      callOf (right.flatMap toolCalls) id) :
    isIdentical left call message = isIdentical right call message := by
  cases message with
  | human id kind => rfl
  | ai id calls => rfl
  | tool id name toolCallId status =>
      simp only [isIdentical]
      rw [toolCallArgs_congr (h toolCallId (by simp [answers]))]

/-- Every result bears a name. -/
def Named (messages : List Message) : Prop := ∀ id name toolCallId status,
    Message.tool id name toolCallId status ∈ messages → name ≠ none

/-- Whether a result counts against a call, by its success. -/
def counts (failed : Bool) (window : List Message) (call : ToolCall)
    (message : Message) : Bool :=
  (if failed then isFailure message else isSuccess message) &&
    isIdentical window call message

theorem carriedOf_counts {messages : List Message} (hnamed : Named messages)
    (hmessage : message ∈ messages) (failed : Bool)
    (call : ToolCall) :
    (carriedOf (messages.flatMap toolCalls) message).any (fun carried =>
        decide (carried.failed = failed) && carried.same call) =
      counts failed messages call message := by
  cases message with
  | human id kind => cases failed <;> rfl
  | ai id calls => cases failed <;> rfl
  | tool id name toolCallId status =>
      cases hname : name with
      | none => exact absurd hname (hnamed _ _ _ _ hmessage)
      | some toolName =>
          simp only [carriedOf, counts, isIdentical, toolCallArgs_eq]
          cases hcall : callOf (messages.flatMap toolCalls) toolCallId with
          | none => simp
          | some found =>
              cases failed <;> cases status <;>
                simp [isFailure, isSuccess, ResultStatus.isError,
                  ResultStatus.isCapabilityGateRefusal,
                  ResultStatus.isToolNotRun, CarriedToolCall.same]

theorem countP_filterMap_any {α β : Type*} (f : α → Option β)
    (p : β → Bool) (l : List α) :
    (l.filterMap f).countP p = l.countP fun a => (f a).any p := by
  rw [List.countP_filterMap]
  apply List.countP_congr
  intro a _
  cases f a <;> simp

/-- The carry counts as the messages it condenses. -/
theorem countP_carryOf {gone : List Message} (hnamed : Named gone)
    (failed : Bool) (call : ToolCall) :
    (carryOf gone).countP (fun carried =>
        decide (carried.failed = failed) && carried.same call) =
      gone.countP (counts failed gone call) := by
  unfold carryOf
  rw [countP_filterMap_any]
  apply List.countP_congr
  intro message hmessage
  rw [carriedOf_counts hnamed hmessage]

theorem counts_congr {left right : List Message} {failed : Bool}
    (h : ∀ id ∈ message.answers, callOf (left.flatMap toolCalls) id =
      callOf (right.flatMap toolCalls) id) :
    counts failed left call message = counts failed right call message := by
  unfold counts
  rw [isIdentical_congr h]

/-- The results of a turn count in its two parts as in the whole. -/
theorem countP_counts_append {gone kept : List Message}
    (hordered : Ordered (gone ++ kept)) (hunsplit : Turn.Unsplit gone kept)
    (failed : Bool) (call : ToolCall) :
    (gone ++ kept).countP (counts failed (gone ++ kept) call) =
      gone.countP (counts failed gone call) +
        kept.countP (counts failed kept call) := by
  rw [Ordered, List.pairwise_append] at hordered
  rw [List.countP_append]
  congr 1
  · apply List.countP_congr
    intro message hmessage
    rw [counts_congr]
    intro id hid
    rw [List.flatMap_append]
    apply callOf_append_left
    intro other hother
    rcases List.mem_flatMap.mp hother with ⟨later, hlater, hmem⟩
    exact hordered.2.2 message hmessage later hlater id hid other hmem
  · apply List.countP_congr
    intro message hmessage
    rw [counts_congr]
    intro id hid
    rw [List.flatMap_append]
    apply callOf_append_right
    intro other hother
    exact hunsplit message hmessage id hid other hother

/-- The decision, from the two counts of identical results. -/
def decisionOf (options : Options) (call : ToolCall)
    (discovered failures identical : ℕ) : Decision :=
  if isDiscovery call.name ∧ maxDiscoveryCalls ≤ discovered then
    .discoveryCap
  else if 0 < failures then .earlierFailure
  else if identical < options.cap call.name then .run
  else .identicalCap

/-- The messages of a turn: what came before it, its opening, and the rest. -/
structure TurnOf (messages : List Message) (first : Message)
    (rest : List Message) : Prop where
  split : ∃ before, messages = before ++ first :: rest
  first : ∃ id kind, first = .human id kind ∧ first.opensTurn = true
  rest : ∀ message ∈ rest, message.opensTurn = false

variable {messages rest : List Message}

theorem TurnOf.drop (h : TurnOf messages first rest) :
    messages.drop (turnStart messages) = first :: rest := by
  rcases h.split with ⟨before, rfl⟩
  rcases h.first with ⟨_, _, _, hopens⟩
  rw [turnStart_eq hopens h.rest]
  simp

theorem TurnOf.get (h : TurnOf messages first rest) :
    messages[turnStart messages]? = some first := by
  rcases h.split with ⟨before, rfl⟩
  rcases h.first with ⟨_, _, _, hopens⟩
  rw [turnStart_eq hopens h.rest]
  simp

theorem TurnOf.discovered (h : TurnOf messages first rest) :
    discoveryCallsInTurn messages = rest.countP isDiscoveryResult := by
  rcases h.first with ⟨id, kind, rfl, -⟩
  unfold discoveryCallsInTurn
  rw [h.drop, List.countP_cons_of_neg (by simp [isDiscoveryResult])]

theorem isIdentical_human {id : String} {kind : HumanKind}
    (rest : List Message) (call : ToolCall) (message : Message) :
    isIdentical (.human id kind :: rest) call message =
      isIdentical rest call message := by
  cases message <;> rfl

theorem any_eq_countP_pos {α : Type*} (p : α → Bool) (l : List α) :
    l.any p = decide (0 < l.countP p) := by
  rw [Bool.eq_iff_iff, decide_eq_true_iff, List.any_eq_true,
    List.countP_pos_iff]

/-- The decision on a call of the response the messages end with. -/
theorem decision_eq {options : Options} (hlookback : options.lookback = none)
    {messageId : String}
    {toolCalls : List ToolCall}
    (h : TurnOf messages first (rest ++ [.ai messageId toolCalls]))
    (hcall : call ∈ toolCalls) (hid : call.id ≠ "") :
    decision options messages call = decisionOf options call
        (rest.countP isDiscoveryResult)
        ((first.turnCarryOf.getD []).countP (fun carried =>
            decide (carried.failed = true) && carried.same call) +
          rest.countP (counts true (rest ++ [.ai messageId toolCalls]) call))
        ((first.turnCarryOf.getD []).countP (fun carried =>
            decide (carried.failed = false) && carried.same call) +
          rest.countP (counts false (rest ++ [.ai messageId toolCalls]) call) +
          (toolCalls.takeWhile fun other =>
            !decide (other.id = call.id)).countP (sameCall call)) := by
  have hstart : options.start messages = turnStart messages := by
    simp [Options.start, hlookback]
  have hwindow : messages.drop (options.start messages) =
      first :: (rest ++ [.ai messageId toolCalls]) := by
    rw [hstart, h.drop]
  have hcarried : carriedCalls options messages call =
      (first.turnCarryOf.getD []).filter (CarriedToolCall.same call) := by
    simp [carriedCalls, hstart, h.get]
  have hdiscovered : discoveryCallsInTurn messages =
      rest.countP isDiscoveryResult := by
    rw [h.discovered, List.countP_append]
    simp [isDiscoveryResult]
  have hsiblings : stepCallsBefore
      (first :: (rest ++ [.ai messageId toolCalls])) call.id =
      toolCalls.takeWhile fun other => !decide (other.id = call.id) := by
    have hany : (Message.ai messageId toolCalls).toolCalls.any
        (fun other => decide (other.id = call.id)) = true := by
      rw [List.any_eq_true]
      exact ⟨call, hcall, by simp⟩
    unfold stepCallsBefore
    rw [if_neg hid, ← List.cons_append, List.reverse_append,
      List.reverse_singleton, List.singleton_append, List.find?_cons, hany]
    rfl
  rcases h.first with ⟨id, kind, rfl, -⟩
  have hlast : ∀ failed window, counts failed window call
      (.ai messageId toolCalls) = false := by
    intro failed window
    cases failed <;> rfl
  have hcount : ∀ failed, (Message.human id kind ::
        (rest ++ [.ai messageId toolCalls])).countP (fun message =>
          (if failed then isFailure message else isSuccess message) &&
            isIdentical (.human id kind ::
              (rest ++ [.ai messageId toolCalls])) call message) =
        rest.countP (counts failed (rest ++ [.ai messageId toolCalls])
          call) := by
    intro failed
    simp only [isIdentical_human]
    rw [List.countP_cons_of_neg (by cases failed <;>
      simp [isFailure, isSuccess])]
    rw [List.countP_append]
    have hzero := hlast failed (rest ++ [.ai messageId toolCalls])
    unfold counts at hzero ⊢
    simp [hzero]
  unfold decision decisionOf
  dsimp only
  rw [hwindow, hcarried, hdiscovered, hsiblings]
  have hfail := hcount true
  have hsucc := hcount false
  simp only [if_true, Bool.false_eq_true, if_false] at hfail hsucc
  rw [any_eq_countP_pos, hfail, hsucc, any_eq_countP_pos,
    List.countP_filter, List.countP_filter, ← Bool.decide_or]
  have hor : (0 < rest.countP (counts true (rest ++
        [.ai messageId toolCalls]) call) ∨
      0 < ((Message.human id kind).turnCarryOf.getD []).countP fun carried =>
        carried.failed && carried.same call) ↔
      0 < ((Message.human id kind).turnCarryOf.getD []).countP (fun carried =>
          decide (carried.failed = true) && carried.same call) +
        rest.countP (counts true (rest ++ [.ai messageId toolCalls])
          call) := by
    simp only [Bool.decide_eq_true]
    omega
  simp only [decide_eq_true_eq, hor, Bool.decide_eq_false]

namespace Turn

/-- What the guard reads of the turn, whatever was condensed: `gone` are the
turn's messages that were removed, `kept` the ones that are left. -/
structure Condensed (s : Turn) (opening first : Message)
    (gone kept : List Message) : Prop where
  full : TurnOf s.full opening (gone ++ kept)
  messages : TurnOf s.messages first kept
  plain : opening.turnCarryOf = none
  carry : first.turnCarryOf.getD [] = carryOf gone
  ordered : Ordered (gone ++ kept)
  unsplit : Unsplit gone kept
  named : Named (gone ++ kept)
  nodup : ((first :: kept).map Message.id).Nodup
  ids : ∀ message ∈ first :: kept, message.id ∈ s.ids
  answered : ∀ message ∈ gone ++ kept, ∀ id ∈ message.answers, id ∈ s.callIds
  called : ∀ call ∈ (gone ++ kept).flatMap toolCalls, call.id ∈ s.callIds

/-- The caps hold on the turn without summaries. -/
structure Capped (options : Options) (s : Turn) (rest : List Message) :
    Prop where
  within : ∀ call, s.ran.flatten.countP (sameCall call) ≤ options.cap call.name
  counted : ∀ call, rest.countP (counts true rest call) = 0 →
    s.ran.flatten.countP (sameCall call) ≤ rest.countP (counts false rest call)
  searches : s.ran.countP (fun step =>
      step.any fun call => isDiscovery call.name) ≤
    min maxDiscoveryCalls (rest.countP isDiscoveryResult)
  agreed : ∀ pair ∈ s.decided, pair.1 = pair.2

/-- Every result bears its tool's name, and a discovery call finds enough of
the turn's discovery results in the messages. -/
def Counted (s : Turn) : TurnEvent → Prop
  | .responds _ toolCalls results =>
      (∀ result ∈ results, ∀ call ∈ toolCalls, call.id = result.callId →
        result.name = some call.name) ∧
      ∀ call ∈ toolCalls, isDiscovery call.name = true →
        discoveryCallsInTurn s.full < maxDiscoveryCalls ∨
          maxDiscoveryCalls ≤ discoveryCallsInTurn s.messages
  | .reattaches _ | .summarizes _ _ => True

instance (s : Turn) (event : TurnEvent) : Decidable (s.Counted event) :=
  match event with
  | .responds _ _ _ => inferInstanceAs (Decidable (_ ∧ _))
  | .reattaches _ | .summarizes _ _ => instDecidableTrue

end Turn

theorem TurnOf.append (h : TurnOf messages first rest) {more : List Message}
    (hmore : ∀ message ∈ more, message.opensTurn = false) :
    TurnOf (messages ++ more) first (rest ++ more) := by
  constructor
  · rcases h.split with ⟨before, rfl⟩
    exact ⟨before, by simp⟩
  · exact h.first
  · intro message hmem
    rcases List.mem_append.mp hmem with hold | hnew
    · exact h.rest message hold
    · exact hmore message hnew

theorem countP_counts_fresh {rest : List Message} {callIds : List String}
    {more : List Message}
    (hanswered : ∀ message ∈ rest, ∀ id ∈ message.answers, id ∈ callIds)
    (hfresh : ∀ call ∈ more.flatMap toolCalls, call.id ∉ callIds)
    (failed : Bool) (call : ToolCall) :
    rest.countP (counts failed (rest ++ more) call) =
      rest.countP (counts failed rest call) := by
  apply List.countP_congr
  intro message hmessage
  rw [counts_congr]
  intro id hid
  rw [List.flatMap_append]
  apply callOf_append_left
  intro other hother heq
  exact hfresh other hother (heq ▸ hanswered message hmessage id hid)

theorem decisionOf_congr {options : Options}
    {left right failures identical : ℕ} (hle : left ≤ right)
    (hsearch : isDiscovery call.name = true →
      right < maxDiscoveryCalls ∨ maxDiscoveryCalls ≤ left) :
    decisionOf options call left failures identical =
      decisionOf options call right failures identical := by
  unfold decisionOf
  have hiff : (isDiscovery call.name = true ∧ maxDiscoveryCalls ≤ left) ↔
      (isDiscovery call.name = true ∧ maxDiscoveryCalls ≤ right) := by
    constructor
    · rintro ⟨hname, hcap⟩
      exact ⟨hname, hcap.trans hle⟩
    · rintro ⟨hname, hcap⟩
      rcases hsearch hname with hlt | hge
      · exact absurd hcap (Nat.not_le.mpr hlt)
      · exact ⟨hname, hge⟩
  simp only [hiff]

/-- Elements counted by `q` each have fewer than `k` of those counted by `p`
before them. -/
theorem countP_le_of_prefix {α : Type*} {p q : α → Bool}
    (hpq : ∀ a, q a = true → p a = true) {k : ℕ} {l : List α}
    (hbefore : ∀ front a back, l = front ++ a :: back → q a = true →
      front.countP p < k) : l.countP q ≤ k := by
  induction l using List.reverseRecOn with
  | nil => simp
  | append_singleton l last ih =>
      rw [List.countP_append]
      by_cases hlast : q last = true
      · have hmono : l.countP q ≤ l.countP p :=
          List.countP_mono_left fun a _ ha => hpq a ha
        have hlt := hbefore l last [] rfl hlast
        simp only [List.countP_cons, List.countP_nil, hlast, if_true]
        omega
      · have hrest := ih fun front a back hsplit ha =>
          hbefore front a (back ++ [last]) (by simp [hsplit]) ha
        simp only [List.countP_cons, List.countP_nil, hlast]
        simpa using hrest

theorem sameCall_congr {call other : ToolCall}
    (h : sameCall call other = true) : sameCall other = sameCall call := by
  simp only [sameCall, Bool.and_eq_true, decide_eq_true_eq] at h
  funext third
  simp only [sameCall, h.1, h.2]

theorem counts_same {call other : ToolCall}
    (h : sameCall call other = true) (failed : Bool)
    (window : List Message) :
    counts failed window other = counts failed window call := by
  simp only [sameCall, Bool.and_eq_true, decide_eq_true_eq] at h
  funext message
  unfold counts
  congr 1
  cases message with
  | human id kind => rfl
  | ai id calls => rfl
  | tool id name toolCallId status =>
      simp only [isIdentical, h.1, h.2]

theorem decisionOf_eq_run {options : Options}
    {discovered failures identical : ℕ} :
    decisionOf options call discovered failures identical = .run ↔
      (isDiscovery call.name = true → discovered < maxDiscoveryCalls) ∧
        failures = 0 ∧ identical < options.cap call.name := by
  unfold decisionOf
  split_ifs with hsearch hfail hcap
  · simp only [false_iff, not_and]
    intro hlt
    exact absurd (hlt hsearch.1) (Nat.not_lt.mpr hsearch.2)
  · simp only [false_iff, not_and]
    intro _ hzero
    omega
  · simp only [true_iff]
    refine ⟨fun hname => ?_, by omega, hcap⟩
    by_contra hge
    exact hsearch ⟨hname, Nat.not_lt.mp hge⟩
  · simp only [false_iff, not_and]
    intro _ _ hlt
    exact hcap hlt

theorem takeWhile_id_eq {front back : List ToolCall}
    (hnodup : ((front ++ call :: back).map ToolCall.id).Nodup) :
    ((front ++ call :: back).takeWhile fun other =>
      !decide (other.id = call.id)) = front := by
  rw [List.map_append, List.map_cons, List.nodup_append] at hnodup
  have hfront : ∀ other ∈ front, (!decide (other.id = call.id)) = true := by
    intro other hother
    have hne := hnodup.2.2 other.id (List.mem_map_of_mem hother) call.id
      (by simp)
    simp [hne]
  rw [List.takeWhile_append_of_pos hfront, List.takeWhile_cons_of_neg (by simp)]
  simp

namespace Turn

section Step

variable {options : Options} {s : Turn} {opening first : Message}
  {gone kept : List Message} {messageId : String}
  {toolCalls : List ToolCall} {results : List StepResult}

theorem Answers.fresh (hanswers : s.Answers messageId toolCalls results) :
    ∀ other ∈ [Message.ai messageId toolCalls].flatMap Message.toolCalls,
      other.id ∉ s.callIds := by
  intro other hother
  have hmem : other ∈ toolCalls := by simpa [Message.toolCalls] using hother
  exact (hanswers.2.2.2.1 other.id (List.mem_map_of_mem hmem)).1

/-- The decision on the turn without summaries. -/
theorem Condensed.full_decision (h : s.Condensed opening first gone kept)
    (hlookback : options.lookback = none)
    (hanswers : s.Answers messageId toolCalls results) {call : ToolCall}
    (hcall : call ∈ toolCalls) :
    decision options (s.full ++ [.ai messageId toolCalls]) call =
      decisionOf options call ((gone ++ kept).countP isDiscoveryResult)
        ((gone ++ kept).countP (counts true (gone ++ kept) call))
        ((gone ++ kept).countP (counts false (gone ++ kept) call) +
          (toolCalls.takeWhile fun other =>
            !decide (other.id = call.id)).countP (sameCall call)) := by
  have hnew := hanswers.2.2.2.1 call.id (List.mem_map_of_mem hcall)
  have hfresh := hanswers.fresh
  have hturn : TurnOf (s.full ++ [.ai messageId toolCalls]) opening
      (gone ++ kept ++ [.ai messageId toolCalls]) :=
    h.full.append (by simp [opensTurn])
  rw [decision_eq hlookback hturn hcall hnew.2, h.plain,
    countP_counts_fresh h.answered hfresh,
    countP_counts_fresh h.answered hfresh]
  simp

/-- The guard decides as on the turn without summaries. -/
theorem Condensed.decision (h : s.Condensed opening first gone kept)
    (hlookback : options.lookback = none)
    (hanswers : s.Answers messageId toolCalls results)
    (hcounted : s.Counted (.responds messageId toolCalls results))
    {call : ToolCall} (hcall : call ∈ toolCalls) :
    decision options (s.messages ++ [.ai messageId toolCalls]) call =
      decision options (s.full ++ [.ai messageId toolCalls]) call := by
  have hnew := hanswers.2.2.2.1 call.id (List.mem_map_of_mem hcall)
  have hfresh := hanswers.fresh
  have hturn : TurnOf (s.messages ++ [.ai messageId toolCalls]) first
      (kept ++ [.ai messageId toolCalls]) :=
    h.messages.append (by simp [opensTurn])
  have hkept : ∀ message ∈ kept, ∀ id ∈ message.answers, id ∈ s.callIds :=
    fun message hmem => h.answered message (List.mem_append_right _ hmem)
  have hgone : Named gone := fun id name callId status hmem =>
    h.named id name callId status (List.mem_append_left _ hmem)
  rw [h.full_decision hlookback hanswers hcall,
    decision_eq hlookback hturn hcall hnew.2, h.carry,
    countP_counts_fresh hkept hfresh, countP_counts_fresh hkept hfresh,
    countP_carryOf hgone, countP_carryOf hgone,
    ← countP_counts_append h.ordered h.unsplit,
    ← countP_counts_append h.ordered h.unsplit]
  apply decisionOf_congr
  · rw [List.countP_append]
    omega
  · intro hsearch
    have hcond := hcounted.2 call hcall hsearch
    rw [h.full.discovered, h.messages.discovered] at hcond
    exact hcond

theorem carriedCallsOfTurn_kept {messages rest : List Message}
    {keptIds : List String} (h : TurnOf messages first rest)
    (hkept : first.id ∈ keptIds) :
    carriedCallsOfTurn messages keptIds = none := by
  rcases h.first with ⟨id, kind, rfl, -⟩
  unfold carriedCallsOfTurn
  rw [h.get]
  exact if_pos hkept

/-- A summary that removes the turn's opening carries what it removes. -/
theorem carriedCallsOfTurn_removed {messages removed rest : List Message}
    (h : TurnOf messages first (removed ++ rest))
    (hnodup : ((first :: (removed ++ rest)).map Message.id).Nodup)
    (hordered : Ordered removed) :
    carriedCallsOfTurn messages (rest.map Message.id) =
      some (first.turnCarryOf.getD [] ++ carryOf removed) := by
  rw [List.map_cons, List.map_append, List.nodup_cons, List.nodup_append]
    at hnodup
  have hfirst : first.id ∉ rest.map Message.id := fun hmem =>
    hnodup.1 (List.mem_append_right _ hmem)
  have hremoved : ∀ message ∈ removed, message.id ∉ rest.map Message.id := by
    intro message hmem hrest
    exact hnodup.2.2.2 message.id (List.mem_map_of_mem hmem) message.id hrest
      rfl
  have hdrop := h.drop
  have hget := h.get
  rcases h.first with ⟨id, kind, rfl, -⟩
  have hid : id ∉ rest.map Message.id := hfirst
  unfold carriedCallsOfTurn
  rw [hget]
  simp only [if_neg hid, hdrop]
  rw [condensedCalls_cons, if_neg hfirst]
  rw [condensedCalls_append_kept (fun message hmem =>
      List.mem_map_of_mem hmem),
    condensedCalls_of_removed hremoved hordered]
  rfl

theorem Condensed.summarizes (h : s.Condensed opening first gone kept)
    {removed : ℕ} (hfresh : messageId ∉ s.ids)
    (hunsplit : Unsplit (s.messages.take removed) (s.messages.drop removed)) :
    ∃ first' gone' kept',
      (s.summarizes messageId removed).Condensed opening first' gone' kept' ∧
        gone' ++ kept' = gone ++ kept := by
  rcases h.messages.split with ⟨before, hsplit⟩
  by_cases hopening : removed ≤ before.length
  · have hdrop : s.messages.drop removed =
        before.drop removed ++ first :: kept := by
      rw [hsplit, List.drop_append_of_le_length hopening]
    have hnone : carriedCallsOfTurn s.messages
        ((s.messages.drop removed).map Message.id) = none := by
      apply carriedCallsOfTurn_kept h.messages
      rw [hdrop]
      simp
    refine ⟨first, gone, kept, ?_, rfl⟩
    refine { h with messages := ?_, ids := ?_ }
    · refine { h.messages with split := ?_ }
      · refine ⟨.human messageId (.summary none) :: before.drop removed, ?_⟩
        simp only [Turn.summarizes, hnone]
        rw [hdrop, List.cons_append]
    · intro message hmem
      exact List.mem_append_left _ (h.ids message hmem)
  · obtain ⟨k, rfl⟩ : ∃ k, removed = before.length + (k + 1) :=
      ⟨removed - before.length - 1, by omega⟩
    have hdrop : s.messages.drop (before.length + (k + 1)) = kept.drop k := by
      rw [hsplit, List.drop_append]
      simp
    have htake : s.messages.take (before.length + (k + 1)) =
        before ++ first :: kept.take k := by
      rw [hsplit, List.take_append]
      simp
    have hparts : kept.take k ++ kept.drop k = kept := List.take_append_drop k kept
    have hnodup := h.nodup
    have hordered := h.ordered
    rw [← hparts] at hnodup
    have hgoneKept := List.pairwise_append.mp hordered
    have hturn := h.messages
    rw [← hparts] at hturn
    have hcarry := carriedCallsOfTurn_removed hturn hnodup
      (hgoneKept.2.1.sublist (List.take_sublist k kept))
    have hwhole : (gone ++ kept.take k) ++ kept.drop k = gone ++ kept := by
      rw [List.append_assoc, hparts]
    have hkeptUnsplit : Unsplit gone (kept.take k) := fun message hmem =>
      h.unsplit message (List.mem_of_mem_take hmem)
    rw [htake, hdrop] at hunsplit
    refine ⟨.human messageId (.summary (some (first.turnCarryOf.getD [] ++
      carryOf (kept.take k)))), gone ++ kept.take k, kept.drop k, ?_, hwhole⟩
    constructor
    · rw [hwhole]
      exact h.full
    · constructor
      · refine ⟨[], ?_⟩
        simp only [Turn.summarizes, hdrop, List.nil_append]
        rw [hcarry]
      · exact ⟨messageId, _, rfl, rfl⟩
      · intro message hmem
        exact h.messages.rest message (List.mem_of_mem_drop hmem)
    · exact h.plain
    · change first.turnCarryOf.getD [] ++ carryOf (kept.take k) = _
      rw [h.carry, carryOf_append _ hkeptUnsplit]
      rw [← hwhole, Ordered] at hordered
      exact (List.pairwise_append.mp hordered).1
    · rw [hwhole]
      exact h.ordered
    · intro message hmem id hid call hcall
      rw [List.flatMap_append, List.mem_append] at hcall
      rcases hcall with hgone | htaken
      · exact h.unsplit message (List.mem_of_mem_drop hmem) id hid call hgone
      · apply hunsplit message hmem id hid call
        rw [List.flatMap_append, List.flatMap_cons]
        simp [htaken]
    · rw [hwhole]
      exact h.named
    · rw [List.map_cons, List.nodup_cons]
      rw [List.map_cons, List.map_append, List.nodup_cons,
        List.nodup_append] at hnodup
      constructor
      · intro hmem
        rcases List.mem_map.mp hmem with ⟨message, hmessage, hid⟩
        have hold := h.ids message
          (List.mem_cons_of_mem _ (List.mem_of_mem_drop hmessage))
        have hid' : message.id = messageId := hid
        rw [hid'] at hold
        exact hfresh hold
      · exact hnodup.2.2.1
    · intro message hmem
      rcases List.mem_cons.mp hmem with rfl | hkept
      · simp [Turn.summarizes, Message.id]
      · exact List.mem_append_left _ (h.ids message
          (List.mem_cons_of_mem _ (List.mem_of_mem_drop hkept)))
    · rw [hwhole]
      exact h.answered
    · rw [hwhole]
      exact h.called

/-- New messages, after what was there. -/
structure Fresh (s : Turn) (more : List Message) (callIds : List String) :
    Prop where
  rest : ∀ message ∈ more, message.opensTurn = false
  nodup : (more.map Message.id).Nodup
  ids : ∀ message ∈ more, message.id ∉ s.ids
  answered : ∀ message ∈ more, ∀ id ∈ message.answers,
    id ∈ callIds ∧ id ∉ s.callIds
  called : ∀ call ∈ more.flatMap Message.toolCalls,
    call.id ∈ callIds ∧ call.id ∉ s.callIds
  ordered : Ordered more
  named : Named more

theorem Condensed.appends (h : s.Condensed opening first gone kept)
    {more : List Message} {callIds : List String}
    (hfresh : s.Fresh more callIds) {s' : Turn}
    (hfull : s'.full = s.full ++ more)
    (hmessages : s'.messages = s.messages ++ more)
    (hold : s.ids ⊆ s'.ids) (hids : ∀ message ∈ more, message.id ∈ s'.ids)
    (hcallIds : s'.callIds = s.callIds ++ callIds) :
    s'.Condensed opening first gone (kept ++ more) := by
  have hassoc : gone ++ (kept ++ more) = gone ++ kept ++ more := by simp
  constructor
  · rw [hfull, hassoc]
    exact h.full.append hfresh.rest
  · rw [hmessages]
    exact h.messages.append hfresh.rest
  · exact h.plain
  · exact h.carry
  · rw [hassoc, Ordered, List.pairwise_append]
    refine ⟨h.ordered, hfresh.ordered, ?_⟩
    intro message hmem later hlater id hid call hcall heq
    have hnew := (hfresh.called call
      (List.mem_flatMap.mpr ⟨later, hlater, hcall⟩)).2
    exact hnew (heq ▸ h.answered message hmem id hid)
  · intro message hmem id hid call hcall
    rcases List.mem_append.mp hmem with hold | hnew
    · exact h.unsplit message hold id hid call hcall
    · rintro rfl
      apply (hfresh.answered message hnew call.id hid).2
      apply h.called call
      rw [List.flatMap_append]
      exact List.mem_append_left _ hcall
  · rw [hassoc]
    intro id name callId status hmem
    rcases List.mem_append.mp hmem with hold | hnew
    · exact h.named id name callId status hold
    · exact hfresh.named id name callId status hnew
  · rw [← List.cons_append, List.map_append, List.nodup_append]
    refine ⟨h.nodup, hfresh.nodup, ?_⟩
    intro id hid other hother heq
    subst heq
    rcases List.mem_map.mp hid with ⟨message, hmessage, rfl⟩
    rcases List.mem_map.mp hother with ⟨later, hlater, heq⟩
    apply hfresh.ids later hlater
    rw [heq]
    exact h.ids message hmessage
  · intro message hmem
    rw [← List.cons_append, List.mem_append] at hmem
    rcases hmem with hprior | hnew
    · exact hold (h.ids message hprior)
    · exact hids message hnew
  · intro message hmem id hid
    rw [hcallIds]
    rw [hassoc] at hmem
    rcases List.mem_append.mp hmem with hold | hnew
    · exact List.mem_append_left _ (h.answered message hold id hid)
    · exact List.mem_append_right _ (hfresh.answered message hnew id hid).1
  · intro call hcall
    rw [hcallIds]
    rw [hassoc, List.flatMap_append] at hcall
    rcases List.mem_append.mp hcall with hold | hnew
    · exact List.mem_append_left _ (h.called call hold)
    · exact List.mem_append_right _ (hfresh.called call hnew).1

/-- What one result of a response is. -/
structure ResultOf (decided : ToolCall → Decision)
    (toolCalls : List ToolCall) (results : List StepResult)
    (entry : ToolCall × Message × Bool) : Prop where
  called : entry.1 ∈ toolCalls
  message : ∃ result ∈ results, ∃ status,
    entry.2.1 = .tool result.messageId (some entry.1.name) entry.1.id status ∧
      (entry.2.2 = true → decided entry.1 = .run ∧
        (status = .success ∨ status = .error))

variable {decided : ToolCall → Decision}

theorem resultOf_of_mem (hnamed : ∀ result ∈ results, ∀ call ∈ toolCalls,
      call.id = result.callId → result.name = some call.name)
    {entry : ToolCall × Message × Bool}
    (hentry : entry ∈ stepResults decided toolCalls results) :
    ResultOf decided toolCalls results entry := by
  rcases List.mem_filterMap.mp hentry with ⟨result, hresult, hfound⟩
  rcases Option.map_eq_some_iff.mp hfound with ⟨call, hcall, rfl⟩
  have hmem : call ∈ toolCalls := List.mem_of_find?_eq_some hcall
  have hid : call.id = result.callId := by
    simpa using List.find?_some hcall
  have hname := hnamed result hresult call hmem hid
  constructor
  · exact hmem
  · refine ⟨result, hresult, ?_⟩
    cases hfate : result.fate with
    | refusedBefore status =>
        refine ⟨status, ?_, ?_⟩
        · simp [resultOf, hfate, hname]
        · simp [resultOf, hfate]
    | reaches status =>
        by_cases hrun : decided call = .run
        · refine ⟨status, ?_, ?_⟩
          · simp [resultOf, hfate, hrun, hname]
          · intro hran
            simp only [resultOf, hfate, hrun, if_true] at hran
            refine ⟨hrun, ?_⟩
            cases status <;> simp_all [ResultStatus.isCapabilityGateRefusal,
              ResultStatus.isToolNotRun]
        · refine ⟨.error, ?_, ?_⟩
          · simp [resultOf, hfate, hrun]
          · simp [resultOf, hfate, hrun]

/-- Each call of the response gets one result. -/
theorem stepResults_calls (hnodup : (toolCalls.map ToolCall.id).Nodup)
    (hperm : (results.map StepResult.callId).Perm
      (toolCalls.map ToolCall.id)) :
    ((stepResults decided toolCalls results).map Prod.fst).Perm toolCalls := by
  have hfind : ∀ call ∈ toolCalls,
      (toolCalls.find? fun other => decide (other.id = call.id)) =
        some call := by
    intro call hcall
    cases hfound : toolCalls.find? fun other =>
        decide (other.id = call.id) with
    | none =>
        have hnone := List.find?_eq_none.mp hfound call hcall
        simp at hnone
    | some other =>
        have hother := List.mem_of_find?_eq_some hfound
        have hid : other.id = call.id := by
          simpa using List.find?_some hfound
        rw [List.inj_on_of_nodup_map hnodup hother hcall hid]
  have hlist : (stepResults decided toolCalls results).map Prod.fst =
      (results.map StepResult.callId).filterMap fun id =>
        toolCalls.find? fun call => decide (call.id = id) := by
    rw [stepResults, List.map_filterMap, List.filterMap_map]
    apply List.filterMap_congr
    intro result _
    simp [Function.comp_def]
  have hself : (toolCalls.map ToolCall.id).filterMap (fun id =>
      toolCalls.find? fun call => decide (call.id = id)) = toolCalls := by
    rw [List.filterMap_map]
    calc
      toolCalls.filterMap ((fun id => toolCalls.find? fun call =>
          decide (call.id = id)) ∘ ToolCall.id) =
          toolCalls.filterMap some := by
        apply List.filterMap_congr
        intro call hcall
        exact hfind call hcall
      _ = toolCalls := List.filterMap_some
  rw [hlist]
  have hmap := hperm.filterMap fun id =>
    toolCalls.find? fun call => decide (call.id = id)
  rw [hself] at hmap
  exact hmap

theorem stepResults_ids (decided : ToolCall → Decision) :
    ((stepResults decided toolCalls results).map fun entry =>
      entry.2.1.id).Sublist (results.map StepResult.messageId) := by
  induction results with
  | nil => exact List.Sublist.slnil
  | cons result results ih =>
      unfold stepResults at ih ⊢
      cases hfound : toolCalls.find? fun call =>
          decide (call.id = result.callId) with
      | none =>
          rw [List.filterMap_cons_none (by simp [hfound]), List.map_cons]
          exact ih.cons _
      | some call =>
          have hid : (resultOf decided call result).1.id =
              result.messageId := by
            unfold resultOf
            split
            next => rfl
            next =>
              split <;> rfl
          rw [List.filterMap_cons_some (by simp [hfound]; rfl),
            List.map_cons, List.map_cons]
          rw [hid]
          exact ih.cons_cons _

/-- The response and its results are new messages. -/
theorem fresh_response (hanswers : s.Answers messageId toolCalls results)
    (hnamed : ∀ result ∈ results, ∀ call ∈ toolCalls,
      call.id = result.callId → result.name = some call.name) :
    s.Fresh (.ai messageId toolCalls ::
        (stepResults decided toolCalls results).map fun entry => entry.2.1)
      (toolCalls.map ToolCall.id) := by
  have htool : ∀ message ∈ (stepResults decided toolCalls results).map
      (fun entry => entry.2.1), ∃ id name call, ∃ status, call ∈ toolCalls ∧
        message = Message.tool id (some name) call.id status := by
    intro message hmem
    rcases List.mem_map.mp hmem with ⟨entry, hentry, rfl⟩
    have hresult := resultOf_of_mem hnamed hentry
    rcases hresult.message with ⟨result, _, status, hmessage, -⟩
    exact ⟨_, _, entry.1, status, hresult.called, hmessage⟩
  have hids : ((.ai messageId toolCalls ::
      (stepResults decided toolCalls results).map fun entry =>
        entry.2.1).map Message.id).Sublist
        (messageId :: results.map StepResult.messageId) := by
    rw [List.map_cons, List.map_map]
    exact (stepResults_ids decided).cons_cons _
  have hcalls : (.ai messageId toolCalls ::
      (stepResults decided toolCalls results).map fun entry =>
        entry.2.1).flatMap Message.toolCalls = toolCalls := by
    rw [List.flatMap_cons, List.flatMap_eq_nil_iff.mpr]
    · simp [Message.toolCalls]
    · intro message hmem
      rcases htool message hmem with ⟨_, _, _, _, -, rfl⟩
      rfl
  constructor
  · intro message hmem
    rcases List.mem_cons.mp hmem with rfl | hmem
    · rfl
    · rcases htool message hmem with ⟨_, _, _, _, -, rfl⟩
      rfl
  · exact hids.nodup hanswers.1
  · intro message hmem
    exact hanswers.2.1 message.id (hids.subset (List.mem_map_of_mem hmem))
  · intro message hmem id hid
    rcases List.mem_cons.mp hmem with rfl | hmem
    · cases hid
    · rcases htool message hmem with ⟨_, _, call, _, hcall, rfl⟩
      obtain rfl : id = call.id := by simpa [Message.answers] using hid
      exact ⟨List.mem_map_of_mem hcall,
        (hanswers.2.2.2.1 call.id (List.mem_map_of_mem hcall)).1⟩
  · rw [hcalls]
    intro call hcall
    exact ⟨List.mem_map_of_mem hcall,
      (hanswers.2.2.2.1 call.id (List.mem_map_of_mem hcall)).1⟩
  · rw [Ordered, List.pairwise_cons]
    constructor
    · intro message _ id hid
      cases hid
    · apply List.Pairwise.imp_of_mem
        (R := fun _ _ => True) _ (List.pairwise_of_forall fun _ _ => trivial)
      intro message later _ hlater _ id _ call hcall
      rcases htool later hlater with ⟨_, _, _, _, -, rfl⟩
      cases hcall
  · intro id name callId status hmem
    rcases List.mem_cons.mp hmem with heq | hmem
    · cases heq
    · rcases htool _ hmem with ⟨_, _, _, _, -, heq⟩
      cases heq
      simp

/-- A result counts against the calls identical to its own. -/
theorem counts_response (h : s.Condensed opening first gone kept)
    (hanswers : s.Answers messageId toolCalls results)
    {answers : List Message}
    (hanswer : ∀ message ∈ answers, message.toolCalls = [])
    (call : ToolCall) {owner : ToolCall} (howner : owner ∈ toolCalls)
    (failed : Bool) (id : String) (status : ResultStatus) :
    counts failed (gone ++ kept ++ .ai messageId toolCalls :: answers) call
        (.tool id (some owner.name) owner.id status) =
      ((if failed then status.isError &&
            !(status.isCapabilityGateRefusal || status.isToolNotRun)
          else !status.isError) && sameCall call owner) := by
  have hcalls : (gone ++ kept ++ .ai messageId toolCalls ::
      answers).flatMap Message.toolCalls =
      (gone ++ kept).flatMap Message.toolCalls ++ toolCalls := by
    rw [List.flatMap_append, List.flatMap_cons,
      List.flatMap_eq_nil_iff.mpr hanswer, List.append_nil]
    rfl
  have hfresh := hanswers.2.2.2.1 owner.id (List.mem_map_of_mem howner)
  have hold : ∀ other ∈ (gone ++ kept).flatMap Message.toolCalls,
      other.id ≠ owner.id := by
    intro other hother heq
    exact hfresh.1 (heq ▸ h.called other hother)
  have hfound : callOf toolCalls owner.id = some owner := by
    unfold callOf
    cases hfind : toolCalls.reverse.find? fun other =>
        decide (other.id = owner.id) && !decide (other.id = "") with
    | none =>
        have hnone := List.find?_eq_none.mp hfind owner
          (List.mem_reverse.mpr howner)
        simp [hfresh.2] at hnone
    | some other =>
        have hother := List.mem_reverse.mp (List.mem_of_find?_eq_some hfind)
        have hid : other.id = owner.id := by
          have hsome := List.find?_some hfind
          rw [Bool.and_eq_true] at hsome
          simpa using hsome.1
        rw [List.inj_on_of_nodup_map hanswers.2.2.1 hother howner hid]
  simp only [counts, isIdentical, toolCallArgs_eq, hcalls,
    callOf_append_right hold, hfound, isFailure, isSuccess, sameCall]
  simp

/-- The calls of a response that run, by their result. -/
def ranOf (step : List (ToolCall × Message × Bool)) : List ToolCall :=
  step.filterMap fun entry => if entry.2.2 then some entry.1 else none

theorem countP_ranOf (step : List (ToolCall × Message × Bool))
    (p : ToolCall → Bool) :
    (ranOf step).countP p = step.countP fun entry => entry.2.2 && p entry.1 := by
  unfold ranOf
  rw [countP_filterMap_any]
  apply List.countP_congr
  intro entry _
  cases entry.2.2 <;> simp

/-- As many identical calls run as the cap still allows. -/
theorem Condensed.countP_run (h : s.Condensed opening first gone kept)
    (hlookback : options.lookback = none)
    (hanswers : s.Answers messageId toolCalls results)
    (hcounted : s.Counted (.responds messageId toolCalls results))
    (call : ToolCall) :
    (ranOf (stepResults (RepetitionGuard.decision options
          (s.messages ++ [.ai messageId toolCalls]))
        toolCalls results)).countP (sameCall call) ≤
      if (gone ++ kept).countP (counts true (gone ++ kept) call) = 0 then
        options.cap call.name -
          (gone ++ kept).countP (counts false (gone ++ kept) call)
      else 0 := by
  have hrun : ∀ other ∈ toolCalls, sameCall call other = true →
      RepetitionGuard.decision options
          (s.messages ++ [.ai messageId toolCalls]) other = .run →
      (gone ++ kept).countP (counts true (gone ++ kept) call) = 0 ∧
        (gone ++ kept).countP (counts false (gone ++ kept) call) +
          (toolCalls.takeWhile fun third =>
            !decide (third.id = other.id)).countP (sameCall call) <
          options.cap call.name := by
    intro other hother hsame hdecided
    rw [h.decision hlookback hanswers hcounted hother,
      h.full_decision hlookback hanswers hother, decisionOf_eq_run,
      counts_same hsame, counts_same hsame, sameCall_congr hsame] at hdecided
    have hname : other.name = call.name := by
      simp only [sameCall, Bool.and_eq_true, decide_eq_true_eq] at hsame
      exact hsame.1
    rw [hname] at hdecided
    exact ⟨hdecided.2.1, hdecided.2.2⟩
  have hcalls : ((stepResults (RepetitionGuard.decision options
      (s.messages ++ [.ai messageId toolCalls])) toolCalls results).map
        Prod.fst).Perm toolCalls :=
    stepResults_calls hanswers.2.2.1 hanswers.2.2.2.2
  generalize hdecided : RepetitionGuard.decision options
    (s.messages ++ [.ai messageId toolCalls]) = decided at hrun hcalls ⊢
  have hmono : (ranOf (stepResults decided toolCalls results)).countP
      (sameCall call) ≤ toolCalls.countP fun other =>
        decide (decided other = .run) && sameCall call other := by
    rw [countP_ranOf, ← hcalls.countP_eq, List.countP_map]
    apply List.countP_mono_left
    intro entry hentry hran
    rcases (resultOf_of_mem hcounted.1 hentry).message with
      ⟨_, _, _, _, hstatus⟩
    rw [Bool.and_eq_true] at hran
    simp [(hstatus hran.1).1, hran.2]
  apply hmono.trans
  split
  next hzero =>
    apply countP_le_of_prefix (p := sameCall call)
    · intro other hother
      rw [Bool.and_eq_true] at hother
      exact hother.2
    · intro front other back hsplit hother
      rw [Bool.and_eq_true, decide_eq_true_eq] at hother
      have hmem : other ∈ toolCalls := by simp [hsplit]
      have hlt := (hrun other hmem hother.2 hother.1).2
      have hnodup := hanswers.2.2.1
      rw [hsplit] at hnodup hlt
      rw [takeWhile_id_eq hnodup] at hlt
      omega
  next hpos =>
    rw [Nat.le_zero, List.countP_eq_zero]
    intro other hother htrue
    rw [Bool.and_eq_true, decide_eq_true_eq] at htrue
    exact hpos (hrun other hother htrue.2 htrue.1).1

theorem countP_append_response (h : s.Condensed opening first gone kept)
    (hanswers : s.Answers messageId toolCalls results)
    {answers : List Message}
    (hanswer : ∀ message ∈ answers, message.toolCalls = [])
    (failed : Bool) (call : ToolCall) :
    (gone ++ (kept ++ .ai messageId toolCalls :: answers)).countP
        (counts failed
          (gone ++ (kept ++ .ai messageId toolCalls :: answers)) call) =
      (gone ++ kept).countP (counts failed (gone ++ kept) call) +
        answers.countP (counts failed
          (gone ++ kept ++ .ai messageId toolCalls :: answers) call) := by
  have hfresh : ∀ other ∈ (Message.ai messageId toolCalls ::
      answers).flatMap Message.toolCalls, other.id ∉ s.callIds := by
    intro other hother
    rw [List.flatMap_cons, List.flatMap_eq_nil_iff.mpr hanswer,
      List.append_nil] at hother
    exact (hanswers.2.2.2.1 other.id (List.mem_map_of_mem hother)).1
  have hai : counts failed (gone ++ kept ++ .ai messageId toolCalls ::
      answers) call (.ai messageId toolCalls) ≠ true := by
    cases failed <;> simp [counts, isFailure, isSuccess]
  rw [← List.append_assoc, List.countP_append,
    countP_counts_fresh h.answered hfresh, List.countP_cons_of_neg hai]

theorem Capped.responds (hcapped : s.Capped options (gone ++ kept))
    (h : s.Condensed opening first gone kept)
    (hlookback : options.lookback = none)
    (hanswers : s.Answers messageId toolCalls results)
    (hcounted : s.Counted (.responds messageId toolCalls results)) :
    (s.responds options messageId toolCalls results).Capped options
      (gone ++ (kept ++ .ai messageId toolCalls ::
        (stepResults (RepetitionGuard.decision options
            (s.messages ++ [.ai messageId toolCalls]))
          toolCalls results).map fun entry => entry.2.1)) := by
  have hbound := h.countP_run hlookback hanswers hcounted
  have hdecide : ∀ call ∈ toolCalls, RepetitionGuard.decision options
        (s.messages ++ [.ai messageId toolCalls]) call =
      RepetitionGuard.decision options
        (s.full ++ [.ai messageId toolCalls]) call :=
    fun call hcall => h.decision hlookback hanswers hcounted hcall
  have hfull : ∀ call ∈ toolCalls, RepetitionGuard.decision options
        (s.messages ++ [.ai messageId toolCalls]) call = .run →
      isDiscovery call.name = true →
      (gone ++ kept).countP isDiscoveryResult < maxDiscoveryCalls := by
    intro call hcall hrun
    rw [hdecide call hcall, h.full_decision hlookback hanswers hcall,
      decisionOf_eq_run] at hrun
    exact hrun.1
  have hresult : ∀ entry ∈ stepResults (RepetitionGuard.decision options
      (s.messages ++ [.ai messageId toolCalls])) toolCalls results,
      ResultOf (RepetitionGuard.decision options
        (s.messages ++ [.ai messageId toolCalls])) toolCalls results entry :=
    fun entry hentry => resultOf_of_mem hcounted.1 hentry
  have hanswer : ∀ message ∈ (stepResults (RepetitionGuard.decision options
      (s.messages ++ [.ai messageId toolCalls])) toolCalls results).map
        (fun entry => entry.2.1), message.toolCalls = [] := by
    intro message hmem
    rcases List.mem_map.mp hmem with ⟨entry, hentry, rfl⟩
    rcases (hresult entry hentry).message with ⟨_, _, _, hmessage, -⟩
    rw [hmessage]
    rfl
  have hran : (s.responds options messageId toolCalls results).ran =
      s.ran ++ [ranOf (stepResults (RepetitionGuard.decision options
        (s.messages ++ [.ai messageId toolCalls])) toolCalls results)] := rfl
  have hlog : (s.responds options messageId toolCalls results).decided =
      s.decided ++ toolCalls.map fun call =>
        (RepetitionGuard.decision options
            (s.messages ++ [.ai messageId toolCalls]) call,
          RepetitionGuard.decision options
            (s.full ++ [.ai messageId toolCalls]) call) := rfl
  have hcount := countP_append_response h hanswers hanswer
  have howner := fun (call : ToolCall) {owner : ToolCall}
      (hmem : owner ∈ toolCalls) =>
    counts_response h hanswers hanswer call hmem
  generalize RepetitionGuard.decision options
    (s.messages ++ [.ai messageId toolCalls]) = decided at *
  generalize hstep : stepResults decided toolCalls results = step at *
  have hflat : ∀ call,
      (s.responds options messageId toolCalls results).ran.flatten.countP
        (sameCall call) = s.ran.flatten.countP (sameCall call) +
          (ranOf step).countP (sameCall call) := by
    intro call
    rw [hran, List.flatten_append, List.countP_append, List.flatten_singleton]
  constructor
  · intro call
    rw [hflat]
    have hone := hcapped.within call
    have htwo := hcapped.counted call
    have hthree := hbound call
    split at hthree
    next hzero =>
      have hfour := htwo hzero
      omega
    next => omega
  · intro call hzero
    rw [hflat]
    rw [hcount] at hzero ⊢
    have hold := hcapped.counted call (by omega)
    have hnew : (ranOf step).countP (sameCall call) ≤
        (step.map fun entry => entry.2.1).countP (counts false
          (gone ++ kept ++ .ai messageId toolCalls ::
            step.map fun entry => entry.2.1) call) := by
      rw [countP_ranOf, List.countP_map]
      apply List.countP_mono_left
      intro entry hentry htrue
      rw [Bool.and_eq_true] at htrue
      rcases (hresult entry hentry).message with
        ⟨result, _, status, hmessage, hstatus⟩
      have hcalled := (hresult entry hentry).called
      rcases (hstatus htrue.1).2 with rfl | rfl
      · simp only [Function.comp_apply]
        rw [hmessage, howner call hcalled]
        simp [ResultStatus.isError, htrue.2]
      · have hcontra : 0 < (step.map fun entry => entry.2.1).countP
            (counts true (gone ++ kept ++ .ai messageId toolCalls ::
              step.map fun entry => entry.2.1) call) := by
          rw [List.countP_pos_iff]
          refine ⟨entry.2.1, List.mem_map_of_mem hentry, ?_⟩
          rw [hmessage, howner call hcalled]
          simp [ResultStatus.isError, ResultStatus.isCapabilityGateRefusal,
            ResultStatus.isToolNotRun, htrue.2]
        omega
    omega
  · have hsplit : ∀ more : List Message, (gone ++ (kept ++ more)).countP
        isDiscoveryResult = (gone ++ kept).countP isDiscoveryResult +
          more.countP isDiscoveryResult := by
      intro more
      rw [← List.append_assoc, List.countP_append]
    rw [hran, List.countP_append, hsplit]
    have hold := hcapped.searches
    have hai : isDiscoveryResult (.ai messageId toolCalls) ≠ true := by
      simp [isDiscoveryResult]
    rw [List.countP_cons_of_neg hai]
    by_cases hsearch : (ranOf step).any
        (fun call => isDiscovery call.name) = true
    · rw [List.any_eq_true] at hsearch
      rcases hsearch with ⟨call, hcall, hname⟩
      rcases List.mem_filterMap.mp hcall with ⟨entry, hentry, hif⟩
      rcases Option.ite_none_right_eq_some.mp hif with ⟨hflag, heq⟩
      cases heq
      rcases (hresult entry hentry).message with
        ⟨result, _, status, hmessage, hstatus⟩
      have hlt := hfull entry.1 (hresult entry hentry).called
        (hstatus hflag).1 hname
      have hpos : 0 < (step.map fun entry => entry.2.1).countP
          isDiscoveryResult := by
        rw [List.countP_pos_iff]
        refine ⟨entry.2.1, List.mem_map_of_mem hentry, ?_⟩
        rw [hmessage]
        simp [isDiscoveryResult, hname]
      have hone : [ranOf step].countP (fun step =>
          step.any fun call => isDiscovery call.name) ≤ 1 :=
        List.countP_le_length
      omega
    · have hzero : [ranOf step].countP (fun step =>
          step.any fun call => isDiscovery call.name) = 0 := by
        simpa using hsearch
      omega
  · intro pair hpair
    rw [hlog] at hpair
    rcases List.mem_append.mp hpair with hprior | hnew
    · exact hcapped.agreed pair hprior
    · rcases List.mem_map.mp hnew with ⟨call, hcall, rfl⟩
      exact hdecide call hcall

end Step

/-- The decisions are the ones without summaries, and the caps hold: identical
calls by the effect of their tool, discovery calls one after another. -/
def CapsSurvive (options : Options) (s : Turn) : Prop :=
  (∀ pair ∈ s.decided, pair.1 = pair.2) ∧
    (∀ call, s.ran.flatten.countP (sameCall call) ≤ options.cap call.name) ∧
    s.ran.countP (fun step => step.any fun call =>
      isDiscovery call.name) ≤ maxDiscoveryCalls

def Sound (options : Options) (first : Message) (s : Turn) : Prop :=
  ∃ summary gone kept, s.Condensed first summary gone kept ∧
    s.Capped options (gone ++ kept)

theorem sound_opening (options : Options) (history : List Message)
    (messageId : String) :
    Sound options (.human messageId .user) (opening history messageId) := by
  have hturn : TurnOf (history ++ [.human messageId .user])
      (.human messageId .user) [] :=
    ⟨⟨history, rfl⟩, ⟨messageId, .user, rfl, rfl⟩, nofun⟩
  refine ⟨.human messageId .user, [], [], ?_, ?_⟩
  · constructor
    · exact hturn
    · exact hturn
    · rfl
    · rfl
    · exact List.Pairwise.nil
    · exact nofun
    · exact nofun
    · simp
    · simp [opening, Message.id]
    · exact nofun
    · exact nofun
  · constructor
    · simp [opening]
    · simp [opening]
    · simp [opening]
    · simp [opening]

theorem Sound.step {options : Options} (hlookback : options.lookback = none)
    {first : Message} {s s' : Turn} {event : TurnEvent}
    (h : Sound options first s) (hcounted : s.Counted event)
    (hstep : s.step options event = some s') : Sound options first s' := by
  rcases h with ⟨summary, gone, kept, hcondensed, hcapped⟩
  cases event with
  | responds messageId toolCalls results =>
      dsimp only [Turn.step] at hstep
      split_ifs at hstep with hanswers
      cases hstep
      refine ⟨summary, gone, _, hcondensed.appends
          (fresh_response hanswers hcounted.1) ?_ ?_ ?_ ?_ rfl,
        hcapped.responds hcondensed hlookback hanswers hcounted⟩
      · simp [Turn.responds]
      · simp [Turn.responds]
      · exact List.subset_append_left _ _
      · intro message hmem
        apply List.mem_append_right
        rcases List.mem_cons.mp hmem with rfl | hmem
        · exact List.mem_cons_self
        · apply List.mem_cons_of_mem
          rcases List.mem_map.mp hmem with ⟨entry, hentry, rfl⟩
          exact (stepResults_ids _).subset (List.mem_map_of_mem hentry)
  | reattaches messageId =>
      dsimp only [Turn.step] at hstep
      split_ifs at hstep with hused
      cases hstep
      have hfresh : s.Fresh [.human messageId .attachmentView] [] := by
        constructor
        · simp [opensTurn]
        · simp
        · simpa [Message.id] using hused
        · simp [Message.answers]
        · simp [Message.toolCalls]
        · exact List.pairwise_singleton _ _
        · intro id name callId status hmem
          simp at hmem
      refine ⟨summary, gone, _, hcondensed.appends hfresh rfl rfl
        (List.subset_append_left _ _) ?_ (List.append_nil _).symm, ?_⟩
      · simp [Message.id]
      · have hhuman : ∀ failed call,
            (gone ++ (kept ++ [Message.human messageId .attachmentView])).countP
              (counts failed
                (gone ++ (kept ++ [Message.human messageId .attachmentView])) call) =
            (gone ++ kept).countP (counts failed (gone ++ kept) call) := by
          intro failed call
          have hai : counts failed (gone ++ kept ++
              [.human messageId .attachmentView]) call
              (.human messageId .attachmentView) ≠ true := by
            cases failed <;> simp [counts, isFailure, isSuccess]
          rw [← List.append_assoc, List.countP_append,
            countP_counts_fresh hcondensed.answered
              (by simp [Message.toolCalls]),
            List.countP_cons_of_neg hai, List.countP_nil, Nat.add_zero]
        refine { hcapped with counted := ?_, searches := ?_ }
        · intro call hzero
          rw [hhuman] at hzero ⊢
          exact hcapped.counted call hzero
        · have hold := hcapped.searches
          rw [← List.append_assoc, List.countP_append]
          simpa [isDiscoveryResult] using hold
  | summarizes messageId removed =>
      dsimp only [Turn.step] at hstep
      split_ifs at hstep with hopen
      cases hstep
      rcases hcondensed.summarizes hopen.1 hopen.2 with
        ⟨summary', gone', kept', hnew, hparts⟩
      refine ⟨summary', gone', kept', hnew, ?_⟩
      rw [hparts]
      exact { hcapped with }

/-- Where every result bears its tool's name and no discovery call misses
condensed discovery results, the guard decides as without summaries. -/
theorem caps_survive_summaries (options : Options)
    (hlookback : options.lookback = none) (history : List Message)
    (messageId : String) (events : List TurnEvent) (s : Turn)
    (hcounted : Transition.Meets (step options) Counted
      (opening history messageId) events)
    (hrun : Transition.run (step options) (opening history messageId)
      events = some s) : s.CapsSurvive options := by
  have hsound := Transition.run_preserves_of_meets
    (fun _ _ _ h hcond hstep => Sound.step hlookback h hcond hstep)
    hcounted (sound_opening options history messageId) hrun
  rcases hsound with ⟨summary, gone, kept, -, hcapped⟩
  refine ⟨hcapped.agreed, hcapped.within, ?_⟩
  exact hcapped.searches.trans (min_le_left _ _)

section Runs

def mainAgent : Options where
  lookback := none
  effectOf := fun name => if name = "send_payment" then .write else .read
  maxIdenticalReads := 5
  maxIdenticalWrites := 1

/-- A response with one call, which gets a result of this status. -/
def oneCall (n : String) (name : String) (args : Args)
    (status : ResultStatus) : TurnEvent :=
  .responds ("ai-" ++ n) [⟨"call-" ++ n, name, args⟩]
    [⟨"tool-" ++ n, some name, "call-" ++ n, .reaches status⟩]

/-- A write is condensed, asked for again and refused. -/
def condensedWrite : List TurnEvent :=
  [oneCall "1" "send_payment" (.obj [("to", .str "did:a"), ("n", .num "1")])
      .success,
    oneCall "2" "list_skills" .null .success,
    .summarizes "summary-1" 3,
    oneCall "3" "send_payment" (.obj [("n", .num "1"), ("to", .str "did:a")])
      .success,
    .summarizes "summary-2" 3,
    oneCall "4" "send_payment" (.obj [("n", .num "1"), ("to", .str "did:a")])
      .success]

theorem caps_survive_condensedWrite :
    ∃ s, Transition.run (step mainAgent) (opening [] "user-1")
        condensedWrite = some s ∧ s.CapsSurvive mainAgent := by
  have hcounted : Transition.Meets (step mainAgent) Counted
      (opening [] "user-1") condensedWrite := by
    decide +kernel
  cases hrun : Transition.run (step mainAgent) (opening [] "user-1")
      condensedWrite with
  | none =>
      have hruns : (Transition.run (step mainAgent) (opening [] "user-1")
          condensedWrite).isSome = true := by decide +kernel
      simp [hrun] at hruns
  | some s =>
      exact ⟨s, rfl, caps_survive_summaries mainAgent rfl [] "user-1"
        condensedWrite s hcounted hrun⟩

/-- Six searches, a summary of all but the last one, and a seventh. -/
def condensedSearches : List TurnEvent :=
  [oneCall "1" "list_skills" (.num "1") .success,
    oneCall "2" "list_skills" (.num "2") .success,
    oneCall "3" "list_skills" (.num "3") .success,
    oneCall "4" "list_skills" (.num "4") .success,
    oneCall "5" "list_skills" (.num "5") .success,
    oneCall "6" "list_skills" (.num "6") .success,
    .summarizes "summary-1" 11,
    oneCall "7" "list_skills" (.num "7") .success]

theorem condensed_searches_forgotten :
    ¬ ∀ (options : Options), options.lookback = none →
      ∀ (history : List Message) (messageId : String)
        (events : List TurnEvent) (s : Turn),
        Transition.run (step options) (opening history messageId) events =
          some s → s.CapsSurvive options := by
  intro hall
  have hforgotten : (Transition.run (step mainAgent) (opening [] "user-1")
      condensedSearches).any (fun s => s.decided.any fun pair =>
        decide (pair.1 ≠ pair.2)) = true := by decide +kernel
  cases hrun : Transition.run (step mainAgent) (opening [] "user-1")
      condensedSearches with
  | none => simp [hrun] at hforgotten
  | some s =>
      rw [hrun, Option.any_some, List.any_eq_true] at hforgotten
      rcases hforgotten with ⟨pair, hpair, hne⟩
      have hsurvive := hall mainAgent rfl [] "user-1" condensedSearches s hrun
      simp [hsurvive.1 pair hpair] at hne

end Runs

end Turn

end RepetitionGuard
end QiForge
