import QiForge.Ledger
import QiForge.TurnFrames

/-!
# A turn's frames are well formed

The call frames of a turn are read as a ledger: a running frame opens its id,
another settles it.  The ids still open are those of the two maps of running
calls; the ids of pending calls and of events yet to come have no frame.
-/

namespace QiForge

namespace OrderedMap

variable {κ α ι : Type} [DecidableEq κ]

/-- The ids of the values, in order. -/
def idsOf (f : α → ι) (m : OrderedMap κ α) : List ι :=
  m.entries.map fun entry => f entry.2

variable {m : OrderedMap κ α}

theorem mem_idsOf {f : α → ι} {id : ι} :
    id ∈ m.idsOf f ↔ ∃ key value, m.get? key = some value ∧ f value = id := by
  simp only [idsOf, List.mem_map, Prod.exists, mem_entries_iff]

theorem idsOf_set_new (f : α → ι) {key : κ} {value : α}
    (hkey : m.get? key = none) :
    (m.set key value).idsOf f = m.idsOf f ++ [f value] := by
  have habsent : m.has key = false := by rw [has, hkey, Option.isSome_none]
  have hdelete : (m.delete key).entries = m.entries := by
    refine List.filter_eq_self.mpr fun entry hentry => ?_
    rw [decide_eq_true_iff]
    rintro heq
    have hget := mem_entries_iff.mp hentry
    rw [heq, hkey] at hget
    cases hget
  rw [set, if_neg (by rw [habsent]; exact Bool.false_ne_true)]
  simp only [idsOf, push, hdelete, List.map_append, List.map_cons,
    List.map_nil]

theorem idsOf_delete_sublist (f : α → ι) (m : OrderedMap κ α) (key : κ) :
    ((m.delete key).idsOf f).Sublist (m.idsOf f) :=
  List.filter_sublist.map _

theorem mem_idsOf_delete {f : α → ι} {key : κ} {value : α}
    (hnodup : (m.idsOf f).Nodup) (hget : m.get? key = some value) (id : ι) :
    id ∈ (m.delete key).idsOf f ↔ id ∈ m.idsOf f ∧ id ≠ f value := by
  constructor
  · intro hid
    refine ⟨(idsOf_delete_sublist f m key).subset hid, ?_⟩
    rintro rfl
    obtain ⟨other, found, hfound, hsame⟩ := mem_idsOf.mp hid
    rw [get?_delete] at hfound
    split at hfound
    · cases hfound
    · next hne =>
      have hentry := List.inj_on_of_nodup_map hnodup
        (mem_entries_iff.mpr hfound) (mem_entries_iff.mpr hget) hsame
      exact hne (congrArg Prod.fst hentry)
  · rintro ⟨hid, hne⟩
    obtain ⟨other, found, hfound, rfl⟩ := mem_idsOf.mp hid
    refine mem_idsOf.mpr ⟨other, found, ?_, rfl⟩
    rw [get?_delete, if_neg, hfound]
    rintro rfl
    rw [hget] at hfound
    exact hne (congrArg f (Option.some.inj hfound).symm)

theorem mem_keys_delete {key other : κ} :
    other ∈ (m.delete key).keys ↔ other ∈ m.keys ∧ other ≠ key := by
  rw [mem_keys_iff, mem_keys_iff]
  simp only [get?_delete]
  split
  · next heq => simp [heq]
  · next hne => simp [hne]

end OrderedMap

namespace TurnFrames

open Ledger

variable {Args Notice Limit Fault : Type}

/-! ## What the frames say -/

def CallStatus.mark : CallStatus → Mark
  | .isRunning => .opened
  | .done | .error => .settled

def Frame.mark? : Frame Args Notice Limit Fault → Option (String × Mark)
  | .toolCall payload => some (payload.eventId, payload.status.mark)
  | .actionCall payload => some (payload.toolCallId, payload.status.mark)
  | _ => none

def Frame.isDone : Frame Args Notice Limit Fault → Bool
  | .done _ _ _ => true
  | _ => false

def Frame.content : Frame Args Notice Limit Fault → JsString
  | .message content => content
  | _ => []

/-- The call frames, by id. -/
def callLog (frames : List (Frame Args Notice Limit Fault)) :
    List (String × Mark) :=
  frames.filterMap Frame.mark?

/-- The text of the message frames. -/
def messages (frames : List (Frame Args Notice Limit Fault)) : JsString :=
  frames.flatMap Frame.content

@[simp] theorem mark_wireFrame
    (cap : Option ℕ) (frame : Frame Args Notice Limit Fault) :
    (wireFrame cap frame).mark? = frame.mark? := by
  cases frame <;> rfl

@[simp] theorem content_wireFrame
    (cap : Option ℕ) (frame : Frame Args Notice Limit Fault) :
    (wireFrame cap frame).content = frame.content := by
  cases frame <;> rfl

@[simp] theorem isDone_wireFrame
    (cap : Option ℕ) (frame : Frame Args Notice Limit Fault) :
    (wireFrame cap frame).isDone = frame.isDone := by
  cases frame <;> rfl

theorem callLog_append (front back : List (Frame Args Notice Limit Fault)) :
    callLog (front ++ back) = callLog front ++ callLog back :=
  List.filterMap_append

theorem messages_append (front back : List (Frame Args Notice Limit Fault)) :
    messages (front ++ back) = messages front ++ messages back :=
  List.flatMap_append

theorem callLog_wire
    (cap : Option ℕ) (frames : List (Frame Args Notice Limit Fault)) :
    callLog (frames.map (wireFrame cap)) = callLog frames := by
  rw [callLog, List.filterMap_map]
  exact List.filterMap_congr fun frame _ => mark_wireFrame cap frame

/-- A turn's frames as its client needs them. -/
structure WellFormed (outcome : TurnOutcome Args Notice Limit Fault) :
    Prop where
  calls : ∀ id, Settled (trail (callLog outcome.frames) id)
  done : ∃ front last, outcome.frames = front ++ [last] ∧ last.isDone = true ∧
      ∀ frame ∈ front, frame.isDone = false
  text : messages outcome.frames = outcome.fullText

def announcedIds (toolCalls : List (ModelCall Args)) : List String :=
  toolCalls.filterMap fun call => call.id.filter fun id => id ≠ ""

/-- The ids an event may bring: those a model gives its calls, and a tool
run's. -/
def TurnEvent.ids : TurnEvent Args Notice → List String
  | .chatModelEnd origin toolCalls =>
      if isInternalModelEvent origin then []
      else (announcedIds toolCalls).dedup
  | .toolStart runId _ _ => [runId]
  | _ => []

namespace TurnState

variable {cap : Option ℕ} {state next : TurnState Args Notice Limit Fault}
  {future : List String}

theorem writeAll_eq (frames : List (Frame Args Notice Limit Fault)) :
    state.writeAll cap frames =
      { state with frames := state.frames ++ frames.map (wireFrame cap) } := by
  induction frames generalizing state with
  | nil =>
      rw [List.map_nil, List.append_nil]
      rfl
  | cons frame frames ih =>
      rw [writeAll, List.foldl_cons, ← writeAll, ih]
      simp only [write, List.map_cons, List.append_assoc, List.cons_append,
        List.nil_append]

/-- The ids of the calls still running. -/
def openIds (state : TurnState Args Notice Limit Fault) : List String :=
  state.actionCalls.idsOf (·.toolCallId) ++ state.toolCalls.idsOf (·.eventId)

/-- Ids to come are not in use. -/
structure Tracked (future : List String)
    (state : TurnState Args Notice Limit Fault) : Prop where
  sound : Sound (callLog state.frames) (· ∈ state.openIds)
      (fun id => id ∈ state.pendingCalls.keys ∨ id ∈ future)
  nodup : state.openIds.Nodup
  unused : ∀ id ∈ future,
    state.actionCalls.get? id = none ∧ state.toolCalls.get? id = none ∧
      id ∉ state.pendingCalls.keys

/-- The texts of the frames are the text so far, and none of them is the
last. -/
structure Told (state : TurnState Args Notice Limit Fault) : Prop where
  text : messages state.frames = state.fullContent
  undone : ∀ frame ∈ state.frames, frame.isDone = false

namespace Tracked

theorem mono {later : List String} (htracked : Tracked future state)
    (hsub : ∀ id ∈ later, id ∈ future) : Tracked later state where
  sound := htracked.sound.mono (fun _ => Iff.rfl) fun id hid =>
    hid.imp_right (hsub id)
  nodup := htracked.nodup
  unused := fun id hid => htracked.unused id (hsub id hid)

/-- Frames that are not of a call. -/
theorem silent (htracked : Tracked future state)
    (hlog : callLog next.frames = callLog state.frames)
    (hactions : next.actionCalls = state.actionCalls)
    (htools : next.toolCalls = state.toolCalls)
    (hpending : next.pendingCalls = state.pendingCalls) :
    Tracked future next where
  sound := by
    rw [hlog, openIds, hactions, htools, hpending]
    exact htracked.sound
  nodup := by
    rw [openIds, hactions, htools]
    exact htracked.nodup
  unused := by
    rw [hactions, htools, hpending]
    exact htracked.unused

theorem write (htracked : Tracked future state)
    {frame : Frame Args Notice Limit Fault} (hframe : frame.mark? = none) :
    Tracked future (state.write cap frame) := by
  refine htracked.silent ?_ rfl rfl rfl
  rw [TurnState.write, callLog_append]
  simp [callLog, hframe]

/-- Fewer pending calls. -/
theorem forget (htracked : Tracked future state)
    {pending : OrderedMap String (PendingCall Args)}
    (hsub : ∀ id ∈ pending.keys, id ∈ state.pendingCalls.keys) :
    Tracked future { state with pendingCalls := pending } where
  sound := htracked.sound.mono (fun _ => Iff.rfl) fun id hid =>
    hid.imp_left (hsub id)
  nodup := htracked.nodup
  unused := fun id hid => by
    obtain ⟨haction, htool, hpending⟩ := htracked.unused id hid
    exact ⟨haction, htool, mt (hsub id) hpending⟩

/-- An id that has no frame is settled at once. -/
theorem reject (htracked : Tracked future state) {id : String}
    (hid : id ∈ state.pendingCalls.keys)
    {frame : Frame Args Notice Limit Fault}
    (hframe : frame.mark? = some (id, .settled)) :
    Tracked future
      ({ state with pendingCalls := state.pendingCalls.delete id }.write cap
        frame) where
  sound := by
    have hclear := htracked.sound.fresh id (Or.inl hid)
    have hclosed := htracked.sound.not_open_of_new (Or.inl hid)
    rw [TurnState.write, callLog_append]
    have hlog : callLog [wireFrame cap frame] = [(id, Mark.settled)] := by
      simp [callLog, hframe]
    rw [hlog]
    refine htracked.sound.settle (Or.inr hclear) (fun other => ?_) ?_
    · refine ⟨fun hopen => ⟨hopen, ?_⟩, fun hopen => hopen.1⟩
      rintro rfl
      exact hclosed hopen
    · intro other hother
      rcases hother with hpending | hfuture
      · obtain ⟨hold, hne⟩ := OrderedMap.mem_keys_delete.mp hpending
        exact ⟨Or.inl hold, hne⟩
      · refine ⟨Or.inr hfuture, ?_⟩
        rintro rfl
        exact (htracked.unused other hfuture).2.2 hid
  nodup := htracked.nodup
  unused := (htracked.forget fun _ hother =>
    (OrderedMap.mem_keys_delete.mp hother).1).unused

/-- A call starts with an id that has no frame. -/
theorem start (htracked : Tracked future state) {id : String}
    (hclear : trail (callLog state.frames) id = [])
    (hid : id ∉ state.pendingCalls.keys ∧ id ∉ future)
    (hlog : callLog next.frames = callLog state.frames ++ [(id, .opened)])
    (hopen : next.openIds.Perm (id :: state.openIds))
    (hpending : next.pendingCalls = state.pendingCalls)
    (hunused : ∀ other ∈ future, next.actionCalls.get? other = none ∧
        next.toolCalls.get? other = none) :
    Tracked future next where
  sound := by
    rw [hlog, hpending]
    refine htracked.sound.start hclear (fun other => ?_) fun other hother => ?_
    · rw [hopen.mem_iff, List.mem_cons]
    · refine ⟨hother, ?_⟩
      rintro rfl
      exact hother.elim hid.1 hid.2
  nodup := by
    have hclosed : id ∉ state.openIds := by
      intro hmem
      have htrail := htracked.sound.opened id hmem
      rw [hclear] at htrail
      cases htrail
    exact hopen.nodup_iff.mpr (List.nodup_cons.mpr ⟨hclosed, htracked.nodup⟩)
  unused := fun other hother => by
    obtain ⟨haction, htool⟩ := hunused other hother
    rw [hpending]
    exact ⟨haction, htool, (htracked.unused other hother).2.2⟩

/-- A running call is settled and forgotten. -/
theorem settle (htracked : Tracked future state) {id : String}
    (hid : id ∈ state.openIds)
    (hlog : callLog next.frames = callLog state.frames ++ [(id, .settled)])
    (hopen : ∀ other, other ∈ next.openIds ↔
      other ∈ state.openIds ∧ other ≠ id)
    (hsub : next.openIds.Sublist state.openIds)
    (hpending : next.pendingCalls = state.pendingCalls)
    (hunused : ∀ other, (state.actionCalls.get? other = none →
        next.actionCalls.get? other = none) ∧
      (state.toolCalls.get? other = none → next.toolCalls.get? other = none)) :
    Tracked future next where
  sound := by
    rw [hlog, hpending]
    refine htracked.sound.settle (Or.inl hid) hopen fun other hother => ?_
    refine ⟨hother, ?_⟩
    rintro rfl
    exact htracked.sound.not_open_of_new hother hid
  nodup := hsub.nodup htracked.nodup
  unused := fun other hother => by
    obtain ⟨haction, htool, hcall⟩ := htracked.unused other hother
    rw [hpending]
    exact ⟨(hunused other).1 haction, (hunused other).2 htool, hcall⟩

/-! ## One event -/

variable {runId : String}

theorem settleAction (htracked : Tracked future state)
    {running payload : ActionCallPayload Args}
    (hget : state.actionCalls.get? runId = some running)
    (hid : payload.toolCallId = running.toolCallId)
    (hstatus : payload.status.mark = .settled) :
    Tracked future (state.settleAction cap runId payload) := by
  have hactions := (List.nodup_append.mp htracked.nodup).1
  have hmem : running.toolCallId ∈ state.actionCalls.idsOf (·.toolCallId) :=
    OrderedMap.mem_idsOf.mpr ⟨runId, running, hget, rfl⟩
  refine htracked.settle (List.mem_append_left _ hmem) ?_ ?_ ?_ rfl ?_
  · rw [TurnState.settleAction, TurnState.write, callLog_append]
    simp [callLog, Frame.mark?, wireFrame, hid, hstatus]
  · intro other
    have hdelete := OrderedMap.mem_idsOf_delete hactions hget other
    have htool : other ∈ state.toolCalls.idsOf (·.eventId) →
          other ≠ running.toolCallId := by
      rintro hother rfl
      exact (List.nodup_append.mp htracked.nodup).2.2 _ hmem _ hother rfl
    simp only [openIds, TurnState.settleAction, TurnState.write,
      List.mem_append, hdelete]
    tauto
  · exact (OrderedMap.idsOf_delete_sublist _ _ _).append_right _
  · intro other
    refine ⟨fun hnone => ?_, fun hnone => hnone⟩
    change (state.actionCalls.delete runId).get? other = none
    rw [OrderedMap.get?_delete, hnone, ite_self]

theorem settleTool (htracked : Tracked future state)
    {running payload : ToolCallPayload Args}
    (hget : state.toolCalls.get? runId = some running)
    (hid : payload.eventId = running.eventId)
    (hstatus : payload.status.mark = .settled) :
    Tracked future (state.settleTool cap runId payload) := by
  have htools := (List.nodup_append.mp htracked.nodup).2.1
  have hmem : running.eventId ∈ state.toolCalls.idsOf (·.eventId) :=
    OrderedMap.mem_idsOf.mpr ⟨runId, running, hget, rfl⟩
  refine htracked.settle (List.mem_append_right _ hmem) ?_ ?_ ?_ rfl ?_
  · rw [TurnState.settleTool, TurnState.write, callLog_append]
    simp [callLog, Frame.mark?, wireFrame, hid, hstatus]
  · intro other
    have hdelete := OrderedMap.mem_idsOf_delete htools hget other
    have haction : other ∈ state.actionCalls.idsOf (·.toolCallId) →
          other ≠ running.eventId := by
      rintro hother rfl
      exact (List.nodup_append.mp htracked.nodup).2.2 _ hother _ hmem rfl
    simp only [openIds, TurnState.settleTool, TurnState.write,
      List.mem_append, hdelete]
    tauto
  · exact (OrderedMap.idsOf_delete_sublist _ _ _).append_left _
  · intro other
    refine ⟨fun hnone => hnone, fun hnone => ?_⟩
    change (state.toolCalls.delete runId).get? other = none
    rw [OrderedMap.get?_delete, hnone, ite_self]

theorem onToolEnd
    (htracked : Tracked future state) (runId : String) (output : ToolOutput) :
    Tracked future (state.onToolEnd cap runId output) := by
  unfold TurnState.onToolEnd
  split
  · next action hget =>
    refine htracked.settleAction hget rfl ?_
    simp only
    split <;> rfl
  · split
    · exact htracked
    · next tool hget =>
      refine htracked.settleTool hget rfl ?_
      simp only
      split <;> rfl

theorem onToolError
    (htracked : Tracked future state) (runId : String) (message : JsString) :
    Tracked future (state.onToolError cap runId message) := by
  unfold TurnState.onToolError
  split
  · next action hget => exact htracked.settleAction hget rfl rfl
  · split
    · exact htracked
    · next tool hget => exact htracked.settleTool hget rfl rfl

theorem onToolMessage
    (htracked : Tracked future state) (message : ToolMessage) :
    Tracked future (state.onToolMessage cap message) := by
  unfold TurnState.onToolMessage
  split
  · exact htracked
  · next call hget =>
    refine htracked.reject (OrderedMap.mem_keys_iff.mpr ⟨call, hget⟩) ?_
    simp only [Frame.mark?]
    split <;> rfl

theorem onToolMessages
    (htracked : Tracked future state) (told : List ToolMessage) :
    Tracked future (told.foldl (TurnState.onToolMessage cap) state) := by
  induction told generalizing state with
  | nil => exact htracked
  | cons message told ih => exact ih (htracked.onToolMessage message)

/-- The id a starting tool run takes has no frame, and is taken once. -/
theorem takePendingCall (htracked : Tracked (runId :: future) state)
    (hrunId : runId ∉ future) (toolName : String) :
    let taken := state.takePendingCall toolName
    let callId := taken.1.getD runId
    Tracked (runId :: future) taken.2 ∧ taken.2.frames = state.frames ∧
      trail (callLog state.frames) callId = [] ∧
      callId ∉ taken.2.pendingCalls.keys ∧ callId ∉ future := by
  unfold TurnState.takePendingCall
  cases hfind : state.pendingCalls.entries.find? fun entry =>
      entry.2.toolName = toolName with
  | none =>
      have hunused := htracked.unused runId List.mem_cons_self
      exact ⟨htracked, rfl,
        htracked.sound.fresh _ (Or.inr List.mem_cons_self), hunused.2.2,
        hrunId⟩
  | some entry =>
      obtain ⟨id, call⟩ := entry
      have hid : id ∈ state.pendingCalls.keys :=
        OrderedMap.mem_keys_iff.mpr ⟨call, OrderedMap.mem_entries_iff.mp
          (List.mem_of_find?_eq_some hfind)⟩
      refine ⟨htracked.forget fun other hother =>
          (OrderedMap.mem_keys_delete.mp hother).1, rfl,
        htracked.sound.fresh _ (Or.inl hid), fun hmem =>
          (OrderedMap.mem_keys_delete.mp hmem).2 rfl, fun hmem => ?_⟩
      exact (htracked.unused id (List.mem_cons_of_mem _ hmem)).2.2 hid

theorem onToolStart (htracked : Tracked (runId :: future) state)
    (hrunId : runId ∉ future) (isAction : String → Bool)
    (name : Option String) (args : Args) :
    Tracked future (state.onToolStart cap isAction runId name args) := by
  obtain ⟨htaken, hframes, hclear, hpending, hfuture⟩ :=
    htracked.takePendingCall hrunId (name.getD "tool")
  obtain ⟨haction, htool, -⟩ := htaken.unused runId List.mem_cons_self
  have hlater := htaken.mono fun id hid => List.mem_cons_of_mem runId hid
  have hother : ∀ {α : Type} (m : OrderedMap String α) (value : α) (id : String),
      id ∈ future → m.get? id = none → (m.set runId value).get? id = none := by
    intro α m value id hid hnone
    rw [OrderedMap.get?_set, if_neg, hnone]
    rintro rfl
    exact hrunId hid
  rw [← hframes] at hclear
  simp only [TurnState.onToolStart]
  split
  · refine hlater.start hclear ⟨hpending, hfuture⟩ ?_ ?_ rfl ?_
    · rw [TurnState.write, callLog_append]
      simp [callLog, Frame.mark?, wireFrame, CallStatus.mark]
    · simp only [openIds, TurnState.write, OrderedMap.idsOf_set_new _ haction]
      rw [List.append_assoc]
      exact List.perm_middle
    · intro id hid
      obtain ⟨hnone, hkept, -⟩ := hlater.unused id hid
      exact ⟨hother _ _ id hid hnone, hkept⟩
  · refine hlater.start hclear ⟨hpending, hfuture⟩ ?_ ?_ rfl ?_
    · rw [TurnState.write, callLog_append]
      simp [callLog, Frame.mark?, wireFrame, CallStatus.mark]
    · simp only [openIds, TurnState.write, OrderedMap.idsOf_set_new _ htool]
      rw [← List.append_assoc]
      exact List.perm_append_singleton _ _
    · intro id hid
      obtain ⟨hkept, hnone, -⟩ := hlater.unused id hid
      exact ⟨hkept, hother _ _ id hid hnone⟩

end Tracked

/-- A model's calls are pending, and nothing else changes. -/
structure Announced (ids : List String)
    (before after : TurnState Args Notice Limit Fault) : Prop where
  frames : after.frames = before.frames
  actions : after.actionCalls = before.actionCalls
  tools : after.toolCalls = before.toolCalls
  text : after.fullContent = before.fullContent
  pending : ∀ id ∈ after.pendingCalls.keys,
    id ∈ before.pendingCalls.keys ∨ id ∈ ids

theorem onModelCalls (state : TurnState Args Notice Limit Fault)
    (toolCalls : List (ModelCall Args)) :
    Announced (announcedIds toolCalls) state
      (toolCalls.foldl onModelCall state) := by
  induction toolCalls generalizing state with
  | nil => exact ⟨rfl, rfl, rfl, rfl, fun _ hid => Or.inl hid⟩
  | cons call toolCalls ih =>
      have hrest := ih (state.onModelCall call)
      rw [List.foldl_cons]
      cases hid : call.id.filter fun id => id ≠ "" with
      | none =>
          have hsame : state.onModelCall call = state := by
            rw [onModelCall, hid]
          rw [hsame] at hrest ⊢
          have hids : announcedIds (call :: toolCalls) =
              announcedIds toolCalls := by
            rw [announcedIds, List.filterMap_cons, hid]
            rfl
          rwa [hids]
      | some id =>
          have hset : state.onModelCall call = { state with
                pendingCalls :=
                  state.pendingCalls.set id ⟨call.name, call.args⟩ } := by
            rw [onModelCall, hid]
          rw [hset] at hrest ⊢
          refine ⟨hrest.frames, hrest.actions, hrest.tools, hrest.text, ?_⟩
          intro other hother
          have hids : announcedIds (call :: toolCalls) =
              id :: announcedIds toolCalls := by
            rw [announcedIds, List.filterMap_cons, hid]
            rfl
          rw [hids]
          rcases hrest.pending other hother with hkeys | hlater
          · obtain ⟨value, hvalue⟩ := OrderedMap.mem_keys_iff.mp hkeys
            rw [OrderedMap.get?_set] at hvalue
            split at hvalue
            · next heq => exact Or.inr (heq ▸ List.mem_cons_self)
            · exact Or.inl (OrderedMap.mem_keys_iff.mpr ⟨value, hvalue⟩)
          · exact Or.inr (List.mem_cons_of_mem _ hlater)

theorem Tracked.announce
    {ids : List String} (htracked : Tracked (ids ++ future) state)
    (hdisjoint : ∀ id ∈ ids, id ∉ future)
    (hannounced : Announced ids state next) : Tracked future next where
  sound := by
    rw [hannounced.frames, openIds, hannounced.actions, hannounced.tools]
    refine htracked.sound.mono (fun _ => Iff.rfl) fun id hid => ?_
    rcases hid with hpending | hfuture
    · rcases hannounced.pending id hpending with hold | hnew
      · exact Or.inl hold
      · exact Or.inr (List.mem_append_left _ hnew)
    · exact Or.inr (List.mem_append_right _ hfuture)
  nodup := by
    rw [openIds, hannounced.actions, hannounced.tools]
    exact htracked.nodup
  unused := fun id hid => by
    obtain ⟨haction, htool, hpending⟩ :=
      htracked.unused id (List.mem_append_right _ hid)
    rw [hannounced.actions, hannounced.tools]
    refine ⟨haction, htool, fun hmem => ?_⟩
    rcases hannounced.pending id hmem with hold | hnew
    · exact hpending hold
    · exact hdisjoint id hnew hid

theorem Tracked.onChunk
    (htracked : Tracked future state) (chunk : ModelChunk) :
    Tracked future (state.onChunk cap chunk) := by
  have hreasoned : Tracked future (state.onReasoning cap chunk) := by
    unfold TurnState.onReasoning
    split
    · exact htracked
    · exact htracked.write rfl
  rw [TurnState.onChunk, onText]
  split
  · exact hreasoned
  · refine hreasoned.silent ?_ rfl rfl rfl
    rw [TurnState.write, callLog_append]
    simp [callLog, Frame.mark?, wireFrame]

/-- One event keeps the ledger sound. -/
theorem Tracked.onEvent {event : TurnEvent Args Notice}
    (htracked : Tracked (event.ids ++ future) state)
    (hdisjoint : ∀ id ∈ event.ids, id ∉ future)
    (isAction : String → Bool) :
    Tracked future (state.onEvent cap isAction event) := by
  cases event with
  | byoFallback notice =>
      cases notice with
      | none => exact htracked
      | some notice => exact Tracked.write htracked rfl
  | chatModelEnd origin toolCalls =>
      simp only [TurnEvent.ids] at htracked hdisjoint
      simp only [TurnState.onEvent]
      split
      · next hinternal =>
        rw [if_pos hinternal] at htracked
        exact htracked
      · next hinternal =>
        rw [if_neg hinternal] at htracked hdisjoint
        have hmany := onModelCalls state toolCalls
        refine htracked.announce hdisjoint
          ⟨hmany.frames, hmany.actions, hmany.tools, hmany.text, ?_⟩
        intro id hid
        exact (hmany.pending id hid).imp_right List.mem_dedup.mpr
  | toolsEnd told =>
      exact (Tracked.onToolMessages htracked told).forget fun id hid =>
        absurd hid List.not_mem_nil
  | toolStart runId name args =>
      exact Tracked.onToolStart htracked
        (hdisjoint runId List.mem_cons_self) isAction name args
  | toolEnd runId output => exact Tracked.onToolEnd htracked runId output
  | toolError runId message => exact Tracked.onToolError htracked runId message
  | chatModelStream origin chunk =>
      cases chunk with
      | none => exact htracked
      | some chunk =>
          simp only [TurnState.onEvent]
          split
          · exact htracked
          · exact Tracked.onChunk htracked chunk
  | other => exact htracked

/-! ## The text -/

namespace Told

/-- A frame without a text, that does not end the turn. -/
theorem add (htold : Told state) {frame : Frame Args Notice Limit Fault}
    (hcontent : frame.content = []) (hdone : frame.isDone = false)
    (hframes : next.frames = state.frames ++ [wireFrame cap frame])
    (htext : next.fullContent = state.fullContent) : Told next where
  text := by
    rw [hframes, htext, messages_append, htold.text]
    simp [messages, hcontent]
  undone := by
    intro other hother
    rw [hframes] at hother
    rcases List.mem_append.mp hother with hold | hnew
    · exact htold.undone other hold
    · rw [List.mem_singleton.mp hnew, isDone_wireFrame, hdone]

theorem same (htold : Told state) (hframes : next.frames = state.frames)
    (htext : next.fullContent = state.fullContent) : Told next where
  text := by rw [hframes, htext, htold.text]
  undone := by rw [hframes]; exact htold.undone

theorem onToolMessages (htold : Told state) (told : List ToolMessage) :
    Told (told.foldl (TurnState.onToolMessage cap) state) := by
  induction told generalizing state with
  | nil => exact htold
  | cons message told ih =>
      refine ih ?_
      unfold TurnState.onToolMessage
      split
      · exact htold
      · exact htold.add rfl rfl rfl rfl

theorem onToolStart
    (htold : Told state) (isAction : String → Bool) (runId : String)
    (name : Option String) (args : Args) :
    Told (state.onToolStart cap isAction runId name args) := by
  have htaken : Told (state.takePendingCall (name.getD "tool")).2 := by
    unfold TurnState.takePendingCall
    split
    · exact htold
    · exact htold.same rfl rfl
  simp only [TurnState.onToolStart]
  split
  · exact htaken.add rfl rfl rfl rfl
  · exact htaken.add rfl rfl rfl rfl

theorem onToolEnd (htold : Told state) (runId : String) (output : ToolOutput) :
    Told (state.onToolEnd cap runId output) := by
  unfold TurnState.onToolEnd
  split
  · exact htold.add rfl rfl rfl rfl
  · split
    · exact htold
    · exact htold.add rfl rfl rfl rfl

theorem onToolError
    (htold : Told state) (runId : String) (message : JsString) :
    Told (state.onToolError cap runId message) := by
  unfold TurnState.onToolError
  split
  · exact htold.add rfl rfl rfl rfl
  · split
    · exact htold
    · exact htold.add rfl rfl rfl rfl

theorem onText (htold : Told state) (text : JsString) :
    Told (state.onText cap text) := by
  unfold TurnState.onText
  split
  · exact htold
  · constructor
    · rw [TurnState.write, messages_append, htold.text]
      simp [messages, Frame.content, wireFrame]
    · intro frame hframe
      rcases List.mem_append.mp hframe with hold | hnew
      · exact htold.undone frame hold
      · rw [List.mem_singleton.mp hnew]
        rfl

theorem onChunk (htold : Told state) (chunk : ModelChunk) :
    Told (state.onChunk cap chunk) := by
  refine onText ?_ chunk.text
  unfold TurnState.onReasoning
  split
  · exact htold
  · exact htold.add rfl rfl rfl rfl

theorem onEvent (htold : Told state) (isAction : String → Bool)
    (event : TurnEvent Args Notice) :
    Told (state.onEvent cap isAction event) := by
  cases event with
  | byoFallback notice =>
      cases notice with
      | none => exact htold
      | some notice => exact htold.add rfl rfl rfl rfl
  | chatModelEnd origin toolCalls =>
      simp only [TurnState.onEvent]
      split
      · exact htold
      · have hmany := onModelCalls state toolCalls
        exact htold.same hmany.frames hmany.text
  | toolsEnd told => exact (htold.onToolMessages told).same rfl rfl
  | toolStart runId name args => exact htold.onToolStart isAction runId name args
  | toolEnd runId output => exact htold.onToolEnd runId output
  | toolError runId message => exact htold.onToolError runId message
  | chatModelStream origin chunk =>
      cases chunk with
      | none => exact htold
      | some chunk =>
          simp only [TurnState.onEvent]
          split
          · exact htold
          · exact htold.onChunk chunk
  | other => exact htold

end Told

end TurnState

/-! ## The turn -/

section Run

variable {Err : Type} {input : TurnInput Args Notice Limit Fault Err}
  {state : TurnState Args Notice Limit Fault}

open TurnState

/-- Every prefix of the events keeps the ledger sound. -/
theorem consume_tracked {events : List (TurnEvent Args Notice)} {handled : ℕ}
    (hids : (events.flatMap TurnEvent.ids).Nodup)
    (htracked : Tracked (events.flatMap TurnEvent.ids) state) :
    ∃ future, Tracked future (consume input handled state events).1 := by
  induction events generalizing handled state with
  | nil => exact ⟨_, htracked⟩
  | cons event events ih =>
      rw [consume]
      split
      · exact ⟨_, htracked⟩
      · rw [List.flatMap_cons] at hids htracked
        obtain ⟨-, hrest, hapart⟩ := List.nodup_append.mp hids
        refine ih hrest (htracked.onEvent (fun id hid hlater => ?_) _)
        exact hapart id hid id hlater rfl

theorem consume_told {events : List (TurnEvent Args Notice)} {handled : ℕ}
    (htold : Told state) :
    Told (consume input handled state events).1 := by
  induction events generalizing handled state with
  | nil => exact htold
  | cons event events ih =>
      rw [consume]
      split
      · exact htold
      · exact ih (htold.onEvent _ event)

/-- What the calls still running are settled with. -/
def orphans (state : TurnState Args Notice Limit Fault) :
    List (Frame Args Notice Limit Fault) :=
  state.actionCalls.entries.map (fun entry => orphanAction entry.2) ++
    state.toolCalls.entries.map fun entry => orphanTool entry.2

theorem flushOrphans_eq
    (cap : Option ℕ) (state : TurnState Args Notice Limit Fault) :
    state.flushOrphans cap = { state with
        actionCalls := .empty
        toolCalls := .empty
        frames := state.frames ++ (orphans state).map (wireFrame cap) } := by
  simp only [flushOrphans, writeAll_eq, orphans, List.map_append,
    List.append_assoc]

theorem callLog_orphans (state : TurnState Args Notice Limit Fault) :
    callLog (orphans state) =
      state.openIds.map fun id => (id, Mark.settled) := by
  have hmark : ∀ {α : Type} (entries : List (String × α))
      (orphan : α → Frame Args Notice Limit Fault) (id : α → String),
      (∀ value, (orphan value).mark? = some (id value, .settled)) →
      callLog (entries.map fun entry => orphan entry.2) =
        (entries.map fun entry => id entry.2).map fun id =>
          (id, Mark.settled) := by
    intro α entries orphan id horphan
    induction entries with
    | nil => rfl
    | cons entry entries ih =>
        rw [List.map_cons, callLog, List.filterMap_cons, horphan, ← callLog,
          ih]
        rfl
  rw [orphans, callLog_append, openIds, List.map_append,
    hmark _ orphanAction (·.toolCallId) fun _ => rfl,
    hmark _ orphanTool (·.eventId) fun _ => rfl]
  rfl

theorem orphans_silent
    {frame : Frame Args Notice Limit Fault} (hframe : frame ∈ orphans state) :
    frame.content = [] ∧ frame.isDone = false := by
  rcases List.mem_append.mp hframe with haction | htool
  · obtain ⟨entry, -, rfl⟩ := List.mem_map.mp haction
    exact ⟨rfl, rfl⟩
  · obtain ⟨entry, -, rfl⟩ := List.mem_map.mp htool
    exact ⟨rfl, rfl⟩

theorem told_writeAll
    (cap : Option ℕ) {frames : List (Frame Args Notice Limit Fault)}
    (htold : Told state)
    (hcontent : ∀ frame ∈ frames, frame.content = [] ∧ frame.isDone = false) :
    Told (state.writeAll cap frames) := by
  induction frames generalizing state with
  | nil => exact htold
  | cons frame frames ih =>
      obtain ⟨hempty, hundone⟩ := hcontent frame List.mem_cons_self
      exact ih (htold.add hempty hundone rfl rfl) fun other hother =>
        hcontent other (List.mem_cons_of_mem _ hother)

variable {future : List String}

/-- Flushing settles what is still running. -/
theorem flushOrphans_tracked (cap : Option ℕ)
    (htracked : Tracked future state) :
    Tracked future (state.flushOrphans cap) where
  sound := by
    rw [flushOrphans_eq, callLog_append, callLog_wire, callLog_orphans]
    have hall := htracked.sound.settleAll htracked.nodup fun _ hid => hid
    refine hall.mono (fun id => ?_) fun _ hid => hid
    exact ⟨fun hid => absurd hid List.not_mem_nil,
      fun hid => absurd hid.1 hid.2⟩
  nodup := by
    rw [flushOrphans_eq]
    exact List.nodup_nil
  unused := by
    rw [flushOrphans_eq]
    exact fun id hid => ⟨rfl, rfl, (htracked.unused id hid).2.2⟩

theorem flushOrphans_told (cap : Option ℕ) (htold : Told state) :
    Told (state.flushOrphans cap) := by
  have hsilent : ∀ frame ∈ orphans state,
      frame.content = [] ∧ frame.isDone = false :=
    fun frame hframe => orphans_silent hframe
  have hwritten := told_writeAll cap htold hsilent
  rw [writeAll_eq] at hwritten
  rw [flushOrphans_eq]
  exact hwritten.same rfl rfl

/-- Frames that are not of a call, nor text, nor the end. -/
structure Plain (frame : Frame Args Notice Limit Fault) : Prop where
  mark : frame.mark? = none
  content : frame.content = []
  undone : frame.isDone = false

/-- A turn ends in settled calls and `done`. -/
theorem finish_wellFormed {frames : List (Frame Args Notice Limit Fault)}
    (flag : Option DoneFlag) (status : TurnStatus)
    (htracked : Tracked future state) (htold : Told state)
    (hplain : ∀ frame ∈ frames, Plain frame) :
    WellFormed (finish input state frames flag status) := by
  let cap := input.toolOutputCapChars
  let flushed := state.flushOrphans cap
  let ended := flushed.writeAll cap frames
  have hended : Told ended :=
    told_writeAll cap (flushOrphans_told cap htold) fun frame hframe =>
      ⟨(hplain frame hframe).content, (hplain frame hframe).undone⟩
  have hlog : callLog ended.frames = callLog flushed.frames := by
    have hnone : callLog frames = [] :=
      List.filterMap_eq_nil_iff.mpr fun frame hframe =>
        (hplain frame hframe).mark
    simp only [ended, writeAll_eq, callLog_append, callLog_wire, hnone,
      List.append_nil]
  have hframes : (finish input state frames flag status).frames =
        ended.frames ++ [wireFrame cap (doneFrame input flag)] := rfl
  constructor
  · intro id
    have hdone : callLog [wireFrame cap (doneFrame input flag)] = [] := rfl
    rw [hframes, callLog_append, hlog, hdone, List.append_nil]
    have hsettled := (flushOrphans_tracked cap htracked).sound.settled id
      (by rw [flushOrphans_eq]; exact List.not_mem_nil)
    exact hsettled
  · exact ⟨ended.frames, _, hframes, rfl, hended.undone⟩
  · have htext : (finish input state frames flag status).fullText =
          ended.fullContent := rfl
    rw [hframes, htext, messages_append, hended.text]
    simp [messages, Frame.content, wireFrame, doneFrame]

theorem plain_reasoningEnd :
    Plain (reasoningEnd : Frame Args Notice Limit Fault) :=
  ⟨rfl, rfl, rfl⟩

theorem limitFailure_wellFormed (limit : Limit)
    (htracked : Tracked future state) (htold : Told state) :
    WellFormed (limitFailure input state limit) := by
  refine finish_wellFormed _ _ htracked htold fun frame hframe => ?_
  rcases List.mem_pair.mp hframe with rfl | rfl
  · exact plain_reasoningEnd
  · exact ⟨rfl, rfl, rfl⟩

theorem aborted_wellFormed
    (htracked : Tracked future state) (htold : Told state) :
    WellFormed (aborted input state) :=
  finish_wellFormed _ _ htracked htold fun _ hframe =>
    absurd hframe List.not_mem_nil

theorem onThrown_wellFormed (error : Err)
    (htracked : Tracked future state) (htold : Told state) :
    WellFormed (onThrown input state error) := by
  simp only [onThrown]
  split
  · exact limitFailure_wellFormed _ htracked htold
  · split
    · exact aborted_wellFormed htracked htold
    · refine finish_wellFormed _ _ htracked htold fun frame hframe => ?_
      rcases List.mem_pair.mp hframe with rfl | rfl
      · exact plain_reasoningEnd
      · exact ⟨rfl, rfl, rfl⟩

theorem completed_wellFormed
    (htracked : Tracked future state) (htold : Told state) :
    WellFormed (completed input state) := by
  unfold completed
  split
  · refine finish_wellFormed _ _ htracked htold fun frame hframe => ?_
    rw [List.mem_singleton.mp hframe]
    exact plain_reasoningEnd
  · exact onThrown_wellFormed _ ((flushOrphans_tracked _ htracked).write rfl)
      ((flushOrphans_told _ htold).add rfl rfl rfl rfl)

theorem onEnded_wellFormed
    (htracked : Tracked future state) (htold : Told state) :
    WellFormed (onEnded input state) := by
  unfold onEnded
  split
  · exact completed_wellFormed htracked htold
  · split
    · exact limitFailure_wellFormed _ htracked htold
    · exact aborted_wellFormed htracked htold

theorem opening_plain {frame : Frame Args Notice Limit Fault}
    (hframe : frame ∈ opening input) : Plain frame := by
  rcases List.mem_append.mp hframe with hrun | hupdate
  · split at hrun
    · cases hrun
    · obtain ⟨runId, -, rfl⟩ := List.mem_map.mp
        (by simpa using hrun : frame ∈ (input.runId.toList).map .run)
      exact ⟨rfl, rfl, rfl⟩
  · rw [List.mem_singleton.mp hupdate]
    exact ⟨rfl, rfl, rfl⟩

theorem opened_tracked
    (input : TurnInput Args Notice Limit Fault Err) (future : List String) :
    Tracked future
      (start.writeAll input.toolOutputCapChars (opening input)) where
  sound := by
    have hnone : callLog (opening input) = [] :=
      List.filterMap_eq_nil_iff.mpr fun frame hframe =>
        (opening_plain hframe).mark
    rw [writeAll_eq, callLog_append, callLog_wire, hnone]
    exact (Sound.empty _).mono
      (fun _ => ⟨List.not_mem_nil, False.elim⟩) fun _ hid => hid
  nodup := by
    rw [writeAll_eq]
    exact List.nodup_nil
  unused := by
    rw [writeAll_eq]
    exact fun _ _ => ⟨rfl, rfl, List.not_mem_nil⟩

theorem opened_told (input : TurnInput Args Notice Limit Fault Err) :
    Told (start.writeAll input.toolOutputCapChars (opening input)) := by
  refine told_writeAll _ ⟨rfl, fun _ hframe => absurd hframe
    List.not_mem_nil⟩ fun frame hframe => ?_
  exact ⟨(opening_plain hframe).content, (opening_plain hframe).undone⟩

/-- Where tool runs and the calls of the models have ids of their own, a turn
that ends, however it ends, settles each running call once, ends in `done`
and has streamed its text. -/
theorem runTurnFrames_wellFormed
    (input : TurnInput Args Notice Limit Fault Err)
    (hids : (input.events.flatMap TurnEvent.ids).Nodup) :
    WellFormed (runTurnFrames input) := by
  obtain ⟨future, htracked⟩ : ∃ future, Tracked future (consume input 0
          (start.writeAll input.toolOutputCapChars (opening input))
          input.events).1 :=
    consume_tracked hids (opened_tracked input _)
  have htold : Told (consume input 0
          (start.writeAll input.toolOutputCapChars (opening input))
          input.events).1 :=
    consume_told (opened_told input)
  simp only [runTurnFrames]
  split
  · exact onEnded_wellFormed htracked htold
  · split
    · exact onEnded_wellFormed htracked htold
    · exact onThrown_wellFormed _ htracked htold

end Run

/-! ## A call id that comes twice -/

/-- A model step that calls a tool with this id, and the tool's run. -/
def modelStep (callId runId : String) : List (TurnEvent String String) :=
  [.chatModelEnd ⟨none, []⟩ [⟨some callId, "search", "{}"⟩],
    .toolStart runId (some "search") "{}",
    .toolEnd runId ⟨utf16 "found".toList, none, none, false⟩]

/-- A turn of two model steps, and no other call. -/
def twoSteps (first second : String) :
    TurnInput String String String String String where
  runId := some "run"
  resumed := false
  toolOutputCapChars := none
  isAction := fun _ => false
  thinkingPhrase := "Thinking..."
  messageId := none
  events := modelStep first "r1" ++ modelStep second "r2"
  thrown := none
  abortTime := none
  abortLimit := none
  completeError := none
  harnessLimitOf := fun _ => none
  classified := id

theorem runTurnFrames_wellFormed_twoSteps :
    WellFormed (runTurnFrames (twoSteps "call_1" "call_2")) :=
  runTurnFrames_wellFormed _ (by decide +kernel)

def TurnEvent.startedRun? : TurnEvent Args Notice → Option String
  | .toolStart runId _ _ => some runId
  | _ => none

/-- A model that numbers the calls of each step anew: the tool runs have ids
of their own, and the frames of the second call follow the settled frame of
the first. -/
theorem call_settled_twice : ((twoSteps "call_1" "call_1").events.filterMap
      TurnEvent.startedRun?).Nodup ∧
    trail (callLog (runTurnFrames (twoSteps "call_1" "call_1")).frames)
        "call_1" =
      [.opened, .settled, .opened, .settled] ∧
    ¬ WellFormed (runTurnFrames (twoSteps "call_1" "call_1")) := by
  have htrail :
      trail (callLog (runTurnFrames (twoSteps "call_1" "call_1")).frames)
          "call_1" =
        [.opened, .settled, .opened, .settled] := by
    decide +kernel
  refine ⟨by decide +kernel, htrail, fun hformed => ?_⟩
  have hsettled := hformed.calls "call_1"
  rw [htrail] at hsettled
  rcases hsettled with hnil | hone | htwo
  · cases hnil
  · cases hone
  · cases htwo

end TurnFrames
end QiForge
