import QiForge.FrontendCalls
import QiForge.Transition

/-!
# A frontend call reaches one socket and is settled by it alone

The invariant has one part for each table of the endpoint: the registry and the
promises, the sends, the sockets, and the parked queues.  A call in the middle
of being made is not queued yet, and a socket in the middle of its CONNECT may
still have parked calls to take; the last part names them.
-/

namespace QiForge

namespace RealtimeEndpoint

def pendingIds (s : RealtimeEndpoint) : List String :=
  s.pending.map PendingCall.toolCallId

def settledIds (s : RealtimeEndpoint) : List String := s.settled.map Prod.fst

def sentIds (s : RealtimeEndpoint) : List String := s.sent.map Prod.fst

/-- The invocations a socket received, oldest first. -/
def sentTo (s : RealtimeEndpoint) (ws : WebSocket) : List String :=
  (s.sent.filter fun entry => decide (entry.2 = ws)).map Prod.fst

/-- The session's pending calls no socket was sent, in call order. -/
def unsentIds (s : RealtimeEndpoint) (sessionId : String) : List String :=
  (s.pending.filter fun entry =>
    entry.executor.isNone && decide (entry.sessionId = sessionId)).map
    PendingCall.toolCallId

def queueIds (s : RealtimeEndpoint) (sessionId : String) : List String :=
  (s.parked sessionId).map OutgoingFrontendCall.toolCallId

/-- Whether the sends so far explain how a promise settled. -/
def Fits (sent : List (String × WebSocket)) (id : String) : Settlement → Prop
  | .resolved ws _ | .failed ws _ => (id, ws) ∈ sent
  | .outcomeUnknown => id ∈ sent.map Prod.fst
  | .notSent _ => id ∉ sent.map Prod.fst

/-- Every call is either pending or settled once. -/
structure Registered (limits : FrontendLimits) (s : RealtimeEndpoint) :
    Prop where
  called : s.called.Nodup
  pending : s.pendingIds.Sublist s.called
  settled : s.settledIds.Nodup
  accounted : ∀ id, id ∈ s.called ↔ id ∈ s.pendingIds ∨ id ∈ s.settledIds
  apart : ∀ id ∈ s.pendingIds, id ∉ s.settledIds
  maxPending : s.pending.length ≤ limits.maxPending
  maxCompleted : s.completed.length ≤ limits.maxCompleted

/-- Every invocation is sent at most once, and what settled it agrees. -/
structure SentOnce (s : RealtimeEndpoint) : Prop where
  once : s.sentIds.Nodup
  called : ∀ id ∈ s.sentIds, id ∈ s.called
  bound : ∀ entry ∈ s.pending, ∀ executor, entry.executor = some executor →
    ∃ ws, (entry.toolCallId, ws) ∈ s.sent ∧ (ws, executor.sid) ∈ s.opened
  unsent : ∀ entry ∈ s.pending, entry.executor = none →
    entry.toolCallId ∉ s.sentIds
  fits : ∀ entry ∈ s.settled, Fits s.sent entry.1 entry.2
  ordered : ∀ ws, (s.sentTo ws).Sublist s.called

structure Sockets (s : RealtimeEndpoint) : Prop where
  socketIds : (s.opened.map Prod.fst).Nodup
  sids : (s.opened.map Prod.snd).Nodup
  opened : ∀ entry ∈ s.sockets,
    (entry.socket, entry.attachment.sid) ∈ s.opened
  distinct : (s.sockets.map HubEntry.socket).Nodup
  sent : ∀ entry ∈ s.sent, entry.2 ∈ s.opened.map Prod.fst
  silent : ∀ entry ∈ s.sockets, entry.attachment.userDid = none →
    s.sentTo entry.socket = []
  connecting : ∀ entry ∈ s.sockets, entry.socket ∈ s.authenticating →
    entry.attachment.userDid = none

/-- Whether the socket takes the call. -/
def Takes (attachment : SocketAttachment) (entry : PendingCall) : Prop :=
  attachment.serves entry.sessionId = true ∧
    attachment.canRunTool entry.kind entry.toolName = true

/-- The queues hold the unsent calls, apart from one that is being made or
sent; no socket takes one, apart from a socket that is joining. -/
structure Parks (made : Option String) (joining : Option WebSocket)
    (s : RealtimeEndpoint) : Prop where
  queue : ∀ sessionId, (s.queueIds sessionId).filter s.isParked =
    (s.unsentIds sessionId).filter fun id => !decide (some id = made)
  inCallOrder : ∀ sessionId, (s.queueIds sessionId).Sublist s.called
  member : ∀ sessionId, ∀ call ∈ s.parked sessionId,
    call.sessionId = sessionId ∧ call ∈ s.watched
  watched : (s.watched.map OutgoingFrontendCall.toolCallId).Nodup
  known : ∀ call ∈ s.watched, call.toolCallId ∈ s.called
  waiting : ∀ sessionId, ∀ call ∈ s.parked sessionId,
    some call.toolCallId ≠ made → ∀ entry ∈ s.pending,
      entry.toolCallId = call.toolCallId → entry.executor = none
  same : ∀ call ∈ s.watched, ∀ entry ∈ s.pending,
    entry.toolCallId = call.toolCallId → entry.kind = call.kind ∧
      entry.toolName = call.toolName ∧ entry.sessionId = call.sessionId
  idle : ∀ entry ∈ s.pending, entry.executor = none →
    some entry.toolCallId ≠ made → ∀ socket ∈ s.sockets,
      some socket.socket ≠ joining → ¬ Takes socket.attachment entry

structure Sound (limits : FrontendLimits) (made : Option String)
    (joining : Option WebSocket) (s : RealtimeEndpoint) : Prop where
  registered : s.Registered limits
  sentOnce : s.SentOnce
  sockets : s.Sockets
  parks : s.Parks made joining

variable {s : RealtimeEndpoint}

theorem find_eq_some {id : String}
    {entry : PendingCall} (h : s.find id = some entry) :
    entry ∈ s.pending ∧ entry.toolCallId = id := by
  unfold find at h
  exact ⟨List.mem_of_find?_eq_some h, by simpa using List.find?_some h⟩

theorem find_of_mem (hnodup : s.pendingIds.Nodup)
    {entry : PendingCall} (hmem : entry ∈ s.pending) :
    s.find entry.toolCallId = some entry := by
  unfold find
  cases hfound : s.pending.find? fun other =>
      decide (other.toolCallId = entry.toolCallId) with
  | none =>
      have hnone := List.find?_eq_none.mp hfound entry hmem
      simp at hnone
  | some other =>
      have hother := List.mem_of_find?_eq_some hfound
      have hid : other.toolCallId = entry.toolCallId := by
        simpa using List.find?_some hfound
      rw [List.inj_on_of_nodup_map hnodup hother hmem hid]

theorem find_eq_none {id : String} : s.find id = none ↔ id ∉ s.pendingIds := by
  unfold find pendingIds
  rw [List.find?_eq_none]
  simp

theorem Registered.nodup {limits : FrontendLimits}
    (h : s.Registered limits) : s.pendingIds.Nodup :=
  h.called.sublist h.pending

theorem isParked_iff (hnodup : s.pendingIds.Nodup)
    {id : String} : s.isParked id = true ↔
      ∃ entry ∈ s.pending, entry.toolCallId = id ∧ entry.executor = none := by
  unfold isParked
  rw [Option.any_eq_true]
  constructor
  · rintro ⟨entry, hfound, hnone⟩
    rcases find_eq_some hfound with ⟨hmem, hid⟩
    exact ⟨entry, hmem, hid, by simpa using hnone⟩
  · rintro ⟨entry, hmem, rfl, hnone⟩
    exact ⟨entry, find_of_mem hnodup hmem, by simp [hnone]⟩

theorem pruneCompleted_suffix (limits : FrontendLimits) (now : ℕ)
    (records : List CompletedCall) :
    (pruneCompleted limits now records).IsSuffix records ∧
      (pruneCompleted limits now records).length ≤ limits.maxCompleted := by
  induction records with
  | nil => exact ⟨List.suffix_refl _, Nat.zero_le _⟩
  | cons record records ih =>
      rw [pruneCompleted]
      split
      next hkeep => exact ⟨List.suffix_refl _, hkeep.2⟩
      next => exact ⟨ih.1.trans (List.suffix_cons _ _), ih.2⟩

theorem mostRecent_eq_none {entries : List HubEntry} :
    mostRecent entries = none ↔ entries = [] := by
  constructor
  · intro h
    induction entries using List.reverseRecOn with
    | nil => rfl
    | append_singleton entries last ih =>
        unfold mostRecent at h
        rw [List.foldl_append, List.foldl_cons, List.foldl_nil] at h
        split at h
        next => cases h
        next =>
          split at h <;> cases h
  · rintro rfl
    rfl

theorem mostRecent_mem {entries : List HubEntry} {entry : HubEntry}
    (h : mostRecent entries = some entry) : entry ∈ entries := by
  induction entries using List.reverseRecOn generalizing entry with
  | nil => cases h
  | append_singleton entries last ih =>
      unfold mostRecent at h ih
      rw [List.foldl_append, List.foldl_cons, List.foldl_nil] at h
      split at h
      next =>
        cases h
        simp
      next old hold =>
        split at h
        next =>
          cases h
          simp
        next =>
          cases h
          exact List.mem_append_left _ (ih hold)

/-- The chosen socket serves the session and can run the tool. -/
theorem executorFor_eq_some {sockets : List HubEntry} {sessionId toolName : String}
    {kind : FrontendCallKind} {entry : HubEntry}
    (h : executorFor sockets sessionId kind toolName = some entry) :
    entry ∈ sockets ∧ entry.attachment.serves sessionId = true ∧
      entry.attachment.canRunTool kind toolName = true := by
  unfold executorFor at h
  dsimp only at h
  rcases Option.or_eq_some_iff.mp h with hfore | ⟨-, hback⟩
  · have hmem := mostRecent_mem hfore
    rw [List.mem_filter, List.mem_filter] at hmem
    refine ⟨hmem.1.1, hmem.1.2, ?_⟩
    have hnone : entry.attachment.background = none := by simpa using hmem.2
    simp [SocketAttachment.canRunTool, hnone]
  · have hmem := mostRecent_mem hback
    rw [List.mem_filter, List.mem_filter, Bool.and_eq_true] at hmem
    exact ⟨hmem.1.1, hmem.1.2, hmem.2.2⟩

theorem executorFor_eq_none {sockets : List HubEntry} {sessionId toolName : String}
    {kind : FrontendCallKind}
    (h : executorFor sockets sessionId kind toolName = none) :
    ∀ entry ∈ sockets, ¬ (entry.attachment.serves sessionId = true ∧
      entry.attachment.canRunTool kind toolName = true) := by
  unfold executorFor at h
  dsimp only at h
  rw [Option.or_eq_none_iff, mostRecent_eq_none, mostRecent_eq_none] at h
  rintro entry hentry ⟨hserves, hrun⟩
  have hserving : entry ∈ sockets.filter fun entry =>
      entry.attachment.serves sessionId :=
    List.mem_filter.mpr ⟨hentry, hserves⟩
  cases hkind : entry.attachment.background with
  | none =>
      exact List.filter_eq_nil_iff.mp h.1 entry hserving (by simp [hkind])
  | some tools =>
      exact List.filter_eq_nil_iff.mp h.2 entry hserving
        (by simp [hkind, hrun])

section Finish

variable {limits : FrontendLimits} {made : Option String}
  {joining : Option WebSocket} {s : RealtimeEndpoint} {now : ℕ}
  {id : String} {outcome : Settlement}

theorem finish_of_find {entry : PendingCall} (hfound : s.find id = some entry) :
    s.finish limits now id outcome = { s with
        pending := s.pending.filter fun entry =>
          !decide (entry.toolCallId = id)
        completed := pruneCompleted limits now (s.completed ++ [⟨id, now⟩])
        settled := s.settled ++ [(id, outcome)] } := by
  unfold finish
  rw [hfound]

theorem finish_of_none (hfound : s.find id = none) :
    s.finish limits now id outcome = s := by
  unfold finish
  rw [hfound]

theorem nodup_append_last {α : Type*} {l : List α} {last : α}
    (hnodup : l.Nodup) (hlast : last ∉ l) : (l ++ [last]).Nodup := by
  rw [← List.concat_eq_append]
  exact hnodup.concat hlast

theorem map_filter_ids (entries : List PendingCall) :
    (entries.filter fun entry => !decide (entry.toolCallId = id)).map
        PendingCall.toolCallId =
      (entries.map PendingCall.toolCallId).filter fun other =>
        !decide (other = id) := by
  rw [List.filter_map]
  rfl

theorem Registered.finish (h : s.Registered limits) :
    (s.finish limits now id outcome).Registered limits := by
  cases hfound : s.find id with
  | none =>
      rw [finish_of_none hfound]
      exact h
  | some entry =>
      rcases find_eq_some hfound with ⟨hmem, rfl⟩
      have hpending : entry.toolCallId ∈ s.pendingIds :=
        List.mem_map_of_mem hmem
      have hids : (s.finish limits now entry.toolCallId outcome).pendingIds =
          s.pendingIds.filter fun other =>
            !decide (other = entry.toolCallId) := by
        rw [finish_of_find hfound]
        exact map_filter_ids s.pending
      have hsettled :
          (s.finish limits now entry.toolCallId outcome).settledIds =
            s.settledIds ++ [entry.toolCallId] := by
        rw [finish_of_find hfound]
        simp [settledIds]
      have hcalled :
          (s.finish limits now entry.toolCallId outcome).called = s.called := by
        rw [finish_of_find hfound]
      constructor
      · rw [hcalled]
        exact h.called
      · rw [hids, hcalled]
        exact (List.filter_sublist).trans h.pending
      · rw [hsettled]
        exact nodup_append_last h.settled (h.apart _ hpending)
      · intro other
        rw [hcalled, hids, hsettled, h.accounted]
        by_cases heq : other = entry.toolCallId
        · simp [heq, hpending]
        · simp [heq]
      · intro other hother
        rw [hids, List.mem_filter] at hother
        rw [hsettled]
        have hold := h.apart other hother.1
        simpa [hold] using hother.2
      · rw [finish_of_find hfound]
        exact (List.length_filter_le _ _).trans h.maxPending
      · rw [finish_of_find hfound]
        exact (pruneCompleted_suffix limits now _).2

theorem SentOnce.finish (h : s.SentOnce)
    (hfits : id ∈ s.pendingIds → Fits s.sent id outcome) :
    (s.finish limits now id outcome).SentOnce := by
  cases hfound : s.find id with
  | none =>
      rw [finish_of_none hfound]
      exact h
  | some entry =>
      rcases find_eq_some hfound with ⟨hmem, rfl⟩
      rw [finish_of_find hfound]
      refine { h with bound := ?_, unsent := ?_, fits := ?_ }
      · intro other hother
        exact h.bound other (List.mem_of_mem_filter hother)
      · intro other hother
        exact h.unsent other (List.mem_of_mem_filter hother)
      · intro other hother
        rcases List.mem_append.mp hother with hold | hnew
        · exact h.fits other hold
        · obtain rfl := List.mem_singleton.mp hnew
          exact hfits (List.mem_map_of_mem hmem)

theorem Sockets.finish (h : s.Sockets) :
    (s.finish limits now id outcome).Sockets := by
  cases hfound : s.find id with
  | none =>
      rw [finish_of_none hfound]
      exact h
  | some entry =>
      rw [finish_of_find hfound]
      exact { h with }

theorem isParked_finish (hnodup : s.pendingIds.Nodup) {entry : PendingCall}
    (hfound : s.find id = some entry) (other : String) :
    (s.finish limits now id outcome).isParked other =
      (s.isParked other && !decide (other = id)) := by
  have hids : (s.finish limits now id outcome).pendingIds =
      s.pendingIds.filter fun other => !decide (other = id) := by
    rw [finish_of_find hfound]
    exact map_filter_ids s.pending
  have hnodup' : (s.finish limits now id outcome).pendingIds.Nodup := by
    rw [hids]
    exact hnodup.sublist List.filter_sublist
  rw [Bool.eq_iff_iff, isParked_iff hnodup', Bool.and_eq_true,
    isParked_iff hnodup, finish_of_find hfound]
  constructor
  · rintro ⟨call, hcall, rfl, hnone⟩
    rw [List.mem_filter] at hcall
    exact ⟨⟨call, hcall.1, rfl, hnone⟩, hcall.2⟩
  · rintro ⟨⟨call, hcall, rfl, hnone⟩, hne⟩
    exact ⟨call, List.mem_filter.mpr ⟨hcall, hne⟩, rfl, hnone⟩

theorem Parks.finish (h : s.Parks made joining) (hnodup : s.pendingIds.Nodup) :
    (s.finish limits now id outcome).Parks made joining := by
  cases hfound : s.find id with
  | none =>
      rw [finish_of_none hfound]
      exact h
  | some entry =>
      have hparked : ∀ other, (s.finish limits now id outcome).isParked other =
            (s.isParked other && !decide (other = id)) :=
        fun other => isParked_finish hnodup hfound other
      have hunsent : ∀ sessionId,
          (s.finish limits now id outcome).unsentIds sessionId =
            (s.unsentIds sessionId).filter fun other =>
              !decide (other = id) := by
        intro sessionId
        rw [finish_of_find hfound]
        unfold unsentIds
        rw [← map_filter_ids, List.filter_filter, List.filter_filter]
        congr 1
        apply List.filter_congr
        intro other _
        exact Bool.and_comm _ _
      constructor
      · intro sessionId
        have hqueue := h.queue sessionId
        have hsame : (s.finish limits now id outcome).queueIds sessionId =
            s.queueIds sessionId := by
          rw [finish_of_find hfound]
          rfl
        rw [hsame, hunsent, List.filter_congr fun other _ => hparked other]
        have hcomm : ∀ (l : List String) (p q : String → Bool),
            (l.filter p).filter q = l.filter fun other => p other && q other := by
          intro l p q
          rw [List.filter_filter]
          apply List.filter_congr
          intro other _
          exact Bool.and_comm _ _
        rw [← hcomm, hqueue, List.filter_filter, List.filter_filter]
        apply List.filter_congr
        intro other _
        exact Bool.and_comm _ _
      all_goals rw [finish_of_find hfound]
      · exact h.inCallOrder
      · exact h.member
      · exact h.watched
      · exact h.known
      · intro sessionId call hcall hmade other hother
        exact h.waiting sessionId call hcall hmade other
          (List.mem_of_mem_filter hother)
      · intro call hcall other hother
        exact h.same call hcall other (List.mem_of_mem_filter hother)
      · intro other hother
        exact h.idle other (List.mem_of_mem_filter hother)

theorem Sound.finish (h : s.Sound limits made joining)
    (hfits : id ∈ s.pendingIds → Fits s.sent id outcome) :
    (s.finish limits now id outcome).Sound limits made joining :=
  ⟨h.registered.finish, h.sentOnce.finish hfits, h.sockets.finish,
    h.parks.finish h.registered.nodup⟩

end Finish

section Drops

variable {limits : FrontendLimits}
  {made : Option String} {joining : Option WebSocket}
  {s : RealtimeEndpoint} {now : ℕ}

/-- What ending calls leaves alone. -/
structure Frame (s s' : RealtimeEndpoint) : Prop where
  sockets : s'.sockets.Sublist s.sockets
  pending : s'.pending.Sublist s.pending
  parked : s'.parked = s.parked
  watched : s'.watched = s.watched
  opened : s'.opened = s.opened
  authenticating : s'.authenticating = s.authenticating
  called : s'.called = s.called
  sent : s'.sent = s.sent
  unsent : ∀ entry ∈ s.pending, entry.executor = none → entry ∈ s'.pending

theorem Frame.refl (s : RealtimeEndpoint) : Frame s s :=
  ⟨List.Sublist.refl _, List.Sublist.refl _, rfl, rfl, rfl, rfl, rfl, rfl,
    fun _ h _ => h⟩

theorem Frame.trans {s mid s' : RealtimeEndpoint} (hleft : Frame s mid)
    (hright : Frame mid s') : Frame s s' := by
  constructor
  · exact hright.sockets.trans hleft.sockets
  · exact hright.pending.trans hleft.pending
  · exact hright.parked.trans hleft.parked
  · exact hright.watched.trans hleft.watched
  · exact hright.opened.trans hleft.opened
  · exact hright.authenticating.trans hleft.authenticating
  · exact hright.called.trans hleft.called
  · exact hright.sent.trans hleft.sent
  · intro entry hentry hnone
    exact hright.unsent entry (hleft.unsent entry hentry hnone) hnone

/-- Ending calls whose outcome the sends explain. -/
theorem Sound.finishAll {α : Type*} (idOf : α → String)
    (outcomeOf : α → Settlement) {items : List α}
    (h : s.Sound limits made joining)
    (hfits : ∀ item ∈ items, Fits s.sent (idOf item) (outcomeOf item)) :
    (items.foldl (fun s item =>
      s.finish limits now (idOf item) (outcomeOf item)) s).Sound limits made
        joining := by
  induction items generalizing s with
  | nil => exact h
  | cons item items ih =>
      rw [List.foldl_cons]
      apply ih
      · exact h.finish fun _ => hfits item (by simp)
      · intro other hother
        have hsent : (s.finish limits now (idOf item)
            (outcomeOf item)).sent = s.sent := by
          unfold RealtimeEndpoint.finish
          split <;> rfl
        rw [hsent]
        exact hfits other (by simp [hother])

theorem finish_frame {id : String} {outcome : Settlement}
    (hid : ∀ entry ∈ s.pending, entry.executor = none →
      entry.toolCallId ≠ id) :
    Frame s (s.finish limits now id outcome) := by
  unfold RealtimeEndpoint.finish
  split
  next => exact Frame.refl s
  next =>
    constructor
    · exact List.Sublist.refl _
    · exact List.filter_sublist
    · rfl
    · rfl
    · rfl
    · rfl
    · rfl
    · rfl
    · intro entry hentry hnone
      exact List.mem_filter.mpr ⟨hentry, by simp [hid entry hentry hnone]⟩

theorem executorGone_frame (hnodup : s.pendingIds.Nodup) (sid : String) :
    Frame s (s.executorGone limits now sid) := by
  have hids : ∀ id ∈ (s.pending.filter fun entry =>
      entry.executor.any fun executor => decide (executor.sid = sid)).map
      PendingCall.toolCallId, ∀ entry ∈ s.pending, entry.executor = none →
      entry.toolCallId ≠ id := by
    intro id hid entry hentry hnone heq
    rcases List.mem_map.mp hid with ⟨other, hother, rfl⟩
    rw [List.mem_filter] at hother
    have hsame := List.inj_on_of_nodup_map hnodup hentry hother.1 heq
    subst hsame
    simp [hnone] at hother
  have hall : ∀ (ids : List String) (t : RealtimeEndpoint), Frame s t →
      (∀ id ∈ ids, ∀ entry ∈ s.pending, entry.executor = none →
        entry.toolCallId ≠ id) →
      Frame s (ids.foldl
        (fun s id => s.finish limits now id .outcomeUnknown) t) := by
    intro ids
    induction ids with
    | nil => exact fun t ht _ => ht
    | cons id ids ih =>
        intro t ht hfree
        rw [List.foldl_cons]
        apply ih
        · exact ht.trans (finish_frame fun entry hentry hnone =>
            hfree id (by simp) entry (ht.pending.subset hentry) hnone)
        · exact fun other hother => hfree other (by simp [hother])
  exact hall _ s (Frame.refl s) hids

theorem Sound.executorGone (h : s.Sound limits made joining) (sid : String) :
    (s.executorGone limits now sid).Sound limits made joining := by
  apply h.finishAll id fun _ => .outcomeUnknown
  intro id hid
  rcases List.mem_map.mp hid with ⟨entry, hentry, rfl⟩
  rw [List.mem_filter, Option.any_eq_true] at hentry
  rcases hentry.2 with ⟨executor, hexecutor, -⟩
  rcases h.sentOnce.bound entry hentry.1 executor hexecutor with
    ⟨ws, hsent, -⟩
  exact List.mem_map_of_mem hsent

theorem Sound.removeSocket (h : s.Sound limits made joining)
    (ws : WebSocket) : (s.removeSocket ws).Sound limits made joining := by
  constructor
  · exact { h.registered with }
  · exact { h.sentOnce with }
  · constructor
    · exact h.sockets.socketIds
    · exact h.sockets.sids
    · intro entry hentry
      exact h.sockets.opened entry (List.mem_of_mem_filter hentry)
    · exact h.sockets.distinct.sublist (List.filter_sublist.map _)
    · exact h.sockets.sent
    · intro entry hentry
      exact h.sockets.silent entry (List.mem_of_mem_filter hentry)
    · intro entry hentry
      exact h.sockets.connecting entry (List.mem_of_mem_filter hentry)
  · refine { h.parks with idle := ?_ }
    · intro entry hentry hnone hmade socket hsocket
      exact h.parks.idle entry hentry hnone hmade socket
        (List.mem_of_mem_filter hsocket)

theorem removeSocket_frame (s : RealtimeEndpoint) (ws : WebSocket) :
    Frame s (s.removeSocket ws) :=
  ⟨List.filter_sublist, List.Sublist.refl _, rfl, rfl, rfl, rfl, rfl, rfl,
    fun _ h _ => h⟩

theorem Sound.dropSocket (h : s.Sound limits made joining) (now : ℕ)
    (ws : WebSocket) :
    (s.dropSocket limits now ws).Sound limits made joining ∧
      Frame s (s.dropSocket limits now ws) ∧
      ∀ entry ∈ (s.dropSocket limits now ws).sockets, entry.socket ≠ ws := by
  have hremoved := h.removeSocket ws
  have hgone : ∀ entry ∈ (s.removeSocket ws).sockets, entry.socket ≠ ws := by
    intro entry hentry
    have hmem := List.mem_filter.mp hentry
    simpa using hmem.2
  unfold RealtimeEndpoint.dropSocket
  split
  next => exact ⟨hremoved, removeSocket_frame s ws, hgone⟩
  next attachment _ =>
    have hframe : Frame (s.removeSocket ws)
        ((s.removeSocket ws).executorGone limits now attachment.sid) :=
      executorGone_frame hremoved.registered.nodup attachment.sid
    refine ⟨hremoved.executorGone attachment.sid,
      (removeSocket_frame s ws).trans hframe, ?_⟩
    intro entry hentry
    exact hgone entry (hframe.sockets.subset hentry)

/-- A send keeps the invariant; a failed one leaves no such socket. -/
theorem Sound.trySend (h : s.Sound limits made joining)
    (throws : ℕ → Bool) (now : ℕ) (ws : WebSocket) :
    (s.trySend limits throws now ws).2.Sound limits made joining ∧
      Frame s (s.trySend limits throws now ws).2 ∧
      ((s.trySend limits throws now ws).1 = false →
        ∀ entry ∈ (s.trySend limits throws now ws).2.sockets,
          entry.socket ≠ ws) := by
  have hnext : ({ s with sends := s.sends + 1 } :
      RealtimeEndpoint).Sound limits made joining :=
    ⟨{ h.registered with }, { h.sentOnce with }, { h.sockets with },
      { h.parks with }⟩
  have hframe : Frame s { s with sends := s.sends + 1 } :=
    ⟨List.Sublist.refl _, List.Sublist.refl _, rfl, rfl, rfl, rfl, rfl, rfl,
    fun _ h _ => h⟩
  unfold RealtimeEndpoint.trySend
  split
  next =>
    rcases hnext.dropSocket now ws with ⟨hsound, hdropped, hgone⟩
    exact ⟨hsound, hframe.trans hdropped, fun _ => hgone⟩
  next => exact ⟨hnext, hframe, nofun⟩

end Drops

section Sends

variable {limits : FrontendLimits}
  {made : Option String} {joining : Option WebSocket}
  {s : RealtimeEndpoint} {now : ℕ} {call : OutgoingFrontendCall}

theorem sentTo_append (s : RealtimeEndpoint) (id : String)
    (ws other : WebSocket) (t : RealtimeEndpoint)
    (h : t.sent = s.sent ++ [(id, ws)]) :
    t.sentTo other = s.sentTo other ++ if ws = other then [id] else [] := by
  unfold sentTo
  rw [h, List.filter_append, List.map_append]
  by_cases heq : ws = other <;> simp [heq]

/-- What a send to a socket needs. -/
structure Sendable (s : RealtimeEndpoint) (call : OutgoingFrontendCall)
    (ws : WebSocket) (sid : String) : Prop where
  parked : s.isParked call.toolCallId = true
  opened : (ws, sid) ∈ s.opened
  authenticated : ∀ entry ∈ s.sockets, entry.socket = ws →
    entry.attachment.userDid ≠ none
  ordered : (s.sentTo ws ++ [call.toolCallId]).Sublist s.called

theorem bind_pendingIds (ws : WebSocket) (sid userDid : String) :
    (s.bind call ws sid userDid).pendingIds = s.pendingIds := by
  unfold pendingIds bind dispatched
  rw [List.map_map]
  apply List.map_congr_left
  intro entry _
  simp only [Function.comp_apply]
  split <;> rfl

variable {ws : WebSocket}

theorem mem_bind_pending {sid userDid : String} {entry : PendingCall}
    (h : entry ∈ (s.bind call ws sid userDid).pending) :
    ∃ old ∈ s.pending, entry.toolCallId = old.toolCallId ∧
      entry.kind = old.kind ∧ entry.toolName = old.toolName ∧
      entry.sessionId = old.sessionId ∧
      (old.toolCallId = call.toolCallId ∧ old.executor = none ∧
          entry.executor = some ⟨sid, call.sessionId, userDid⟩ ∨
        ¬ (old.toolCallId = call.toolCallId ∧ old.executor = none) ∧
          entry = old) := by
  unfold bind dispatched at h
  dsimp only at h
  rcases List.mem_map.mp h with ⟨old, hold, rfl⟩
  refine ⟨old, hold, ?_⟩
  split
  next hif => exact ⟨rfl, rfl, rfl, rfl, .inl ⟨hif.1, hif.2, rfl⟩⟩
  next hif => exact ⟨rfl, rfl, rfl, rfl, .inr ⟨hif, rfl⟩⟩

theorem Registered.bind (h : s.Registered limits) (ws : WebSocket)
    (sid userDid : String) :
    (s.bind call ws sid userDid).Registered limits := by
  have hids : (s.bind call ws sid userDid).pendingIds = s.pendingIds :=
    bind_pendingIds ws sid userDid
  constructor
  · exact h.called
  · rw [hids]
    exact h.pending
  · exact h.settled
  · rw [hids]
    exact h.accounted
  · rw [hids]
    exact h.apart
  · simpa [RealtimeEndpoint.bind, dispatched] using h.maxPending
  · exact h.maxCompleted

theorem SentOnce.bind (h : s.SentOnce) (hreg : s.Registered limits)
    {sid : String} (userDid : String)
    (hsend : s.Sendable call ws sid) :
    (s.bind call ws sid userDid).SentOnce := by
  rcases (isParked_iff hreg.nodup).mp hsend.parked with
    ⟨waiting, hwaiting, hid, hnone⟩
  have hnotsent : call.toolCallId ∉ s.sentIds := by
    rw [← hid]
    exact h.unsent waiting hwaiting hnone
  have hpending : call.toolCallId ∈ s.pendingIds := by
    rw [← hid]
    exact List.mem_map_of_mem hwaiting
  have hsent : (s.bind call ws sid userDid).sentIds =
      s.sentIds ++ [call.toolCallId] := by
    simp [sentIds, RealtimeEndpoint.bind]
  constructor
  · rw [hsent]
    exact nodup_append_last h.once hnotsent
  · intro id hid
    rw [hsent, List.mem_append, List.mem_singleton] at hid
    rcases hid with hold | rfl
    · exact h.called id hold
    · exact (hreg.accounted _).mpr (.inl hpending)
  · intro entry hentry executor hexecutor
    rcases mem_bind_pending hentry with
      ⟨old, hold, heq, -, -, -, ⟨hcall, -, hset⟩ | ⟨-, rfl⟩⟩
    · refine ⟨ws, ?_, ?_⟩
      · rw [heq, hcall]
        simp [RealtimeEndpoint.bind]
      · rw [hset] at hexecutor
        cases hexecutor
        exact hsend.opened
    · rcases h.bound entry hold executor hexecutor with ⟨to', hmem, hsid⟩
      exact ⟨to', List.mem_append_left _ hmem, hsid⟩
  · intro entry hentry hnone' hmem
    rw [hsent, List.mem_append, List.mem_singleton] at hmem
    rcases mem_bind_pending hentry with
      ⟨old, hold, heq, -, -, -, ⟨-, -, hset⟩ | ⟨hother, rfl⟩⟩
    · rw [hset] at hnone'
      cases hnone'
    · rcases hmem with hsentOld | hsame
      · exact h.unsent entry hold hnone' hsentOld
      · exact hother ⟨hsame, hnone'⟩
  · intro entry hentry
    have hfits := h.fits entry hentry
    have hsettled : entry.1 ∈ s.settledIds := List.mem_map_of_mem hentry
    cases hout : entry.2 with
    | resolved by' result =>
        rw [hout] at hfits
        exact List.mem_append_left _ hfits
    | failed by' error =>
        rw [hout] at hfits
        exact List.mem_append_left _ hfits
    | outcomeUnknown =>
        rw [hout] at hfits
        change entry.1 ∈ (s.bind call ws sid userDid).sentIds
        rw [hsent]
        exact List.mem_append_left _ hfits
    | notSent reason =>
        rw [hout] at hfits
        change entry.1 ∉ (s.bind call ws sid userDid).sentIds
        rw [hsent, List.mem_append, List.mem_singleton, not_or]
        refine ⟨hfits, ?_⟩
        intro heq
        exact hreg.apart _ hpending (heq ▸ hsettled)
  · intro other
    rw [sentTo_append s call.toolCallId ws other _ rfl]
    by_cases hws : ws = other
    · subst hws
      rw [if_pos rfl]
      exact hsend.ordered
    · rw [if_neg hws, List.append_nil]
      exact h.ordered other

theorem Sockets.bind (h : s.Sockets) {sid : String}
    (userDid : String) (hsend : s.Sendable call ws sid) :
    (s.bind call ws sid userDid).Sockets := by
  refine { h with sent := ?_, silent := ?_ }
  · intro entry hentry
    rcases List.mem_append.mp hentry with hold | hnew
    · exact h.sent entry hold
    · obtain rfl := List.mem_singleton.mp hnew
      exact List.mem_map_of_mem hsend.opened
  · intro entry hentry hnone
    rw [sentTo_append s call.toolCallId ws entry.socket _ rfl]
    have hne : ws ≠ entry.socket := by
      rintro rfl
      exact hsend.authenticated entry hentry rfl hnone
    rw [if_neg hne, List.append_nil]
    exact h.silent entry hentry hnone

theorem isParked_bind (hnodup : s.pendingIds.Nodup) (ws : WebSocket)
    (sid userDid : String) (other : String) :
    (s.bind call ws sid userDid).isParked other =
      (s.isParked other && !decide (other = call.toolCallId)) := by
  have hnodup' : (s.bind call ws sid userDid).pendingIds.Nodup := by
    rw [bind_pendingIds]
    exact hnodup
  rw [Bool.eq_iff_iff, isParked_iff hnodup', Bool.and_eq_true,
    isParked_iff hnodup]
  constructor
  · rintro ⟨entry, hentry, rfl, hnone⟩
    rcases mem_bind_pending hentry with
      ⟨old, hold, heq, -, -, -, ⟨-, -, hset⟩ | ⟨hother, rfl⟩⟩
    · rw [hset] at hnone
      cases hnone
    · refine ⟨⟨entry, hold, rfl, hnone⟩, ?_⟩
      have hne : entry.toolCallId ≠ call.toolCallId :=
        fun hsame => hother ⟨hsame, hnone⟩
      simp [hne]
  · rintro ⟨⟨entry, hentry, rfl, hnone⟩, hne⟩
    have hne' : entry.toolCallId ≠ call.toolCallId := by simpa using hne
    refine ⟨entry, ?_, rfl, hnone⟩
    exact List.mem_map.mpr ⟨entry, hentry, by simp [hne']⟩

theorem unsentIds_bind (ws : WebSocket)
    (sid userDid sessionId : String) :
    (s.bind call ws sid userDid).unsentIds sessionId =
      (s.unsentIds sessionId).filter fun other =>
        !decide (other = call.toolCallId) := by
  unfold unsentIds RealtimeEndpoint.bind dispatched
  rw [← map_filter_ids, List.filter_filter, List.filter_map, List.map_map]
  have hpred : ∀ entry ∈ s.pending,
      (((fun entry : PendingCall => entry.executor.isNone &&
          decide (entry.sessionId = sessionId)) ∘ fun entry : PendingCall =>
        if entry.toolCallId = call.toolCallId ∧ entry.executor = none then
          { entry with executor := some ⟨sid, call.sessionId, userDid⟩ }
        else entry) entry) =
      ((entry.executor.isNone && decide (entry.sessionId = sessionId)) &&
        !decide (entry.toolCallId = call.toolCallId)) := by
    intro entry _
    simp only [Function.comp_apply]
    split
    next hif => simp [hif.1]
    next hif =>
      by_cases hid : entry.toolCallId = call.toolCallId
      · have hsome : entry.executor ≠ none := fun hnone => hif ⟨hid, hnone⟩
        simp [hid, hsome]
      · simp [hid]
  rw [List.filter_congr hpred]
  have hmap : ∀ entry : PendingCall,
      (PendingCall.toolCallId ∘ fun entry : PendingCall =>
        if entry.toolCallId = call.toolCallId ∧ entry.executor = none then
          { entry with executor := some ⟨sid, call.sessionId, userDid⟩ }
        else entry) entry = entry.toolCallId := by
    intro entry
    simp only [Function.comp_apply]
    split <;> rfl
  rw [List.map_congr_left fun entry _ => hmap entry]
  congr 1
  apply List.filter_congr
  intro entry _
  exact Bool.and_comm _ _

theorem Parks.bind (h : s.Parks made joining)
    (hmade : made = none ∨ made = some call.toolCallId)
    (hnodup : s.pendingIds.Nodup) (ws : WebSocket) (sid userDid : String) :
    (s.bind call ws sid userDid).Parks (some call.toolCallId) joining := by
  have hkept : ∀ id, id ≠ call.toolCallId → some id ≠ made := by
    rintro id hne heq
    rcases hmade with rfl | rfl
    · cases heq
    · exact hne (Option.some.inj heq)
  refine { h with queue := ?_, waiting := ?_, same := ?_, idle := ?_ }
  · intro sessionId
    have hqueue := h.queue sessionId
    rw [unsentIds_bind,
      List.filter_congr fun other _ => isParked_bind hnodup ws sid userDid
        other]
    have hcomm : ∀ (l : List String) (p q : String → Bool),
        l.filter (fun other => p other && q other) =
          (l.filter p).filter q := by
      intro l p q
      rw [List.filter_filter]
      apply List.filter_congr
      intro other _
      exact Bool.and_comm _ _
    change (s.queueIds sessionId).filter _ = _
    rw [hcomm, hqueue, List.filter_filter, List.filter_filter]
    apply List.filter_congr
    intro other _
    by_cases heq : other = call.toolCallId
    · simp [heq]
    · simp [heq, hkept other heq]
  · intro sessionId other hother hne entry hentry heq
    have hdiff : other.toolCallId ≠ call.toolCallId :=
      fun hsame => hne (congrArg some hsame)
    rcases mem_bind_pending hentry with
      ⟨old, hold, hid, -, -, -, ⟨hcall, -, -⟩ | ⟨-, rfl⟩⟩
    · exact absurd (heq.symm.trans (hid.trans hcall)) hdiff
    · exact h.waiting sessionId other hother (hkept _ hdiff) entry hold heq
  · intro other hother entry hentry heq
    rcases mem_bind_pending hentry with
      ⟨old, hold, hid, hkind, htool, hsession, -⟩
    rw [hkind, htool, hsession]
    exact h.same other hother old hold (hid ▸ heq)
  · intro entry hentry hnone hne socket hsocket hjoining
    rcases mem_bind_pending hentry with
      ⟨old, hold, -, -, -, -, ⟨-, -, hset⟩ | ⟨-, rfl⟩⟩
    · rw [hset] at hnone
      cases hnone
    · apply h.idle entry hold hnone _ socket hsocket hjoining
      exact hkept _ fun heq => hne (congrArg some heq)

/-- A call bound to the socket it was sent to. -/
theorem Sound.bind (h : s.Sound limits made joining)
    (hmade : made = none ∨ made = some call.toolCallId)
    {sid : String} (userDid : String) (hsend : s.Sendable call ws sid) :
    (s.bind call ws sid userDid).Sound limits (some call.toolCallId)
      joining :=
  ⟨h.registered.bind ws sid userDid,
    h.sentOnce.bind h.registered userDid hsend, h.sockets.bind userDid hsend,
    h.parks.bind hmade h.registered.nodup ws sid userDid⟩

/-- A call that waits nowhere any more needs no exception. -/
theorem Sound.made_done {id : String} (h : s.Sound limits (some id) joining)
    (hunsent : s.isParked id = false)
    (hqueue : ∀ sessionId, id ∈ s.queueIds sessionId → id ∉ s.pendingIds) :
    s.Sound limits none joining := by
  have hsent : ∀ entry ∈ s.pending, entry.executor = none →
      entry.toolCallId ≠ id := by
    rintro entry hentry hnone rfl
    have hparked := (isParked_iff h.registered.nodup).mpr
      ⟨entry, hentry, rfl, hnone⟩
    rw [hunsent] at hparked
    cases hparked
  refine ⟨h.registered, h.sentOnce, h.sockets, ?_⟩
  refine { h.parks with queue := ?_, waiting := ?_, idle := ?_ }
  · intro sessionId
    rw [h.parks.queue sessionId]
    apply List.filter_congr
    intro other hother
    rcases List.mem_map.mp hother with ⟨entry, hentry, rfl⟩
    rw [List.mem_filter, Bool.and_eq_true] at hentry
    have hne := hsent entry hentry.1 (by simpa using hentry.2.1)
    simp [hne]
  · intro sessionId call hcall _ entry hentry heq
    apply h.parks.waiting sessionId call hcall _ entry hentry heq
    intro hsame
    have hid : call.toolCallId = id := Option.some.inj hsame
    apply hqueue sessionId (hid ▸ List.mem_map_of_mem hcall)
    rw [← hid, ← heq]
    exact List.mem_map_of_mem hentry
  · intro entry hentry hnone _
    apply h.parks.idle entry hentry hnone
    exact fun heq => hsent entry hentry hnone (Option.some.inj heq)

end Sends

end RealtimeEndpoint

end QiForge
