import QiForge.FrontendCallsSafety

/-!
# Every event of the realtime endpoint keeps the invariant

A call is registered, tried on the sockets of its session and parked when none
is left; a socket that passes CONNECT takes the parked calls it can run.  The
last section follows whole runs.
-/

namespace QiForge

namespace RealtimeEndpoint

section Queues

variable {limits : FrontendLimits} {made : Option String}
  {joining : Option WebSocket} {s : RealtimeEndpoint}
  {call : OutgoingFrontendCall}

/-- The fields no part of the invariant reads. -/
theorem Sound.unread (h : s.Sound limits made joining)
    (expired : List String) (aborted : List ℕ) (sends : ℕ) :
    ({ s with
        parkExpired := expired
        aborted := aborted
        sends := sends } : RealtimeEndpoint).Sound limits made joining :=
  ⟨{ h.registered with }, { h.sentOnce with }, { h.sockets with },
    { h.parks with }⟩

theorem Sound.prune (h : s.Sound limits made joining) (now : ℕ) :
    ({ s with completed := pruneCompleted limits now s.completed } :
      RealtimeEndpoint).Sound limits made joining :=
  ⟨{ h.registered with
    maxCompleted := (pruneCompleted_suffix limits now s.completed).2 },
    { h.sentOnce with },
    { h.sockets with },
    { h.parks with }⟩

theorem filter_ids_erase {parked : String → Bool}
    (hdone : parked call.toolCallId = false)
    (queue : List OutgoingFrontendCall) :
    ((queue.erase call).map OutgoingFrontendCall.toolCallId).filter parked =
      (queue.map OutgoingFrontendCall.toolCallId).filter parked := by
  induction queue with
  | nil => rfl
  | cons head queue ih =>
      rw [List.erase_cons]
      by_cases heq : head = call
      · subst heq
        simp [hdone]
      · simp [heq, List.filter_cons, ih]

theorem unpark_parked (s : RealtimeEndpoint) (call : OutgoingFrontendCall)
    (sessionId : String) : (s.unpark call).parked sessionId =
      if sessionId = call.sessionId then
        (s.parked call.sessionId).erase call
      else s.parked sessionId := by
  simp [unpark, Function.update_apply]

theorem unpark_sublist (s : RealtimeEndpoint) (call : OutgoingFrontendCall)
    (sessionId : String) :
    ((s.unpark call).parked sessionId).Sublist (s.parked sessionId) := by
  rw [unpark_parked]
  split
  next heq =>
    rw [heq]
    exact List.erase_sublist
  next => exact List.Sublist.refl _

theorem Parks.unpark (h : s.Parks made joining)
    (hdone : s.isParked call.toolCallId = false) :
    (s.unpark call).Parks made joining := by
  constructor
  · intro sessionId
    refine Eq.trans ?_ (h.queue sessionId)
    unfold queueIds
    rw [unpark_parked]
    split
    next heq =>
      rw [heq]
      exact filter_ids_erase hdone _
    next => rfl
  · intro sessionId
    exact ((unpark_sublist s call sessionId).map _).trans
      (h.inCallOrder sessionId)
  · intro sessionId other hother
    exact h.member sessionId other
      ((unpark_sublist s call sessionId).subset hother)
  · exact h.watched
  · exact h.known
  · intro sessionId other hother
    exact h.waiting sessionId other
      ((unpark_sublist s call sessionId).subset hother)
  · exact h.same
  · exact h.idle

theorem Sound.unpark (h : s.Sound limits made joining)
    (hdone : s.isParked call.toolCallId = false) :
    (s.unpark call).Sound limits made joining :=
  ⟨{ h.registered with }, { h.sentOnce with }, { h.sockets with },
    h.parks.unpark hdone⟩

theorem Parks.unwatch (h : s.Parks made joining)
    (hleft : ∀ sessionId, call ∉ s.parked sessionId) :
    ({ s with watched := s.watched.erase call } :
      RealtimeEndpoint).Parks made joining := by
  have hsub : (s.watched.erase call).Sublist s.watched := List.erase_sublist
  refine { h with member := ?_, watched := ?_, known := ?_, same := ?_ }
  · intro sessionId other hother
    rcases h.member sessionId other hother with ⟨hsession, hwatched⟩
    have hne : other ≠ call := by
      rintro rfl
      exact hleft sessionId hother
    exact ⟨hsession, (List.mem_erase_of_ne hne).mpr hwatched⟩
  · exact h.watched.sublist (hsub.map _)
  · exact fun other hother => h.known other (hsub.subset hother)
  · exact fun other hother => h.same other (hsub.subset hother)

theorem Parks.not_mem_unpark (h : s.Parks made joining)
    (hcalled : s.called.Nodup) (sessionId : String) :
    call ∉ (s.unpark call).parked sessionId := by
  intro hmem
  rw [unpark_parked] at hmem
  split at hmem
  next heq =>
    have hnodup : (s.parked call.sessionId).Nodup :=
      List.Nodup.of_map _ (hcalled.sublist (h.inCallOrder _))
    exact hnodup.not_mem_erase hmem
  next hne => exact hne (h.member sessionId call hmem).1.symm

theorem Sound.react (h : s.Sound limits made joining)
    (hdone : s.isParked call.toolCallId = false) (outcome : Settlement) :
    (s.react call outcome).Sound limits made joining := by
  have hunparked := h.unpark hdone
  have hleft : ∀ sessionId, call ∉ (s.unpark call).parked sessionId :=
    h.parks.not_mem_unpark h.registered.called
  have hparks := hunparked.parks.unwatch hleft
  have hsound : ({ s.unpark call with watched := s.watched.erase call } :
      RealtimeEndpoint).Sound limits made joining :=
    ⟨{ h.registered with }, { h.sentOnce with }, { h.sockets with }, hparks⟩
  unfold RealtimeEndpoint.react
  split
  next => exact hsound.unread _ _ _
  next => exact hsound

end Queues

section Opening

variable {limits : FrontendLimits}
  {s : RealtimeEndpoint} {now : ℕ} {call : OutgoingFrontendCall}

/-- A call that was made and is neither sent nor parked yet. -/
structure Calling (limits : FrontendLimits) (call : OutgoingFrontendCall)
    (s : RealtimeEndpoint) : Prop where
  sound : s.Sound limits (some call.toolCallId) none
  last : ∃ before, s.called = before ++ [call.toolCallId]
  fresh : ∀ other ∈ s.watched, other.toolCallId ≠ call.toolCallId
  entry : ∃ entry ∈ s.pending, entry.toolCallId = call.toolCallId ∧
    entry.executor = none ∧ entry.kind = call.kind ∧
    entry.toolName = call.toolName ∧ entry.sessionId = call.sessionId

theorem Registered.refuse (h : s.Registered limits) {id : String}
    (hnew : id ∉ s.called) (reason : FrontendCallNotSentReason) :
    (s.refuseCall id reason).Registered limits := by
  have hsettled : (s.refuseCall id reason).settledIds =
      s.settledIds ++ [id] := by
    simp [settledIds, refuseCall]
  have hpending : id ∉ s.pendingIds :=
    fun hmem => hnew ((h.accounted id).mpr (.inl hmem))
  constructor
  · exact nodup_append_last h.called hnew
  · exact h.pending.trans (List.sublist_append_left _ _)
  · rw [hsettled]
    exact nodup_append_last h.settled fun hmem =>
      hnew ((h.accounted id).mpr (.inr hmem))
  · intro other
    rw [hsettled, List.mem_append, ← or_assoc]
    change other ∈ s.called ++ [id] ↔ _
    rw [List.mem_append, h.accounted]
    rfl
  · intro other hother hmem
    rw [hsettled, List.mem_append, List.mem_singleton] at hmem
    rcases hmem with hold | rfl
    · exact h.apart other hother hold
    · exact hpending hother
  · exact h.maxPending
  · exact h.maxCompleted

theorem Sound.refuse (h : s.Sound limits none none) {id : String}
    (hnew : id ∉ s.called) (reason : FrontendCallNotSentReason) :
    (s.refuseCall id reason).Sound limits none none := by
  have hmore : s.called.Sublist (s.called ++ [id]) :=
    List.sublist_append_left _ _
  constructor
  · exact h.registered.refuse hnew reason
  · refine { h.sentOnce with called := ?_, fits := ?_, ordered := ?_ }
    · exact fun other hother => hmore.subset (h.sentOnce.called other hother)
    · intro entry hentry
      rcases List.mem_append.mp hentry with hold | hlast
      · exact h.sentOnce.fits entry hold
      · obtain rfl := List.mem_singleton.mp hlast
        exact fun hsent => hnew (h.sentOnce.called id hsent)
    · exact fun ws => (h.sentOnce.ordered ws).trans hmore
  · exact { h.sockets with }
  · refine { h.parks with inCallOrder := ?_, known := ?_ }
    · exact fun sessionId => (h.parks.inCallOrder sessionId).trans hmore
    · exact fun other hother => hmore.subset (h.parks.known other hother)

/-- The registry with one more pending call. -/
def register (s : RealtimeEndpoint) (now : ℕ) (call : OutgoingFrontendCall)
    (signal : Option ℕ) : RealtimeEndpoint :=
  { s with
    pending := s.pending ++ [⟨call.toolCallId, call.kind, call.toolName,
      call.sessionId, now, none, signal⟩]
    called := s.called ++ [call.toolCallId] }

theorem register_pendingIds (signal : Option ℕ) :
    (s.register now call signal).pendingIds =
      s.pendingIds ++ [call.toolCallId] := by
  simp [pendingIds, register]

theorem Registered.register (h : s.Registered limits)
    (hnew : call.toolCallId ∉ s.called)
    (hroom : s.pending.length < limits.maxPending) (signal : Option ℕ) :
    (s.register now call signal).Registered limits := by
  have hids : (s.register now call signal).pendingIds =
      s.pendingIds ++ [call.toolCallId] := register_pendingIds signal
  constructor
  · exact nodup_append_last h.called hnew
  · rw [hids]
    exact h.pending.append (List.Sublist.refl _)
  · exact h.settled
  · intro other
    rw [hids]
    change other ∈ s.called ++ [call.toolCallId] ↔
      other ∈ s.pendingIds ++ [call.toolCallId] ∨ other ∈ s.settledIds
    rw [List.mem_append, List.mem_append, h.accounted]
    tauto
  · intro other hother
    rw [hids, List.mem_append, List.mem_singleton] at hother
    rcases hother with hold | rfl
    · exact h.apart other hold
    · exact fun hmem => hnew ((h.accounted _).mpr (.inr hmem))
  · change (s.pending ++ [_]).length ≤ limits.maxPending
    rw [List.length_append]
    exact hroom
  · exact h.maxCompleted

theorem SentOnce.register (h : s.SentOnce)
    (hnew : call.toolCallId ∉ s.called) (signal : Option ℕ) :
    (s.register now call signal).SentOnce := by
  have hmore : s.called.Sublist (s.called ++ [call.toolCallId]) :=
    List.sublist_append_left _ _
  constructor
  · exact h.once
  · exact fun other hother => hmore.subset (h.called other hother)
  · intro entry hentry executor hexecutor
    rcases List.mem_append.mp hentry with hold | hlast
    · exact h.bound entry hold executor hexecutor
    · obtain rfl := List.mem_singleton.mp hlast
      cases hexecutor
  · intro entry hentry hnone
    rcases List.mem_append.mp hentry with hold | hlast
    · exact h.unsent entry hold hnone
    · obtain rfl := List.mem_singleton.mp hlast
      exact fun hsent => hnew (h.called _ hsent)
  · exact h.fits
  · exact fun ws => (h.ordered ws).trans hmore

theorem isParked_register (h : s.Registered limits)
    (hnew : call.toolCallId ∉ s.called) (signal : Option ℕ)
    {other : String} (hother : other ∈ s.called) :
    (s.register now call signal).isParked other = s.isParked other := by
  have hne : other ≠ call.toolCallId := by
    rintro rfl
    exact hnew hother
  have hnodup : (s.register now call signal).pendingIds.Nodup := by
    rw [register_pendingIds]
    exact nodup_append_last h.nodup fun hid => hnew (h.pending.subset hid)
  rw [Bool.eq_iff_iff, isParked_iff hnodup, isParked_iff h.nodup]
  constructor
  · rintro ⟨entry, hentry, hid, hnone⟩
    rcases List.mem_append.mp hentry with hold | hlast
    · exact ⟨entry, hold, hid, hnone⟩
    · obtain rfl := List.mem_singleton.mp hlast
      exact absurd hid.symm hne
  · rintro ⟨entry, hentry, hid, hnone⟩
    exact ⟨entry, List.mem_append_left _ hentry, hid, hnone⟩

theorem Parks.register (h : s.Parks none none) (hreg : s.Registered limits)
    (hnew : call.toolCallId ∉ s.called) (signal : Option ℕ) :
    (s.register now call signal).Parks (some call.toolCallId) none := by
  have hmore : s.called.Sublist (s.called ++ [call.toolCallId]) :=
    List.sublist_append_left _ _
  have hne : ∀ other ∈ s.called, other ≠ call.toolCallId := by
    rintro other hother rfl
    exact hnew hother
  constructor
  · intro sessionId
    have hqueue := h.queue sessionId
    simp only [reduceCtorEq, decide_false, Bool.not_false,
      List.filter_true] at hqueue
    change (s.queueIds sessionId).filter _ = _
    rw [List.filter_congr fun other hother => isParked_register hreg hnew
      signal ((h.inCallOrder sessionId).subset hother), hqueue]
    have hunsent : (s.register now call signal).unsentIds sessionId =
        s.unsentIds sessionId ++
          if call.sessionId = sessionId then [call.toolCallId] else [] := by
      unfold unsentIds RealtimeEndpoint.register
      rw [List.filter_append, List.map_append]
      by_cases heq : call.sessionId = sessionId <;> simp [heq]
    have hkept : (s.unsentIds sessionId).filter (fun id =>
        !decide (some id = some call.toolCallId)) = s.unsentIds sessionId := by
      apply List.filter_eq_self.mpr
      intro id hid
      rcases List.mem_map.mp hid with ⟨entry, hentry, rfl⟩
      have hcalled := hreg.pending.subset
        (List.mem_map_of_mem (List.mem_of_mem_filter hentry))
      simpa using hne _ hcalled
    rw [hunsent, List.filter_append, hkept]
    split <;> simp
  · exact fun sessionId => (h.inCallOrder sessionId).trans hmore
  · exact h.member
  · exact h.watched
  · exact fun other hother => hmore.subset (h.known other hother)
  · intro sessionId other hother _ entry hentry heq
    rcases List.mem_append.mp hentry with hold | hlast
    · exact h.waiting sessionId other hother nofun entry hold heq
    · obtain rfl := List.mem_singleton.mp hlast
      rfl
  · intro other hother entry hentry heq
    rcases List.mem_append.mp hentry with hold | hlast
    · exact h.same other hother entry hold heq
    · obtain rfl := List.mem_singleton.mp hlast
      exact absurd heq.symm (hne _ (h.known other hother))
  · intro entry hentry hnone hmade socket hsocket _
    rcases List.mem_append.mp hentry with hold | hlast
    · exact h.idle entry hold hnone nofun socket hsocket nofun
    · obtain rfl := List.mem_singleton.mp hlast
      exact absurd rfl hmade

theorem Sound.register (h : s.Sound limits none none)
    (hnew : call.toolCallId ∉ s.called)
    (hroom : s.pending.length < limits.maxPending) (now : ℕ)
    (signal : Option ℕ) :
    (s.register now call signal).Calling limits call := by
  constructor
  · exact ⟨h.registered.register hnew hroom signal,
      h.sentOnce.register hnew signal,
      { h.sockets with },
      h.parks.register h.registered hnew signal⟩
  · exact ⟨s.called, rfl⟩
  · rintro other hother heq
    exact hnew (heq ▸ h.parks.known other hother)
  · exact ⟨_, List.mem_append_right _ (List.mem_singleton.mpr rfl), rfl, rfl,
      rfl, rfl, rfl⟩

end Opening

section Calls

variable {limits : FrontendLimits}
  {s : RealtimeEndpoint} {now : ℕ} {call : OutgoingFrontendCall}

theorem openCall_eq_ok {signal : Option ℕ} {s' : RealtimeEndpoint}
    (hopen : s.openCall limits now call signal = .ok s') :
    ∃ pruned : RealtimeEndpoint,
      pruned = { s with completed := pruneCompleted limits now s.completed } ∧
      s.pending.length < limits.maxPending ∧
      (s' = pruned.register now call signal ∨
        s' = (pruned.register now call signal).finish limits now
          call.toolCallId (.notSent .aborted)) := by
  refine ⟨_, rfl, ?_⟩
  unfold openCall at hopen
  dsimp only at hopen
  split_ifs at hopen with hknown hfull hsignal
  · cases hopen
    exact ⟨not_le.mp hfull, .inr rfl⟩
  · cases hopen
    exact ⟨not_le.mp hfull, .inl rfl⟩

theorem finish_pendingIds (limits : FrontendLimits) (now : ℕ)
    (s : RealtimeEndpoint) (id : String)
    (outcome : Settlement) :
    id ∉ (s.finish limits now id outcome).pendingIds := by
  intro hmem
  cases hfound : s.find id with
  | none =>
      rw [finish_of_none hfound] at hmem
      exact find_eq_none.mp hfound hmem
  | some entry =>
      rw [finish_of_find hfound] at hmem
      rcases List.mem_map.mp hmem with ⟨other, hother, hid⟩
      rw [List.mem_filter] at hother
      simp [hid] at hother

theorem Calling.parked (h : s.Calling limits call) :
    s.isParked call.toolCallId = true := by
  rcases h.entry with ⟨entry, hentry, hid, hnone, -⟩
  exact (isParked_iff h.sound.registered.nodup).mpr ⟨entry, hentry, hid, hnone⟩

theorem Calling.frame {s' : RealtimeEndpoint} (h : s.Calling limits call)
    (hsound : s'.Sound limits (some call.toolCallId) none)
    (hframe : Frame s s') : s'.Calling limits call := by
  rcases h.entry with ⟨entry, hentry, hid, hnone, hsame⟩
  constructor
  · exact hsound
  · rw [hframe.called]
    exact h.last
  · rw [hframe.watched]
    exact h.fresh
  · exact ⟨entry, hframe.unsent entry hentry hnone, hid, hnone, hsame⟩

theorem sublist_append_of_not_mem {ids before : List String} {id : String}
    (hsub : ids.Sublist (before ++ [id])) (hnot : id ∉ ids) :
    ids.Sublist before := by
  rcases List.sublist_append_iff.mp hsub with ⟨front, back, rfl, hf, hb⟩
  rcases List.sublist_singleton.mp hb with rfl | rfl
  · simpa using hf
  · simp at hnot

theorem Sockets.attachment {target entry : HubEntry} (h : s.Sockets)
    (htarget : target ∈ s.sockets) (hentry : entry ∈ s.sockets)
    (hsocket : entry.socket = target.socket) :
    entry.attachment = target.attachment := by
  rw [List.inj_on_of_nodup_map h.distinct hentry htarget hsocket]

theorem Calling.bind (h : s.Calling limits call) {ws : WebSocket}
    {sid : String} (userDid : String) (hsend : s.Sendable call ws sid) :
    (s.bind call ws sid userDid).Sound limits none none := by
  apply (h.sound.bind (.inr rfl) userDid hsend).made_done
  · rw [isParked_bind h.sound.registered.nodup]
    simp
  · intro sessionId hin
    rcases List.mem_map.mp hin with ⟨other, hother, heq⟩
    exact absurd heq (h.fresh other
      (h.sound.parks.member sessionId other hother).2)

/-- A call is bound to the socket it was sent to, or no socket of its session
is left that could run it. -/
theorem Calling.dispatch (h : s.Calling limits call)
    (throws : ℕ → Bool) (now fuel : ℕ)
    (hfuel : s.sockets.length ≤ fuel) :
    ((s.dispatch limits throws now call fuel).1 = true →
      (s.dispatch limits throws now call fuel).2.Sound limits none none) ∧
    ((s.dispatch limits throws now call fuel).1 = false →
      (s.dispatch limits throws now call fuel).2.Calling limits call ∧
      executorFor (s.dispatch limits throws now call fuel).2.sockets
        call.sessionId call.kind call.toolName = none) := by
  induction fuel generalizing s with
  | zero =>
      have hempty : s.sockets = [] :=
        List.eq_nil_of_length_eq_zero (Nat.le_zero.mp hfuel)
      unfold RealtimeEndpoint.dispatch
      refine ⟨nofun, fun _ => ⟨h, ?_⟩⟩
      rw [hempty]
      rfl
  | succ fuel ih =>
      cases hfor : executorFor s.sockets call.sessionId call.kind
          call.toolName with
      | none =>
          have heq : s.dispatch limits throws now call (fuel + 1) =
              (false, s) := by
            simp only [RealtimeEndpoint.dispatch, hfor]
          rw [heq]
          exact ⟨nofun, fun _ => ⟨h, hfor⟩⟩
      | some target =>
          rcases executorFor_eq_some hfor with ⟨hmem, hserves, -⟩
          cases huser : target.attachment.userDid with
          | none => simp [SocketAttachment.serves, huser] at hserves
          | some userDid =>
              rcases h.sound.trySend throws now target.socket with
                ⟨hsound, hframe, hgone⟩
              have hcalling := h.frame hsound hframe
              cases htry : s.trySend limits throws now target.socket with
              | mk sent next =>
                  rw [htry] at hsound hframe hgone hcalling
                  have heq : s.dispatch limits throws now call (fuel + 1) =
                      match sent with
                      | false => next.dispatch limits throws now call fuel
                      | true => (true, next.bind call target.socket
                          target.attachment.sid userDid) := by
                    rw [RealtimeEndpoint.dispatch]
                    simp only [hfor, huser, htry]
                    cases sent <;> rfl
                  rw [heq]
                  cases sent with
                  | false =>
                      apply ih hcalling
                      have hne : next.sockets ≠ s.sockets := by
                        intro hsame
                        exact hgone rfl target (hsame ▸ hmem) rfl
                      have hlt : next.sockets.length < s.sockets.length :=
                        lt_of_le_of_ne hframe.sockets.length_le fun hlen =>
                          hne (hframe.sockets.eq_of_length hlen)
                      change next.sockets.length ≤ fuel
                      omega
                  | true =>
                      refine ⟨fun _ => ?_, nofun⟩
                      have hsendable : next.Sendable call target.socket
                          target.attachment.sid := ?_
                      · exact hcalling.bind userDid hsendable
                      rcases h.last with ⟨before, hlast⟩
                      constructor
                      · exact hcalling.parked
                      · rw [hframe.opened]
                        exact h.sound.sockets.opened target hmem
                      · intro entry hentry hsocket
                        rw [h.sound.sockets.attachment hmem
                          (hframe.sockets.subset hentry) hsocket, huser]
                        exact nofun
                      · have hnotsent : call.toolCallId ∉
                            next.sentTo target.socket := by
                          intro hmemSent
                          rcases h.entry with ⟨entry, hentry, hid, hnone, -⟩
                          apply h.sound.sentOnce.unsent entry hentry hnone
                          rw [hid]
                          unfold sentIds
                          rw [← hframe.sent]
                          exact (List.filter_sublist.map _).subset hmemSent
                        have hordered := hsound.sentOnce.ordered target.socket
                        rw [hframe.called, hlast] at hordered ⊢
                        exact (sublist_append_of_not_mem hordered
                          hnotsent).append (List.Sublist.refl _)

/-- Parks a call that no socket can run. -/
def park (s : RealtimeEndpoint) (call : OutgoingFrontendCall) :
    RealtimeEndpoint :=
  { s with
    parked := Function.update s.parked call.sessionId
      (s.parked call.sessionId ++ [call])
    watched := s.watched ++ [call] }

theorem park_parked (s : RealtimeEndpoint) (sessionId : String) :
    (s.park call).parked sessionId = s.parked sessionId ++
      if sessionId = call.sessionId then [call] else [] := by
  change Function.update s.parked call.sessionId _ sessionId = _
  rw [Function.update_apply]
  split
  next heq => rw [heq]
  next => simp

theorem park_queueIds (s : RealtimeEndpoint) (sessionId : String) :
    (s.park call).queueIds sessionId = s.queueIds sessionId ++
      if sessionId = call.sessionId then [call.toolCallId] else [] := by
  unfold queueIds
  rw [park_parked, List.map_append]
  split <;> rfl

/-- The unsent calls of a session, the call being made last. -/
theorem Calling.unsentIds (h : s.Calling limits call) (sessionId : String) :
    s.unsentIds sessionId = (s.unsentIds sessionId).filter (fun id =>
        !decide (some id = some call.toolCallId)) ++
      if sessionId = call.sessionId then [call.toolCallId] else [] := by
  rcases h.last with ⟨before, hlast⟩
  rcases h.entry with ⟨entry, hentry, hid, hnone, -, -, hsession⟩
  have hnodup := h.sound.registered.called
  have hsub : (s.unsentIds sessionId).Sublist (before ++ [call.toolCallId]) := by
    rw [← hlast]
    exact (List.filter_sublist.map _).trans h.sound.registered.pending
  have hmem : call.toolCallId ∈ s.unsentIds sessionId ↔
      sessionId = call.sessionId := by
    constructor
    · intro hin
      rcases List.mem_map.mp hin with ⟨other, hother, hotherId⟩
      rw [List.mem_filter] at hother
      obtain rfl := List.inj_on_of_nodup_map h.sound.registered.nodup
        hother.1 hentry (hotherId.trans hid.symm)
      rw [← hsession]
      simpa [hnone, eq_comm] using hother.2
    · rintro rfl
      exact List.mem_map.mpr ⟨entry,
        List.mem_filter.mpr ⟨hentry, by simp [hnone, hsession]⟩, hid⟩
  rcases List.sublist_append_iff.mp hsub with ⟨front, back, heq, hf, hb⟩
  have hfront : ∀ id ∈ front, id ≠ call.toolCallId := by
    rintro id hin rfl
    rw [hlast] at hnodup
    exact (List.nodup_append.mp hnodup).2.2 _ (hf.subset hin) _
      (List.mem_singleton.mpr rfl) rfl
  have hkeep : front.filter (fun id =>
      !decide (some id = some call.toolCallId)) = front := by
    apply List.filter_eq_self.mpr
    intro id hin
    simpa using hfront id hin
  rcases List.sublist_singleton.mp hb with rfl | rfl
  · rw [List.append_nil] at heq
    have hnot : call.toolCallId ∉ s.unsentIds sessionId := by
      rw [heq]
      exact fun hin => hfront _ hin rfl
    rw [if_neg (mt hmem.mpr hnot), List.append_nil, heq, hkeep]
  · have hin : call.toolCallId ∈ s.unsentIds sessionId := by
      rw [heq]
      simp
    rw [if_pos (hmem.mp hin), heq, List.filter_append, hkeep]
    simp

theorem Calling.park (h : s.Calling limits call)
    (hidle : executorFor s.sockets call.sessionId call.kind
      call.toolName = none) :
    (s.park call).Sound limits none none := by
  have hparks := h.sound.parks
  have hnodup := h.sound.registered.nodup
  rcases h.last with ⟨before, hlast⟩
  rcases h.entry with ⟨made, hmade, hid, hnone, hkind, htool, hsession⟩
  have honly : ∀ entry ∈ s.pending, entry.toolCallId = call.toolCallId →
      entry = made := by
    intro entry hentry heq
    exact List.inj_on_of_nodup_map hnodup hentry hmade (heq.trans hid.symm)
  have hfresh := h.fresh
  refine ⟨?_, ?_, ?_, ?_⟩
  · exact { h.sound.registered with }
  · exact { h.sound.sentOnce with }
  · exact { h.sound.sockets with }
  constructor
  · intro sessionId
    rw [park_queueIds, List.filter_append]
    change (s.queueIds sessionId).filter s.isParked ++ _ =
      (s.unsentIds sessionId).filter _
    rw [hparks.queue sessionId]
    simp only [reduceCtorEq, decide_false, Bool.not_false, List.filter_true]
    refine Eq.trans ?_ (h.unsentIds sessionId).symm
    congr 1
    split
    · have hpark : (s.park call).isParked call.toolCallId = true := h.parked
      simp [hpark]
    · rfl
  · intro sessionId
    rw [park_queueIds]
    change List.Sublist _ s.called
    split
    · have hnot : call.toolCallId ∉ s.queueIds sessionId := by
        intro hin
        rcases List.mem_map.mp hin with ⟨other, hother, heq⟩
        exact hfresh other (hparks.member sessionId other hother).2 heq
      have hsub := hparks.inCallOrder sessionId
      rw [hlast] at hsub ⊢
      exact (sublist_append_of_not_mem hsub hnot).append (List.Sublist.refl _)
    · rw [List.append_nil]
      exact hparks.inCallOrder sessionId
  · intro sessionId other hother
    rw [park_parked, List.mem_append] at hother
    rcases hother with hold | hnew
    · rcases hparks.member sessionId other hold with ⟨heq, hwatched⟩
      exact ⟨heq, List.mem_append_left _ hwatched⟩
    · split at hnew
      next heq =>
        obtain rfl := List.mem_singleton.mp hnew
        exact ⟨heq.symm, List.mem_append_right _ hnew⟩
      next => cases hnew
  · change ((s.watched ++ [call]).map _).Nodup
    rw [List.map_append]
    apply nodup_append_last hparks.watched
    intro hmem
    rcases List.mem_map.mp hmem with ⟨old, hold, heq⟩
    exact hfresh old hold heq
  · intro other hother
    rcases List.mem_append.mp hother with hold | hnew
    · exact hparks.known other hold
    · obtain rfl := List.mem_singleton.mp hnew
      change other.toolCallId ∈ s.called
      rw [hlast]
      simp
  · intro sessionId other hother _ entry hentry heq
    by_cases hsame : other.toolCallId = call.toolCallId
    · rw [honly entry hentry (heq.trans hsame)]
      exact hnone
    · rw [park_parked, List.mem_append] at hother
      rcases hother with hold | hnew
      · apply hparks.waiting sessionId other hold _ entry hentry heq
        exact fun hmade => hsame (Option.some.inj hmade)
      · split at hnew
        next =>
          obtain rfl := List.mem_singleton.mp hnew
          exact absurd rfl hsame
        next => cases hnew
  · intro other hother entry hentry heq
    rcases List.mem_append.mp hother with hold | hnew
    · exact hparks.same other hold entry hentry heq
    · obtain rfl := List.mem_singleton.mp hnew
      rw [honly entry hentry heq]
      exact ⟨hkind, htool, hsession⟩
  · intro entry hentry hunsent _ socket hsocket _
    by_cases heq : entry.toolCallId = call.toolCallId
    · rw [honly entry hentry heq]
      unfold Takes
      rw [hkind, htool, hsession]
      exact executorFor_eq_none hidle socket hsocket
    · apply hparks.idle entry hentry hunsent _ socket hsocket nofun
      exact fun hsame => heq (Option.some.inj hsame)

end Calls

theorem Sound.call {limits : FrontendLimits} {throws : ℕ → Bool}
    {s : RealtimeEndpoint} {now : ℕ} {outgoing : OutgoingFrontendCall}
    (h : s.Sound limits none none)
    (hnew : outgoing.toolCallId ∉ s.called) (signal : Option ℕ) :
    (s.call limits throws now outgoing signal).Sound limits none none := by
  unfold RealtimeEndpoint.call
  split
  next => exact h.refuse hnew .noBrowser
  next =>
    cases hopen : s.openCall limits now outgoing signal with
    | error refusal =>
        cases refusal with
        | alreadyIssued => exact h
        | tableFull => exact (h.prune now).refuse hnew .tableFull
    | ok made =>
        rcases openCall_eq_ok hopen with ⟨pruned, hpruned, hroom, hmade⟩
        have hsound : pruned.Sound limits none none := by
          rw [hpruned]
          exact h.prune now
        have hcalling : (pruned.register now outgoing signal).Calling limits
            outgoing := by
          apply hsound.register
          · rw [hpruned]
            exact hnew
          · rw [hpruned]
            exact hroom
        rcases hmade with rfl | rfl
        · have hfound : ∀ entry : Option PendingCall,
              entry.any (fun entry => entry.executor.isNone) = true →
                entry.isNone = false := by
            intro entry hany
            cases entry with
            | none => cases hany
            | some _ => rfl
          dsimp only
          rw [if_neg (by
            rw [hfound _ hcalling.parked]
            exact Bool.false_ne_true)]
          rcases hcalling.dispatch throws now _ (Nat.le_refl _) with
            ⟨hsent, hleft⟩
          split
          next next' heq =>
            rw [heq] at hsent
            exact hsent rfl
          next next' heq =>
            rw [heq] at hleft
            rcases hleft rfl with ⟨hstill, hidle⟩
            exact hstill.park hidle
        · have hgone := finish_pendingIds limits now
            (pruned.register now outgoing signal) outgoing.toolCallId
            (.notSent .aborted)
          have hfits : Fits (pruned.register now outgoing signal).sent
              outgoing.toolCallId (.notSent .aborted) := by
            rcases hcalling.entry with ⟨entry, hentry, hid, hnone, -⟩
            rw [← hid]
            exact hcalling.sound.sentOnce.unsent entry hentry hnone
          dsimp only
          rw [if_pos (by rw [find_eq_none.mpr hgone]; rfl)]
          apply (hcalling.sound.finish fun _ => hfits).made_done
          · unfold isParked
            rw [find_eq_none.mpr hgone]
            rfl
          · exact fun _ _ => hgone

section Joins

variable {limits : FrontendLimits} {throws : ℕ → Bool}
  {made : Option String} {joining : Option WebSocket}
  {s : RealtimeEndpoint} {now : ℕ} {ws : WebSocket}

variable {attachment : SocketAttachment}

theorem Sockets.attachmentOf (h : s.Sockets)
    (hfound : s.attachmentOf ws = some attachment) {entry : HubEntry}
    (hentry : entry ∈ s.sockets) (hsocket : entry.socket = ws) :
    entry.attachment = attachment := by
  rcases Option.map_eq_some_iff.mp hfound with ⟨target, htarget, rfl⟩
  have hmem := List.mem_of_find?_eq_some htarget
  have heq : target.socket = ws := by simpa using List.find?_some htarget
  exact h.attachment hmem hentry (hsocket.trans heq.symm)

theorem mem_of_attachmentOf (hfound : s.attachmentOf ws = some attachment) :
    ⟨ws, attachment⟩ ∈ s.sockets := by
  rcases Option.map_eq_some_iff.mp hfound with ⟨target, htarget, rfl⟩
  have heq : target.socket = ws := by simpa using List.find?_some htarget
  have hmem := List.mem_of_find?_eq_some htarget
  rw [← heq]
  exact hmem

theorem attachmentOf_eq_none (hfound : s.attachmentOf ws = none) :
    ∀ entry ∈ s.sockets, entry.socket ≠ ws := by
  intro entry hentry heq
  have hnone := List.find?_eq_none.mp (Option.map_eq_none_iff.mp hfound)
    entry hentry
  simp [heq] at hnone

/-- What an update of an attachment does to the sockets. -/
theorem mem_update {change : SocketAttachment → SocketAttachment}
    {entry : HubEntry} (hentry : entry ∈ (s.update ws change).sockets) :
    ∃ old ∈ s.sockets, entry.socket = old.socket ∧
      (old.socket = ws ∧ entry.attachment = change old.attachment ∨
        old.socket ≠ ws ∧ entry = old) := by
  rcases List.mem_map.mp hentry with ⟨old, hold, rfl⟩
  refine ⟨old, hold, ?_⟩
  split
  next heq => exact ⟨heq.symm, .inl ⟨heq, rfl⟩⟩
  next hne => exact ⟨rfl, .inr ⟨hne, rfl⟩⟩

theorem update_distinct (s : RealtimeEndpoint) (ws : WebSocket)
    (change : SocketAttachment → SocketAttachment) :
    (s.update ws change).sockets.map HubEntry.socket =
      s.sockets.map HubEntry.socket := by
  unfold update
  rw [List.map_map]
  apply List.map_congr_left
  intro entry _
  simp only [Function.comp_apply]
  split
  next heq => exact heq.symm
  next => rfl

/-- An update that leaves the identity and the tools of a socket. -/
theorem Sound.update (h : s.Sound limits made joining)
    {change : SocketAttachment → SocketAttachment}
    (hsame : ∀ attachment, (change attachment).sid = attachment.sid ∧
      (change attachment).sessionId = attachment.sessionId ∧
      (change attachment).userDid = attachment.userDid ∧
      (change attachment).background = attachment.background) :
    (s.update ws change).Sound limits made joining := by
  constructor
  · exact { h.registered with }
  · exact { h.sentOnce with }
  · constructor
    · exact h.sockets.socketIds
    · exact h.sockets.sids
    · intro entry hentry
      rcases mem_update hentry with ⟨old, hold, heq, ⟨-, hatt⟩ | ⟨-, rfl⟩⟩
      · rw [heq, hatt, (hsame _).1]
        exact h.sockets.opened old hold
      · exact h.sockets.opened entry hold
    · rw [update_distinct]
      exact h.sockets.distinct
    · exact h.sockets.sent
    · intro entry hentry hnone
      rcases mem_update hentry with ⟨old, hold, heq, ⟨-, hatt⟩ | ⟨-, rfl⟩⟩
      · rw [hatt, (hsame _).2.2.1] at hnone
        rw [heq]
        exact h.sockets.silent old hold hnone
      · exact h.sockets.silent entry hold hnone
    · intro entry hentry hconnecting
      rcases mem_update hentry with ⟨old, hold, heq, ⟨-, hatt⟩ | ⟨-, rfl⟩⟩
      · rw [hatt, (hsame _).2.2.1]
        exact h.sockets.connecting old hold (heq ▸ hconnecting)
      · exact h.sockets.connecting entry hold hconnecting
  · refine { h.parks with idle := ?_ }
    · intro entry hentry hnone hmade socket hsocket hjoining
      rcases mem_update hsocket with ⟨old, hold, heq, ⟨-, hatt⟩ | ⟨-, rfl⟩⟩
      · rw [heq] at hjoining
        have hidle := h.parks.idle entry hentry hnone hmade old hold hjoining
        rcases hsame old.attachment with ⟨-, hsession, huser, htools⟩
        unfold Takes SocketAttachment.serves SocketAttachment.canRunTool
        rw [hatt, hsession, huser, htools]
        exact hidle
      · exact h.parks.idle entry hentry hnone hmade socket hold hjoining

/-- The user and the tools of a socket whose CONNECT was accepted. -/
theorem Sound.join (h : s.Sound limits none none)
    (hconnecting : ws ∈ s.authenticating) (background : Option (List String)) :
    (({ s with
          authenticating := s.authenticating.filter fun socket =>
            !decide (socket = ws) } : RealtimeEndpoint).update ws
      fun attachment =>
        { attachment with
          userDid := some attachment.routedUserDid
          background := background }).Sound limits none (some ws) ∧
      s.sentTo ws = [] ∨ s.attachmentOf ws = none := by
  cases hfound : s.attachmentOf ws with
  | none => exact .inr rfl
  | some attachment =>
      have hmem := mem_of_attachmentOf hfound
      have hsilent := h.sockets.silent _ hmem
        (h.sockets.connecting _ hmem hconnecting)
      refine .inl ⟨?_, hsilent⟩
      constructor
      · exact { h.registered with }
      · exact { h.sentOnce with }
      · constructor
        · exact h.sockets.socketIds
        · exact h.sockets.sids
        · intro entry hentry
          rcases mem_update hentry with
            ⟨old, hold, heq, ⟨-, hatt⟩ | ⟨-, rfl⟩⟩
          · rw [heq, hatt]
            exact h.sockets.opened old hold
          · exact h.sockets.opened entry hold
        · rw [update_distinct]
          exact h.sockets.distinct
        · exact h.sockets.sent
        · intro entry hentry hnone
          rcases mem_update hentry with
            ⟨old, hold, -, ⟨-, hatt⟩ | ⟨-, rfl⟩⟩
          · rw [hatt] at hnone
            cases hnone
          · exact h.sockets.silent entry hold hnone
        · intro entry hentry hin
          have hauth := List.mem_filter.mp hin
          rcases mem_update hentry with
            ⟨old, hold, heq, ⟨hws, -⟩ | ⟨-, rfl⟩⟩
          · rw [heq, hws] at hauth
            simp at hauth
          · exact h.sockets.connecting entry hold hauth.1
      · refine { h.parks with idle := ?_ }
        · intro entry hentry hnone hmade socket hsocket hjoining
          rcases mem_update hsocket with
            ⟨old, hold, heq, ⟨hws, -⟩ | ⟨-, rfl⟩⟩
          · rw [heq, hws] at hjoining
            exact absurd rfl hjoining
          · exact h.parks.idle entry hentry hnone hmade socket hold nofun

/-- A parked call that was sent leaves its queue. -/
theorem Sound.sendParked (h : s.Sound limits none joining)
    {call : OutgoingFrontendCall} (hwatched : call ∈ s.watched) {sid : String}
    (userDid : String) (hsend : s.Sendable call ws sid) :
    ((s.bind call ws sid userDid).unpark call).Sound limits none joining := by
  have hbound := h.bind (.inl rfl) userDid hsend
  have hsent : (s.bind call ws sid userDid).isParked call.toolCallId =
      false := by
    rw [isParked_bind h.registered.nodup]
    simp
  apply (hbound.unpark hsent).made_done hsent
  intro sessionId hin
  rcases List.mem_map.mp hin with ⟨other, hother, heq⟩
  have hold := (unpark_sublist _ call sessionId).subset hother
  have hsame : other = call := List.inj_on_of_nodup_map h.parks.watched
      (hbound.parks.member sessionId other hold).2 hwatched heq
  rw [hsame] at hother
  exact absurd hother
    (hbound.parks.not_mem_unpark hbound.registered.called sessionId)

/-- What a round over the parked calls of a joining socket has still to do. -/
structure Round (limits : FrontendLimits) (ws : WebSocket)
    (attachment : SocketAttachment) (queue : List OutgoingFrontendCall)
    (s : RealtimeEndpoint) : Prop where
  sound : s.Sound limits none (some ws)
  attached : ∀ entry ∈ s.sockets, entry.socket = ws →
    entry.attachment = attachment
  authenticated : attachment.userDid ≠ none
  opened : (ws, attachment.sid) ∈ s.opened
  queued : ∀ call ∈ queue, call ∈ s.watched
  ordered : (s.sentTo ws ++
    queue.map OutgoingFrontendCall.toolCallId).Sublist s.called
  rest : ∀ entry ∈ s.pending, entry.executor = none → Takes attachment entry →
    entry.toolCallId ∈ queue.map OutgoingFrontendCall.toolCallId

theorem Sound.joined (h : s.Sound limits none (some ws))
    (hidle : ∀ entry ∈ s.pending, entry.executor = none →
      ∀ socket ∈ s.sockets, socket.socket = ws →
        ¬ Takes socket.attachment entry) : s.Sound limits none none := by
  refine ⟨h.registered, h.sentOnce, h.sockets, ?_⟩
  refine { h.parks with idle := ?_ }
  · intro entry hentry hnone hmade socket hsocket _
    by_cases heq : socket.socket = ws
    · exact hidle entry hentry hnone socket hsocket heq
    · apply h.parks.idle entry hentry hnone hmade socket hsocket
      exact fun hsame => heq (Option.some.inj hsame)

theorem Round.dispatchQueue
    {userDid : String} (queue : List OutgoingFrontendCall)
    (h : s.Round limits ws attachment queue) :
    (s.dispatchQueue limits throws now ws attachment userDid queue).Sound
      limits none none := by
  induction queue generalizing s with
  | nil =>
      apply h.sound.joined
      intro entry hentry hnone socket hsocket heq htakes
      rw [h.attached socket hsocket heq] at htakes
      exact absurd (h.rest entry hentry hnone htakes) (by simp)
  | cons call queue ih =>
      have hnodup := h.sound.registered.nodup
      have hordered := h.ordered
      rw [List.map_cons] at hordered
      have hdrop : (s.sentTo ws ++
          queue.map OutgoingFrontendCall.toolCallId).Sublist s.called :=
        ((List.Sublist.refl _).append (List.sublist_cons_self _ _)).trans
          hordered
      rw [RealtimeEndpoint.dispatchQueue]
      split_ifs with hdone hcannot
      · apply ih
        refine { h with sound := ?_, queued := ?_, ordered := ?_, rest := ?_ }
        · exact h.sound.unpark hdone
        · exact fun other hother => h.queued other (by simp [hother])
        · exact hdrop
        · intro entry hentry hnone htakes
          have hmem := h.rest entry hentry hnone htakes
          rw [List.map_cons, List.mem_cons] at hmem
          rcases hmem with heq | hmem
          · have hparked : s.isParked call.toolCallId = true :=
              (isParked_iff hnodup).mpr ⟨entry, hentry, heq, hnone⟩
            rw [hdone] at hparked
            cases hparked
          · exact hmem
      · apply ih
        refine { h with queued := ?_, ordered := ?_, rest := ?_ }
        · exact fun other hother => h.queued other (by simp [hother])
        · exact hdrop
        · intro entry hentry hnone htakes
          have hmem := h.rest entry hentry hnone htakes
          rw [List.map_cons, List.mem_cons] at hmem
          rcases hmem with heq | hmem
          · have hsame := h.sound.parks.same call
              (h.queued call (by simp)) entry hentry heq
            have hcan := htakes.2
            rw [hsame.1, hsame.2.1, hcannot] at hcan
            cases hcan
          · exact hmem
      · rcases h.sound.trySend throws now ws with
          ⟨hsound, hframe, hgone⟩
        cases htry : s.trySend limits throws now ws with
        | mk sent next =>
            rw [htry] at hsound hframe hgone
            cases sent with
            | false =>
                apply hsound.joined
                intro entry _ _ socket hsocket heq
                exact absurd heq (hgone rfl socket hsocket)
            | true =>
                have hparkedCall : s.isParked call.toolCallId = true := by
                  simpa using hdone
                rcases (isParked_iff hnodup).mp hparkedCall with
                  ⟨waiting, hwaiting, hid, hnone⟩
                have hparkedNext : next.isParked call.toolCallId = true :=
                  (isParked_iff hsound.registered.nodup).mpr
                    ⟨waiting, hframe.unsent waiting hwaiting hnone, hid, hnone⟩
                have hto : next.sentTo ws = s.sentTo ws := by
                  unfold sentTo
                  rw [hframe.sent]
                have hsendable : next.Sendable call ws attachment.sid := by
                  constructor
                  · exact hparkedNext
                  · rw [hframe.opened]
                    exact h.opened
                  · intro entry hentry heq
                    rw [h.attached entry (hframe.sockets.subset hentry) heq]
                    exact h.authenticated
                  · rw [hto, hframe.called]
                    refine List.Sublist.trans ?_ hordered
                    exact (List.Sublist.refl _).append (by simp)
                have hwatched : call ∈ next.watched := by
                  rw [hframe.watched]
                  exact h.queued call (by simp)
                apply ih
                constructor
                · exact Sound.sendParked hsound hwatched userDid hsendable
                · intro entry hentry heq
                  exact h.attached entry (hframe.sockets.subset hentry) heq
                · exact h.authenticated
                · change (ws, attachment.sid) ∈ next.opened
                  rw [hframe.opened]
                  exact h.opened
                · intro other hother
                  change other ∈ next.watched
                  rw [hframe.watched]
                  exact h.queued other (by simp [hother])
                · change ((next.bind call ws attachment.sid
                    userDid).sentTo ws ++ _).Sublist next.called
                  rw [sentTo_append next call.toolCallId ws ws _ rfl,
                    if_pos rfl, hto, hframe.called, List.append_assoc]
                  exact hordered
                · intro entry hentry hunsent htakes
                  have hpending : entry ∈ (next.bind call ws attachment.sid
                    userDid).pending := hentry
                  rcases mem_bind_pending hpending with
                    ⟨old, hold, -, -, -, -, ⟨-, -, hset⟩ | ⟨hother, rfl⟩⟩
                  · rw [hset] at hunsent
                    cases hunsent
                  · have hmem := h.rest entry (hframe.pending.subset hold)
                      hunsent htakes
                    rw [List.map_cons, List.mem_cons] at hmem
                    rcases hmem with heq | hmem
                    · exact absurd ⟨heq, hunsent⟩ hother
                    · exact hmem

theorem Sound.dispatchParked (h : s.Sound limits none (some ws))
    (hsilent : s.sentTo ws = []) (throws : ℕ → Bool) (now : ℕ) :
    (s.dispatchParked limits throws now ws).Sound limits none none := by
  unfold RealtimeEndpoint.dispatchParked
  cases hfound : s.attachmentOf ws with
  | none =>
      apply h.joined
      intro entry _ _ socket hsocket heq
      exact absurd heq (attachmentOf_eq_none hfound socket hsocket)
  | some attachment =>
      have hattached : ∀ entry ∈ s.sockets, entry.socket = ws →
          entry.attachment = attachment :=
        fun entry hentry heq => h.sockets.attachmentOf hfound hentry heq
      dsimp only
      cases huser : attachment.userDid with
      | none =>
          apply h.joined
          intro entry _ _ socket hsocket heq htakes
          have hserves := htakes.1
          rw [hattached socket hsocket heq] at hserves
          simp [SocketAttachment.serves, huser] at hserves
      | some userDid =>
          apply Round.dispatchQueue
          constructor
          · exact h.unread _ s.aborted s.sends
          · exact hattached
          · rw [huser]
            exact nofun
          · exact h.sockets.opened _ (mem_of_attachmentOf hfound)
          · exact fun call hcall => (h.parks.member _ call hcall).2
          · change (s.sentTo ws ++ s.queueIds attachment.sessionId).Sublist
              s.called
            rw [hsilent, List.nil_append]
            exact h.parks.inCallOrder _
          · intro entry hentry hnone htakes
            have hserves := htakes.1
            have hsession : attachment.sessionId = entry.sessionId := by
              simpa [SocketAttachment.serves, huser] using hserves
            have hunsent : entry.toolCallId ∈
                s.unsentIds attachment.sessionId := by
              rw [hsession]
              exact List.mem_map.mpr ⟨entry,
                List.mem_filter.mpr ⟨hentry, by simp [hnone]⟩, rfl⟩
            have hqueue := h.parks.queue attachment.sessionId
            simp only [reduceCtorEq, decide_false, Bool.not_false,
              List.filter_true] at hqueue
            rw [← hqueue] at hunsent
            exact List.mem_of_mem_filter hunsent

theorem Sound.unauthenticate (h : s.Sound limits made joining)
    (keep : WebSocket → Bool) :
    ({ s with authenticating := s.authenticating.filter keep } :
      RealtimeEndpoint).Sound limits made joining :=
  ⟨{ h.registered with }, { h.sentOnce with }, { h.sockets with
      connecting := fun entry hentry hin => h.sockets.connecting entry
        hentry (List.mem_of_mem_filter hin) },
    { h.parks with }⟩

theorem Sound.connectAnswered (h : s.Sound limits none none)
    (hconnecting : ws ∈ s.authenticating) (outcome : ConnectOutcome) :
    (s.connectAnswered limits throws now ws outcome).Sound limits none
      none := by
  have hleft := h.unauthenticate fun socket => !decide (socket = ws)
  unfold RealtimeEndpoint.connectAnswered
  cases outcome with
  | refused => exact ((hleft.trySend throws now ws).1.dropSocket now ws).1
  | accepted background =>
      dsimp only
      split
      next => exact hleft
      next attachment hfound =>
        rcases h.join hconnecting background with ⟨hjoined, hsilent⟩ | hnone
        · rcases hjoined.trySend throws now ws with ⟨hfirst, hframe, -⟩
          rcases hfirst.trySend throws now ws with ⟨hsecond, hframe', -⟩
          apply hsecond.dispatchParked
          unfold sentTo
          rw [hframe'.sent, hframe.sent]
          exact hsilent
        · exact absurd (hnone.symm.trans hfound) nofun

end Joins

section Events

variable {limits : FrontendLimits} {throws : ℕ → Bool}
  {s : RealtimeEndpoint} {now : ℕ} {ws : WebSocket}

theorem Sound.upgrade (h : s.Sound limits none none) {sid : String}
    (hws : ws ∉ s.opened.map Prod.fst) (hsid : sid ∉ s.opened.map Prod.snd)
    (sessionId routedUserDid : String) :
    ({ s with
        sockets := s.sockets ++ [⟨ws, sid, sessionId, routedUserDid, none,
          now, now, none, none⟩]
        opened := s.opened ++ [(ws, sid)] } :
      RealtimeEndpoint).Sound limits none none := by
  have hmore : ∀ {pair : WebSocket × String}, pair ∈ s.opened →
      pair ∈ s.opened ++ [(ws, sid)] := List.mem_append_left _
  constructor
  · exact { h.registered with }
  · refine { h.sentOnce with bound := ?_ }
    · intro entry hentry executor hexecutor
      rcases h.sentOnce.bound entry hentry executor hexecutor with
        ⟨to', hsent, hopened⟩
      exact ⟨to', hsent, hmore hopened⟩
  · constructor
    · rw [List.map_append]
      exact nodup_append_last h.sockets.socketIds hws
    · rw [List.map_append]
      exact nodup_append_last h.sockets.sids hsid
    · intro entry hentry
      rcases List.mem_append.mp hentry with hold | hnew
      · exact hmore (h.sockets.opened entry hold)
      · obtain rfl := List.mem_singleton.mp hnew
        simp
    · change ((s.sockets ++ [_]).map HubEntry.socket).Nodup
      rw [List.map_append]
      apply nodup_append_last h.sockets.distinct
      intro hmem
      rcases List.mem_map.mp hmem with ⟨entry, hentry, rfl⟩
      exact hws (List.mem_map_of_mem (h.sockets.opened entry hentry))
    · intro entry hentry
      rw [List.map_append]
      exact List.mem_append_left _ (h.sockets.sent entry hentry)
    · intro entry hentry hnone
      rcases List.mem_append.mp hentry with hold | hnew
      · exact h.sockets.silent entry hold hnone
      · obtain rfl := List.mem_singleton.mp hnew
        apply List.map_eq_nil_iff.mpr
        apply List.filter_eq_nil_iff.mpr
        intro sent hsent heq
        have hto : sent.2 = ws := by simpa using heq
        exact hws (hto ▸ h.sockets.sent sent hsent)
    · intro entry hentry hin
      rcases List.mem_append.mp hentry with hold | hnew
      · exact h.sockets.connecting entry hold hin
      · obtain rfl := List.mem_singleton.mp hnew
        rfl
  · refine { h.parks with idle := ?_ }
    · intro entry hentry hnone hmade socket hsocket hjoining
      rcases List.mem_append.mp hsocket with hold | hnew
      · exact h.parks.idle entry hentry hnone hmade socket hold hjoining
      · obtain rfl := List.mem_singleton.mp hnew
        rintro ⟨hserves, -⟩
        simp [SocketAttachment.serves] at hserves

theorem Sound.connectFrame (h : s.Sound limits none none) :
    (s.connectFrame limits throws now ws).Sound limits none none := by
  unfold RealtimeEndpoint.connectFrame
  split
  next => exact h
  next attachment hfound =>
    split_ifs with huser hin
    · exact (h.trySend throws now ws).1
    · exact h
    · have hnone : attachment.userDid = none := by simpa using huser
      refine ⟨{ h.registered with }, { h.sentOnce with },
        ⟨h.sockets.socketIds, h.sockets.sids, h.sockets.opened,
          h.sockets.distinct, h.sockets.sent, h.sockets.silent, ?_⟩,
        { h.parks with }⟩
      intro entry hentry hmem
      rcases List.mem_append.mp hmem with hold | hnew
      · exact h.sockets.connecting entry hentry hold
      · rw [h.sockets.attachmentOf hfound hentry
          (List.mem_singleton.mp hnew), hnone]

/-- How a sent or an unsent call ends without an answer. -/
theorem Sound.unanswered (h : s.Sound limits none none) {entry : PendingCall}
    (hentry : entry ∈ s.pending) (reason : FrontendCallNotSentReason) :
    Fits s.sent entry.toolCallId (if entry.executor.isSome then .outcomeUnknown
        else .notSent reason) := by
  cases hexecutor : entry.executor with
  | none => exact h.sentOnce.unsent entry hentry hexecutor
  | some executor =>
      rcases h.sentOnce.bound entry hentry executor hexecutor with
        ⟨to', hsent, -⟩
      exact List.mem_map_of_mem hsent

theorem Sound.abort (h : s.Sound limits none none) (signal : ℕ) :
    (s.abort limits now signal).Sound limits none none := by
  have hmarked := h.unread s.parkExpired (s.aborted ++ [signal]) s.sends
  apply hmarked.finishAll PendingCall.toolCallId
  intro entry hentry
  exact h.unanswered (List.mem_of_mem_filter hentry) .aborted

theorem Sound.timer (h : s.Sound limits none none) (id : String) :
    (s.timer limits now id).Sound limits none none := by
  unfold RealtimeEndpoint.timer
  split
  next => exact h
  next entry hfound =>
    apply h.finish
    intro _
    rcases find_eq_some hfound with ⟨hentry, rfl⟩
    exact h.unanswered hentry .parkDeadline

theorem Sound.settle (h : s.Sound limits none none)
    {source : FrontendExecutor} (hopened : (ws, source.sid) ∈ s.opened)
    (kind : FrontendCallKind) (id : String) (result : ReportedResult)
    (error : Option String) :
    (s.settle limits now ws source kind id result error).Sound limits none
      none := by
  unfold RealtimeEndpoint.settle
  split
  next => exact h.prune now
  next entry hfound =>
    split_ifs with hkind hsource
    · exact h
    · exact h
    · apply h.finish
      intro _
      rcases find_eq_some hfound with ⟨hentry, rfl⟩
      rcases h.sentOnce.bound entry hentry source (not_not.mp hsource) with
        ⟨to', hsent, hto⟩
      have hsame := List.inj_on_of_nodup_map h.sockets.sids hto hopened rfl
      obtain rfl : to' = ws := congrArg Prod.fst hsame
      unfold settlementOf
      split
      next => exact hsent
      next => split <;> exact hsent

theorem Sound.noteActivity (h : s.Sound limits none none) (now : ℕ)
    (ws : WebSocket) : (s.noteActivity now ws).Sound limits none none := by
  apply h.update
  exact fun _ => ⟨rfl, rfl, rfl, rfl⟩

theorem Sound.resultFrame (h : s.Sound limits none none)
    (claimed : Option String) (kind : FrontendCallKind) (id : String)
    (result : ReportedResult) (error : Option String) :
    (s.resultFrame limits throws now ws claimed kind id result error).Sound
      limits none none := by
  unfold RealtimeEndpoint.resultFrame
  split
  next => exact h
  next attachment hfound =>
    split
    next => exact ((h.trySend throws now ws).1.dropSocket now ws).1
    next userDid _ =>
      have hnoted := h.noteActivity now ws
      split_ifs
      · exact hnoted
      · apply hnoted.settle
        exact h.sockets.opened _ (mem_of_attachmentOf hfound)

theorem Sound.eventFrame (h : s.Sound limits none none) :
    (s.eventFrame limits throws now ws).Sound limits none none := by
  unfold RealtimeEndpoint.eventFrame
  split
  next => exact h
  next attachment _ =>
    split_ifs
    · exact ((h.trySend throws now ws).1.dropSocket now ws).1
    · exact ((h.noteActivity now ws).trySend throws now ws).1

theorem Sound.heartbeat (h : s.Sound limits none none) (limit : ℕ)
    (entries : List HubEntry) :
    (RealtimeEndpoint.heartbeat limits throws now limit entries s).Sound
      limits none none := by
  induction entries generalizing s with
  | nil => exact h
  | cons entry entries ih =>
      rw [RealtimeEndpoint.heartbeat]
      split
      next => exact ih (h.dropSocket now entry.socket).1
      next => exact ih (h.trySend throws now entry.socket).1

theorem Sound.step (h : s.Sound limits none none) {event : RealtimeEvent}
    {s' : RealtimeEndpoint}
    (hstep : s.step limits throws (now, event) = some s') :
    s'.Sound limits none none := by
  cases event with
  | upgrade ws sid sessionId routedUserDid =>
      dsimp only [RealtimeEndpoint.step] at hstep
      split_ifs at hstep with hused
      rw [not_or] at hused
      cases hstep
      exact h.upgrade hused.1 hused.2 sessionId routedUserDid
  | connect ws =>
      cases hstep
      exact h.connectFrame
  | connectAnswered ws outcome =>
      rcases Option.ite_none_right_eq_some.mp hstep with ⟨hconnecting, hsome⟩
      cases hsome
      exact h.connectAnswered hconnecting outcome
  | pong ws =>
      cases hstep
      exact h.update fun _ => ⟨rfl, rfl, rfl, rfl⟩
  | eventFrame ws =>
      cases hstep
      exact h.eventFrame
  | mirroredFrame ws =>
      cases hstep
      exact (h.trySend throws now ws).1
  | result ws claimed kind id result error =>
      cases hstep
      exact h.resultFrame claimed kind id result error
  | gone ws =>
      cases hstep
      rcases h.dropSocket now ws with ⟨hdropped, hframe, -⟩
      have hleft := hdropped.unauthenticate fun socket =>
        !decide (socket = ws)
      rw [hframe.authenticating] at hleft
      exact hleft
  | heartbeat limit =>
      cases hstep
      exact h.heartbeat limit s.sockets
  | call outgoing signal =>
      dsimp only [RealtimeEndpoint.step] at hstep
      split_ifs at hstep with hused
      cases hstep
      exact h.call hused signal
  | abort signal =>
      dsimp only [RealtimeEndpoint.step] at hstep
      split_ifs at hstep
      cases hstep
      exact h.abort signal
  | timer id =>
      cases hstep
      exact h.timer id
  | react id =>
      dsimp only [RealtimeEndpoint.step] at hstep
      split at hstep
      next call _ outcome hcall houtcome =>
        cases hstep
        apply h.react
        have hid : call.toolCallId = id := by
          simpa using List.find?_some hcall
        have hsettledId := List.find?_some houtcome
        have hsettled : call.toolCallId ∈ s.settledIds := by
          rw [hid]
          exact List.mem_map.mpr ⟨_, List.mem_of_find?_eq_some houtcome,
            by simpa using hsettledId⟩
        have hpending : call.toolCallId ∉ s.pendingIds :=
          fun hmem => h.registered.apart _ hmem hsettled
        unfold isParked
        rw [find_eq_none.mpr hpending]
        rfl
      next => cases hstep

end Events

section Runs

variable {limits : FrontendLimits} {throws : ℕ → Bool} {s : RealtimeEndpoint}

/-- A call reaches at most one socket and is settled by it alone. -/
structure SettledByItsSocket (limits : FrontendLimits)
    (s : RealtimeEndpoint) : Prop where
  sentOnce : s.sentIds.Nodup
  settledOnce : s.settledIds.Nodup
  pendingOrSettled : ∀ id ∈ s.called, (id ∈ s.pendingIds ∨
    id ∈ s.settledIds) ∧ ¬ (id ∈ s.pendingIds ∧ id ∈ s.settledIds)
  /-- The deadline settles a call that is still pending. -/
  deadline : ∀ id ∈ s.pendingIds, ∀ now,
    id ∈ (s.timer limits now id).settledIds
  resolved : ∀ id ws result, (id, .resolved ws result) ∈ s.settled →
    (id, ws) ∈ s.sent
  failed : ∀ id ws error, (id, .failed ws error) ∈ s.settled →
    (id, ws) ∈ s.sent
  notSent : ∀ id reason, (id, .notSent reason) ∈ s.settled → id ∉ s.sentIds
  outcomeUnknown : ∀ id, (id, .outcomeUnknown) ∈ s.settled → id ∈ s.sentIds
  /-- Once the reactions to settled calls have run. -/
  parked : (∀ call ∈ s.watched, call.toolCallId ∉ s.settledIds) →
    ∀ sessionId, s.queueIds sessionId = s.unsentIds sessionId
  callOrder : ∀ sessionId, (s.unsentIds sessionId).Sublist s.called
  sendOrder : ∀ ws, (s.sentTo ws).Sublist s.called
  /-- No socket is without a parked call that it could run. -/
  received : ∀ entry ∈ s.pending, entry.executor = none →
    ∀ socket ∈ s.sockets, ¬ Takes socket.attachment entry
  maxPending : s.pending.length ≤ limits.maxPending
  maxCompleted : s.completed.length ≤ limits.maxCompleted
  refused : ∀ call now signal, call.toolCallId ∈ s.pendingIds ∨
    call.toolCallId ∈ (pruneCompleted limits now s.completed).map
      CompletedCall.toolCallId →
    s.openCall limits now call signal = .error .alreadyIssued

theorem Sound.queueIds_eq (h : s.Sound limits none none)
    (hreacted : ∀ call ∈ s.watched, call.toolCallId ∉ s.settledIds)
    (sessionId : String) : s.queueIds sessionId = s.unsentIds sessionId := by
  have hqueue := h.parks.queue sessionId
  simp only [reduceCtorEq, decide_false, Bool.not_false,
    List.filter_true] at hqueue
  rw [← hqueue]
  apply Eq.symm
  apply List.filter_eq_self.mpr
  intro id hid
  rcases List.mem_map.mp hid with ⟨call, hcall, rfl⟩
  have hwatched := (h.parks.member sessionId call hcall).2
  have hpending : call.toolCallId ∈ s.pendingIds :=
    ((h.registered.accounted _).mp (h.parks.known call hwatched)).resolve_right
      (hreacted call hwatched)
  rcases List.mem_map.mp hpending with ⟨entry, hentry, heq⟩
  exact (isParked_iff h.registered.nodup).mpr ⟨entry, hentry, heq,
    h.parks.waiting sessionId call hcall nofun entry hentry heq⟩

theorem Sound.settledByItsSocket (h : s.Sound limits none none) :
    s.SettledByItsSocket limits := by
  constructor
  · exact h.sentOnce.once
  · exact h.registered.settled
  · intro id hid
    exact ⟨(h.registered.accounted id).mp hid,
      fun hboth => h.registered.apart id hboth.1 hboth.2⟩
  · intro id hid now
    rcases List.mem_map.mp hid with ⟨entry, hentry, rfl⟩
    have hfound := find_of_mem h.registered.nodup hentry
    unfold RealtimeEndpoint.timer
    simp only [hfound, finish_of_find hfound]
    simp [settledIds]
  · exact fun id ws result hmem => h.sentOnce.fits _ hmem
  · exact fun id ws error hmem => h.sentOnce.fits _ hmem
  · exact fun id reason hmem => h.sentOnce.fits _ hmem
  · exact fun id hmem => h.sentOnce.fits _ hmem
  · exact h.queueIds_eq
  · exact fun sessionId =>
      (List.filter_sublist.map _).trans h.registered.pending
  · exact h.sentOnce.ordered
  · intro entry hentry hnone socket hsocket
    exact h.parks.idle entry hentry hnone (by simp) socket hsocket (by simp)
  · exact h.registered.maxPending
  · exact h.registered.maxCompleted
  · intro call now signal hknown
    have hpending : call.toolCallId ∈ s.pendingIds →
        (s.find call.toolCallId).isSome = true := by
      intro hmem
      rw [Option.isSome_iff_ne_none]
      exact fun hnone => find_eq_none.mp hnone hmem
    unfold openCall
    rw [if_pos]
    rcases hknown with hmem | hmem
    · exact .inl (hpending hmem)
    · exact .inr hmem

theorem sound_empty (limits : FrontendLimits) :
    empty.Sound limits none none := by
  constructor
  · constructor <;> simp [empty, pendingIds, settledIds]
  · constructor <;> simp [empty, sentIds, sentTo]
  · constructor <;> simp [empty]
  · constructor <;> simp [empty, queueIds, unsentIds]

/-- Whatever sockets, results, aborts and deadlines do, in every order. -/
theorem settled_by_its_socket (limits : FrontendLimits) (throws : ℕ → Bool)
    (events : List (ℕ × RealtimeEvent)) (s : RealtimeEndpoint)
    (hrun : Transition.run (step limits throws) empty events = some s) :
    s.SettledByItsSocket limits := by
  have hstep : ∀ s s' event, Sound limits none none s →
      step limits throws s event = some s' → Sound limits none none s' :=
    fun _ _ _ hs hstep => hs.step hstep
  have hsound : s.Sound limits none none :=
    Transition.run_preserves hstep (sound_empty limits) hrun
  exact hsound.settledByItsSocket

/-- Two of three calls park, the third is sent to a socket whose send throws;
the browser that joins takes the parked ones, answers one and goes. -/
def joinedLate : List (ℕ × RealtimeEvent) :=
  [(0, .call ⟨"call-1", .browser, "scroll", "s"⟩ none),
    (1, .call ⟨"call-2", .agui, "show", "s"⟩ (some 7)),
    (2, .upgrade 1 "sid-1" "s" "did:x:1"),
    (3, .connect 1),
    (4, .connectAnswered 1 (.accepted none)),
    (5, .result 1 none .browser "call-1" .other none),
    (6, .result 1 none .browser "call-1" .other none),
    (7, .react "call-1"),
    (8, .call ⟨"call-3", .browser, "scroll", "s"⟩ none),
    (9, .timer "call-3"),
    (10, .abort 7)]

theorem settled_by_its_socket_joinedLate :
    ∃ s, Transition.run (step ⟨2, 8, 1000⟩ fun send => decide (send = 4))
        empty joinedLate = some s ∧ s.SettledByItsSocket ⟨2, 8, 1000⟩ := by
  cases hrun : Transition.run (step ⟨2, 8, 1000⟩ fun send =>
      decide (send = 4)) empty joinedLate with
  | none =>
      have hruns : (Transition.run (step ⟨2, 8, 1000⟩ fun send =>
          decide (send = 4)) empty joinedLate).isSome = true := by
        decide +kernel
      simp [hrun] at hruns
  | some s =>
      exact ⟨s, rfl, settled_by_its_socket ⟨2, 8, 1000⟩ _ joinedLate s hrun⟩

/-- The settlements of the run. -/
example :
    (Transition.run (step ⟨2, 8, 1000⟩ fun send => decide (send = 4)) empty
        joinedLate).map settled =
      some [("call-1", .resolved 1 .other), ("call-2", .outcomeUnknown),
        ("call-3", .notSent .parkDeadline)] := by
  decide +kernel

end Runs

end RealtimeEndpoint

end QiForge
