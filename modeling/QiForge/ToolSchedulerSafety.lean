import QiForge.ToolSchedulerLanes

/-!
# Runs of the tool scheduler

What holds in every state a scheduler reaches (`LanesHold`), and that a call
whose signal aborts while it waits is never started.
-/

namespace QiForge

/-- `acquire` has rejected the call. -/
def CallPhase.cancelled : CallPhase → Bool
  | .rejected | .thrown => true
  | .queued | .granted | .running | .settled => false

namespace ToolScheduler

variable {maxReads maxSubagents : ℕ} {s s' : ToolScheduler}

structure LanesHold (maxReads maxSubagents : ℕ) (s : ToolScheduler) :
    Prop where
  writes : s.calls.countP (fun c =>
    c.phase.inFlight && decide (c.lane = .write)) ≤ 1
  reads : s.calls.countP (fun c =>
    c.phase.inFlight && decide (c.lane = .read)) ≤ maxReads
  frontends : ∀ sessionId, s.calls.countP (fun c =>
    c.phase.inFlight && decide (c.lane = .frontend) &&
      decide (c.sessionId = some sessionId)) ≤ 1
  subagents : ∀ sessionId, s.calls.countP (fun c =>
    c.phase.inFlight && decide (c.lane = .subagent) &&
      decide (c.sessionId = some sessionId)) ≤ maxSubagents
  inOrder : ∀ (i j : ℕ) (ci cj : ToolCall), i < j →
    s.calls[i]? = some ci → s.calls[j]? = some cj → ci.lane = cj.lane →
    ci.key = cj.key → ci.phase = .queued → cj.phase.everGranted = false
  waitsOnlyWhenFull : ∀ c ∈ s.calls, c.phase = .queued →
    (s.lanes c.slot).active = limit maxReads maxSubagents c.lane
  slotsGivenBack : ∀ slot,
    (s.lanes slot).active = s.calls.countP (ToolCall.holdsSlot slot)
  quiet : (∀ c ∈ s.calls, c.phase.inUse = false) →
    ∀ slot, (s.lanes slot).active = 0 ∧ (s.lanes slot).waiting = []
  dropped : (∀ c ∈ s.calls, c.phase.inProgress = false) →
    ∀ key, s.sessionLanes key = none
  single : ∀ c ∈ s.calls, ∀ d ∈ s.calls, c.phase.inUse = true →
    d.phase.inUse = true → c.lane = d.lane → c.key = d.key →
    c.slot = d.slot

/-- The calls of one lane in flight are no more than its slots. -/
theorem Core.countP_le_limit (h : s.Core maxReads maxSubagents)
    {p : ToolCall → Bool} {lane : ToolLane} {key : Option String}
    (hp : ∀ c ∈ s.calls, p c = true →
      c.phase.inFlight = true ∧ c.lane = lane ∧ c.key = key) :
    s.calls.countP p ≤ limit maxReads maxSubagents lane := by
  by_cases hexists : ∃ c ∈ s.calls, p c = true
  · rcases hexists with ⟨c, hc, hpc⟩
    rcases hp c hc hpc with ⟨hflight, hlane, hkey⟩
    have huse : ∀ d : ToolCall, d.phase.inFlight = true →
        d.phase.inUse = true :=
      fun d hd => CallPhase.inUse_iff.mpr (Or.inr hd)
    have hle : s.calls.countP p ≤
        s.calls.countP (ToolCall.holdsSlot c.slot) := by
      apply List.countP_mono_left
      intro d hd hpd
      rcases hp d hd hpd with ⟨hdflight, hdlane, hdkey⟩
      have hslot := h.same_slot hd (huse d hdflight) (h.placed c hc)
        (h.current c hc (huse c hflight)) (hdlane.trans hlane.symm)
        (hdkey.trans hkey.symm)
      simp [ToolCall.holdsSlot, hdflight, hslot]
    calc
      s.calls.countP p ≤ s.calls.countP (ToolCall.holdsSlot c.slot) := hle
      _ = (s.lanes c.slot).active := (h.active c.slot).symm
      _ ≤ (s.lanes c.slot).capacity := h.bounded c.slot
      _ = limit maxReads maxSubagents lane := by
        rw [h.capacity c hc, hlane]
  · have hzero : s.calls.countP p = 0 := by
      rw [List.countP_eq_zero]
      exact fun c hc hpc => hexists ⟨c, hc, hpc⟩
    omega

theorem Inv.lanesHold (h : s.Inv maxReads maxSubagents) :
    s.LanesHold maxReads maxSubagents := by
  have hcore := h.core
  constructor
  · apply @Core.countP_le_limit _ _ _ hcore _ .write none
    intro c hc hp
    simp only [Bool.and_eq_true, decide_eq_true_eq] at hp
    refine ⟨hp.1, hp.2, ?_⟩
    simp [ToolCall.key, laneKey, hp.2, ToolLane.isSessionLane]
  · apply @Core.countP_le_limit _ _ _ hcore _ .read none
    intro c hc hp
    simp only [Bool.and_eq_true, decide_eq_true_eq] at hp
    refine ⟨hp.1, hp.2, ?_⟩
    simp [ToolCall.key, laneKey, hp.2, ToolLane.isSessionLane]
  · intro sessionId
    apply @Core.countP_le_limit _ _ _ hcore _ .frontend
      (some (sessionLaneKey .frontend sessionId))
    intro c hc hp
    simp only [Bool.and_eq_true, decide_eq_true_eq] at hp
    refine ⟨hp.1.1, hp.1.2, ?_⟩
    simp [ToolCall.key, laneKey, hp.1.2, hp.2, ToolLane.isSessionLane]
  · intro sessionId
    apply @Core.countP_le_limit _ _ _ hcore _ .subagent
      (some (sessionLaneKey .subagent sessionId))
    intro c hc hp
    simp only [Bool.and_eq_true, decide_eq_true_eq] at hp
    refine ⟨hp.1.1, hp.1.2, ?_⟩
    simp [ToolCall.key, laneKey, hp.1.2, hp.2, ToolLane.isSessionLane]
  · exact hcore.fifo
  · intro c hc hqueued
    rcases List.getElem?_of_mem hc with ⟨i, hi⟩
    have hmem := (hcore.waiting c.slot i).mpr ⟨c, hi, rfl, hqueued⟩
    have hfull := h.full c.slot (List.ne_nil_of_mem hmem)
    have hbounded := hcore.bounded c.slot
    rw [hcore.capacity c hc] at hfull hbounded
    omega
  · exact hcore.active
  · intro hnone slot
    cases hidle : (s.lanes slot).idle with
    | true => simpa [Lane.idle] using hidle
    | false =>
        rcases hcore.exists_of_not_idle hidle with ⟨c, hc, -, huse⟩
        rw [hnone c hc] at huse
        exact Bool.noConfusion huse
  · intro hnone key
    cases hmapped : s.sessionLanes key with
    | none => rfl
    | some n =>
        rcases h.retained key n hmapped with hexcept | hcall
        · exact absurd hexcept (by simp)
        · rcases hcall with ⟨c, hc, -, hprogress⟩
          rw [hnone c hc] at hprogress
          exact Bool.noConfusion hprogress
  · intro c hc d hd hcuse hduse hlane hkey
    exact hcore.same_slot hc hcuse (hcore.placed d hd)
      (hcore.current d hd hduse) hlane hkey

/-- A waiting call's signal has not aborted. -/
def Listening (s : ToolScheduler) : Prop :=
  ∀ c ∈ s.calls, c.phase = .queued → c.signal.any s.aborted = false

theorem mem_modify_phase {calls : List ToolCall} {i : ℕ} {d : ToolCall}
    {phase : CallPhase}
    (hd : d ∈ calls.modify i fun c => { c with phase := phase }) :
    d ∈ calls ∨ d.phase = phase := by
  rcases List.getElem?_of_mem hd with ⟨j, hj⟩
  rw [List.getElem?_modify] at hj
  split_ifs at hj
  · rcases Option.map_eq_some_iff.mp hj with ⟨c, -, rfl⟩
    exact Or.inr rfl
  · have hold : calls[j]? = some d := by simpa using hj
    exact Or.inl (List.mem_of_getElem? hold)

theorem Listening.setPhase (h : s.Listening) (i : ℕ) {phase : CallPhase}
    (hphase : phase ≠ .queued) : (s.setPhase i phase).Listening := by
  intro d hd hqueued
  rcases mem_modify_phase hd with hd | hd
  · exact h d hd hqueued
  · rw [hd] at hqueued
    exact absurd hqueued hphase

theorem Listening.release (h : s.Listening) (slot : LaneRef) :
    (s.release slot).Listening := by
  unfold ToolScheduler.release
  dsimp only
  split
  · exact h
  · apply Listening.setPhase
    · exact h
    · simp

theorem Listening.dropIfIdle (h : s.Listening) (key : Option String)
    (slot : LaneRef) : (s.dropIfIdle key slot).Listening := by
  rcases dropIfIdle_differs s key slot with
    hsame | ⟨_, _, _, _, _, _, hdropped⟩
  · rw [hsame]
    exact h
  · rw [hdropped]
    exact h

theorem Listening.enter (h : s.Listening) (lane : ToolLane)
    (sessionId : Option String) (signal : Option ℕ) (slot : LaneRef) :
    (s.enter lane sessionId signal slot).Listening := by
  cases haborted : signal.any s.aborted with
  | true =>
      intro d hd hqueued
      unfold ToolScheduler.enter Lane.acquire at hd
      rw [haborted, if_pos rfl] at hd
      rcases List.mem_append.mp hd with hd | hd
      · exact h d hd hqueued
      · obtain rfl := List.mem_singleton.mp hd
        exact absurd hqueued (by simp)
  | false =>
      intro d hd hqueued
      rcases List.mem_append.mp hd with hd | hd
      · exact h d hd hqueued
      · obtain rfl := List.mem_singleton.mp hd
        exact haborted

theorem Listening.laneFor (h : s.Listening) (lane : ToolLane)
    (key : Option String) : (s.laneFor lane key).2.Listening := by
  unfold ToolScheduler.laneFor
  cases key with
  | none => exact h
  | some key =>
      dsimp only
      cases s.sessionLanes key with
      | none => exact h
      | some n => exact h

theorem Listening.step {e : SchedulerEvent} (h : s.Listening)
    (hstep : s.step e = some s') : s'.Listening := by
  cases e with
  | run lane sessionId signal =>
      cases hstep
      unfold ToolScheduler.run
      split_ifs
      · exact h
      · exact (h.laneFor lane _).enter _ _ _ _
  | start i =>
      rcases Option.bind_eq_some_iff.mp hstep with ⟨c, -, hite⟩
      rcases Option.ite_none_right_eq_some.mp hite with ⟨-, hsome⟩
      cases hsome
      exact h.setPhase i (by simp)
  | settle i =>
      rcases Option.bind_eq_some_iff.mp hstep with ⟨c, -, hite⟩
      rcases Option.ite_none_right_eq_some.mp hite with ⟨-, hsome⟩
      cases hsome
      exact ((h.setPhase i (by simp)).release _).dropIfIdle _ _
  | abort signal =>
      cases hstep
      unfold ToolScheduler.abort
      split_ifs
      · exact h
      · intro d hd hqueued
        rcases List.mem_map.mp hd with ⟨c, hc, rfl⟩
        rcases ToolCall.queued_onAbort.mp hqueued with ⟨hcqueued, hlistens⟩
        have hold := h c hc hcqueued
        rw [ToolCall.signal_onAbort]
        cases hsignal : c.signal with
        | none => rfl
        | some other =>
            have hne : other ≠ signal := by
              rintro rfl
              simp [ToolCall.listens, hsignal] at hlistens
            rw [hsignal] at hold
            simpa [Function.update_of_ne hne] using hold
  | leave i =>
      rcases Option.bind_eq_some_iff.mp hstep with ⟨c, -, hite⟩
      rcases Option.ite_none_right_eq_some.mp hite with ⟨-, hsome⟩
      cases hsome
      exact (h.setPhase i (by simp)).dropIfIdle _ _

theorem cancelled_setPhase {i j : ℕ} {c d : ToolCall}
    {phase : CallPhase} (hcall : s.calls[i]? = some c)
    (hcancelled : c.phase.cancelled = true) (hd : s.calls[j]? = some d)
    (hphase : phase.cancelled = true ∨ d.phase.cancelled = false) :
    ∃ c', (s.setPhase j phase).calls[i]? = some c' ∧
      c'.phase.cancelled = true := by
  rw [setPhase_eq hd]
  by_cases hsame : i = j
  · subst hsame
    rw [hcall] at hd
    cases hd
    refine ⟨{ c with phase := phase }, ?_, ?_⟩
    · exact List.getElem?_set_self (List.getElem?_eq_some_iff.mp hcall).1
    · rcases hphase with hphase | hphase
      · exact hphase
      · rw [hcancelled] at hphase
        exact Bool.noConfusion hphase
  · refine ⟨c, ?_, hcancelled⟩
    rw [List.getElem?_set_ne (Ne.symm hsame)]
    exact hcall

theorem calls_dropIfIdle (s : ToolScheduler) (key : Option String)
    (slot : LaneRef) : (s.dropIfIdle key slot).calls = s.calls := by
  rcases dropIfIdle_differs s key slot with
    hsame | ⟨_, _, _, _, _, _, hdropped⟩
  · rw [hsame]
  · rw [hdropped]

theorem calls_laneFor (s : ToolScheduler) (lane : ToolLane)
    (key : Option String) : (s.laneFor lane key).2.calls = s.calls := by
  unfold ToolScheduler.laneFor
  cases key with
  | none => rfl
  | some key =>
      dsimp only
      cases s.sessionLanes key with
      | none => rfl
      | some n => rfl

theorem calls_release {slot : LaneRef} {i : ℕ}
    (hnot : i ∉ (s.lanes slot).waiting) :
    (s.release slot).calls[i]? = s.calls[i]? := by
  cases hwaiting : (s.lanes slot).waiting with
  | nil => rw [release_free hwaiting]
  | cons next rest =>
      have hne : next ≠ i := by
        rintro rfl
        exact hnot (by simp [hwaiting])
      rw [release_next hwaiting]
      simp [ToolScheduler.setPhase, hne]

/-- A rejected call is never granted. -/
theorem cancelled_step {e : SchedulerEvent} {i : ℕ} {c : ToolCall}
    (hcore : s.Core maxReads maxSubagents) (hstep : s.step e = some s')
    (hcall : s.calls[i]? = some c) (hcancelled : c.phase.cancelled = true) :
    ∃ c', s'.calls[i]? = some c' ∧ c'.phase.cancelled = true := by
  cases e with
  | run lane sessionId signal =>
      cases hstep
      unfold ToolScheduler.run
      split_ifs
      · exact ⟨c, hcall, hcancelled⟩
      · refine ⟨c, ?_, hcancelled⟩
        have hlt := (List.getElem?_eq_some_iff.mp hcall).1
        change ((s.laneFor lane _).2.calls ++ _)[i]? = some c
        rw [calls_laneFor, List.getElem?_append_left hlt]
        exact hcall
  | start j =>
      rcases Option.bind_eq_some_iff.mp hstep with ⟨d, hd, hite⟩
      rcases Option.ite_none_right_eq_some.mp hite with ⟨hphase, hsome⟩
      cases hsome
      apply cancelled_setPhase hcall hcancelled hd
      right
      rw [hphase]
      rfl
  | settle j =>
      rcases Option.bind_eq_some_iff.mp hstep with ⟨d, hd, hite⟩
      rcases Option.ite_none_right_eq_some.mp hite with ⟨hphase, hsome⟩
      cases hsome
      rw [calls_dropIfIdle]
      have hsettled : ∃ c', (s.setPhase j .settled).calls[i]? = some c' ∧
          c'.phase.cancelled = true := by
        apply cancelled_setPhase hcall hcancelled hd
        right
        rw [hphase]
        rfl
      have hnot : i ∉ (s.lanes d.slot).waiting := by
        intro hi
        rcases (hcore.waiting _ i).mp hi with ⟨c', hc', -, hqueued⟩
        rw [hcall] at hc'
        cases hc'
        rw [hqueued] at hcancelled
        exact Bool.noConfusion hcancelled
      rw [calls_release (s := s.setPhase j .settled) hnot]
      exact hsettled
  | abort signal =>
      cases hstep
      unfold ToolScheduler.abort
      split_ifs
      · exact ⟨c, hcall, hcancelled⟩
      · refine ⟨c.onAbort signal, ?_, ?_⟩
        · simp [hcall]
        · have hne : c.phase ≠ .queued := by
            intro hqueued
            rw [hqueued] at hcancelled
            exact Bool.noConfusion hcancelled
          simpa [ToolCall.onAbort, hne] using hcancelled
  | leave j =>
      rcases Option.bind_eq_some_iff.mp hstep with ⟨d, hd, hite⟩
      rcases Option.ite_none_right_eq_some.mp hite with ⟨-, hsome⟩
      cases hsome
      rw [calls_dropIfIdle]
      exact cancelled_setPhase hcall hcancelled hd (Or.inl rfl)

variable {events : List SchedulerEvent}

theorem run_inv
    (hrun : Transition.run step (new maxReads maxSubagents) events = some s) :
    s.Inv maxReads maxSubagents :=
  Transition.run_preserves (fun _ _ _ h hstep => h.step hstep)
    (Inv.new maxReads maxSubagents) hrun

theorem run_listening
    (hrun : Transition.run step (new maxReads maxSubagents) events =
      some s) : s.Listening := by
  refine Transition.run_preserves (fun _ _ _ h hstep => h.step hstep) ?_ hrun
  intro c hc
  exact absurd hc (by simp [new])

theorem cancelled_run {i : ℕ} {c : ToolCall}
    (hinv : s.Inv maxReads maxSubagents)
    (hrun : Transition.run step s events = some s')
    (hcall : s.calls[i]? = some c) (hcancelled : c.phase.cancelled = true) :
    ∃ c', s'.calls[i]? = some c' ∧ c'.phase.cancelled = true := by
  induction events generalizing s c with
  | nil =>
      cases hrun
      exact ⟨c, hcall, hcancelled⟩
  | cons e events ih =>
      rcases Transition.run_cons_eq_some.mp hrun with ⟨mid, hstep, hrest⟩
      rcases cancelled_step hinv.core hstep hcall hcancelled with
        ⟨c', hcall', hcancelled'⟩
      exact ih (hinv.step hstep) hrest hcall' hcancelled'

/-- The lanes of every reachable scheduler, and what an abort does to a
waiting call in every run from there. -/
theorem run_lanes_hold (maxReads maxSubagents : ℕ)
    (events : List SchedulerEvent) (s : ToolScheduler)
    (hrun : Transition.run step (new maxReads maxSubagents) events = some s) :
    s.LanesHold maxReads maxSubagents ∧
      ∀ (i signal : ℕ) (c : ToolCall) (later : List SchedulerEvent)
        (s' : ToolScheduler),
        s.calls[i]? = some c → c.phase = .queued →
        c.signal = some signal →
        Transition.run step s (.abort signal :: later) = some s' →
        ∃ c', s'.calls[i]? = some c' ∧ c'.phase.cancelled = true := by
  have hinv := run_inv hrun
  constructor
  · exact hinv.lanesHold
  · intro i signal c later s' hcall hqueued hsignal hlater
    rcases Transition.run_cons_eq_some.mp hlater with ⟨mid, hstep, hrest⟩
    have hlive := run_listening hrun c (List.mem_of_getElem? hcall) hqueued
    rw [hsignal] at hlive
    have hmid : mid.calls[i]? = some { c with phase := .rejected } := by
      cases hstep
      have hfires : s.aborted signal = false := by simpa using hlive
      simp [ToolScheduler.abort, hfires, hcall, ToolCall.onAbort, hqueued,
        ToolCall.listens, hsignal]
    exact cancelled_run (hinv.step hstep) hrest hmid rfl

/-- Three frontend calls of one session: the second waits and is aborted, the
third is granted when the first one ends. -/
def threeCalls : List SchedulerEvent :=
  [.run .frontend (some "s1") none, .start 0,
    .run .frontend (some "s1") (some 5), .run .frontend (some "s1") none]

theorem run_lanes_hold_threeCalls :
    ∃ s s', Transition.run step (new 4 4) threeCalls = some s ∧
      s.LanesHold 4 4 ∧
      Transition.run step s [.abort 5, .settle 0] = some s' ∧
      ∃ c', s'.calls[1]? = some c' ∧ c'.phase.cancelled = true := by
  refine ⟨_, _, rfl, (run_lanes_hold 4 4 threeCalls _ rfl).1, rfl, ?_⟩
  exact (run_lanes_hold 4 4 threeCalls _ rfl).2 1 5
    ⟨.frontend, some "s1", some 5, .session "frontend:s1" 0, .queued⟩
    [.settle 0] _ (by decide +kernel) rfl rfl rfl

end ToolScheduler
end QiForge
