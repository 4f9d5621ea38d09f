import QiForge.ToolSchedulerSafety

/-!
# The tool scheduler drains

Once no new call comes and no signal aborts, the calls it has can only go on:
each has at most three steps left, and while one has not returned some step is
possible.  So every schedule of those steps ends, with all calls returned,
every lane empty and no per-session lane kept.
-/

namespace QiForge

/-- How many steps a call has left at most. -/
@[simp] def CallPhase.stepsLeft : CallPhase → ℕ
  | .queued => 3
  | .granted => 2
  | .running | .rejected => 1
  | .settled | .thrown => 0

/-- The step is one of a call the scheduler already has. -/
def SchedulerEvent.goesOn : SchedulerEvent → Bool
  | .start _ | .settle _ | .leave _ => true
  | .run _ _ _ | .abort _ => false

namespace ToolScheduler

variable {maxReads maxSubagents : ℕ} {s s' : ToolScheduler}

def stepsLeft (s : ToolScheduler) : ℕ :=
  (s.calls.map fun c => c.phase.stepsLeft).sum

theorem sum_map_set_add {α : Type*} {f : α → ℕ} {l : List α} {i : ℕ}
    {a : α} (b : α) (h : l[i]? = some a) :
    ((l.set i b).map f).sum + f a = (l.map f).sum + f b := by
  rcases List.getElem?_eq_some_iff.mp h with ⟨hi, rfl⟩
  have hset := ((List.set_perm_cons_eraseIdx hi b).map f).sum_eq
  have hold := ((List.getElem_cons_eraseIdx_perm hi).map f).sum_eq
  simp only [List.map_cons, List.sum_cons] at hset hold
  omega

theorem stepsLeft_setPhase {i : ℕ} {c : ToolCall} {phase : CallPhase}
    (hcall : s.calls[i]? = some c)
    (hlt : phase.stepsLeft < c.phase.stepsLeft) :
    (s.setPhase i phase).stepsLeft < s.stepsLeft := by
  have hset : (s.setPhase i phase).stepsLeft + c.phase.stepsLeft =
      s.stepsLeft + phase.stepsLeft := by
    rw [setPhase_eq hcall]
    exact sum_map_set_add (f := fun c => c.phase.stepsLeft) _ hcall
  omega

@[simp] theorem stepsLeft_dropIfIdle (key : Option String) (slot : LaneRef) :
    (s.dropIfIdle key slot).stepsLeft = s.stepsLeft := by
  simp [stepsLeft, calls_dropIfIdle]

theorem stepsLeft_le (s : ToolScheduler) :
    s.stepsLeft ≤ 3 * s.calls.length := by
  have hle := List.sum_le_card_nsmul
    (s.calls.map fun c => c.phase.stepsLeft) 3 (by
      intro n hn
      rcases List.mem_map.mp hn with ⟨c, -, rfl⟩
      cases c.phase <;> simp)
  rw [List.length_map, smul_eq_mul, mul_comm] at hle
  exact hle

/-- A slot given back takes a waiting call further, if it does anything. -/
theorem stepsLeft_release {slot : LaneRef}
    (hwaiting : ∀ i ∈ (s.lanes slot).waiting,
      ∃ c, s.calls[i]? = some c ∧ c.phase = .queued) :
    (s.release slot).stepsLeft ≤ s.stepsLeft := by
  cases hqueue : (s.lanes slot).waiting with
  | nil =>
      rw [release_free hqueue]
      exact le_rfl
  | cons next rest =>
      rcases hwaiting next (by simp [hqueue]) with ⟨c, hcall, hqueued⟩
      rw [release_next hqueue]
      exact le_of_lt (stepsLeft_setPhase (s := s) hcall (by simp [hqueued]))

theorem stepsLeft_step {e : SchedulerEvent}
    (h : s.Inv maxReads maxSubagents) (hgoes : e.goesOn = true)
    (hstep : s.step e = some s') : s'.stepsLeft < s.stepsLeft := by
  cases e with
  | run lane sessionId signal => exact Bool.noConfusion hgoes
  | abort signal => exact Bool.noConfusion hgoes
  | start i =>
      rcases Option.bind_eq_some_iff.mp hstep with ⟨c, hcall, hite⟩
      rcases Option.ite_none_right_eq_some.mp hite with ⟨hphase, hsome⟩
      cases hsome
      exact stepsLeft_setPhase hcall (by simp [hphase])
  | leave i =>
      rcases Option.bind_eq_some_iff.mp hstep with ⟨c, hcall, hite⟩
      rcases Option.ite_none_right_eq_some.mp hite with ⟨hphase, hsome⟩
      cases hsome
      rw [stepsLeft_dropIfIdle]
      exact stepsLeft_setPhase hcall (by simp [hphase])
  | settle i =>
      rcases Option.bind_eq_some_iff.mp hstep with ⟨c, hcall, hite⟩
      rcases Option.ite_none_right_eq_some.mp hite with ⟨hphase, hsome⟩
      cases hsome
      rw [stepsLeft_dropIfIdle]
      refine (stepsLeft_release ?_).trans_lt
        (stepsLeft_setPhase hcall (by simp [hphase]))
      intro j hj
      rcases (h.core.waiting c.slot j).mp hj with ⟨d, hd, -, hqueued⟩
      have hne : i ≠ j := by
        rintro rfl
        rw [hcall] at hd
        cases hd
        simp [hphase] at hqueued
      refine ⟨d, ?_, hqueued⟩
      rw [setPhase_eq hcall, List.getElem?_set_ne hne]
      exact hd

/-- A call that waits is behind one that has a slot. -/
theorem Inv.exists_inFlight (h : s.Inv maxReads maxSubagents)
    (hreads : 0 < maxReads) (hsubagents : 0 < maxSubagents) {c : ToolCall}
    (hc : c ∈ s.calls) (hqueued : c.phase = .queued) :
    ∃ d ∈ s.calls, d.phase.inFlight = true := by
  have hfull := h.lanesHold.waitsOnlyWhenFull c hc hqueued
  have hlimit : 0 < limit maxReads maxSubagents c.lane := by
    cases c.lane <;> simp [limit, hreads, hsubagents]
  rw [← hfull, h.core.active, List.countP_pos_iff] at hlimit
  rcases hlimit with ⟨d, hd, hholds⟩
  simp only [ToolCall.holdsSlot, Bool.and_eq_true] at hholds
  exact ⟨d, hd, hholds.1⟩

/-- While a call has not returned, some call can take a step. -/
theorem Inv.exists_step (h : s.Inv maxReads maxSubagents)
    (hreads : 0 < maxReads) (hsubagents : 0 < maxSubagents) {c : ToolCall}
    (hc : c ∈ s.calls) (hprogress : c.phase.inProgress = true) :
    ∃ e s', e.goesOn = true ∧ s.step e = some s' := by
  have hflight : ∀ d ∈ s.calls, d.phase.inFlight = true →
      ∃ e s', e.goesOn = true ∧ s.step e = some s' := by
    intro d hd hslot
    rcases List.getElem?_of_mem hd with ⟨i, hi⟩
    cases hphase : d.phase with
    | granted =>
        exact ⟨.start i, _, rfl, Option.bind_eq_some_iff.mpr
          ⟨d, hi, if_pos hphase⟩⟩
    | running =>
        exact ⟨.settle i, _, rfl, Option.bind_eq_some_iff.mpr
          ⟨d, hi, if_pos hphase⟩⟩
    | _ => simp [hphase, CallPhase.inFlight] at hslot
  cases hphase : c.phase with
  | queued =>
      rcases h.exists_inFlight hreads hsubagents hc hphase with ⟨d, hd, hslot⟩
      exact hflight d hd hslot
  | granted => exact hflight c hc (by simp [hphase, CallPhase.inFlight])
  | running => exact hflight c hc (by simp [hphase, CallPhase.inFlight])
  | rejected =>
      rcases List.getElem?_of_mem hc with ⟨i, hi⟩
      exact ⟨.leave i, _, rfl, Option.bind_eq_some_iff.mpr
        ⟨c, hi, if_pos hphase⟩⟩
  | settled => simp [hphase, CallPhase.inProgress] at hprogress
  | thrown => simp [hphase, CallPhase.inProgress] at hprogress

theorem step_of_returned {e : SchedulerEvent}
    (hreturned : ∀ c ∈ s.calls, c.phase.inProgress = false)
    (hgoes : e.goesOn = true) : s.step e = none := by
  cases e with
  | run lane sessionId signal => exact Bool.noConfusion hgoes
  | abort signal => exact Bool.noConfusion hgoes
  | start i | settle i | leave i =>
      refine Option.bind_eq_none_iff.mpr fun c hc => if_neg ?_
      intro hphase
      have hprogress := hreturned c (List.mem_of_getElem? hc)
      rw [hphase] at hprogress
      exact Bool.noConfusion hprogress

/-- From every reachable state the calls' own steps come to an end, and where
they end nothing is left of the calls. -/
theorem run_drains (maxReads maxSubagents : ℕ) (hreads : 0 < maxReads)
    (hsubagents : 0 < maxSubagents) (events : List SchedulerEvent)
    (s : ToolScheduler)
    (hrun : Transition.run step (new maxReads maxSubagents) events = some s)
    (later : List SchedulerEvent) (s' : ToolScheduler)
    (hlater : Transition.run step s later = some s')
    (hgoes : ∀ e ∈ later, e.goesOn = true) :
    later.length ≤ 3 * s.calls.length ∧
      ((∀ e, e.goesOn = true → s'.step e = none) →
        (∀ c ∈ s'.calls, c.phase.inProgress = false) ∧
          (∀ slot, (s'.lanes slot).active = 0 ∧ (s'.lanes slot).waiting = []) ∧
          ∀ key, s'.sessionLanes key = none) := by
  have hinv := run_inv hrun
  have hinv' : s'.Inv maxReads maxSubagents :=
    Transition.run_preserves (fun _ _ _ h hstep => h.step hstep) hinv hlater
  constructor
  · have hsteps : later.length + s'.stepsLeft ≤ s.stepsLeft := by
      refine Transition.run_length_le
        (I := fun s => s.Inv maxReads maxSubagents) ?_
        (Transition.meets_of_forall_mem hgoes) hinv hlater
      intro _ _ _ h hgo hstep
      exact ⟨h.step hstep, stepsLeft_step h hgo hstep⟩
    have hbound := stepsLeft_le s
    omega
  · intro hstuck
    have hreturned : ∀ c ∈ s'.calls, c.phase.inProgress = false := by
      intro c hc
      by_contra hprogress
      rcases hinv'.exists_step hreads hsubagents hc (by simpa using hprogress)
        with ⟨e, next, hgo, hstep⟩
      rw [hstuck e hgo] at hstep
      exact absurd hstep (by simp)
    refine ⟨hreturned, ?_, hinv'.lanesHold.dropped hreturned⟩
    apply hinv'.lanesHold.quiet
    intro c hc
    by_contra huse
    have hprogress := CallPhase.inProgress_of_inUse (by simpa using huse)
    rw [hreturned c hc] at hprogress
    exact Bool.noConfusion hprogress

/-- The two calls that wait are granted one after the other. -/
theorem run_drains_threeCalls :
    ∃ s s', Transition.run step (new 4 4) threeCalls = some s ∧
      Transition.run step s
        [.settle 0, .start 1, .settle 1, .start 2, .settle 2] = some s' ∧
      ∀ key, s'.sessionLanes key = none := by
  refine ⟨_, _, rfl, rfl, ?_⟩
  refine ((run_drains 4 4 (by decide) (by decide) threeCalls _ rfl
    [.settle 0, .start 1, .settle 1, .start 2, .settle 2] _ rfl
    (by decide)).2 ?_).2.2
  intro e hgoes
  exact step_of_returned (by decide +kernel) hgoes

end ToolScheduler
end QiForge
