import QiForge.RunRecovery

/-!
# The bound on the recoveries of a run

Within a generation every attempt but the first follows a deferral, which
counts against the attempts without progress; a generation past the first
follows a recovery, which counts against the recoveries in all.  So the two
counters bound the attempts whatever the checkpoint does in between, also when
the row of a run could not be closed and the run is recovered again.
-/

namespace QiForge
namespace RunRecovery

variable {Checkpoint : Type*} [DecidableEq Checkpoint]

/-! ## The counters -/

variable {run : Record Checkpoint}

theorem decideRecovery_schedule
    {current : Option Checkpoint} {now nextAt attempts : ℕ} {config : Config}
    (h : decideRecovery run current now config = .schedule nextAt attempts) :
    attempts ≤ config.recoveryAttempts := by
  simp only [decideRecovery] at h
  split_ifs at h with hadvanced hspent hspent
  · obtain ⟨-, rfl⟩ := RecoveryDecision.schedule.inj h
    omega
  · obtain ⟨-, rfl⟩ := RecoveryDecision.schedule.inj h
    omega

/-- A deferral makes no progress. -/
theorem decideRecovery_deferred {now nextAt attempts : ℕ} {config : Config}
    (h : decideRecovery run run.checkpointId now config =
      .schedule nextAt attempts) : attempts = run.attempts + 1 := by
  have hsame : checkpointAdvanced run.checkpointId run.checkpointId =
      false := by
    simp [checkpointAdvanced]
  simp only [decideRecovery, hsame, Bool.false_eq_true, if_false] at h
  split_ifs at h
  exact (RecoveryDecision.schedule.inj h).2.symm

theorem decideOrphanRecovery_schedule
    {current : Option Checkpoint} {now nextAt attempts : ℕ} {config : Config}
    (h : decideOrphanRecovery run current now config =
      .schedule nextAt attempts) :
    run.generation < config.recoveryTotalAttempts ∧
      attempts ≤ config.recoveryAttempts := by
  simp only [decideOrphanRecovery] at h
  split_ifs at h with htotal
  exact ⟨Nat.lt_of_not_le htotal, decideRecovery_schedule h⟩

/-! ## The invariant -/

/-- An attempt is still to come that has been accounted for. -/
def Phase.pending : Phase → ℕ
  | .queued | .dequeuing | .waiting | .resuming => 1
  | .attempting | .deferring _ _ | .stranded | .ending _ | .closing _
  | .over => 0

def attemptBound (config : Config) : ℕ :=
  (config.recoveryTotalAttempts + 1) * (config.recoveryAttempts + 1)

/-- What the counters of the row allow. -/
def allowance (config : Config) (record : Record Checkpoint) : ℕ :=
  min record.generation config.recoveryTotalAttempts *
    (config.recoveryAttempts + 1) + 1 + record.attempts

def PhaseSound (config : Config) (l : Live Checkpoint)
    (attempts : List Attempt) : Prop :=
  match l.phase with
  | .queued | .dequeuing => attempts = []
  | .deferring _ next =>
      next = l.record.attempts + 1 ∧ next ≤ config.recoveryAttempts
  | .ending outcome | .closing outcome => outcome.isActive = false
  | .attempting | .waiting | .resuming | .stranded | .over => True

/-- The account of a run with a row. -/
structure Accounted (config : Config) (record : Record Checkpoint)
    (live : Option (Live Checkpoint)) (attempts : List Attempt) : Prop where
  spent : record.attempts ≤ config.recoveryAttempts
  fresh : record.status = .queued → attempts = []
  started : attempts.length ≤ allowance config record
  pending : ∀ l, live = some l →
    attempts.length + l.phase.pending ≤ allowance config record
  agrees : ∀ l, live = some l → l.record.attempts = record.attempts
  phase : ∀ l, live = some l → PhaseSound config l attempts

variable {config : Config} {record : Record Checkpoint}
  {l : Live Checkpoint} {attempts : List Attempt} {s s' : State Checkpoint}

omit [DecidableEq Checkpoint] in
theorem Accounted.length_le (h : Accounted config record live attempts) :
    attempts.length ≤ attemptBound config := by
  have hstarted := h.started
  have hspent := h.spent
  have hmin : min record.generation config.recoveryTotalAttempts *
      (config.recoveryAttempts + 1) ≤
        config.recoveryTotalAttempts * (config.recoveryAttempts + 1) :=
    Nat.mul_le_mul_right _ (Nat.min_le_right _ _)
  rw [allowance] at hstarted
  rw [attemptBound, Nat.succ_mul]
  omega

omit [DecidableEq Checkpoint] in
/-- The account of a run that is live. -/
theorem Accounted.of_live (hspent : record.attempts ≤ config.recoveryAttempts)
    (hfresh : record.status = .queued → attempts = [])
    (hagrees : l.record.attempts = record.attempts)
    (hpending : attempts.length + l.phase.pending ≤ allowance config record)
    (hphase : PhaseSound config l attempts) :
    Accounted config record (some l) attempts where
  spent := hspent
  fresh := hfresh
  started := (Nat.le_add_right _ _).trans hpending
  pending := by
    intro m hm
    cases hm
    exact hpending
  agrees := by
    intro m hm
    cases hm
    exact hagrees
  phase := by
    intro m hm
    cases hm
    exact hphase

variable {l' : Live Checkpoint} {record' : Record Checkpoint}

omit [DecidableEq Checkpoint] in
/-- A step that starts no attempt leaves the counters as they are. -/
theorem Accounted.move (h : Accounted config record (some l) attempts)
    {attempts' : List Attempt}
    (hlength : attempts'.length = attempts.length)
    (hattempts : record'.attempts = record.attempts)
    (hgeneration : record'.generation = record.generation)
    (hstatus : record'.status = .queued → record.status = .queued)
    (hagrees : l'.record.attempts = l.record.attempts)
    (hpending : l'.phase.pending ≤ l.phase.pending)
    (hphase : PhaseSound config l' attempts') :
    Accounted config record' (some l') attempts' := by
  have hle := h.pending l rfl
  have hallow : allowance config record' = allowance config record := by
    rw [allowance, allowance, hattempts, hgeneration]
  apply Accounted.of_live
  · exact hattempts ▸ h.spent
  · intro hqueued
    have hnil := h.fresh (hstatus hqueued)
    rw [hnil, List.length_nil] at hlength
    exact List.length_eq_zero_iff.mp hlength
  · rw [hagrees, hattempts, h.agrees l rfl]
  · rw [hlength, hallow]
    omega
  · exact hphase

omit [DecidableEq Checkpoint] in
/-- A step that changes no phase and no counter. -/
theorem Accounted.stay (h : Accounted config record (some l) attempts)
    {attempts' : List Attempt}
    (hlength : attempts'.length = attempts.length)
    (hrecord : l'.record = l.record)
    (hphase : l'.phase = l.phase) :
    Accounted config record (some l') attempts' := by
  have hsound := h.phase l rfl
  have hnil : attempts = [] → attempts' = [] := by
    rintro rfl
    exact List.length_eq_zero_iff.mp hlength
  apply h.move hlength rfl rfl id (by rw [hrecord]) (by rw [hphase])
  rw [PhaseSound] at hsound ⊢
  rw [hphase, hrecord]
  revert hsound
  cases l.phase with
  | queued => exact hnil
  | dequeuing => exact hnil
  | _ => exact id

omit [DecidableEq Checkpoint] in
/-- The pending attempt is started. -/
theorem Accounted.start (h : Accounted config record (some l) attempts)
    {attempt : Attempt}
    (hpending : l.phase.pending = 1)
    (hattempts : record'.attempts = record.attempts)
    (hgeneration : record'.generation = record.generation)
    (hstatus : record'.status = .running)
    (hagrees : l'.record.attempts = l.record.attempts)
    (hphase : l'.phase = .attempting) :
    Accounted config record' (some l') (attempt :: attempts) := by
  have hle := h.pending l rfl
  rw [hpending] at hle
  apply Accounted.of_live
  · exact hattempts ▸ h.spent
  · intro hqueued
    rw [hstatus] at hqueued
    simp at hqueued
  · rw [hagrees, hattempts, h.agrees l rfl]
  · rw [allowance, hattempts, hgeneration, hphase, List.length_cons]
    exact hle
  · rw [PhaseSound, hphase]
    trivial

omit [DecidableEq Checkpoint] in
/-- A deferral raises the allowance by the attempt it schedules. -/
theorem Accounted.defer (h : Accounted config record (some l) attempts)
    {next : ℕ}
    (hnext : next = l.record.attempts + 1)
    (hbound : next ≤ config.recoveryAttempts)
    (hattempts : record'.attempts = next)
    (hgeneration : record'.generation = record.generation)
    (hstatus : record'.status = .recovering)
    (hagrees : l'.record.attempts = next)
    (hphase : l'.phase = .waiting ∨ l'.phase = .ending .aborted) :
    Accounted config record' (some l') attempts := by
  have hallow : allowance config record' = allowance config record + 1 := by
    rw [allowance, allowance, hattempts, hgeneration, hnext, h.agrees l rfl]
    rfl
  have hpending : l'.phase.pending ≤ 1 := by
    rcases hphase with hphase | hphase <;> rw [hphase] <;> decide
  apply Accounted.of_live
  · exact hattempts ▸ hbound
  · intro hqueued
    rw [hstatus] at hqueued
    simp at hqueued
  · rw [hagrees, hattempts]
  · rw [hallow]
    exact Nat.add_le_add h.started hpending
  · rcases hphase with hphase | hphase <;> rw [PhaseSound, hphase]
    · trivial
    · rfl

omit [DecidableEq Checkpoint] in
theorem failedUnlessAborted_inactive (l : Live Checkpoint) :
    (State.failedUnlessAborted l).isActive = false := by
  rw [State.failedUnlessAborted]
  split_ifs <;> rfl

omit [DecidableEq Checkpoint] in
theorem write_row (l : Live Checkpoint) (phase : Phase)
    {patch : Record Checkpoint → Record Checkpoint}
    (hrow : s.row = some record) :
    (s.write l patch phase).row = some (patch record) := by
  rw [State.write, hrow]
  rfl

omit [DecidableEq Checkpoint] in
theorem startAttempt_row {frames : ℕ} (hrow : s.row = some record) :
    (s.startAttempt l frames).row = some record :=
  hrow

/-! ## Steps -/

/-- A step of a live run keeps the account. -/
theorem Accounted.liveStep {e : Event Checkpoint}
    (h : Accounted config record (some l) s.attempts)
    (hrow : s.row = some record)
    (hlive : s.live = some l)
    (hstep : s.liveStep config l e = some s') :
    ∃ record', s'.row = some record' ∧
      Accounted config record' s'.live s'.attempts := by
  have hsound := h.phase l rfl
  cases e with
  | create queued current => simp [State.liveStep] at hstep
  | recoverOrphans current now => simp [State.liveStep] at hstep
  | reset =>
      obtain rfl := Option.some.inj hstep
      exact ⟨record, hrow, h.spent, h.fresh, h.started, by simp, by simp,
        by simp⟩
  | announceQueued =>
      cases hphase : l.phase <;>
        simp only [State.liveStep, hphase, reduceCtorEq] at hstep
      obtain rfl := Option.some.inj hstep
      exact ⟨record, hrow, h.stay rfl rfl hphase.symm⟩
  | dequeue =>
      cases hphase : l.phase <;>
        simp only [State.liveStep, hphase, reduceCtorEq] at hstep
      obtain rfl := Option.some.inj hstep
      rw [PhaseSound, hphase] at hsound
      refine ⟨record, hrow, h.move rfl rfl rfl id rfl ?_ hsound⟩
      rw [hphase]
      rfl
  | dequeueWritten current =>
      cases hphase : l.phase <;>
        simp only [State.liveStep, hphase, reduceCtorEq] at hstep
      have hpending : l.phase.pending = 1 := by rw [hphase]; rfl
      split_ifs at hstep with habort
      · obtain rfl := Option.some.inj hstep
        refine ⟨_, write_row _ _ hrow, ?_⟩
        exact h.move rfl rfl rfl (by simp) rfl (by simp [Phase.pending]) rfl
      · obtain rfl := Option.some.inj hstep
        refine ⟨_, startAttempt_row (write_row _ _ hrow), ?_⟩
        exact h.start hpending rfl rfl rfl rfl rfl
  | dequeueThrows =>
      cases hphase : l.phase <;>
        simp only [State.liveStep, hphase, reduceCtorEq] at hstep
      obtain rfl := Option.some.inj hstep
      refine ⟨record, hrow, h.move rfl rfl rfl id rfl (Nat.zero_le _) ?_⟩
      exact failedUnlessAborted_inactive l
  | push frames =>
      cases hphase : l.phase <;>
        simp only [State.liveStep, hphase, reduceCtorEq] at hstep
      cases hattempts : s.attempts with
      | nil => simp [hattempts] at hstep
      | cons attempt older =>
          rw [hattempts] at hstep h
          obtain rfl := Option.some.inj hstep
          exact ⟨record, hrow, h.stay rfl rfl hphase.symm⟩
  | pack upTo =>
      simp only [State.liveStep] at hstep
      split_ifs at hstep
      obtain rfl := Option.some.inj hstep
      refine ⟨record, hrow, ?_⟩
      change Accounted config record s.live s.attempts
      rw [hlive]
      exact h
  | attemptEnds outcome =>
      cases hphase : l.phase <;>
        simp only [State.liveStep, hphase, reduceCtorEq] at hstep
      split_ifs at hstep with hactive
      obtain rfl := Option.some.inj hstep
      refine ⟨record, hrow, h.move rfl rfl rfl id rfl (Nat.zero_le _) ?_⟩
      simpa [PhaseSound] using hactive
  | attemptDefers now =>
      cases hphase : l.phase <;>
        simp only [State.liveStep, hphase, reduceCtorEq] at hstep
      split_ifs at hstep with habort
      · obtain rfl := Option.some.inj hstep
        exact ⟨record, hrow, h.move rfl rfl rfl id rfl (Nat.zero_le _) rfl⟩
      cases hdecision : decideRecovery l.record l.record.checkpointId now
          config with
      | interrupt spent reason =>
          rw [hdecision] at hstep
          obtain rfl := Option.some.inj hstep
          exact ⟨record, hrow, h.move rfl rfl rfl id rfl (Nat.zero_le _) rfl⟩
      | schedule nextAt attempts =>
          rw [hdecision] at hstep
          obtain rfl := Option.some.inj hstep
          refine ⟨record, hrow, h.move rfl rfl rfl id rfl (Nat.zero_le _) ?_⟩
          exact ⟨decideRecovery_deferred hdecision,
            decideRecovery_schedule hdecision⟩
  | deferWritten =>
      cases hphase : l.phase <;>
        simp only [State.liveStep, hphase, reduceCtorEq] at hstep
      rename_i nextAt next
      obtain rfl := Option.some.inj hstep
      rw [PhaseSound, hphase] at hsound
      refine ⟨_, write_row _ _ hrow, ?_⟩
      refine h.defer hsound.1 hsound.2 rfl rfl rfl rfl ?_
      cases l.aborted
      · exact .inl rfl
      · exact .inr rfl
  | deferThrows =>
      cases hphase : l.phase <;>
        simp only [State.liveStep, hphase, reduceCtorEq] at hstep
      obtain rfl := Option.some.inj hstep
      refine ⟨record, hrow, h.move rfl rfl rfl id rfl (Nat.zero_le _) ?_⟩
      exact failedUnlessAborted_inactive l
  | resumeDue now =>
      cases hphase : l.phase <;>
        simp only [State.liveStep, hphase, reduceCtorEq] at hstep
      split_ifs at hstep
      obtain rfl := Option.some.inj hstep
      refine ⟨record, hrow, h.move rfl rfl rfl id rfl ?_ trivial⟩
      rw [hphase]
      rfl
  | resumeWritten current =>
      cases hphase : l.phase <;>
        simp only [State.liveStep, hphase, reduceCtorEq] at hstep
      have hpending : l.phase.pending = 1 := by rw [hphase]; rfl
      split_ifs at hstep with habort
      · obtain rfl := Option.some.inj hstep
        refine ⟨_, write_row _ _ hrow, ?_⟩
        exact h.move rfl rfl rfl (by simp) rfl (Nat.zero_le _) rfl
      all_goals
        obtain rfl := Option.some.inj hstep
        refine ⟨_, startAttempt_row (write_row _ _ hrow), ?_⟩
        exact h.start hpending rfl rfl rfl rfl rfl
  | resumeThrows written =>
      cases hphase : l.phase <;>
        simp only [State.liveStep, hphase, reduceCtorEq] at hstep
      have hpending : l.phase.pending = 1 := by rw [hphase]; rfl
      obtain rfl := Option.some.inj hstep
      refine ⟨_, write_row _ _ hrow, ?_⟩
      apply h.move rfl
      · cases written <;> rfl
      · cases written <;> rfl
      · cases written <;> simp
      · cases written <;> rfl
      · rw [hpending]
        cases written <;> cases l.aborted <;> simp [Phase.pending]
      · cases written <;> cases l.aborted <;> first | rfl | trivial
  | abort =>
      cases hphase : l.phase <;>
        simp only [State.liveStep, hphase, reduceCtorEq] at hstep
      all_goals
        obtain rfl := Option.some.inj hstep
        refine ⟨record, hrow, ?_⟩
      case queued | waiting | stranded =>
        exact h.move rfl rfl rfl id rfl (Nat.zero_le _) rfl
      all_goals exact h.stay rfl rfl hphase.symm
  | pushClosing frames =>
      cases hphase : l.phase <;>
        simp only [State.liveStep, hphase, reduceCtorEq] at hstep
      split_ifs at hstep
      obtain rfl := Option.some.inj hstep
      rw [PhaseSound, hphase] at hsound
      exact ⟨record, hrow, h.move rfl rfl rfl id rfl (Nat.zero_le _) hsound⟩
  | closeSettles written =>
      cases hphase : l.phase <;>
        simp only [State.liveStep, hphase, reduceCtorEq] at hstep
      rename_i outcome
      rw [PhaseSound, hphase] at hsound
      have hqueued : outcome ≠ .queued := by
        rintro rfl
        simp [RunStatus.isActive] at hsound
      split_ifs at hstep
      · obtain rfl := Option.some.inj hstep
        refine ⟨_, write_row l .over hrow, ?_⟩
        exact h.move rfl rfl rfl (fun hstatus => absurd hstatus hqueued) rfl
          (Nat.zero_le _) trivial
      · obtain rfl := Option.some.inj hstep
        exact ⟨record, hrow, h.move rfl rfl rfl id rfl (Nat.zero_le _) trivial⟩

omit [DecidableEq Checkpoint] in
/-- A queued run is found as it was left. -/
theorem Accounted.requeue (h : Accounted config record none attempts)
    (hqueued : record.status = .queued) (startSeq : ℕ) :
    Accounted config record (some (State.open record startSeq .queued))
      attempts := by
  have hnil := h.fresh hqueued
  refine .of_live h.spent h.fresh rfl ?_ hnil
  rw [hnil, allowance, State.open, Phase.pending, List.length_nil]
  omega

/-- An orphan moves on to the next generation. -/
theorem Accounted.recover (current : Option Checkpoint) (now : ℕ)
    (h : Accounted config record none s.attempts)
    (hstatus : record.status ≠ .queued) :
    ∃ record', (s.recover config record current now).row = some record' ∧
      Accounted config record' (s.recover config record current now).live
        (s.recover config record current now).attempts := by
  have hstarted := h.started
  have hspent := h.spent
  rw [State.recover]
  cases hdecision : decideOrphanRecovery record current now config with
  | interrupt spent reason =>
      refine ⟨_, rfl, .of_live hspent (fun hqueued => absurd hqueued hstatus)
        rfl ?_ rfl⟩
      refine hstarted.trans ?_
      simp only [allowance]
      gcongr
      exact Nat.le_succ _
  | schedule nextAt attempts =>
      obtain ⟨htotal, hattempts⟩ := decideOrphanRecovery_schedule hdecision
      refine ⟨_, rfl, .of_live hattempts (by simp) rfl ?_ trivial⟩
      -- the recovery is below the total, so the product grows in full
      simp only [allowance, Nat.min_eq_left htotal.le,
        Nat.min_eq_left (Nat.succ_le_of_lt htotal)] at hstarted ⊢
      rw [Nat.succ_mul, State.open, Phase.pending]
      omega

/-- The account of a run, also before it has a row. -/
def Bounded (config : Config) (s : State Checkpoint) : Prop :=
  match s.row with
  | none => s.live = none ∧ s.attempts = []
  | some record => Accounted config record s.live s.attempts

theorem Bounded.step {e : Event Checkpoint} (h : Bounded config s)
    (hstep : s.step config e = some s') : Bounded config s' := by
  cases hlive : s.live with
  | some l =>
      cases hrow : s.row with
      | none =>
          rw [Bounded, hrow] at h
          simp [h.1] at hlive
      | some record =>
          rw [Bounded, hrow, hlive] at h
          simp only [State.step, hlive] at hstep
          obtain ⟨record', hrow', h'⟩ := h.liveStep hrow hlive hstep
          rw [Bounded, hrow']
          exact h'
  | none =>
      cases hrow : s.row with
      | none =>
          have hempty : s.attempts = [] := by
            rw [Bounded, hrow] at h
            exact h.2
          cases e <;>
            simp only [State.step, hlive, hrow, reduceCtorEq] at hstep
          case create queued current =>
            split_ifs at hstep
            · cases hstep
              refine Accounted.of_live (Nat.zero_le _) (fun _ => hempty) rfl
                ?_ hempty
              rw [hempty, allowance, State.open, Phase.pending,
                List.length_nil]
              omega
            · cases hstep
              refine Accounted.of_live (Nat.zero_le _) (by simp) rfl ?_ trivial
              rw [hempty, allowance]
              exact Nat.le_add_left _ _
          case reset =>
            cases hstep
            exact h
      | some record =>
          have haccount : Accounted config record none s.attempts := by
            rw [Bounded, hrow, hlive] at h
            exact h
          cases e <;>
            simp only [State.step, hlive, hrow, reduceCtorEq] at hstep
          case recoverOrphans current now =>
            split_ifs at hstep with hqueued hactive
            · cases hstep
              rw [Bounded]
              change Accounted config record (some _) s.attempts
              exact haccount.requeue hqueued record.lastSeq
            · cases hstep
              obtain ⟨record', hrow', h'⟩ :=
                Accounted.recover current now haccount hqueued
              rw [Bounded, hrow']
              exact h'
          case reset =>
            cases hstep
            exact h

end RunRecovery
end QiForge
