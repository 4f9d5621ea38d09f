import QiForge.RunRecoveryBound

/-!
# The frame numbers of a run's attempts

A recovery takes its numbers from the base of its generation, and a deferred
attempt goes on from where the buffer stands.  While the frames handed out
between two resets fit in the span of one generation, everything numbered so
far lies below the base of the next, whether it was packed, recorded or lost.
-/

namespace QiForge
namespace RunRecovery

variable {Checkpoint : Type*} [DecidableEq Checkpoint]
  {config : Config} {record record' : Record Checkpoint}
  {l l' : Live Checkpoint} {s s' : State Checkpoint}
  {e : Event Checkpoint} {attempts attempts' : List Attempt}
  {packedTo packedTo' : ℕ}

/-! ## What a step does to the numbers -/

/-- How a step of a live run changes the attempts. -/
inductive AttemptsMove (l l' : Live Checkpoint) :
    List Attempt → List Attempt → Prop
  | same (attempts : List Attempt) : AttemptsMove l l' attempts attempts
  | started (attempts : List Attempt) :
      AttemptsMove l l' attempts (⟨l.seq, l'.seq⟩ :: attempts)
  | pushed (attempt : Attempt) (older : List Attempt) :
      AttemptsMove l l' (attempt :: older)
        ({ attempt with last := l'.seq } :: older)

/-- What a step of a live run, other than a reset, does to the numbers. -/
structure NumbersMove (record : Record Checkpoint) (l : Live Checkpoint)
    (s s' : State Checkpoint) (frames : ℕ) (record' : Record Checkpoint)
    (l' : Live Checkpoint) : Prop where
  row : s'.row = some record'
  live : s'.live = some l'
  startSeq : l'.startSeq = l.startSeq
  seq : l'.seq = l.seq + frames
  generation : record'.generation = record.generation
  liveGeneration : l'.record.generation = l.record.generation
  lastSeq : record'.lastSeq = record.lastSeq ∨ record'.lastSeq = l.seq
  queued : record'.status = .queued →
    record.status = .queued ∧ record'.lastSeq = record.lastSeq
  packed : s'.packedTo = s.packedTo ∨ s'.packedTo ≤ l.seq
  attempts : AttemptsMove l l' s.attempts s'.attempts

omit [DecidableEq Checkpoint] in
/-- Only the live run changes. -/
theorem NumbersMove.of_live {frames : ℕ} (hrow : s.row = some record)
    (hstartSeq : l'.startSeq = l.startSeq)
    (hseq : l'.seq = l.seq + frames)
    (hgeneration : l'.record.generation = l.record.generation) :
    NumbersMove record l s { s with live := some l' } frames record l' where
  row := hrow
  live := rfl
  startSeq := hstartSeq
  seq := hseq
  generation := rfl
  liveGeneration := hgeneration
  lastSeq := .inl rfl
  queued := fun hqueued => ⟨hqueued, rfl⟩
  packed := .inl rfl
  attempts := .same _

theorem liveStep_numbers (hrow : s.row = some record) (hlive : s.live = some l)
    (hsound : PhaseSound config l s.attempts)
    (hreset : e ≠ .reset)
    (hstep : s.liveStep config l e = some s') :
    ∃ record' l', NumbersMove record l s s' (State.framesOf l e) record'
      l' := by
  cases e with
  | create queued current => simp [State.liveStep] at hstep
  | recoverOrphans current now => simp [State.liveStep] at hstep
  | reset => exact absurd rfl hreset
  | announceQueued =>
      cases hphase : l.phase <;>
        simp only [State.liveStep, hphase, reduceCtorEq] at hstep
      cases hstep
      exact ⟨record, _, .of_live hrow rfl rfl rfl⟩
  | dequeue =>
      cases hphase : l.phase <;>
        simp only [State.liveStep, hphase, reduceCtorEq] at hstep
      cases hstep
      exact ⟨record, _, .of_live hrow rfl rfl rfl⟩
  | dequeueWritten current =>
      cases hphase : l.phase <;>
        simp only [State.liveStep, hphase, reduceCtorEq] at hstep
      split_ifs at hstep with habort
      · cases hstep
        exact ⟨_, _, write_row _ _ hrow, rfl, rfl, rfl, rfl, rfl, .inl rfl,
          by simp, .inl rfl, .same _⟩
      · cases hstep
        exact ⟨_, _, startAttempt_row (write_row _ _ hrow), rfl, rfl, rfl, rfl,
          rfl, .inl rfl, by simp, .inl rfl, .started _⟩
  | dequeueThrows =>
      cases hphase : l.phase <;>
        simp only [State.liveStep, hphase, reduceCtorEq] at hstep
      cases hstep
      exact ⟨record, _, .of_live hrow rfl rfl rfl⟩
  | push frames =>
      cases hphase : l.phase <;>
        simp only [State.liveStep, hphase, reduceCtorEq] at hstep
      cases hattempts : s.attempts with
      | nil => simp [hattempts] at hstep
      | cons attempt older =>
          rw [hattempts] at hstep
          cases hstep
          refine ⟨record, _, hrow, rfl, rfl, rfl, rfl, rfl, .inl rfl,
            fun hqueued => ⟨hqueued, rfl⟩, .inl rfl, ?_⟩
          rw [hattempts]
          exact .pushed attempt older
  | pack upTo =>
      simp only [State.liveStep] at hstep
      split_ifs at hstep with hpack
      cases hstep
      exact ⟨record, l, hrow, hlive, rfl, rfl, rfl, rfl, .inl rfl,
        fun hqueued => ⟨hqueued, rfl⟩, .inr hpack.2.1, .same _⟩
  | attemptEnds outcome =>
      cases hphase : l.phase <;>
        simp only [State.liveStep, hphase, reduceCtorEq] at hstep
      split_ifs at hstep with hactive
      cases hstep
      exact ⟨record, _, .of_live hrow rfl rfl rfl⟩
  | attemptDefers now =>
      cases hphase : l.phase <;>
        simp only [State.liveStep, hphase, reduceCtorEq] at hstep
      split_ifs at hstep with habort
      · cases hstep
        exact ⟨record, _, .of_live hrow rfl rfl rfl⟩
      cases hdecision : decideRecovery l.record l.record.checkpointId now
          config
      all_goals
        rw [hdecision] at hstep
        cases hstep
        exact ⟨record, _, .of_live hrow rfl rfl rfl⟩
  | deferWritten =>
      cases hphase : l.phase <;>
        simp only [State.liveStep, hphase, reduceCtorEq] at hstep
      cases hstep
      exact ⟨_, _, write_row _ _ hrow, rfl, rfl, rfl, rfl, rfl, .inl rfl,
        by simp, .inl rfl, .same _⟩
  | deferThrows =>
      cases hphase : l.phase <;>
        simp only [State.liveStep, hphase, reduceCtorEq] at hstep
      cases hstep
      exact ⟨record, _, .of_live hrow rfl rfl rfl⟩
  | resumeDue now =>
      cases hphase : l.phase <;>
        simp only [State.liveStep, hphase, reduceCtorEq] at hstep
      split_ifs at hstep
      cases hstep
      exact ⟨record, _, .of_live hrow rfl rfl rfl⟩
  | resumeWritten current =>
      cases hphase : l.phase <;>
        simp only [State.liveStep, hphase, reduceCtorEq] at hstep
      split_ifs at hstep with habort hfirst
      · cases hstep
        exact ⟨_, _, write_row _ _ hrow, rfl, rfl,
          by simp [State.framesOf, habort], rfl, rfl, .inl rfl,
          by simp, .inl rfl, .same _⟩
      · cases hstep
        exact ⟨_, _, startAttempt_row (write_row _ _ hrow), rfl, rfl,
          by simp [State.framesOf, habort, hfirst], rfl, rfl, .inl rfl,
          by simp, .inl rfl, .started _⟩
      · cases hstep
        exact ⟨_, _, startAttempt_row (write_row _ _ hrow), rfl, rfl,
          by simp [State.framesOf, habort, hfirst], rfl, rfl, .inl rfl,
          by simp, .inl rfl, .started _⟩
  | resumeThrows written =>
      cases hphase : l.phase <;>
        simp only [State.liveStep, hphase, reduceCtorEq] at hstep
      cases hstep
      refine ⟨_, _, write_row _ _ hrow, rfl, rfl, rfl, ?_, ?_, .inl ?_, ?_,
        .inl rfl, .same _⟩
      all_goals cases written <;> simp
  | abort =>
      cases hphase : l.phase <;>
        simp only [State.liveStep, hphase, reduceCtorEq] at hstep
      all_goals
        cases hstep
        exact ⟨record, _, .of_live hrow rfl rfl rfl⟩
  | pushClosing frames =>
      cases hphase : l.phase <;>
        simp only [State.liveStep, hphase, reduceCtorEq] at hstep
      split_ifs at hstep
      cases hstep
      exact ⟨record, _, .of_live hrow rfl rfl rfl⟩
  | closeSettles written =>
      cases hphase : l.phase <;>
        simp only [State.liveStep, hphase, reduceCtorEq] at hstep
      rename_i outcome
      rw [PhaseSound, hphase] at hsound
      have hqueued : outcome ≠ .queued := by
        rintro rfl
        simp [RunStatus.isActive] at hsound
      split_ifs at hstep
      · cases hstep
        exact ⟨_, _, write_row l .over hrow, rfl, rfl, rfl, rfl, rfl, .inr rfl,
          fun hstatus => absurd hstatus hqueued, .inr (Nat.zero_le _),
          .same _⟩
      · cases hstep
        exact ⟨record, _, .of_live hrow rfl rfl rfl⟩

/-! ## The invariant -/

/-- Everything numbered so far lies at or below this. -/
def reached (record : Record Checkpoint) : Option (Live Checkpoint) → ℕ
  | none => attemptSeqBase (record.generation + 1)
  | some l => l.seq

/-- The numbers of a run with a row. -/
structure Numbered (record : Record Checkpoint) (packedTo : ℕ)
    (live : Option (Live Checkpoint)) (attempts : List Attempt) : Prop where
  ordered : attempts.Pairwise fun later earlier => earlier.last ≤ later.first
  below : ∀ attempt ∈ attempts, attempt.last ≤ reached record live
  recorded : record.lastSeq ≤ attemptSeqBase (record.generation + 1)
  packed : packedTo ≤ attemptSeqBase (record.generation + 1)
  queued : record.status = .queued → record.generation = 0 ∧ record.lastSeq = 0
  agrees : ∀ l, live = some l → l.record.generation = record.generation
  startSeq : ∀ l, live = some l → l.startSeq = attemptSeqBase record.generation
  within : ∀ l, live = some l →
    l.startSeq ≤ l.seq ∧ l.seq ≤ attemptSeqBase (record.generation + 1)

theorem attemptSeqBase_succ (generation : ℕ) :
    attemptSeqBase (generation + 1) =
      attemptSeqBase generation + SEQ_ATTEMPT_SPAN :=
  Nat.succ_mul generation SEQ_ATTEMPT_SPAN

theorem attemptSeqBase_zero : attemptSeqBase 0 = 0 :=
  Nat.zero_mul SEQ_ATTEMPT_SPAN

omit [DecidableEq Checkpoint] in
theorem AttemptsMove.ordered (h : AttemptsMove l l' attempts attempts')
    (hordered :
      attempts.Pairwise fun later earlier => earlier.last ≤ later.first)
    (hbelow : ∀ attempt ∈ attempts, attempt.last ≤ l.seq) :
    attempts'.Pairwise fun later earlier => earlier.last ≤ later.first := by
  cases h with
  | same => exact hordered
  | started => exact List.pairwise_cons.mpr ⟨hbelow, hordered⟩
  | pushed attempt older =>
      rcases List.pairwise_cons.mp hordered with ⟨hfirst, holder⟩
      exact List.pairwise_cons.mpr ⟨hfirst, holder⟩

omit [DecidableEq Checkpoint] in
theorem AttemptsMove.below (h : AttemptsMove l l' attempts attempts')
    (hseq : l.seq ≤ l'.seq)
    (hbelow : ∀ attempt ∈ attempts, attempt.last ≤ l.seq) :
    ∀ attempt ∈ attempts', attempt.last ≤ l'.seq := by
  intro attempt hattempt
  cases h with
  | same => exact (hbelow attempt hattempt).trans hseq
  | started =>
      rcases List.mem_cons.mp hattempt with rfl | holder
      · exact le_rfl
      · exact (hbelow attempt holder).trans hseq
  | pushed newest older =>
      rcases List.mem_cons.mp hattempt with rfl | holder
      · exact le_rfl
      · exact (hbelow attempt (List.mem_cons_of_mem _ holder)).trans hseq

omit [DecidableEq Checkpoint] in
theorem Numbered.move (h : Numbered record s.packedTo (some l) s.attempts)
    {frames : ℕ}
    (hmove : NumbersMove record l s s' frames record' l')
    (hspan : l.seq + frames ≤ l.startSeq + SEQ_ATTEMPT_SPAN) :
    Numbered record' s'.packedTo (some l') s'.attempts := by
  have hbelow : ∀ attempt ∈ s.attempts, attempt.last ≤ l.seq := h.below
  have hstart := h.startSeq l rfl
  have hwithin := h.within l rfl
  have hseq := hmove.seq
  have hsame : attemptSeqBase (record'.generation + 1) =
      attemptSeqBase (record.generation + 1) := by
    rw [hmove.generation]
  have hnext := attemptSeqBase_succ record.generation
  constructor
  case ordered => exact hmove.attempts.ordered h.ordered hbelow
  case below => exact hmove.attempts.below (by omega) hbelow
  case recorded =>
    have hrecorded := h.recorded
    rw [hsame]
    rcases hmove.lastSeq with hlast | hlast <;> omega
  case packed =>
    have hpacked := h.packed
    rw [hsame]
    rcases hmove.packed with hpack | hpack <;> omega
  case queued =>
    intro hqueued
    rcases hmove.queued hqueued with ⟨hbefore, hlast⟩
    rw [hmove.generation, hlast]
    exact h.queued hbefore
  case agrees =>
    intro m hm
    cases hm
    rw [hmove.liveGeneration, hmove.generation]
    exact h.agrees l rfl
  case startSeq =>
    intro m hm
    cases hm
    rw [hmove.startSeq, hmove.generation]
    exact hstart
  case within =>
    intro m hm
    cases hm
    rw [hsame, hmove.startSeq]
    omega

omit [DecidableEq Checkpoint] in
/-- A reset leaves everything below the base of the next generation. -/
theorem Numbered.reset (h : Numbered record packedTo (some l) attempts) :
    Numbered record packedTo none attempts where
  ordered := h.ordered
  below := fun attempt hattempt =>
    (h.below attempt hattempt).trans (h.within l rfl).2
  recorded := h.recorded
  packed := h.packed
  queued := h.queued
  agrees := by simp
  startSeq := by simp
  within := by simp

omit [DecidableEq Checkpoint] in
/-- A live run opened at the base of its generation. -/
theorem Numbered.of_open {phase : Phase} (hordered :
      attempts.Pairwise fun later earlier => earlier.last ≤ later.first)
    (hbelow : ∀ attempt ∈ attempts,
      attempt.last ≤ attemptSeqBase record.generation)
    (hrecorded : record.lastSeq ≤ attemptSeqBase (record.generation + 1))
    (hpacked : packedTo ≤ attemptSeqBase (record.generation + 1))
    (hqueued : record.status = .queued →
      record.generation = 0 ∧ record.lastSeq = 0) :
    Numbered record packedTo
      (some (State.open record (attemptSeqBase record.generation) phase))
      attempts where
  ordered := hordered
  below := hbelow
  recorded := hrecorded
  packed := hpacked
  queued := hqueued
  agrees := by
    intro l hl
    cases hl
    rfl
  startSeq := by
    intro l hl
    cases hl
    rfl
  within := by
    intro l hl
    cases hl
    refine ⟨le_rfl, ?_⟩
    rw [attemptSeqBase_succ]
    exact Nat.le_add_right _ _

theorem attemptSeqBase_le_succ (generation : ℕ) :
    attemptSeqBase generation ≤ attemptSeqBase (generation + 1) := by
  rw [attemptSeqBase_succ]
  exact Nat.le_add_right _ _

/-- Whatever was packed or recorded, the next generation starts at its own
base. -/
theorem Numbered.recover (current : Option Checkpoint) (now : ℕ)
    (h : Numbered record s.packedTo none s.attempts)
    (hstatus : record.status ≠ .queued) :
    ∃ record', (s.recover config record current now).row = some record' ∧
      Numbered record' (s.recover config record current now).packedTo
        (s.recover config record current now).live
        (s.recover config record current now).attempts := by
  have hle := attemptSeqBase_le_succ (record.generation + 1)
  have hstart : max (max record.lastSeq s.packedTo)
      (attemptSeqBase (record.generation + 1)) =
        attemptSeqBase (record.generation + 1) :=
    max_eq_right (max_le h.recorded h.packed)
  rw [State.recover]
  cases decideOrphanRecovery record current now config with
  | interrupt spent reason =>
      refine ⟨{ record with generation := record.generation + 1 }, rfl, ?_⟩
      simp only [hstart]
      exact .of_open h.ordered h.below (h.recorded.trans hle)
        (h.packed.trans hle) fun hqueued => absurd hqueued hstatus
  | schedule nextAt attempts =>
      refine ⟨_, rfl, ?_⟩
      simp only [hstart]
      exact .of_open h.ordered h.below (h.recorded.trans hle)
        (h.packed.trans hle) (by simp)

omit [DecidableEq Checkpoint] in
theorem Numbered.of_new {phase : Phase} (hgeneration : record.generation = 0)
    (hlast : record.lastSeq = 0)
    (hordered :
      attempts.Pairwise fun later earlier => earlier.last ≤ later.first)
    (hbelow : ∀ attempt ∈ attempts, attempt.last = 0) :
    Numbered record 0 (some (State.open record 0 phase)) attempts := by
  have hstart : 0 = attemptSeqBase record.generation := by
    rw [hgeneration, attemptSeqBase_zero]
  have hopen : Numbered record 0
      (some (State.open record (attemptSeqBase record.generation) phase))
      attempts :=
    .of_open hordered
      (fun attempt hattempt => by simp [hbelow attempt hattempt])
      (hlast ▸ Nat.zero_le _) (Nat.zero_le _)
      fun _ => ⟨hgeneration, hlast⟩
  rwa [← hstart] at hopen

omit [DecidableEq Checkpoint] in
/-- A queued run starts where it was left, at no frames. -/
theorem Numbered.requeue (h : Numbered record packedTo none attempts)
    (hqueued : record.status = .queued)
    (hempty : attempts = []) :
    Numbered record packedTo
      (some (State.open record record.lastSeq .queued)) attempts := by
  rcases h.queued hqueued with ⟨hgeneration, hlast⟩
  have hstart : record.lastSeq = attemptSeqBase record.generation := by
    rw [hgeneration, hlast, attemptSeqBase_zero]
  rw [hstart]
  subst hempty
  exact .of_open .nil (by simp) h.recorded h.packed h.queued

/-- The numbers of a run, also before it has a row. -/
def NumbersHold (s : State Checkpoint) : Prop :=
  match s.row with
  | none => s.attempts = [] ∧ s.packedTo = 0
  | some record => Numbered record s.packedTo s.live s.attempts

theorem NumbersHold.step (hbounded : Bounded config s) (h : NumbersHold s)
    (hspan : s.WithinSpan e)
    (hstep : s.step config e = some s') :
    NumbersHold s' := by
  cases hlive : s.live with
  | some l =>
      cases hrow : s.row with
      | none =>
          rw [Bounded, hrow] at hbounded
          simp [hbounded.1] at hlive
      | some record =>
          rw [Bounded, hrow, hlive] at hbounded
          rw [NumbersHold, hrow, hlive] at h
          simp only [State.step, hlive] at hstep
          by_cases hreset : e = .reset
          · subst hreset
            cases hstep
            rw [NumbersHold, hrow]
            exact h.reset
          obtain ⟨record', l', hmove⟩ := liveStep_numbers hrow hlive
            (hbounded.phase l rfl) hreset hstep
          rw [NumbersHold, hmove.row, hmove.live]
          exact h.move hmove (hspan l hlive)
  | none =>
      cases hrow : s.row with
      | none =>
          obtain ⟨hempty, hpacked⟩ : s.attempts = [] ∧ s.packedTo = 0 := by
            rw [NumbersHold, hrow] at h
            exact h
          cases e <;>
            simp only [State.step, hlive, hrow, reduceCtorEq] at hstep
          case create queued current =>
            split_ifs at hstep
            · cases hstep
              change Numbered _ s.packedTo (some _) s.attempts
              rw [hempty, hpacked]
              exact .of_new rfl rfl .nil (by simp)
            · cases hstep
              change Numbered _ s.packedTo (some _) (_ :: s.attempts)
              rw [hempty, hpacked]
              exact .of_new rfl rfl (List.pairwise_singleton _ _)
                (by simp [State.open])
          case reset =>
            cases hstep
            exact h
      | some record =>
          rw [Bounded, hrow, hlive] at hbounded
          have hnumbered : Numbered record s.packedTo none s.attempts := by
            rw [NumbersHold, hrow, hlive] at h
            exact h
          cases e <;>
            simp only [State.step, hlive, hrow, reduceCtorEq] at hstep
          case recoverOrphans current now =>
            split_ifs at hstep with hqueued hactive
            · cases hstep
              exact hnumbered.requeue hqueued (hbounded.fresh hqueued)
            · cases hstep
              obtain ⟨record', hrow', h'⟩ :=
                Numbered.recover current now hnumbered hqueued
              rw [NumbersHold, hrow']
              exact h'
          case reset =>
            cases hstep
            exact h

end RunRecovery
end QiForge
