import QiForge.RunRecoveryNumbering

/-!
# The recovery of a run is bounded and its attempts are ordered

The account and the numbers hold in every state a run reaches, so the attempts
are bounded by the configuration alone, and while what is handed out between
two resets fits in the span of a generation every later attempt numbers its
frames above the earlier ones.  Small attempts are not enough: the deferred
attempts of a generation share its span.
-/

namespace QiForge
namespace RunRecovery

variable {Checkpoint : Type*} [DecidableEq Checkpoint]
  {config : Config} {s s' : State Checkpoint}
  {events : List (Event Checkpoint)}

open Transition

omit [DecidableEq Checkpoint] in
theorem Bounded.init : Bounded config (State.init : State Checkpoint) :=
  ⟨rfl, rfl⟩

omit [DecidableEq Checkpoint] in
theorem NumbersHold.init : NumbersHold (State.init : State Checkpoint) :=
  ⟨rfl, rfl⟩

theorem Bounded.run
    (hrun : run (State.step config) State.init events = some s) :
    Bounded config s :=
  run_preserves (fun _ _ _ h hstep => h.step hstep) Bounded.init hrun

theorem NumbersHold.run
    (hmeets : Meets (State.step config) State.WithinSpan State.init events)
    (hrun : run (State.step config) State.init events = some s) :
    NumbersHold s := by
  have hboth : Bounded config s ∧ NumbersHold s := run_preserves_of_meets
      (I := fun s => Bounded config s ∧ NumbersHold s)
      (fun _ _ _ h hspan hstep =>
        ⟨h.1.step hstep, h.2.step h.1 hspan hstep⟩)
      hmeets ⟨Bounded.init, NumbersHold.init⟩ hrun
  exact hboth.2

omit [DecidableEq Checkpoint] in
theorem Bounded.length_le (h : Bounded config s) :
    s.attempts.length ≤ attemptBound config := by
  cases hrow : s.row with
  | none =>
      rw [Bounded, hrow] at h
      simp [h.2]
  | some record =>
      rw [Bounded, hrow] at h
      exact h.length_le

omit [DecidableEq Checkpoint] in
theorem NumbersHold.ordered (h : NumbersHold s) : s.Ordered := by
  cases hrow : s.row with
  | none =>
      rw [NumbersHold, hrow] at h
      rw [State.Ordered, h.1]
      exact .nil
  | some record =>
      rw [NumbersHold, hrow] at h
      apply h.ordered.imp
      intro later earlier hle x y hx _ _ hy
      omega

/-- Every run starts at most `attemptBound config` attempts, and numbers
their frames in order when a generation stays within its span. -/
theorem recovery_bounded (config : Config)
    (events : List (Event Checkpoint)) (s : State Checkpoint)
    (hrun : run (State.step config) State.init events = some s) :
    s.attempts.length ≤ attemptBound config ∧
      (Meets (State.step config) State.WithinSpan State.init events →
        s.Ordered) := by
  refine ⟨(Bounded.run hrun).length_le, ?_⟩
  intro hmeets
  exact (NumbersHold.run hmeets hrun).ordered

instance (s : State Checkpoint) (e : Event Checkpoint) :
    Decidable (s.WithinSpan e) :=
  match h : s.live with
  | none => isTrue (by simp [State.WithinSpan, h])
  | some l =>
      decidable_of_iff
        (l.seq + State.framesOf l e ≤ l.startSeq + SEQ_ATTEMPT_SPAN)
        (by simp [State.WithinSpan, h])

def DEFAULT_RECOVERY_DELAYS_MS : List ℕ := [5000, 15000, 30000, 60000]

def defaultConfig : Config := ⟨4, 8, DEFAULT_RECOVERY_DELAYS_MS⟩

/-- An attempt, and after a reset one that is deferred once. -/
def deferredRun : List (Event ℕ) :=
  [.create false none, .push 3, .pack 2, .reset,
    .recoverOrphans (some 1) 0, .resumeDue 5000, .resumeWritten (some 1),
    .push 4, .attemptDefers 6000, .deferWritten, .resumeDue 21000,
    .resumeWritten (some 1), .push 2, .attemptEnds .finished]

def deferredState : State ℕ :=
  (run (State.step defaultConfig) State.init deferredRun).get (by rfl)

theorem recovery_bounded_deferred :
    deferredState.attempts.length ≤ attemptBound defaultConfig ∧
      deferredState.Ordered := by
  have h := recovery_bounded defaultConfig deferredRun deferredState
    (Option.some_get _).symm
  exact ⟨h.1, h.2 (by decide +kernel)⟩

/-! ## Small attempts are not enough -/

/-- Two deferrals and an attempt of `2 ^ 32 - 1` frames in the first
generation; the second starts at its base, below the frames that were not
packed. -/
def crowdedRun : List (Event ℕ) := [.create false none, .reset,
    .recoverOrphans (some 1) 0, .resumeDue 5000, .resumeWritten (some 1),
    .attemptDefers 5000, .deferWritten, .resumeDue 20000,
    .resumeWritten (some 1),
    .attemptDefers 20000, .deferWritten, .resumeDue 50000,
    .resumeWritten (some 1), .push (2 ^ 32 - 2), .pack (2 ^ 33), .reset,
    .recoverOrphans (some 2) 60000, .resumeDue 65000,
    .resumeWritten (some 2)]

def crowdedAttempts : List Attempt :=
  [⟨2 ^ 33, 2 ^ 33 + 1⟩, ⟨2 ^ 32 + 2, 2 ^ 33 + 1⟩,
    ⟨2 ^ 32 + 1, 2 ^ 32 + 2⟩, ⟨2 ^ 32, 2 ^ 32 + 1⟩, ⟨0, 0⟩]

theorem crowdedRun_attempts :
    (run (State.step defaultConfig) State.init crowdedRun).map
      State.attempts = some crowdedAttempts := by
  decide +kernel

theorem not_small_ordered : ¬ ∀ (events : List (Event ℕ)) (s : State ℕ),
      run (State.step defaultConfig) State.init events = some s →
        s.Small → s.Ordered := by
  intro hall
  rcases Option.map_eq_some_iff.mp crowdedRun_attempts with
    ⟨s, hrun, hattempts⟩
  have hsmall : s.Small := by
    rw [State.Small, hattempts]
    decide +kernel
  have hordered := hall crowdedRun s hrun hsmall
  rw [State.Ordered, hattempts] at hordered
  -- the `run` frame of the last attempt repeats a number
  have hfirst := (List.pairwise_cons.mp hordered).1 ⟨2 ^ 32 + 2, 2 ^ 33 + 1⟩
    (by decide +kernel) (2 ^ 33 + 1) (2 ^ 33 + 1)
  revert hfirst
  decide +kernel

end RunRecovery
end QiForge
