import QiForge.WriteClaims

/-!
# The recovery of one run

A run has a row, and a live record with its output buffer while an incarnation
of the object holds it.  A reset loses the live record; the next boot finds
the row and schedules a recovery attempt or closes the run.  An attempt that
is deferred goes back on the schedule within the same incarnation.  The row
counts consecutive attempts without progress and recoveries in all, and each
recovery numbers its frames from a base of its own.

An event is what happens between two awaits, with what the await came to.
-/

namespace QiForge
namespace RunRecovery

/-! ## The recovery decision -/

structure Config where
  recoveryAttempts : ℕ
  recoveryTotalAttempts : ℕ
  recoveryDelaysMs : List ℕ

structure Record (Checkpoint : Type*) where
  status : RunStatus
  attempts : ℕ
  generation : ℕ
  nextAttemptAt : Option ℕ
  checkpointId : Option Checkpoint
  startCheckpointId : Option Checkpoint
  startRecorded : Bool
  lastSeq : ℕ

inductive InterruptReason where
  | noProgress
  | total
  deriving DecidableEq, Repr

inductive RecoveryDecision where
  | schedule (nextAt attempts : ℕ)
  | interrupt (attempts : ℕ) (reason : InterruptReason)
  deriving DecidableEq, Repr

def SEQ_ATTEMPT_SPAN : ℕ := 2 ^ 32

def attemptSeqBase (generation : ℕ) : ℕ := generation * SEQ_ATTEMPT_SPAN

variable {Checkpoint : Type*} [DecidableEq Checkpoint]

/-- An unreadable checkpoint, `none`, never counts. -/
def checkpointAdvanced (since current : Option Checkpoint) : Bool :=
  current.isSome && decide (current ≠ since)

def runHasCheckpointed (run : Record Checkpoint)
    (current : Option Checkpoint) : Bool :=
  !run.startRecorded || checkpointAdvanced run.startCheckpointId current

def decideRecovery (run : Record Checkpoint) (current : Option Checkpoint)
    (now : ℕ) (config : Config) : RecoveryDecision :=
  let spent :=
    if checkpointAdvanced run.checkpointId current then 0 else run.attempts
  if config.recoveryAttempts ≤ spent then .interrupt spent .noProgress
  else
    let delays := config.recoveryDelaysMs
    let delay := (delays[min spent (delays.length - 1)]?).getD 0
    .schedule (now + delay) (spent + 1)

def decideOrphanRecovery (run : Record Checkpoint)
    (current : Option Checkpoint) (now : ℕ) (config : Config) :
    RecoveryDecision :=
  if config.recoveryTotalAttempts ≤ run.generation then
    .interrupt run.attempts .total
  else decideRecovery run current now config

/-! ## The run -/

/-- What the live run is doing.  `stranded` is a run whose resumption threw
once its row was written. -/
inductive Phase where
  | queued
  | dequeuing
  | attempting
  | deferring (nextAt attempts : ℕ)
  | waiting
  | resuming
  | stranded
  | ending (outcome : RunStatus)
  | closing (outcome : RunStatus)
  | over
  deriving DecidableEq, Repr

/-- The live run: its record, the numbers its buffer started from and has
reached, and whether it was aborted. -/
structure Live (Checkpoint : Type*) where
  record : Record Checkpoint
  startSeq : ℕ
  seq : ℕ
  aborted : Bool
  phase : Phase

/-- An attempt that was started; its frames are numbered above `first` and up
to `last`. -/
structure Attempt where
  first : ℕ
  last : ℕ
  deriving DecidableEq, Repr

/-- `packedTo` is the last number of the stored segments; `attempts` lists
the attempts started, the newest first. -/
structure State (Checkpoint : Type*) where
  row : Option (Record Checkpoint)
  packedTo : ℕ
  live : Option (Live Checkpoint)
  attempts : List Attempt

def State.init : State Checkpoint := ⟨none, 0, none, []⟩

inductive Event (Checkpoint : Type*) where
  | create (queued : Bool) (current : Option Checkpoint)
  | announceQueued
  | dequeue
  | dequeueWritten (current : Option Checkpoint)
  | dequeueThrows
  | push (frames : ℕ)
  | pack (upTo : ℕ)
  | attemptEnds (outcome : RunStatus)
  | attemptDefers (now : ℕ)
  | deferWritten
  | deferThrows
  | resumeDue (now : ℕ)
  | resumeWritten (current : Option Checkpoint)
  | resumeThrows (written : Bool)
  | abort
  | pushClosing (frames : ℕ)
  | closeSettles (written : Bool)
  | reset
  | recoverOrphans (current : Option Checkpoint) (now : ℕ)

namespace State

variable (config : Config) (s : State Checkpoint)

def «open» (record : Record Checkpoint) (startSeq : ℕ) (phase : Phase) :
    Live Checkpoint :=
  ⟨record, startSeq, startSeq, false, phase⟩

/-- `write`: the row, then the record. -/
def write (l : Live Checkpoint)
    (patch : Record Checkpoint → Record Checkpoint) (phase : Phase) :
    State Checkpoint :=
  { s with
    row := s.row.map patch
    live := some { l with record := patch l.record, phase } }

def move (l : Live Checkpoint) (phase : Phase) : State Checkpoint :=
  { s with live := some { l with phase } }

/-- `startAttempt`, with the frames pushed for it just before. -/
def startAttempt (l : Live Checkpoint) (frames : ℕ) : State Checkpoint :=
  { s with
    live := some { l with seq := l.seq + frames, phase := .attempting }
    attempts := ⟨l.seq, l.seq + frames⟩ :: s.attempts }

def failedUnlessAborted (l : Live Checkpoint) : RunStatus :=
  if l.aborted then .aborted else .failed

/-- The numbers and the record of an orphan's next attempt. -/
def recover (record : Record Checkpoint) (current : Option Checkpoint)
    (now : ℕ) : State Checkpoint :=
  let lastPacked := max record.lastSeq s.packedTo
  let generation := record.generation + 1
  let startSeq := max lastPacked (attemptSeqBase generation)
  match decideOrphanRecovery record current now config with
  | .interrupt _ _ =>
      { s with
        row := some { record with generation }
        live := some (State.open { record with generation } startSeq
            (.ending .interrupted)) }
  | .schedule nextAt attempts =>
      let patched := { record with
          status := .recovering
          attempts
          generation
          nextAttemptAt := some nextAt
          checkpointId := current }
      { s with
        row := some patched
        live := some (State.open patched startSeq .waiting) }

/-- One event of a live run. -/
def liveStep (l : Live Checkpoint) : Event Checkpoint →
    Option (State Checkpoint)
  | .announceQueued =>
      match l.phase with
      | .queued => some { s with live := some { l with seq := l.seq + 1 } }
      | _ => none
  | .dequeue =>
      match l.phase with
      | .queued =>
          some { s with
              live := some { l with
                    record := { l.record with status := .running }
                    phase := .dequeuing } }
      | _ => none
  | .dequeueWritten current =>
      match l.phase with
      | .dequeuing =>
          let patch := fun record : Record Checkpoint =>
            { record with
              status := .running
              checkpointId := current
              startCheckpointId := current
              startRecorded := true }
          if l.aborted then some (s.write l patch (.ending .aborted))
          else
            some ((s.write l patch .dequeuing).startAttempt
              { l with record := patch l.record } 0)
      | _ => none
  | .dequeueThrows =>
      match l.phase with
      | .dequeuing => some (s.move l (.ending (failedUnlessAborted l)))
      | _ => none
  | .push frames =>
      match l.phase, s.attempts with
      | .attempting, attempt :: older =>
          some { s with
              live := some { l with seq := l.seq + frames }
              attempts := { attempt with last := l.seq + frames } :: older }
      | _, _ => none
  | .pack upTo =>
      if s.packedTo ≤ upTo ∧ upTo ≤ l.seq ∧ l.phase ≠ .over then
        some { s with packedTo := upTo }
      else none
  | .attemptEnds outcome =>
      match l.phase with
      | .attempting =>
          if outcome.isActive then none
          else some (s.move l (.ending outcome))
      | _ => none
  | .attemptDefers now =>
      match l.phase with
      | .attempting =>
          if l.aborted then some (s.move l (.ending .aborted))
          else
            match decideRecovery l.record l.record.checkpointId now config with
            | .interrupt _ _ => some (s.move l (.ending .failed))
            | .schedule nextAt attempts =>
                some (s.move l (.deferring nextAt attempts))
      | _ => none
  | .deferWritten =>
      match l.phase with
      | .deferring nextAt attempts =>
          some (s.write l (fun record =>
              { record with
                status := .recovering
                attempts
                nextAttemptAt := some nextAt })
            (if l.aborted then .ending .aborted else .waiting))
      | _ => none
  | .deferThrows =>
      match l.phase with
      | .deferring _ _ => some (s.move l (.ending (failedUnlessAborted l)))
      | _ => none
  | .resumeDue now =>
      match l.phase with
      | .waiting =>
          if (l.record.nextAttemptAt.getD now) ≤ now then
            some (s.move l .resuming)
          else none
      | _ => none
  | .resumeWritten current =>
      match l.phase with
      | .resuming =>
          let patch := fun record : Record Checkpoint =>
            { record with status := .running, nextAttemptAt := none }
          if l.aborted then some (s.write l patch (.ending .aborted))
          else
            -- a resumed attempt announces itself with a `run` frame
            some ((s.write l patch .resuming).startAttempt
              { l with record := patch l.record }
              (if runHasCheckpointed l.record current then 1 else 0))
      | _ => none
  | .resumeThrows written =>
      match l.phase with
      | .resuming =>
          let patch := fun record : Record Checkpoint =>
            if written then
              { record with status := .running, nextAttemptAt := none }
            else record
          some (s.write l patch (if l.aborted then .ending .aborted
            else if written then .stranded
            else .waiting))
      | _ => none
  | .abort =>
      let aborted := { l with aborted := true }
      match l.phase with
      | .queued | .waiting | .stranded =>
          some (s.move aborted (.ending .aborted))
      | .dequeuing | .attempting | .deferring _ _ | .resuming =>
          some { s with live := some aborted }
      | .ending _ | .closing _ | .over => none
  | .pushClosing frames =>
      match l.phase with
      | .ending outcome =>
          if frames ≤ 2 then
            some { s with
                live := some { l with
                      seq := l.seq + frames
                      phase := .closing outcome } }
          else none
      | _ => none
  | .closeSettles written =>
      match l.phase with
      | .closing outcome =>
          if written then
            some { (s.write l
                (fun record =>
                  { record with
                    status := outcome
                    lastSeq := l.seq
                    nextAttemptAt := none }) .over) with
                packedTo := 0 }
          else some (s.move l .over)
      | _ => none
  | .reset => some { s with live := none }
  | .create _ _ | .recoverOrphans _ _ => none

def step : Event Checkpoint → Option (State Checkpoint) := fun e =>
  match s.live, s.row, e with
  | some l, _, e => s.liveStep config l e
  | none, none, .create queued current =>
      let record : Record Checkpoint :=
        { status := if queued then .queued else .running
          attempts := 0
          generation := 0
          nextAttemptAt := none
          checkpointId := current
          startCheckpointId := current
          startRecorded := true
          lastSeq := 0 }
      let s' := { s with row := some record }
      if queued then
        some { s' with live := some (State.open record 0 .queued) }
      else some (s'.startAttempt (State.open record 0 .attempting) 0)
  | none, some record, .recoverOrphans current now =>
      if record.status = .queued then
        some { s with
            live := some (State.open record record.lastSeq .queued) }
      else if record.status.isActive then
        some (s.recover config record current now)
      else none
  | none, _, .reset => some s
  | none, _, _ => none

/-! ## What is claimed -/

/-- The frames of a later attempt are numbered above those of the earlier
ones. -/
def Ordered : Prop := s.attempts.Pairwise fun later earlier =>
    ∀ x y, later.first < x → x ≤ later.last → earlier.first < y →
      y ≤ earlier.last → y < x

/-- Each attempt hands out fewer than `2 ^ 32` frames. -/
def Small : Prop :=
  ∀ attempt ∈ s.attempts, attempt.last - attempt.first < SEQ_ATTEMPT_SPAN

/-- The frames a step hands out. -/
def framesOf (l : Live Checkpoint) : Event Checkpoint → ℕ
  | .announceQueued => 1
  | .push frames => frames
  | .pushClosing frames => frames
  | .resumeWritten current =>
      if l.aborted = false ∧ runHasCheckpointed l.record current then 1
      else 0
  | _ => 0

/-- What the run hands out between two resets stays within the span. -/
def WithinSpan (e : Event Checkpoint) : Prop := ∀ l, s.live = some l →
    l.seq + framesOf l e ≤ l.startSeq + SEQ_ATTEMPT_SPAN

end State
end RunRecovery
end QiForge
