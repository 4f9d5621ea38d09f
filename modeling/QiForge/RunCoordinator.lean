import QiForge.WriteClaims

/-!
# The run coordinator

The runs of one user object: admission, queueing, aborts, attempts and their
deferral, the closing of a run, and the recovery of what a previous
incarnation left in the store.  An event is what one async function does
between two awaits; what an await came to, and the decision of a recovery, is
the event's choice.  A call that awaits another one of the coordinator may go
on at any time.  `runs` lists the `LiveRun` objects in the order they were
opened, `live` those that are in the map.
-/

namespace QiForge

structure RunRow where
  runId : String
  sessionId : String
  status : RunStatus
  nextAttemptAt : Option ℕ
deriving DecidableEq, Repr

structure LiveRun where
  runId : String
  sessionId : String
  status : RunStatus
  nextAttemptAt : Option ℕ
  live : Bool
  aborted : Bool
  attemptInFlight : Bool
  queuedBehindSuperseded : Bool
deriving DecidableEq, Repr

namespace LiveRun

def ofRow (row : RunRow) : LiveRun :=
  ⟨row.runId, row.sessionId, row.status, row.nextAttemptAt, true, false,
    false, false⟩

/-- Executing, or about to. -/
def isBusy (r : LiveRun) : Bool :=
  r.live && decide (r.status = .running ∨ r.status = .recovering)

def isQueued (r : LiveRun) : Bool := r.live && decide (r.status = .queued)

end LiveRun

inductive Multitask where
  | interrupt
  | enqueue
deriving DecidableEq, Repr

/-- Where a call of `begin` is: waiting for its turn, cancelling the runs that
are queued, waiting for the one it supersedes, admitted, or with its row
created. -/
inductive BeginPhase where
  | waiting
  | cancelling (rest : List ℕ)
  | grace
  | admitted (queued behindSuperseded : Bool)
  | created (queued behindSuperseded : Bool)
  | over
deriving DecidableEq, Repr

def BeginPhase.isAdmitted : BeginPhase → Bool
  | .admitted _ _ | .created _ _ => true
  | .waiting | .cancelling _ | .grace | .over => false

structure BeginCall where
  runId : String
  sessionId : String
  multitask : Multitask
  superseded : Bool
  phase : BeginPhase
deriving DecidableEq, Repr

/-- What a run with an attempt in flight is waiting for. -/
inductive RunActivity where
  | dequeuing
  | attempting
  | deferring (nextAt : ℕ)
  | resuming
  | resumed
deriving DecidableEq, Repr

structure FinalizeCall where
  run : ℕ
  status : RunStatus
  closed : Bool
deriving DecidableEq, Repr

inductive RecoverPhase where
  | reading (rest : List RunRow)
  | deciding (record : RunRow) (rest : List RunRow)
  | dequeuing (rest : List ℕ)
  | over
deriving DecidableEq, Repr

/-- The row a recovery looks at next. -/
def RecoverPhase.upcoming : RecoverPhase → Option RunRow
  | .reading (record :: _) => some record
  | .reading [] | .deciding _ _ | .dequeuing _ | .over => none

/-- The row a recovery decides about. -/
def RecoverPhase.decided : RecoverPhase → Option RunRow
  | .deciding record _ => some record
  | .reading _ | .dequeuing _ | .over => none

structure RunCoordinator where
  rows : List RunRow
  runs : List LiveRun
  begins : List BeginCall
  activities : List (ℕ × RunActivity)
  finals : List FinalizeCall
  due : List (ℕ × ℕ)
  recoveries : List RecoverPhase
deriving DecidableEq, Repr

inductive RunEvent where
  | begin (runId sessionId : String) (multitask : Multitask)
  | enterTurn (call : ℕ)
  | cancelNext (call : ℕ)
  | graceOver (call : ℕ)
  | create (call : ℕ)
  | openBegun (call : ℕ)
  | beginThrows (call : ℕ)
  | abortSession (sessionId : String)
  | abortByIds (runIds : List String)
  | abortAllForSession (sessionId : String)
  | attemptEnds (activity : ℕ) (status : RunStatus)
  | attemptDefers (activity : ℕ) (decision : Option ℕ)
  | deferWritten (activity : ℕ)
  | dequeueWritten (activity : ℕ)
  | resumeWritten (activity : ℕ)
  | resumeStarts (activity : ℕ)
  | throws (activity : ℕ)
  | closeSettles (call : ℕ) (written : Bool)
  | finalizeEnds (call : ℕ)
  | recoverOrphans
  | recoverNext (call : ℕ)
  | recoverOpens (call : ℕ) (decision : Option ℕ)
  | recoverThrows (call : ℕ)
  | recoverDequeues (call : ℕ)
  | resumeDue (now : ℕ)
  | resumeNext (entry : ℕ)
  | reset
deriving DecidableEq, Repr

namespace RunCoordinator

def empty : RunCoordinator := ⟨[], [], [], [], [], [], []⟩

def setRun (s : RunCoordinator) (i : ℕ) (f : LiveRun → LiveRun) :
    RunCoordinator :=
  { s with runs := s.runs.modify i f }

def setBegin (s : RunCoordinator) (call : ℕ) (phase : BeginPhase) :
    RunCoordinator :=
  { s with begins := s.begins.modify call fun b => { b with phase := phase } }

/-- `store.update` of a run's status. -/
def updateRow (s : RunCoordinator) (runId : String) (status : RunStatus)
    (nextAttemptAt : Option ℕ) : RunCoordinator :=
  { s with
    rows := s.rows.map fun row =>
      if row.runId = runId then
        { row with status := status, nextAttemptAt := nextAttemptAt }
      else row }

/-- `write`: the row of the run, then its record. -/
def write (s : RunCoordinator) (i : ℕ) (status : RunStatus)
    (nextAttemptAt : Option ℕ) : RunCoordinator :=
  match s.runs[i]? with
  | none => s
  | some r =>
      (s.updateRow r.runId status nextAttemptAt).setRun i fun r =>
        { r with status := status, nextAttemptAt := nextAttemptAt }

def isLive (s : RunCoordinator) (runId : String) : Bool :=
  s.runs.any fun r => r.live && decide (r.runId = runId)

/-- The runs in the map that meet `p`, oldest first. -/
def indices (s : RunCoordinator) (p : LiveRun → Bool) : List ℕ :=
  (List.range s.runs.length).filter fun i =>
    (s.runs[i]?).any fun r => r.live && p r

def firstIndex (s : RunCoordinator) (p : LiveRun → Bool) : Option ℕ :=
  s.runs.findIdx? p

def activeForSession (s : RunCoordinator) (sessionId : String) : Option ℕ :=
  s.firstIndex (fun r => r.isBusy && decide (r.sessionId = sessionId)) <|>
    s.firstIndex fun r => r.isQueued && decide (r.sessionId = sessionId)

/-- The map's entry for the run id becomes the new object. -/
def «open» (s : RunCoordinator) (r : LiveRun) : RunCoordinator := { s with
    runs := (s.runs.map fun old =>
      if old.runId = r.runId then { old with live := false } else old) ++ [r] }

def finalize (s : RunCoordinator) (i : ℕ) (status : RunStatus) :
    RunCoordinator :=
  if (s.runs[i]?).any LiveRun.live then
    { s.setRun i fun r => { r with live := false } with
      finals := s.finals ++ [⟨i, status, false⟩] }
  else s

def startAttempt (s : RunCoordinator) (i : ℕ) : RunCoordinator :=
  { s.setRun i fun r => { r with attemptInFlight := true } with
    activities := s.activities ++ [(i, .attempting)] }

def isInFlight (s : RunCoordinator) (i : ℕ) : Bool :=
  (s.runs[i]?).any LiveRun.attemptInFlight

def isAborted (s : RunCoordinator) (i : ℕ) : Bool :=
  (s.runs[i]?).any LiveRun.aborted

def hasStatus (s : RunCoordinator) (i : ℕ) (status : RunStatus) : Bool :=
  (s.runs[i]?).any fun r => decide (r.status = status)

/-- The attempt is no longer in flight, and its activity is over. -/
def land (s : RunCoordinator) (activity i : ℕ) : RunCoordinator :=
  { s.setRun i fun r => { r with attemptInFlight := false } with
    activities := s.activities.eraseIdx activity }

def become (s : RunCoordinator) (activity i : ℕ) (a : RunActivity) :
    RunCoordinator :=
  { s with activities := s.activities.set activity (i, a) }

def abortRun (s : RunCoordinator) (i : ℕ) : RunCoordinator :=
  let s := s.setRun i fun r => { r with aborted := true }
  if s.isInFlight i then s else s.finalize i .aborted

def cancelQueued (s : RunCoordinator) (i : ℕ) : RunCoordinator :=
  s.finalize i .aborted

/-- The synchronous part: the session is busy from here on. -/
def startNextQueued (s : RunCoordinator) (sessionId : String) :
    RunCoordinator :=
  if (s.firstIndex fun r =>
      r.isBusy && decide (r.sessionId = sessionId)).isSome then s
  else
    match s.firstIndex fun r =>
        r.isQueued && decide (r.sessionId = sessionId) with
    | none => s
    | some i =>
        { s.setRun i fun r =>
            { r with attemptInFlight := true, status := .running } with
          activities := s.activities ++ [(i, .dequeuing)] }

def supersedePending (s : RunCoordinator) (sessionId : String) :
    RunCoordinator :=
  { s with
    begins := s.begins.map fun b =>
      if b.sessionId = sessionId ∧ b.phase ≠ .over then
        { b with superseded := true }
      else b }

def cancelEach (s : RunCoordinator) (runs : List ℕ) : RunCoordinator :=
  runs.foldl (fun s i =>
    if s.hasStatus i .queued then s.cancelQueued i else s) s

def abortEach (s : RunCoordinator) (runs : List ℕ) : RunCoordinator :=
  runs.foldl (fun s i =>
    if s.hasStatus i .queued then s else s.abortRun i) s

def abortSession (s : RunCoordinator) (sessionId : String) :
    RunCoordinator :=
  let s := s.supersedePending sessionId
  let s := s.cancelEach (s.indices fun r =>
    decide (r.sessionId = sessionId) && r.queuedBehindSuperseded)
  match s.activeForSession sessionId with
  | none => s
  | some i =>
      if s.hasStatus i .queued then s.cancelQueued i else s.abortRun i

def abortByIds (s : RunCoordinator) (runIds : List String) :
    RunCoordinator :=
  let runs := s.indices fun r => decide (r.runId ∈ runIds)
  (s.cancelEach runs).abortEach runs

def abortAllForSession (s : RunCoordinator) (sessionId : String) :
    RunCoordinator :=
  let s := s.supersedePending sessionId
  let runs := s.indices fun r => decide (r.sessionId = sessionId)
  (s.cancelEach runs).abortEach runs

/-- The turn of a `begin`: the first look at the session. -/
def enterTurn (s : RunCoordinator) (call : ℕ) (b : BeginCall) :
    RunCoordinator :=
  if b.superseded then s.setBegin call (.admitted false false)
  else
    match s.activeForSession b.sessionId, b.multitask with
    | none, _ => s.setBegin call (.admitted false false)
    | some _, .enqueue => s.setBegin call (.admitted true false)
    | some _, .interrupt =>
        s.setBegin call (.cancelling (s.indices fun _ => true))

def cancelNext (s : RunCoordinator) (call : ℕ) (b : BeginCall) :
    List ℕ → RunCoordinator
  | i :: rest =>
      let s := s.setBegin call (.cancelling rest)
      if (s.runs[i]?).any fun r =>
          decide (r.sessionId = b.sessionId ∧ r.status = .queued) then
        s.cancelQueued i
      else s
  | [] =>
      match s.activeForSession b.sessionId with
      | some i => (s.abortRun i).setBegin call .grace
      | none => s.setBegin call (.admitted false false)

def graceOver (s : RunCoordinator) (call : ℕ) (b : BeginCall) :
    RunCoordinator :=
  if b.superseded = false ∧ (s.activeForSession b.sessionId).isSome then
    s.setBegin call (.admitted true true)
  else s.setBegin call (.admitted false false)

def create (s : RunCoordinator) (call : ℕ) (b : BeginCall)
    (queued behindSuperseded : Bool) : RunCoordinator :=
  { s.setBegin call (.created queued behindSuperseded) with
    rows := s.rows ++ [⟨b.runId, b.sessionId,
      if queued || b.superseded then .queued else .running, none⟩] }

def openBegun (s : RunCoordinator) (call : ℕ) (b : BeginCall)
    (queued behindSuperseded : Bool) : RunCoordinator :=
  let s := s.setBegin call .over
  let i := s.runs.length
  let row : RunRow := ⟨b.runId, b.sessionId, .queued, none⟩
  if b.superseded then (s.open (.ofRow row)).cancelQueued i
  else if queued then
    (s.open { LiveRun.ofRow row with
      queuedBehindSuperseded := behindSuperseded }).startNextQueued
      b.sessionId
  else (s.open (.ofRow { row with status := .running })).startAttempt i

def attemptDefers (s : RunCoordinator) (activity i : ℕ)
    (decision : Option ℕ) : RunCoordinator :=
  if s.isAborted i then (s.land activity i).finalize i .aborted
  else
    match decision with
    | none => (s.land activity i).finalize i .failed
    | some nextAt => s.become activity i (.deferring nextAt)

/-- The await of an activity throws. -/
def throws (s : RunCoordinator) (activity i : ℕ) (a : RunActivity) :
    RunCoordinator :=
  let aborted := s.isAborted i
  let s := s.land activity i
  match a with
  | .resuming | .resumed => if aborted then s.finalize i .aborted else s
  | .dequeuing | .attempting | .deferring _ =>
      s.finalize i (if aborted then .aborted else .failed)

def recoverOpens (s : RunCoordinator) (record : RunRow) :
    Option ℕ → RunCoordinator
  | none =>
      (s.open (.ofRow record)).finalize s.runs.length .interrupted
  | some nextAt =>
      (s.updateRow record.runId .recovering (some nextAt)).open
        (.ofRow { record with
          status := .recovering
          nextAttemptAt := some nextAt })

def recoverNext (s : RunCoordinator) (call : ℕ) : List RunRow → RunCoordinator
  | [] =>
      { s with
        recoveries := s.recoveries.set call
          (.dequeuing (s.indices fun _ => true)) }
  | record :: rest =>
      let skipped :=
        { s with recoveries := s.recoveries.set call (.reading rest) }
      if s.isLive record.runId then skipped
      else if record.status = .queued then skipped.open (.ofRow record)
      else
        { s with
          recoveries := s.recoveries.set call (.deciding record rest) }

def isDue (now : ℕ) (r : LiveRun) : Bool :=
  decide (r.status = .recovering) && !r.attemptInFlight &&
    r.nextAttemptAt.all fun nextAt => decide (nextAt ≤ now)

def step (s : RunCoordinator) : RunEvent → Option RunCoordinator
  | .begin runId sessionId multitask =>
      let s := if multitask = .interrupt then s.supersedePending sessionId
        else s
      some { s with
        begins := s.begins ++
          [⟨runId, sessionId, multitask, false, .waiting⟩] }
  | .enterTurn call =>
      match s.begins[call]? with
      | some b =>
          if b.phase = .waiting ∧ ∀ earlier ∈ s.begins.take call,
              earlier.sessionId = b.sessionId → earlier.phase = .over then
            some (s.enterTurn call b)
          else none
      | none => none
  | .cancelNext call =>
      match s.begins[call]? with
      | some b =>
          match b.phase with
          | .cancelling rest => some (s.cancelNext call b rest)
          | _ => none
      | none => none
  | .graceOver call =>
      match s.begins[call]? with
      | some b =>
          if b.phase = .grace then some (s.graceOver call b) else none
      | none => none
  | .create call =>
      match s.begins[call]? with
      | some b =>
          match b.phase with
          | .admitted queued behind =>
              if ∀ row ∈ s.rows, row.runId ≠ b.runId then
                some (s.create call b queued behind)
              else none
          | _ => none
      | none => none
  | .openBegun call =>
      match s.begins[call]? with
      | some b =>
          match b.phase with
          | .created queued behind => some (s.openBegun call b queued behind)
          | _ => none
      | none => none
  | .beginThrows call =>
      match s.begins[call]? with
      | some b =>
          match b.phase with
          | .admitted _ _ => some (s.setBegin call .over)
          | _ => none
      | none => none
  | .abortSession sessionId => some (s.abortSession sessionId)
  | .abortByIds runIds => some (s.abortByIds runIds)
  | .abortAllForSession sessionId => some (s.abortAllForSession sessionId)
  | .attemptEnds activity status =>
      match s.activities[activity]? with
      | some (i, .attempting) =>
          if status.isActive then none
          else some ((s.land activity i).finalize i status)
      | _ => none
  | .attemptDefers activity decision =>
      match s.activities[activity]? with
      | some (i, .attempting) => some (s.attemptDefers activity i decision)
      | _ => none
  | .deferWritten activity =>
      match s.activities[activity]? with
      | some (i, .deferring nextAt) =>
          let s := (s.write i .recovering (some nextAt)).land activity i
          some (if s.isAborted i then s.finalize i .aborted else s)
      | _ => none
  | .dequeueWritten activity =>
      match s.activities[activity]? with
      | some (i, .dequeuing) =>
          let s := s.write i .running none
          some (if s.isAborted i then
            (s.land activity i).finalize i .aborted
          else s.become activity i .attempting)
      | _ => none
  | .resumeWritten activity =>
      match s.activities[activity]? with
      | some (i, .resuming) =>
          some ((s.write i .running none).become activity i .resumed)
      | _ => none
  | .resumeStarts activity =>
      match s.activities[activity]? with
      | some (i, .resumed) =>
          some (if s.isAborted i then
            (s.land activity i).finalize i .aborted
          else s.become activity i .attempting)
      | _ => none
  | .throws activity =>
      match s.activities[activity]? with
      | some (i, a) => some (s.throws activity i a)
      | none => none
  | .closeSettles call written =>
      match s.finals[call]? with
      | some ⟨i, status, false⟩ =>
          let s := if written then s.write i status none else s
          some { s with finals := s.finals.set call ⟨i, status, true⟩ }
      | _ => none
  | .finalizeEnds call =>
      match s.finals[call]? with
      | some ⟨i, _, true⟩ =>
          let s := { s with finals := s.finals.eraseIdx call }
          match s.runs[i]? with
          | some r => some (s.startNextQueued r.sessionId)
          | none => none
      | _ => none
  | .recoverOrphans =>
      some { s with
        recoveries := s.recoveries ++
          [.reading (s.rows.filter fun row => row.status.isActive)] }
  | .recoverNext call =>
      match s.recoveries[call]? with
      | some (.reading rest) => some (s.recoverNext call rest)
      | _ => none
  | .recoverOpens call decision =>
      match s.recoveries[call]? with
      | some (.deciding record rest) =>
          some ({ s with
            recoveries := s.recoveries.set call (.reading rest) }.recoverOpens
            record decision)
      | _ => none
  | .recoverThrows call =>
      match s.recoveries[call]? with
      | some (.deciding _ _) =>
          some { s with recoveries := s.recoveries.set call .over }
      | _ => none
  | .recoverDequeues call =>
      match s.recoveries[call]? with
      | some (.dequeuing (i :: rest)) =>
          let s := { s with
            recoveries := s.recoveries.set call (.dequeuing rest) }
          match s.runs[i]? with
          | some r =>
              some (if r.status = .queued then s.startNextQueued r.sessionId
                else s)
          | none => none
      | some (.dequeuing []) =>
          some { s with recoveries := s.recoveries.set call .over }
      | _ => none
  | .resumeDue now =>
      some { s with
        due := s.due ++ (s.indices fun _ => true).map fun i => (i, now) }
  | .resumeNext entry =>
      match s.due[entry]? with
      | some (i, now) =>
          let s := { s with due := s.due.eraseIdx entry }
          if (s.runs[i]?).any (isDue now) then
            some { s.setRun i fun r => { r with attemptInFlight := true } with
              activities := s.activities ++ [(i, .resuming)] }
          else some s
      | none => none
  | .reset => some { empty with rows := s.rows }

/-- An attempt of the run is in flight. -/
def Attempting (s : RunCoordinator) (i : ℕ) : Prop :=
  (∃ r, s.runs[i]? = some r ∧ r.live = true ∧ r.attemptInFlight = true) ∨
    (i, .attempting) ∈ s.activities

/-- At most one run of each session has an attempt in flight. -/
def OneAttempt (s : RunCoordinator) : Prop :=
  ∀ (i j : ℕ) (ri rj : LiveRun), s.runs[i]? = some ri →
    s.runs[j]? = some rj → ri.sessionId = rj.sessionId →
    s.Attempting i → s.Attempting j → i = j

/-- No `begin` of the row's session, or of the run itself, stands between its
admission and the opening of its run. -/
def NoneAdmitted (s : RunCoordinator) (row : RunRow) : Prop :=
  ∀ b ∈ s.begins, b.sessionId = row.sessionId ∨ b.runId = row.runId →
    b.phase.isAdmitted = false

/-- Recovery never opens a run that is in the map.  It opens one that may
start an attempt only while no `begin` of its session is between its admission
and the opening of its run, and one that was not queued only when its session
has no other such run in the map. -/
def RecoversAlone (s : RunCoordinator) : RunEvent → Prop
  | .recoverNext call =>
      ∀ record ∈ (s.recoveries[call]?).bind RecoverPhase.upcoming,
        record.status = .queued → s.isLive record.runId = false →
          s.NoneAdmitted record
  | .recoverOpens call decision =>
      ∀ record ∈ (s.recoveries[call]?).bind RecoverPhase.decided,
        s.isLive record.runId = false ∧
          (decision.isSome = true → s.NoneAdmitted record ∧
            ∀ r ∈ s.runs, r.isBusy = true → r.sessionId ≠ record.sessionId)
  | .begin _ _ _ | .enterTurn _ | .cancelNext _ | .graceOver _ | .create _ |
      .openBegun _ | .beginThrows _ | .abortSession _ | .abortByIds _ |
      .abortAllForSession _ | .attemptEnds _ _ | .attemptDefers _ _ |
      .deferWritten _ | .dequeueWritten _ | .resumeWritten _ |
      .resumeStarts _ | .throws _ | .closeSettles _ _ | .finalizeEnds _ |
      .recoverOrphans | .recoverThrows _ | .recoverDequeues _ |
      .resumeDue _ | .resumeNext _ | .reset => True

instance (s : RunCoordinator) (row : RunRow) : Decidable (s.NoneAdmitted row) :=
  inferInstanceAs (Decidable (∀ b ∈ s.begins,
    b.sessionId = row.sessionId ∨ b.runId = row.runId →
      b.phase.isAdmitted = false))

instance RecoversAlone.decidable (s : RunCoordinator) :
    (e : RunEvent) → Decidable (s.RecoversAlone e)
  | .recoverNext call =>
      inferInstanceAs (Decidable
        (∀ record ∈ (s.recoveries[call]?).bind RecoverPhase.upcoming,
          record.status = .queued → s.isLive record.runId = false →
            s.NoneAdmitted record))
  | .recoverOpens call decision =>
      inferInstanceAs (Decidable
        (∀ record ∈ (s.recoveries[call]?).bind RecoverPhase.decided,
          s.isLive record.runId = false ∧
            (decision.isSome = true → s.NoneAdmitted record ∧
              ∀ r ∈ s.runs, r.isBusy = true → r.sessionId ≠ record.sessionId)))
  | .begin _ _ _ | .enterTurn _ | .cancelNext _ | .graceOver _ | .create _ |
      .openBegun _ | .beginThrows _ | .abortSession _ | .abortByIds _ |
      .abortAllForSession _ | .attemptEnds _ _ | .attemptDefers _ _ |
      .deferWritten _ | .dequeueWritten _ | .resumeWritten _ |
      .resumeStarts _ | .throws _ | .closeSettles _ _ | .finalizeEnds _ |
      .recoverOrphans | .recoverThrows _ | .recoverDequeues _ |
      .resumeDue _ | .resumeNext _ | .reset => isTrue trivial

end RunCoordinator
end QiForge
