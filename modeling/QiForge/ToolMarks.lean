import QiForge.ToolScheduler
import QiForge.WriteClaims

/-!
# Tool marks and write claims of one run

The marks middleware around the execution middleware, both on one run store,
over the attempts of a run.  Each event is one durable step of a tool call, a
step of another run on the ledger, or a reset, which drops whatever is in
memory.  An id names one tool call; it is executed again only once the
execution before it is over or was cut off.  What a handler returned or threw
is an event's choice.
-/

namespace QiForge

inductive ToolEffect where
  | read
  | write
deriving DecidableEq, Repr

inductive MarkOutcome where
  | ok
  | error
  | interrupted
deriving DecidableEq, Repr

structure ToolMark where
  toolName : String
  effect : ToolEffect
  startedAt : ℕ
  doneAt : Option ℕ
  outcome : Option MarkOutcome
  attempts : ℕ
  sentAt : Option ℕ
deriving DecidableEq, Repr

namespace ToolMark

def start (toolName : String) (effect : ToolEffect) (now : ℕ) : ToolMark :=
  ⟨toolName, effect, now, none, none, 1, none⟩

def bump (m : ToolMark) (now : ℕ) : ToolMark := { m with
    attempts := m.attempts + 1
    startedAt := now
    doneAt := none
    outcome := none
    sentAt := none }

def finish (m : ToolMark) (outcome : MarkOutcome) (now : ℕ) : ToolMark :=
  { m with doneAt := some now, outcome := some outcome }

def markSent (m : ToolMark) (now : ℕ) : ToolMark :=
  { m with sentAt := some now }

def neverSent (m : ToolMark) : Bool := m.doneAt.isNone && m.sentAt.isNone

end ToolMark

/-- What the two middlewares are built with, and the calls of the run by
their id. -/
structure ToolTurn (Args : Type) where
  runId : String
  sessionId : String
  effectOf : String → ToolEffect
  isFrontend : String → Bool
  isSubagent : String → Bool
  operationKey : String → Args → Option String → String
  toolName : String → String
  args : String → Args

namespace ToolTurn

variable {Args : Type} (t : ToolTurn Args)

def laneOf (toolName : String) : ToolLane :=
  if t.isSubagent toolName then .subagent
  else if t.isFrontend toolName then .frontend
  else
    match t.effectOf toolName with
    | .read => .read
    | .write => .write

def effect (id : String) : ToolEffect := t.effectOf (t.toolName id)

def frontend (id : String) : Bool := t.isFrontend (t.toolName id)

def claimed (id : String) : Bool :=
  decide (t.laneOf (t.toolName id) ≠ .subagent ∧ t.effect id = .write)

def fingerprint (id : String) : String :=
  t.operationKey (t.toolName id) (t.args id)
    (if t.laneOf (t.toolName id) = .frontend then some t.sessionId else none)

def claimInput (id : String) : ClaimInput :=
  ⟨t.fingerprint id, t.toolName id, t.runId, t.sessionId⟩

def frontendWrite (id : String) : Bool :=
  decide (t.effect id = .write) && t.frontend id

end ToolTurn

/-- How far the execution of a call is. -/
inductive MarkedPhase where
  | idle
  | bumping
  | refusing
  | ready
  | claiming (call : ℕ)
  | running (handed : Bool)
  | releasing (outcome : MarkOutcome)
  | finishing (outcome : MarkOutcome)
deriving DecidableEq, Repr

/-- A call's mark and its execution, and what happened to it so far: its
handler's starts, whether a hand-over was `recorded` and another one followed
(`handedAgain`), whether it is owed an execution since a reset found it
`parked`, and whether it was then answered as of unknown outcome
(`misjudged`). -/
structure MarkedCall where
  mark : Option ToolMark
  phase : MarkedPhase
  sending : Bool
  started : ℕ
  recorded : Bool
  handedAgain : Bool
  parked : Bool
  misjudged : Bool
deriving DecidableEq, Repr

namespace MarkedCall

variable {Args : Type}

def empty : MarkedCall := ⟨none, .idle, false, 0, false, false, false, false⟩

/-- `startMark`, and the policy for a call seen before. -/
def reach (t : ToolTurn Args) (id : String) (now : ℕ) (c : MarkedCall) :
    MarkedCall :=
  match c.mark with
  | none =>
      { c with
        mark := some (.start (t.toolName id) (t.effect id) now)
        phase := .ready }
  | some existing =>
      if existing.neverSent && t.frontend id then { c with phase := .bumping }
      else if t.effect id = .write then { c with phase := .refusing }
      else { c with phase := .bumping }

def bump (now : ℕ) (c : MarkedCall) : MarkedCall :=
  { c with mark := c.mark.map fun m => m.bump now, phase := .ready }

/-- The model is told that the outcome is unknown. -/
def refuse (now : ℕ) (c : MarkedCall) : MarkedCall := { c with
    mark := c.mark.map fun m => m.finish .interrupted now
    phase := .idle
    misjudged := c.misjudged || c.parked
    parked := false }

/-- The turn's budget or the lane threw. -/
def harnessRefuse (c : MarkedCall) : MarkedCall :=
  { c with phase := .finishing .error, parked := false }

def start (c : MarkedCall) : MarkedCall := { c with
    phase := .running false
    started := c.started + 1
    parked := false }

/-- The claim was blocked: the model is told that the outcome is unknown. -/
def blocked (c : MarkedCall) : MarkedCall := { c with
    phase := .finishing .error
    misjudged := c.misjudged || c.parked
    parked := false }

def handOver (c : MarkedCall) : MarkedCall := { c with
    phase := .running true
    sending := true
    handedAgain := c.handedAgain || c.recorded }

def recordSent (now : ℕ) (c : MarkedCall) : MarkedCall := { c with
    mark := c.mark.map fun m => m.markSent now
    sending := false
    recorded := true }

/-- The handler returned or threw; a known outcome releases the claim. -/
def result (t : ToolTurn Args) (id : String) (known : Bool)
    (outcome : MarkOutcome) (c : MarkedCall) : MarkedCall :=
  if t.claimed id && known then { c with phase := .releasing outcome }
  else { c with phase := .finishing outcome }

def finish (outcome : MarkOutcome) (now : ℕ) (c : MarkedCall) :
    MarkedCall :=
  { c with
    mark := c.mark.map fun m => m.finish outcome now
    phase := .idle }

def reset (t : ToolTurn Args) (id : String) (c : MarkedCall) : MarkedCall :=
  { c with
    phase := .idle
    sending := false
    parked :=
      c.parked || (decide (c.phase = .running false) && t.frontendWrite id) }

end MarkedCall

structure MarkedRun where
  calls : String → MarkedCall
  ledger : ClaimLedger

inductive MarkedEvent where
  | reach (id : String) (now : ℕ)
  | bump (id : String) (now : ℕ)
  | refuse (id : String) (now : ℕ)
  | harnessRefuse (id : String)
  | claim (id : String) (call now : ℕ)
  | advance (id : String) (now : ℕ)
  | start (id : String)
  | blocked (id : String)
  | handOver (id : String)
  | recordSent (id : String) (now : ℕ)
  | result (id : String) (known : Bool) (outcome : MarkOutcome)
  | release (id : String)
  | finish (id : String) (now : ℕ)
  | reset (cutoff : ℕ)
  | other (e : ClaimEvent)
deriving DecidableEq, Repr

/-- The next statement of a call of `claimWrite`. -/
def ClaimPhase.next (call now : ℕ) : ClaimPhase → Option ClaimEvent
  | .reading => some (.read call)
  | .takingOver => some (.takeOver call now)
  | .warning _ => some (.warn call)
  | .answered _ => none

/-- The calls in progress are gone, and the setup of the next object drops the
claims of before the retention. -/
def ClaimLedger.restart (s : ClaimLedger) (cutoff : ℕ) : ClaimLedger :=
  { s with
    slots := fun fingerprint =>
      { s.slots fingerprint with
        row := (s.slots fingerprint).row.filter fun row =>
          decide (cutoff ≤ row.startedAt) }
    calls := fun _ => none }

/-- A step of another run, or of the runs' own statuses. -/
def ClaimLedger.byOther (s : ClaimLedger) (runId : String) : ClaimEvent → Bool
  | .create _ _ | .setStatus _ _ => true
  | .insert _ input _ => decide (input.runId ≠ runId)
  | .read call | .takeOver call _ | .warn call =>
      (s.calls call).any fun c => decide (c.input.runId ≠ runId)
  | .release _ other => decide (other ≠ runId)
  | .reset => false

namespace MarkedRun

variable {Args : Type}

def empty : MarkedRun := ⟨fun _ => .empty, .empty⟩

def setCall (s : MarkedRun) (id : String) (c : MarkedCall) : MarkedRun :=
  { s with calls := Function.update s.calls id c }

/-- What the claim of a call was answered. -/
def answer (s : MarkedRun) (id : String) : Option WriteClaim :=
  match (s.calls id).phase with
  | .claiming call =>
      match s.ledger.calls call with
      | some ⟨_, .answered claim⟩ => some claim
      | _ => none
  | _ => none

/-- The insert of a call's claim was refused and its read comes next. -/
def isReading (s : MarkedRun) (id : String) : Bool :=
  match (s.calls id).phase with
  | .claiming call =>
      (s.ledger.calls call).any fun c => decide (c.phase = .reading)
  | _ => false

def step (t : ToolTurn Args) (s : MarkedRun) : MarkedEvent → Option MarkedRun
  | .reach id now =>
      let c := s.calls id
      if c.phase = .idle then some (s.setCall id (c.reach t id now))
      else none
  | .bump id now =>
      let c := s.calls id
      if c.phase = .bumping then some (s.setCall id (c.bump now)) else none
  | .refuse id now =>
      let c := s.calls id
      if c.phase = .refusing then some (s.setCall id (c.refuse now))
      else none
  | .harnessRefuse id =>
      let c := s.calls id
      if c.phase = .ready then some (s.setCall id c.harnessRefuse) else none
  | .claim id call now =>
      let c := s.calls id
      if c.phase = .ready ∧ t.claimed id = true then
        (s.ledger.step (.insert call (t.claimInput id) now)).map
          fun ledger =>
            { s.setCall id { c with phase := .claiming call } with
              ledger := ledger }
      else none
  | .advance id now =>
      match (s.calls id).phase with
      | .claiming call =>
          (s.ledger.calls call).bind fun c =>
            (c.phase.next call now).bind fun e =>
              (s.ledger.step e).map fun ledger => { s with ledger := ledger }
      | _ => none
  | .start id =>
      let c := s.calls id
      if c.phase = .ready ∧ t.claimed id = false ∨
          s.answer id = some .claimed then
        some (s.setCall id c.start)
      else none
  | .blocked id =>
      match s.answer id with
      | some (.blocked _ _) => some (s.setCall id (s.calls id).blocked)
      | _ => none
  | .handOver id =>
      let c := s.calls id
      if c.phase = .running false ∧ t.frontend id = true then
        some (s.setCall id c.handOver)
      else none
  | .recordSent id now =>
      let c := s.calls id
      if c.sending = true then some (s.setCall id (c.recordSent now))
      else none
  | .result id known outcome =>
      match (s.calls id).phase with
      | .running _ =>
          some (s.setCall id ((s.calls id).result t id known outcome))
      | _ => none
  | .release id =>
      match (s.calls id).phase with
      | .releasing outcome =>
          (s.ledger.step (.release (t.fingerprint id) t.runId)).map
            fun ledger =>
              { s.setCall id
                  { s.calls id with phase := .finishing outcome } with
                ledger := ledger }
      | _ => none
  | .finish id now =>
      match (s.calls id).phase with
      | .finishing outcome =>
          some (s.setCall id ((s.calls id).finish outcome now))
      | _ => none
  | .reset cutoff =>
      some ⟨fun id => (s.calls id).reset t id, s.ledger.restart cutoff⟩
  | .other e =>
      if s.ledger.byOther t.runId e = true then
        (s.ledger.step e).map fun ledger => { s with ledger := ledger }
      else none

end MarkedRun

/-- Marks and claims compose: a write that is no frontend tool starts once, a
recorded hand-over is the last one, and a call found parked at a reset is not
answered as of unknown outcome, but started again before it ends, unless the
budget or its lane refuses it. -/
structure ResumeHolds {Args : Type} (t : ToolTurn Args)
    (es : List MarkedEvent) (s : MarkedRun) : Prop where
  writesOnce : ∀ id, t.effect id = .write → t.frontend id = false →
    (s.calls id).started ≤ 1
  sentOnce : ∀ id, t.effect id = .write → t.frontend id = true →
    (s.calls id).handedAgain = false
  parkedRuns : ∀ id, (s.calls id).misjudged = false
  parkedStarts : ∀ front back rest id cutoff now waiting ended,
    es = front ++ .reset cutoff :: (back ++ .finish id now :: rest) →
    Transition.run (MarkedRun.step t) .empty front = some waiting →
    (waiting.calls id).phase = .running false → t.frontendWrite id = true →
    .harnessRefuse id ∉ back →
    Transition.run (MarkedRun.step t) waiting
      (.reset cutoff :: (back ++ [.finish id now])) = some ended →
    (waiting.calls id).started < (ended.calls id).started

/-- The read behind the claim of a call that was found parked finds no row,
or one another run was warned of. -/
def MarkedRun.FindsNoClaim {Args : Type} (t : ToolTurn Args)
    (s : MarkedRun) : MarkedEvent → Prop
  | .advance id _ =>
      (s.calls id).parked = true → s.isReading id = true →
      ∀ row ∈ (s.ledger.slots (t.fingerprint id)).row,
        row.state = .warned ∧ row.runId ≠ t.runId
  | _ => True

instance MarkedRun.FindsNoClaim.decidable {Args : Type} (t : ToolTurn Args)
    (s : MarkedRun) : (e : MarkedEvent) → Decidable (s.FindsNoClaim t e)
  | .advance id _ =>
      inferInstanceAs (Decidable ((s.calls id).parked = true →
        s.isReading id = true →
        ∀ row ∈ (s.ledger.slots (t.fingerprint id)).row,
          row.state = .warned ∧ row.runId ≠ t.runId))
  | .reach _ _ | .bump _ _ | .refuse _ _ | .harnessRefuse _ |
      .claim _ _ _ | .start _ | .blocked _ | .handOver _ |
      .recordSent _ _ | .result _ _ _ | .release _ | .finish _ _ |
      .reset _ | .other _ => isTrue trivial

end QiForge
