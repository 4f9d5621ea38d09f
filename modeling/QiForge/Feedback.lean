import QiForge.OrderedMap
import QiForge.Transition

/-!
# Message feedback

The marker of one agent message and the attempts of its user, the sink that
searches for the message's issue before every create, and the calls that
reserve, deliver and settle.  A call may die at any request, a create may take
effect and lose its answer, and a settlement may be lost or arrive late.
-/

namespace QiForge

def feedbackUserLimit : ℕ := 3

def feedbackWindowMs : ℕ := 60000

def feedbackPendingStaleMs : ℕ := 120000

def sinkMaxAttempts : ℕ := 3

inductive MarkerStatus where
  | pending
  | delivered
deriving DecidableEq, Repr

structure MarkerRow where
  submissionId : String
  previousSubmissionId : Option String
  status : MarkerStatus
  reservedAt : ℕ
  submittedAt : ℕ
deriving DecidableEq, Repr

inductive FeedbackReservation where
  | reserved (submittedAt : ℕ) (replacesOtherSubmission : Bool)
  | delivered (submittedAt : ℕ)
  | inFlight
  | conflict
  | rateLimited
deriving DecidableEq, Repr

inductive FeedbackSettlement where
  | delivered
  | superseded
  | released
deriving DecidableEq, Repr

/-- The marker of the message, and when its user started deliveries. -/
structure FeedbackMarkers where
  marker : Option MarkerRow
  attempts : List ℕ
deriving DecidableEq, Repr

namespace FeedbackMarkers

def recent (now : ℕ) (attempts : List ℕ) : List ℕ :=
  attempts.filter fun attempt => now < attempt + feedbackWindowMs

/-- Count an attempt and write the pending marker. -/
def claim (now : ℕ) (submissionId : String) (previous : Option String)
    (m : FeedbackMarkers) : FeedbackReservation × FeedbackMarkers :=
  if feedbackUserLimit ≤ (recent now m.attempts).length then
    (.rateLimited, { m with attempts := recent now m.attempts })
  else
    (.reserved now previous.isSome,
      { marker := some
          { submissionId := submissionId
            previousSubmissionId := previous
            status := .pending
            reservedAt := now
            submittedAt := now }
        attempts := now :: recent now m.attempts })

def reserve (now : ℕ) (submissionId : String) (m : FeedbackMarkers) :
    FeedbackReservation × FeedbackMarkers :=
  match m.marker with
  | none => m.claim now submissionId none
  | some existing =>
      let sameSubmission := existing.submissionId = submissionId
      match existing.status with
      | .delivered =>
          if sameSubmission then (.delivered existing.submittedAt, m)
          else (.conflict, m)
      | .pending =>
          if now < existing.reservedAt + feedbackPendingStaleMs then
            if sameSubmission then (.inFlight, m) else (.conflict, m)
          else
            m.claim now submissionId
              (if sameSubmission then existing.previousSubmissionId
                else some existing.submissionId)

def settleRow (submissionId : String) (outcome : FeedbackSettlement)
    (row : MarkerRow) : Option MarkerRow :=
  if row.submissionId = submissionId then
    match outcome with
    | .delivered => some { row with status := .delivered }
    | .superseded =>
        some { row with
            status := .delivered
            submissionId := row.previousSubmissionId.getD row.submissionId }
    | .released => if row.status = .pending then none else some row
  else some row

def settle (submissionId : String) (outcome : FeedbackSettlement)
    (m : FeedbackMarkers) : FeedbackMarkers :=
  { m with marker := m.marker.bind (settleRow submissionId outcome) }

end FeedbackMarkers

structure FeedbackIssue where
  submissionId : String
  feedback : String
  submittedAt : ℕ
deriving DecidableEq, Repr

inductive FeedbackDelivery where
  | created
  | existing
deriving DecidableEq, Repr

/-- The request the sink makes next, with its attempts so far. -/
inductive SinkPhase where
  | searching (attempt : ℕ)
  | creating (attempt : ℕ)
  | searchingAgain (create attempt : ℕ)
deriving DecidableEq, Repr

/-- What a request of the sink is answered; a failure may be retried when it
is retryable and the wait it asks for is short. -/
inductive SinkAnswer where
  | answered
  | confirmed
  | unconfirmed
  | failed (retryable : Bool)
deriving DecidableEq, Repr

inductive SinkProgress where
  | next (phase : SinkPhase)
  | delivered (delivery : FeedbackDelivery)
  | failed
deriving DecidableEq, Repr

/-- `LinearFeedbackSink.submit` and `issueExists`, one request at a time. -/
def SinkPhase.step (issueExists : Bool) :
    SinkPhase → SinkAnswer → Option SinkProgress
  | .searching _, .answered =>
      some (if issueExists then .delivered .existing else .next (.creating 0))
  | .searching attempt, .failed retryable =>
      some (if retryable && attempt + 1 < sinkMaxAttempts then
        .next (.searching (attempt + 1)) else .failed)
  | .creating _, .confirmed => some (.delivered .created)
  | .creating _, .unconfirmed => some .failed
  | .creating attempt, .failed retryable =>
      some (if retryable && attempt + 1 < sinkMaxAttempts then
        .next (.searchingAgain attempt 0) else .failed)
  | .searchingAgain create _, .answered =>
      some (if issueExists then .delivered .created
        else .next (.creating (create + 1)))
  | .searchingAgain create attempt, .failed retryable =>
      some (if retryable && attempt + 1 < sinkMaxAttempts then
        .next (.searchingAgain create (attempt + 1)) else .failed)
  | _, _ => none

/-- Only a create makes an issue, and one that is confirmed did. -/
def SinkPhase.allows (took : Bool) : SinkPhase → SinkAnswer → Bool
  | .creating _, .confirmed => took
  | .creating _, _ => true
  | _, _ => !took

/-- A call whose reservation was granted, at the sink. -/
structure Delivery where
  submissionId : String
  feedback : String
  submittedAt : ℕ
  replacesOtherSubmission : Bool
  phase : SinkPhase
deriving DecidableEq, Repr

def Delivery.issue (d : Delivery) : FeedbackIssue where
  submissionId := d.submissionId
  feedback := d.feedback
  submittedAt := d.submittedAt

inductive FeedbackAnswer where
  | submitted (submittedAt : ℕ)
  | inFlight
  | alreadySubmitted
  | rateLimited
  | deliveryFailed
deriving DecidableEq, Repr

/-- How a call ends whose sink delivered, or failed. -/
def Delivery.conclude (d : Delivery) :
    Option FeedbackDelivery → FeedbackSettlement × FeedbackAnswer
  | none => (.released, .deliveryFailed)
  | some delivery =>
      if d.replacesOtherSubmission && delivery == .existing then
        (.superseded, .alreadySubmitted)
      else (.delivered, .submitted d.submittedAt)

/-- The user's markers and Linear's issues for the message, the calls at the
sink, the settlements under way; and what has happened: deliveries started,
answers given and texts sent. -/
structure FeedbackState where
  markers : FeedbackMarkers
  issues : List FeedbackIssue
  deliveries : OrderedMap ℕ Delivery
  settlements : List (String × FeedbackSettlement)
  clock : ℕ
  starts : List ℕ
  answers : List (String × FeedbackAnswer)
  sent : List (String × String)

/-- A call, a request of its sink, its death, a settlement that lands or is
lost, and a delivery the user starts for another message. -/
inductive FeedbackEvent where
  | submit (n now : ℕ) (submissionId feedback : String)
  | sink (n : ℕ) (took : Bool) (answer : SinkAnswer)
  | die (n : ℕ)
  | settle (i : ℕ) (lands : Bool)
  | elsewhere (now : ℕ)
deriving DecidableEq, Repr

namespace FeedbackState

def empty : FeedbackState where
  markers := ⟨none, []⟩
  issues := []
  deliveries := OrderedMap.empty
  settlements := []
  clock := 0
  starts := []
  answers := []
  sent := []

def answer (s : FeedbackState) (submissionId : String)
    (answer : FeedbackAnswer) : FeedbackState :=
  { s with answers := (submissionId, answer) :: s.answers }

/-- What a call does with its reservation. -/
def proceed (s : FeedbackState) (n now : ℕ) (submissionId feedback : String) :
    FeedbackReservation → FeedbackState
  | .reserved submittedAt replaces =>
      { s with
        deliveries := s.deliveries.push n
          { submissionId := submissionId
            feedback := feedback
            submittedAt := submittedAt
            replacesOtherSubmission := replaces
            phase := .searching 0 }
        starts := now :: s.starts }
  | .delivered submittedAt => s.answer submissionId (.submitted submittedAt)
  | .inFlight => s.answer submissionId .inFlight
  | .conflict => s.answer submissionId .alreadySubmitted
  | .rateLimited => s.answer submissionId .rateLimited

/-- A call that leaves the sink sends its settlement and answers. -/
def finish (s : FeedbackState) (n : ℕ) (d : Delivery)
    (delivery : Option FeedbackDelivery) : FeedbackState :=
  { s with
    deliveries := s.deliveries.delete n
    settlements := (d.submissionId, (d.conclude delivery).1) :: s.settlements
    answers := (d.submissionId, (d.conclude delivery).2) :: s.answers }

def advance (s : FeedbackState) (n : ℕ) (d : Delivery) :
    SinkProgress → FeedbackState
  | .next phase =>
      { s with deliveries := s.deliveries.set n { d with phase := phase } }
  | .delivered delivery => s.finish n d (some delivery)
  | .failed => s.finish n d none

def step (s : FeedbackState) : FeedbackEvent → Option FeedbackState
  | .submit n now submissionId feedback =>
      if now < s.clock ∨ s.deliveries.has n = true then none
      else
        let (reservation, markers) := s.markers.reserve now submissionId
        some (proceed { s with
            markers := markers
            clock := now
            sent := (submissionId, feedback) :: s.sent }
          n now submissionId feedback reservation)
  | .sink n took answer =>
      (s.deliveries.get? n).bind fun d =>
        if d.phase.allows took answer then
          (d.phase.step (!s.issues.isEmpty) answer).map fun progress =>
            advance { s with
                issues := if took then d.issue :: s.issues else s.issues }
              n d progress
        else none
  | .die n => some { s with deliveries := s.deliveries.delete n }
  | .settle i lands =>
      s.settlements[i]?.map fun settlement =>
        { s with
          settlements := s.settlements.eraseIdx i
          markers :=
            if lands then s.markers.settle settlement.1 settlement.2
            else s.markers }
  | .elsewhere now =>
      if now < s.clock then none
      else
        let attempts := FeedbackMarkers.recent now s.markers.attempts
        some (if feedbackUserLimit ≤ attempts.length then
            { s with
              clock := now
              markers := { s.markers with attempts := attempts } }
          else
            { s with
              clock := now
              markers := { s.markers with attempts := now :: attempts }
              starts := now :: s.starts })

end FeedbackState

end QiForge
