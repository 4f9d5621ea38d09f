import QiForge.ActionProposals

/-!
# The topic cards of one owner and their step journal

A card's steps are written twice: as records in its lifecycle JSON and as rows
of the journal.  A method is one step of the store, and one that throws leaves
it.  Cards are numbered in the order of their inserts, and the permits are
kept as a history.
-/

namespace QiForge

def topicExecutionWindowMs : ℕ := 60 * 60000

inductive TopicStepId where
  | anchor
  | body
  | operation
  | snapshot
  | grant
deriving DecidableEq, Repr

/-- The executor a request names: an identity and its device. -/
structure TopicExecutor where
  matrixUserId : String
  homeserver : String
  deviceId : Option String
deriving DecidableEq, Repr

structure TopicGrant where
  address : String
  role : String
deriving DecidableEq, Repr

inductive TopicAction where
  | createTopic (roomId topicId : String)
  | grantTopicAccess (adminAddress : String) (grants : List TopicGrant)
deriving DecidableEq, Repr

structure TopicProposalSubject where
  id : String
  invocationId : String
  action : TopicAction
  ownerMatrixUserId : String
  ownerHomeserver : String
  values : String
  createdAt : ℕ
  expiresAt : ℕ
deriving DecidableEq, Repr

inductive VerifiedTopicEffect where
  | matrix (eventId content : String) (verifiedAt : ℕ)
  | chain (chainId transactionHash : String) (height code : ℕ)
      (messageDigest : String) (verifiedAt : ℕ)
deriving DecidableEq, Repr

namespace VerifiedTopicEffect

def verifiedAt : VerifiedTopicEffect → ℕ
  | matrix _ _ at' => at'
  | chain _ _ _ _ _ at' => at'

def eventId : VerifiedTopicEffect → Option String
  | matrix eventId _ _ => some eventId
  | chain _ _ _ _ _ _ => none

end VerifiedTopicEffect

inductive TopicActionReceipt where
  | topicCreated (roomId topicId rootEventId bodyEventId operationEventId
      stateEventId : String) (verifiedAt : ℕ)
  | topicAccessGranted (transactionHash chainId : String)
      (height verifiedAt : ℕ)
  | topicAccessFailed (transactionHash chainId : String)
      (height code verifiedAt : ℕ)
deriving DecidableEq, Repr

inductive TopicReference where
  | matrix (step : TopicStepId) (eventId : String)
  | chain (transactionHash : String)
deriving DecidableEq, Repr

def TopicReference.step : TopicReference → TopicStepId
  | matrix step _ => step
  | chain _ => .grant

/-- A step's record in the lifecycle. -/
inductive TopicStepState where
  | pending
  | started (startedAt : ℕ) (expectedDigest : String)
      (matrixUserId homeserver : String)
  | verified (receipt : VerifiedTopicEffect)
deriving DecidableEq, Repr

namespace TopicStepState

def isVerified : TopicStepState → Bool
  | verified _ => true
  | _ => false

def receipt : TopicStepState → Option VerifiedTopicEffect
  | verified receipt => some receipt
  | _ => none

end TopicStepState

structure TopicStepRecord where
  step : TopicStepId
  state : TopicStepState
deriving DecidableEq, Repr

structure TopicLifecycle where
  status : ActionStatus
  claimedAt : Option ℕ
  endedAt : Option ℕ
  executionBlockedAt : Option ℕ
  steps : List TopicStepRecord
  receipt : Option TopicActionReceipt
deriving DecidableEq, Repr

inductive TopicStepStatus where
  | pending
  | started
  | verified
deriving DecidableEq, Repr

/-- A step's row in the journal. -/
structure TopicStepRow (Effect : Type) where
  step : TopicStepId
  status : TopicStepStatus
  expected : Option Effect
  expectedDigest : Option String
  executor : Option TopicExecutor
  startedAt : Option ℕ
  reference : Option TopicReference
  referenceRejected : Option TopicReference
  receipt : Option VerifiedTopicEffect
deriving DecidableEq

structure TopicCard (Effect : Type) where
  serial : ℕ
  subject : TopicProposalSubject
  digest : String
  lifecycle : TopicLifecycle
  status : ActionStatus
  receiptState : ReceiptState
  verifyAfter : ℕ
  verifyAttempts : ℕ
  createdAt : ℕ
  journal : List (TopicStepRow Effect)

def TopicCard.id {Effect : Type} (card : TopicCard Effect) : String :=
  card.subject.id

structure TopicPermit where
  serial : ℕ
  step : TopicStepId
  expectedDigest : String
  executor : TopicExecutor
deriving DecidableEq, Repr

structure TopicProposalStore (Effect : Type) where
  cards : List (TopicCard Effect)
  clock : ℕ
  inserted : ℕ
  permits : List TopicPermit

structure BeginTopicStep where
  digest : String
  step : TopicStepId
  executor : TopicExecutor
deriving DecidableEq, Repr

inductive TopicTransition where
  | claim
  | reject
  | revoke
  | supersede
deriving DecidableEq, Repr

/-- The steps of a card's journal, in their order. -/
def TopicAction.steps : TopicAction → List TopicStepId
  | createTopic _ _ => [.anchor, .body, .operation, .snapshot]
  | grantTopicAccess _ _ => [.grant]

/-- What the lifecycle's schema requires of its status. -/
def TopicLifecycle.parse (lifecycle : TopicLifecycle) :
    Except String TopicLifecycle :=
  if lifecycle.status ∈ [ActionStatus.claimed, .unknown, .succeeded,
      .failed] ∧ lifecycle.claimedAt = none then
    .error "Consumed lifecycle requires claimedAt"
  else if lifecycle.status ∈ [ActionStatus.succeeded, .failed] ∧
      lifecycle.receipt = none then
    .error "Terminal lifecycle requires verified receipt"
  else .ok lifecycle

namespace TopicProposalStore

variable {Effect : Type}

def empty : TopicProposalStore Effect where
  cards := []
  clock := 0
  inserted := 0
  permits := []

def get (s : TopicProposalStore Effect) (id : String) :
    Option (TopicCard Effect) :=
  KeyedRows.get TopicCard.id id s.cards

def updateCard (s : TopicProposalStore Effect) (id : String)
    (change : TopicCard Effect → TopicCard Effect) :
    TopicProposalStore Effect :=
  { s with cards := KeyedRows.update TopicCard.id id change s.cards }

def stepRow (card : TopicCard Effect) (step : TopicStepId) :
    Option (TopicStepRow Effect) :=
  KeyedRows.get TopicStepRow.step step card.journal

/-- A card whose step row changed. -/
def updateStep (card : TopicCard Effect) (step : TopicStepId)
    (change : TopicStepRow Effect → TopicStepRow Effect) :
    TopicCard Effect :=
  { card with
    journal := KeyedRows.update TopicStepRow.step step change card.journal }

/-- The records with one step's record replaced. -/
def setStep (steps : List TopicStepRecord) (step : TopicStepId)
    (state : TopicStepState) : List TopicStepRecord :=
  KeyedRows.update TopicStepRecord.step step (fun _ => ⟨step, state⟩) steps

/-- Keeps the indexed status with the lifecycle. -/
def writeLifecycle (card : TopicCard Effect) (lifecycle : TopicLifecycle) :
    TopicCard Effect :=
  { card with
    lifecycle := lifecycle
    status := lifecycle.status }

variable (digestTopicProposal : TopicProposalSubject → String)
  (digestTopicEffect : Effect → String)

def create (s : TopicProposalStore Effect) (now : ℕ)
    (subject : TopicProposalSubject) (origin : Bool) :
    Except String (TopicProposalStore Effect) :=
  if subject.expiresAt ≤ subject.createdAt then
    .error "Expiry must follow preparation"
  else
    match KeyedRows.get (fun card => card.subject.invocationId)
        subject.invocationId s.cards with
    | some prior =>
        if digestTopicProposal { subject with
            id := prior.subject.id
            createdAt := prior.subject.createdAt
            expiresAt := prior.subject.expiresAt } ≠ prior.digest then
          .error "Invocation already prepared different values"
        else .ok s
    | none =>
        if subject.expiresAt ≤ now then .error "Proposal expired"
        else if (s.get subject.id).isSome then
          .error "UNIQUE constraint failed: topic_action_proposals.id"
        else
          .ok { s with
            cards := s.cards ++ [{
              serial := s.inserted
              subject := subject
              digest := digestTopicProposal subject
              lifecycle := ⟨.prepared, none, none, none,
                subject.action.steps.map fun step => ⟨step, .pending⟩, none⟩
              status := .prepared
              receiptState := if origin then .waiting else .unavailable
              verifyAfter := 0
              verifyAttempts := 0
              createdAt := subject.createdAt
              journal := subject.action.steps.map fun step =>
                ⟨step, .pending, none, none, none, none, none, none, none⟩ }]
            inserted := s.inserted + 1 }

def transition (s : TopicProposalStore Effect) (now : ℕ) (id : String)
    (kind : TopicTransition) (digest : String) :
    Except String (TopicProposalStore Effect) :=
  match s.get id with
  | none => .ok s
  | some card =>
      if card.digest ≠ digest then .error "Proposal changed"
      else if card.lifecycle.status ≠ .prepared ∧
          ¬ (kind = .revoke ∧ (card.lifecycle.status = .claimed ∨
            card.lifecycle.status = .unknown)) then
        .error "Proposal already consumed"
      else if kind = .claim ∧ card.subject.expiresAt ≤ now then
        .error "Proposal expired"
      else
        let lifecycle := match kind with
          | .claim => { card.lifecycle with
              status := .claimed, claimedAt := some now }
          | .reject => { card.lifecycle with
              status := .rejected, endedAt := some now }
          | .revoke => { card.lifecycle with
              status := .revoked, endedAt := some now
              executionBlockedAt := some now }
          | .supersede => { card.lifecycle with
              status := .superseded, endedAt := some now }
        lifecycle.parse.map fun lifecycle =>
          s.updateCard id fun card => writeLifecycle card lifecycle

/-- Whether the card's grant may still be broadcast or land. -/
def holdsGrant (now : ℕ) (card : TopicCard Effect) : Bool :=
  (stepRow card .grant).any fun row =>
    decide (row.status = .started) &&
      if row.reference.isSome then
        decide (card.verifyAttempts < verifyMaxAttempts)
      else
        card.lifecycle.claimedAt.any fun claimedAt =>
          decide (now < claimedAt + topicExecutionWindowMs)

/-- Another card that grants one of the same roles and is in progress. -/
def concurrentGrant (s : TopicProposalStore Effect) (now : ℕ)
    (card : TopicCard Effect) : Option (TopicCard Effect) :=
  match card.subject.action with
  | .createTopic _ _ => none
  | .grantTopicAccess admin grants =>
      s.cards.find? fun other =>
        !decide (other.subject.id = card.subject.id) &&
          (match other.subject.action with
            | .createTopic _ _ => false
            | .grantTopicAccess otherAdmin otherGrants =>
                decide (otherAdmin = admin) &&
                  otherGrants.any fun grant => decide (grant ∈ grants)) &&
            holdsGrant now other

/-- Whether an effect of the card may exist. -/
def hasEffect (card : TopicCard Effect) : Bool := card.journal.any fun row =>
    row.reference.isSome || decide (row.status = .verified)

def checkBegin (s : TopicProposalStore Effect) (now : ℕ)
    (card : TopicCard Effect) (input : BeginTopicStep) :
    Except String TopicStepRecord :=
  if card.digest ≠ input.digest then .error "Proposal changed"
  else
    match card.lifecycle.claimedAt with
    | none => .error "Proposal was not claimed"
    | some claimedAt =>
        if ¬ (card.lifecycle.status = .claimed ∨
            card.lifecycle.status = .unknown) then
          .error "Proposal was not claimed"
        else if card.lifecycle.executionBlockedAt.isSome then
          .error "Execution is blocked"
        else if hasEffect card = false ∧ card.subject.expiresAt ≤ now then
          .error "Proposal expired"
        else if hasEffect card = true ∧
            claimedAt + topicExecutionWindowMs ≤ now then
          .error "Execution window closed"
        else if input.executor.matrixUserId ≠ card.subject.ownerMatrixUserId ∨
            input.executor.homeserver ≠ card.subject.ownerHomeserver then
          .error "Execution identity changed"
        else
          match KeyedRows.get TopicStepRecord.step input.step
              card.lifecycle.steps with
          | none => .error "Invalid step"
          | some record =>
              if ¬ ((card.lifecycle.steps.takeWhile fun record =>
                  !decide (record.step = input.step)).all fun record =>
                    record.state.isVerified) then
                .error "Predecessor is not verified"
              else if input.step = .grant then
                match s.concurrentGrant now card with
                | some other =>
                    .error ("Another grant for this account is still in " ++
                      "progress (" ++ other.subject.id ++ ")")
                | none => .ok record
              else .ok record

/-- The permit to the executor that holds the step. -/
def permit (s : TopicProposalStore Effect) (card : TopicCard Effect)
    (input : BeginTopicStep) (expectedDigest : String) :
    TopicProposalStore Effect :=
  { s with
    permits := s.permits ++
      [⟨card.serial, input.step, expectedDigest, input.executor⟩] }

/-- A permit, or the store as it is when the step was already started. -/
def begin (s : TopicProposalStore Effect) (now : ℕ) (id : String)
    (input : BeginTopicStep) (effect : Effect) :
    Except String (TopicProposalStore Effect) :=
  let expectedDigest := digestTopicEffect effect
  match s.get id with
  | none => .ok s
  | some card =>
      match s.checkBegin now card input with
      | .error error => .error error
      | .ok current =>
          if current.state ≠ .pending then
            match stepRow card input.step with
            | none => .ok s
            | some row =>
                if row.status = .started ∧ row.reference = none ∧
                    row.expected.isSome ∧
                    row.expectedDigest = some expectedDigest ∧
                    row.executor = some input.executor then
                  .ok (s.permit card input expectedDigest)
                else .ok s
          else if ¬ (stepRow card input.step).any (fun row =>
              decide (row.status = .pending)) then
            .error "Step already started"
          else
            let lifecycle := { card.lifecycle with
              status := .unknown
              steps := setStep card.lifecycle.steps input.step
                (.started now expectedDigest input.executor.matrixUserId
                  input.executor.homeserver) }
            lifecycle.parse.map fun lifecycle =>
              (s.updateCard id fun card =>
                writeLifecycle (updateStep card input.step fun row =>
                  { row with
                    status := .started
                    expected := some effect
                    expectedDigest := some expectedDigest
                    executor := some input.executor
                    startedAt := some now }) lifecycle).permit card input
                  expectedDigest

def claimVerification (s : TopicProposalStore Effect) (now : ℕ)
    (id : String) : Bool × TopicProposalStore Effect :=
  match s.cards.find? fun card =>
      decide (card.subject.id = id ∧ card.verifyAfter ≤ now) with
  | none => (false, s)
  | some _ =>
      (true, s.updateCard id fun card =>
        { card with
          verifyAfter := now +
            backoff verifyRetryBaseMs verifyRetryMaxMs card.verifyAttempts
          verifyAttempts := card.verifyAttempts + 1 })

def recordReference (s : TopicProposalStore Effect) (now : ℕ) (id : String)
    (reference : TopicReference) :
    Except String (TopicProposalStore Effect) :=
  match s.get id with
  | none => .error "Proposal missing"
  | some card =>
      match stepRow card reference.step with
      | none => .error "Step was not started"
      | some row =>
          if row.status = .pending ∨ row.expected.isNone then
            .error "Step was not started"
          else
            match row.reference with
            | some stored =>
                if stored ≠ reference then
                  .error "Step reference already recorded"
                else .ok s
            | none =>
                if row.referenceRejected = some reference then
                  .error "Step reference was rejected"
                else
                  .ok (s.updateCard id fun card =>
                    { updateStep card reference.step fun row =>
                        { row with reference := some reference } with
                      verifyAfter := now
                      verifyAttempts := 0 })

def rejectReference (s : TopicProposalStore Effect) (id : String)
    (reference : TopicReference) : TopicProposalStore Effect :=
  match s.get id with
  | none => s
  | some card =>
      match stepRow card reference.step with
      | none => s
      | some row =>
          if row.status = .started ∧ row.reference = some reference then
            s.updateCard id fun card =>
              updateStep card reference.step fun row =>
                { row with
                  reference := none
                  referenceRejected := some reference }
          else s

def blockExecution (s : TopicProposalStore Effect) (now : ℕ) (id : String) :
    Except String (TopicProposalStore Effect) :=
  match s.get id with
  | none => .ok s
  | some card =>
      let s := s.updateCard id fun card =>
        { card with verifyAttempts := verifyMaxAttempts }
      if card.lifecycle.executionBlockedAt.isSome then .ok s
      else
        ({ card.lifecycle with
            executionBlockedAt := some now } : TopicLifecycle).parse.map
          fun lifecycle =>
            s.updateCard id fun card => writeLifecycle card lifecycle

/-- The Matrix event of a verified step. -/
def stepEvent (steps : List TopicStepRecord) (step : TopicStepId) :
    Option String :=
  (KeyedRows.get TopicStepRecord.step step steps).bind fun record =>
    record.state.receipt.bind VerifiedTopicEffect.eventId

/-- The receipt of the card once its last step is verified. -/
def finalReceipt (action : TopicAction) (steps : List TopicStepRecord)
    (receipt : VerifiedTopicEffect) :
    Except String (Option TopicActionReceipt) :=
  match action, receipt with
  | .grantTopicAccess _ _, .chain chainId hash height code _ verifiedAt =>
      if code = 0 then
        .ok (some (.topicAccessGranted hash chainId height verifiedAt))
      else .ok (some (.topicAccessFailed hash chainId height code verifiedAt))
  | .grantTopicAccess _ _, .matrix _ _ _ => .ok none
  | .createTopic roomId topicId, receipt =>
      if steps.all fun record => record.state.isVerified then
        match stepEvent steps .anchor, stepEvent steps .body,
            stepEvent steps .operation, stepEvent steps .snapshot with
        | some root, some body, some operation, some snapshot =>
            .ok (some (.topicCreated roomId topicId root body operation
              snapshot receipt.verifiedAt))
        | _, _, _, _ => .error "Missing Matrix receipt"
      else .ok none

def isFailure : TopicActionReceipt → Bool
  | .topicAccessFailed _ _ _ _ _ => true
  | _ => false

/-- The lifecycle after a step was verified. -/
def verifiedLifecycle (action : TopicAction) (lifecycle : TopicLifecycle)
    (step : TopicStepId) (receipt : VerifiedTopicEffect) :
    Except String TopicLifecycle :=
  let steps := setStep lifecycle.steps step (.verified receipt)
  match finalReceipt action steps receipt with
  | .error error => .error error
  | .ok (some final) =>
      ({ lifecycle with
        steps := steps
        status := if isFailure final then .failed else .succeeded
        receipt := some final } : TopicLifecycle).parse
  | .ok none =>
      ({ lifecycle with
        steps := steps
        status := if lifecycle.executionBlockedAt.isSome then .revoked
          else .unknown } : TopicLifecycle).parse

def verifyStep (s : TopicProposalStore Effect) (id : String)
    (step : TopicStepId) (receipt : VerifiedTopicEffect) :
    Except String (TopicProposalStore Effect) :=
  match s.get id with
  | none => .error "Proposal missing"
  | some card =>
      match KeyedRows.get TopicStepRecord.step step card.lifecycle.steps with
      | none => .error "Step was not started"
      | some current =>
          match current.state with
          | .pending => .error "Step was not started"
          | .verified stored =>
              if stored ≠ receipt then .error "Verified step changed"
              else .ok s
          | .started _ _ _ _ =>
              (verifiedLifecycle card.subject.action card.lifecycle step
                receipt).map fun lifecycle =>
                  s.updateCard id fun card =>
                    { writeLifecycle (updateStep card step fun row =>
                        { row with
                          status := .verified
                          receipt := some receipt }) lifecycle with
                      receiptState :=
                        if card.receiptState = .waiting ∨
                            card.receiptState = .pending then
                          if lifecycle.receipt.isSome then .pending
                          else .waiting
                        else card.receiptState }

/-- Whether retention has run out for the card. -/
def isPrunable (now : ℕ) (card : TopicCard Effect) : Bool :=
  decide (card.createdAt + actionProposalRetentionMs < now) &&
    !decide (card.receiptState = .pending) &&
    (ActionProposalStore.isFinished card.status ||
      decide (card.createdAt + actionProposalUnresolvedRetentionMs < now))

def prunableIds (s : TopicProposalStore Effect) (now : ℕ) : List String :=
  (s.cards.filter (isPrunable now)).map fun card => card.subject.id

def prune (s : TopicProposalStore Effect) (ids : List String) :
    TopicProposalStore Effect :=
  { s with
    cards := s.cards.filter fun card => !decide (card.subject.id ∈ ids) }

/-- What a method that may throw leaves. -/
def leave (s : TopicProposalStore Effect) :
    Except String (TopicProposalStore Effect) → TopicProposalStore Effect
  | .error _ => s
  | .ok s' => s'

end TopicProposalStore

inductive TopicEvent (Effect : Type) where
  | create (subject : TopicProposalSubject) (origin : Bool)
  | transition (id : String) (kind : TopicTransition) (digest : String)
  | begin (id : String) (input : BeginTopicStep) (effect : Effect)
  | claimVerification (id : String)
  | recordReference (id : String) (reference : TopicReference)
  | rejectReference (id : String) (reference : TopicReference)
  | blockExecution (id : String)
  | verifyStep (id : String) (step : TopicStepId)
      (receipt : VerifiedTopicEffect)
  | prune (ids : List String)
  | receiptState (id : String) (delivered : Bool)

namespace TopicProposalStore

variable {Effect : Type} (digestTopicProposal : TopicProposalSubject → String)
  (digestTopicEffect : Effect → String)

/-- One event; the clock does not go back. -/
def step (s : TopicProposalStore Effect) (at' : ℕ × TopicEvent Effect) :
    Option (TopicProposalStore Effect) :=
  let now := at'.1
  if now < s.clock then none
  else
    let s := { s with clock := now }
    match at'.2 with
    | .create subject origin =>
        some (s.leave (s.create digestTopicProposal now subject origin))
    | .transition id kind digest =>
        some (s.leave (s.transition now id kind digest))
    | .begin id input effect =>
        some (s.leave (s.begin digestTopicEffect now id input effect))
    | .claimVerification id => some (s.claimVerification now id).2
    | .recordReference id reference =>
        some (s.leave (s.recordReference now id reference))
    | .rejectReference id reference =>
        some (s.rejectReference id reference)
    | .blockExecution id => some (s.leave (s.blockExecution now id))
    | .verifyStep id step receipt =>
        some (s.leave (s.verifyStep id step receipt))
    | .prune ids =>
        if ids.Nodup ∧ (∀ id ∈ ids, id ∈ s.prunableIds now) ∧
            ids.length = min 64 (s.prunableIds now).length then
          some (s.prune ids)
        else none
    | .receiptState id delivered =>
        some (s.updateCard id fun card =>
          { card with
            receiptState :=
              if card.receiptState = .pending then
                if delivered then .delivered else .abandoned
              else card.receiptState })

end TopicProposalStore

end QiForge
