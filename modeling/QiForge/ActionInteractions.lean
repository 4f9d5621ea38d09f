import Mathlib.Tactic

/-!
# The action interaction store

Cards an agent prepares for an action, their reservation, their dispatch check
and their retention.  The storage has one map for each key prefix, and a
transaction is one operation.  An owner key stands for the digest of the
owner's binding, so it is that binding.  What comes from outside of the store
(sizes in bytes, digests, a receipt's extension) comes with `InteractionHost`.
-/

namespace QiForge

structure FlowStep where
  flowId : String
  runId : String
  stepId : String
  network : String
  accountDid : String
deriving DecidableEq, Repr

inductive ApprovalFamily where
  | plugin
  | domainWrite
  | recipeRelease
deriving DecidableEq, Repr

inductive InteractionOwner where
  | flowClaim (step : FlowStep) (collectionId schemaDigest : String)
  | flowClaimBlock (step : FlowStep) (collectionId schemaDigest : String)
  | flowBid (step : FlowStep) (collectionId schemaDigest roleId : String)
      (groupId : Option String)
  | approval (family : ApprovalFamily) (requestKey accountDid : String)
  | ownerReference (accountDid locator : String)
  | task (taskId : String)
  | question (requestId : String)
  | artifact (artifactId : String)
deriving DecidableEq, Repr

/-- What an owner key is the digest of. -/
inductive OwnerKey where
  | flowClaim (step : FlowStep)
  | flowClaimBlock (step : FlowStep) (collectionId : String)
  | flowBid (step : FlowStep) (roleId : String) (groupId : Option String)
  | approval (family : ApprovalFamily) (requestKey accountDid : String)
  | inSession (sessionId : String) (owner : InteractionOwner)
deriving DecidableEq, Repr

namespace InteractionOwner

def storageKey (owner : InteractionOwner) (sessionId : String) : OwnerKey :=
  match owner with
  | .flowClaim step _ _ => .flowClaim step
  | .flowClaimBlock step collectionId _ => .flowClaimBlock step collectionId
  | .flowBid step _ _ roleId groupId => .flowBid step roleId groupId
  | .approval family requestKey accountDid =>
      .approval family requestKey accountDid
  | .ownerReference _ _ | .task _ | .question _ | .artifact _ =>
      .inSession sessionId owner

def isFlow : InteractionOwner → Bool
  | .flowClaim _ _ _ | .flowClaimBlock _ _ _ | .flowBid _ _ _ _ _ => true
  | .approval _ _ _ | .ownerReference _ _ | .task _ | .question _ |
      .artifact _ => false

def isApproval : InteractionOwner → Bool
  | .approval _ _ _ => true
  | .flowClaim _ _ _ | .flowClaimBlock _ _ _ | .flowBid _ _ _ _ _ |
      .ownerReference _ _ | .task _ | .question _ | .artifact _ => false

/-- An owner the dispatch check takes. -/
def isDispatchable (owner : InteractionOwner) : Bool :=
  owner.isFlow || owner.isApproval

def isReference : InteractionOwner → Bool
  | .ownerReference _ _ => true
  | .flowClaim _ _ _ | .flowClaimBlock _ _ _ | .flowBid _ _ _ _ _ |
      .approval _ _ _ | .task _ | .question _ | .artifact _ => false

def isDomainWrite : InteractionOwner → Bool
  | .approval .domainWrite _ _ => true
  | _ => false

def accountDid : InteractionOwner → Option String
  | .flowClaim step _ _ | .flowClaimBlock step _ _ | .flowBid step _ _ _ _ =>
      some step.accountDid
  | .approval _ _ did | .ownerReference did _ => some did
  | .task _ | .question _ | .artifact _ => none

end InteractionOwner

inductive InteractionStatus where
  | draft
  | reserved
  | outcomeUnknown
  | observed
  | partially
  | cancelled
deriving DecidableEq, Repr

inductive CancelReason where
  | user
  | superseded
  | notSubmitted
deriving DecidableEq, Repr

structure Reservation where
  operationKey : String
  valuesDigest : String
deriving DecidableEq, Repr

/-- The fields of an object, in order. -/
abbrev JsonFields (J : Type) := List (String × J)

structure Interaction (J : Type) where
  id : String
  revision : ℕ
  sessionId : String
  owner : InteractionOwner
  values : JsonFields J
  updatedByUser : List String
  status : InteractionStatus
  createdAt : ℕ
  expiresAt : ℕ
  reservation : Option Reservation
  ownerExecutionRef : Option String
  receipt : Option (JsonFields J)
  cancelReason : Option CancelReason
deriving DecidableEq

def Interaction.ownerKey {J : Type} (r : Interaction J) : OwnerKey :=
  r.owner.storageKey r.sessionId

inductive EditSource where
  | agent
  | user
deriving DecidableEq, Repr

structure PrepareInteraction (J : Type) where
  requestId : String
  sessionId : String
  owner : InteractionOwner
  values : JsonFields J
deriving DecidableEq

inductive UpdateKind (J : Type) where
  | update (patch : JsonFields J) (remove : List String) (source : EditSource)
  | cancel
deriving DecidableEq

inductive ObservedOutcome (J : Type) where
  | unknown (receipt : Option (JsonFields J))
  | notSubmitted
  | reported (ownerExecutionRef : String) (receipt : Option (JsonFields J))
  | partially (ownerExecutionRef : String) (receipt : Option (JsonFields J))
deriving DecidableEq

def ObservedOutcome.receipt {J : Type} :
    ObservedOutcome J → Option (JsonFields J)
  | .unknown receipt | .reported _ receipt | .partially _ receipt => receipt
  | .notSubmitted => none

/-- A change of a stored record. -/
inductive EditKind (J : Type) where
  | update (kind : UpdateKind J)
  | reserve (valuesDigest : String)
  | observe (operationKey : String) (outcome : ObservedOutcome J)
deriving DecidableEq

structure EditInteraction (J : Type) where
  id : String
  requestId : String
  sessionId : String
  expectedRevision : ℕ
  kind : EditKind J
deriving DecidableEq

structure CheckDispatch where
  owner : InteractionOwner
  cardRef : Option String
  operationKey : Option String
  valuesDigest : Option String
deriving DecidableEq, Repr

structure InteractionError where
  status : ℕ
  code : String
  message : String
deriving DecidableEq, Repr

structure InteractionHost (J : Type) where
  userDid : String
  valuesBytes : JsonFields J → ℕ
  namesBytes : List String → ℕ
  recordBytes : Interaction J → ℕ
  receiptBytes : JsonFields J → ℕ
  valuesDigest : JsonFields J → String
  sameValues : JsonFields J → JsonFields J → Bool
  isObject : J → Bool
  extendsReceipt : JsonFields J → JsonFields J → Bool
  prepareFingerprint : PrepareInteraction J → String
  editFingerprint : EditInteraction J → String

inductive DispatchMark where
  | consumed
  | released
deriving DecidableEq, Repr

structure RequestMark where
  fingerprint : String
  id : String
deriving DecidableEq, Repr

structure RecentRequest where
  requestId : String
  fingerprint : String
deriving DecidableEq, Repr

structure SessionEntry where
  sessionId : String
  createdAt : ℕ
  id : String
deriving DecidableEq, Repr

structure ExpiryEntry where
  expiresAt : ℕ
  id : String
deriving DecidableEq, Repr

/-- The storage, one field for each key prefix. -/
structure InteractionStore (J : Type) where
  owners : OwnerKey → Option String
  records : String → Option (Interaction J)
  chunks : String → Option (JsonFields J)
  dispatch : String → Option DispatchMark
  manual : OwnerKey → Option ℕ
  requests : String → Option RequestMark
  requestsOf : List (String × String)
  recent : String → List RecentRequest
  sessions : List SessionEntry
  expiry : List ExpiryEntry

inductive OwnerState where
  | blocked
  | live
  | stale
deriving DecidableEq, Repr

structure InteractionResult (J : Type) where
  interaction : Interaction J
  replayed : Bool
deriving DecidableEq

def recentLimit : ℕ := 16

def maxRecordBytes : ℕ := 64 * 1024

def maxDomainWriteBytes : ℕ := 2 * 1024 * 1024 - 16 * 1024

def dayMs : ℕ := 24 * 60 * 60 * 1000

def ttlMs : ℕ := 7 * dayMs

def retainMs : ℕ := 30 * dayMs

def sessionDraftLimit : ℕ := 200

def pruneBatch : ℕ := 16

namespace InteractionStore

variable {J : Type}

def empty : InteractionStore J where
  owners := fun _ => none
  records := fun _ => none
  chunks := fun _ => none
  dispatch := fun _ => none
  manual := fun _ => none
  requests := fun _ => none
  requestsOf := []
  recent := fun _ => []
  sessions := []
  expiry := []

def putRecord (s : InteractionStore J) (r : Interaction J) :
    InteractionStore J :=
  { s with records := Function.update s.records r.id (some r) }

def putDispatch (s : InteractionStore J) (operationKey : String)
    (mark : DispatchMark) : InteractionStore J :=
  { s with dispatch := Function.update s.dispatch operationKey (some mark) }

/-- The operation passed the dispatch check and was not released since. -/
def dispatched (s : InteractionStore J) (r : Interaction J) : Bool :=
  r.reservation.any fun res =>
    decide (s.dispatch res.operationKey = some .consumed)

def ownerState (s : InteractionStore J) (now : ℕ) (r : Interaction J) :
    OwnerState :=
  if r.status = .observed ∨ r.status = .partially then .blocked
  else if s.dispatched r then .blocked
  else if now < r.expiresAt ∧ (r.status = .draft ∨ r.status = .reserved) then
    .live
  else .stale

/-- Ends a draft that can no longer dispatch. -/
def supersede (s : InteractionStore J) (r : Interaction J) :
    InteractionStore J :=
  if r.status = .cancelled then s
  else
    s.putRecord { r with
      status := .cancelled
      cancelReason := some .superseded
      revision := r.revision + 1 }

/-- The record with its values, also when they are in chunks. -/
def load (s : InteractionStore J) (id : String) : Option (Interaction J) :=
  (s.records id).map fun r => { r with values := (s.chunks id).getD r.values }

/-- The owner's record, when there is one. -/
def ownedRecord (s : InteractionStore J) (key : OwnerKey) :
    Option (Interaction J) :=
  (s.owners key).bind s.records

variable (host : InteractionHost J)

def assertRecordSize (values : JsonFields J) (updatedByUser : List String)
    (owner : InteractionOwner) : Except InteractionError Unit :=
  let limit := if owner.isDomainWrite then maxDomainWriteBytes
    else maxRecordBytes
  if limit < host.valuesBytes values + host.namesBytes updatedByUser then
    .error ⟨413, "too_large", "Draft values exceed the owner payload limit"⟩
  else .ok ()

/-- A record too large for one value leaves its values in chunks. -/
def save (s : InteractionStore J) (r : Interaction J) :
    Except InteractionError (InteractionStore J) :=
  let total := if r.owner.isDomainWrite then 2 * 1024 * 1024 else 96 * 1024
  if total < host.recordBytes r then
    .error ⟨413, "too_large", "Interaction exceeds the owner record limit"⟩
  else if host.recordBytes r ≤ 96 * 1024 then .ok (s.putRecord r)
  else
    .ok { s.putRecord { r with values := [] } with
      chunks := Function.update s.chunks r.id (some r.values) }

def readFrom (s : InteractionStore J) (id sessionId : String) :
    Except InteractionError (Interaction J) :=
  match s.load id with
  | some r =>
      if r.sessionId = sessionId then .ok r
      else .error ⟨404, "not_found", "Interaction not found"⟩
  | none => .error ⟨404, "not_found", "Interaction not found"⟩

def rememberPrepare (s : InteractionStore J) (input : PrepareInteraction J)
    (id : String) : InteractionStore J :=
  { s with
    requests := Function.update s.requests input.requestId
      (some ⟨host.prepareFingerprint input, id⟩)
    requestsOf := s.requestsOf ++ [(id, input.requestId)] }

def rememberEdit (s : InteractionStore J) (input : EditInteraction J) :
    InteractionStore J :=
  let all := s.recent input.id ++
    [⟨input.requestId, host.editFingerprint input⟩]
  { s with
    recent := Function.update s.recent input.id
      (all.drop (all.length - recentLimit)) }

def requestConflict : InteractionError := ⟨409, "request_conflict",
    "Request ID already used with different input"⟩

/-- The checks of a new card's own input. -/
def checkPrepare (input : PrepareInteraction J) :
    Except InteractionError Unit := do
  if input.owner.isReference ∧ input.values ≠ [] then
    throw ⟨400, "reference_values_forbidden",
      "Owner references contain locators only"⟩
  if input.owner.accountDid.any fun did => decide (did ≠ host.userDid) then
    throw ⟨403, "account_mismatch",
      "Claim account differs from authenticated user"⟩
  assertRecordSize host input.values [] input.owner
  if input.owner.isApproval ∧
      ¬ (input.values.length = 1 ∧ ∃ v ∈ input.values.lookup "request",
        host.isObject v = true) then
    throw ⟨400, "invalid_request",
      "Approval values must contain exactly one request object"⟩

/-- A new card where a record stands: its replay, a refusal, or that the record
gives way. -/
def standing (s : InteractionStore J) (now : ℕ)
    (input : PrepareInteraction J) (existing : Interaction J) :
    Except InteractionError Bool :=
  let sameOwner := decide (existing.owner = input.owner)
  let sameSession := decide (existing.sessionId = input.sessionId)
  let state := s.ownerState now existing
  if input.owner.isApproval && sameOwner &&
      !host.sameValues (((s.load existing.id).map Interaction.values).getD [])
        input.values then
    .error ⟨409, "request_conflict",
      "Approval request identity already binds different values"⟩
  else if state = .blocked ∨ (state = .live ∧ existing.status = .reserved) ∨
      (state = .live ∧ sameSession = false) then
    if sameOwner && sameSession then .ok true
    else if state = .blocked then
      .error ⟨409, "dispatch_consumed",
        "This claim step already has a Companion submission; " ++
          "check the claims list before preparing another"⟩
    else if sameSession then
      .error ⟨409, "target_changed",
        "The form changed while its card was being submitted; " ++
          "reopen it through the Flow owner"⟩
    else
      .error ⟨409, "target_in_use",
        "This claim step has an open card in another chat"⟩
  else .ok (decide (state = .live) && sameOwner)

/-- Cards the chat created within one draft lifetime. -/
def recentCards (s : InteractionStore J) (now : ℕ) (sessionId : String) : ℕ :=
  s.sessions.countP fun entry =>
    decide (entry.sessionId = sessionId ∧ now - ttlMs ≤ entry.createdAt)

def newCard (now : ℕ) (newId : String) (input : PrepareInteraction J) :
    Interaction J where
  id := newId
  revision := 1
  sessionId := input.sessionId
  owner := input.owner
  values := input.values
  updatedByUser := []
  status := .draft
  createdAt := now
  expiresAt := now + ttlMs
  reservation := none
  ownerExecutionRef := none
  receipt := none
  cancelReason := none

/-- The card's owner key and its entries in the two indexes. -/
def addKeys (s : InteractionStore J) (r : Interaction J) :
    InteractionStore J :=
  { s with
    owners := Function.update s.owners r.ownerKey (some r.id)
    sessions := s.sessions ++ [⟨r.sessionId, r.createdAt, r.id⟩]
    expiry := s.expiry ++ [⟨r.expiresAt, r.id⟩] }

def create (s : InteractionStore J) (now : ℕ) (newId : String)
    (input : PrepareInteraction J) :
    Except InteractionError (InteractionResult J × InteractionStore J) :=
  if sessionDraftLimit ≤ s.recentCards now input.sessionId then
    .error ⟨409, "too_many_drafts",
      "This chat created 200 Agent cards in the last week; " ++
        "start a new chat"⟩
  else
    let r := newCard now newId input
    ((s.addKeys r).save host r).map fun s =>
      (⟨r, false⟩, s.rememberPrepare host input r.id)

def prepare (s : InteractionStore J) (now : ℕ) (newId : String)
    (input : PrepareInteraction J) :
    Except InteractionError (InteractionResult J × InteractionStore J) :=
  match s.requests input.requestId with
  | some mark =>
      if mark.fingerprint = host.prepareFingerprint input then
        (s.readFrom mark.id input.sessionId).map fun r => (⟨r, true⟩, s)
      else .error requestConflict
  | none =>
      let key := input.owner.storageKey input.sessionId
      match checkPrepare host input with
      | .error e => .error e
      | .ok () =>
          if input.owner.isFlow ∧ (s.manual key).isSome then
            .error ⟨409, "dispatch_consumed",
              "This claim step was submitted from the form; " ++
                "check the claims list before preparing another"⟩
          else
            match s.ownedRecord key with
            | none => s.create host now newId input
            | some existing =>
                match s.standing host now input existing with
                | .error e => .error e
                | .ok true =>
                    .ok (⟨existing, true⟩,
                      s.rememberPrepare host input existing.id)
                | .ok false =>
                    (s.supersede existing).create host now newId input

/-- The patched values, and the fields a user has edited. -/
def patched (r : Interaction J) (patch : JsonFields J)
    (remove : List String) (source : EditSource) :
    JsonFields J × List String :=
  let open' := fun name =>
    decide (source = .user) || !decide (name ∈ r.updatedByUser)
  let patch := patch.filter fun field => open' field.1
  let removed := remove.filter open'
  let kept := r.values.map fun field =>
    (field.1, (patch.lookup field.1).getD field.2)
  let added := patch.filter fun field =>
    !decide (field.1 ∈ r.values.map Prod.fst)
  ((kept ++ added).filter fun field => !decide (field.1 ∈ removed),
    if source = .user then
      (r.updatedByUser ++ patch.map Prod.fst ++ removed).dedup
    else r.updatedByUser)

def applyUpdate (s : InteractionStore J) (r : Interaction J) :
    UpdateKind J → Except InteractionError (Interaction J)
  | .cancel =>
      if r.status = .draft ∨
          (r.status = .reserved ∧ s.dispatched r = false) then
        .ok { r with status := .cancelled, cancelReason := some .user }
      else
        .error ⟨409, "not_editable",
          "Reserved or terminal interactions cannot be edited"⟩
  | .update patch remove source =>
      if r.status ≠ .draft then
        .error ⟨409, "not_editable",
          "Reserved or terminal interactions cannot be edited"⟩
      else if r.owner.isApproval then
        .error ⟨409, "immutable_request",
          "Approval requests cannot be changed after preparation"⟩
      else
        let merged := patched r patch remove source
        (assertRecordSize host merged.1 merged.2 r.owner).map fun _ =>
          { r with values := merged.1, updatedByUser := merged.2 }

def applyReserve (r : Interaction J) (valuesDigest newKey : String) :
    Except InteractionError (Interaction J) :=
  if r.owner.isDispatchable = false ∨ r.status ≠ .draft then
    .error ⟨409, "not_dispatchable",
      "Only an unreserved executable draft can be reserved"⟩
  else if host.valuesDigest r.values ≠ valuesDigest then
    .error ⟨409, "values_changed", "Reviewed values do not match draft"⟩
  else
    .ok { r with
      status := .reserved
      reservation := some ⟨newKey, valuesDigest⟩ }

/-- Whether a reservation waits for this outcome. -/
def awaits (r : Interaction J) (operationKey : String)
    (outcome : ObservedOutcome J) : Bool :=
  (r.reservation.any fun res => decide (res.operationKey = operationKey)) &&
    match outcome with
    | .notSubmitted => decide (r.status = .reserved)
    | .unknown _ | .reported _ _ | .partially _ _ =>
        decide (r.status = .reserved ∨ r.status = .outcomeUnknown ∨
          r.status = .partially)

/-- The record after the outcome. -/
def observedRecord (r : Interaction J) : ObservedOutcome J → Interaction J
  | .unknown receipt =>
      { r with status := .outcomeUnknown, receipt := receipt.or r.receipt }
  | .notSubmitted =>
      { r with status := .cancelled, cancelReason := some .notSubmitted }
  | .reported ref receipt =>
      { r with
        status := .observed
        receipt := receipt.or r.receipt
        ownerExecutionRef := some ref }
  | .partially ref receipt =>
      { r with
        status := .partially
        receipt := receipt.or r.receipt
        ownerExecutionRef := some ref }

def applyObserve (s : InteractionStore J) (r : Interaction J)
    (operationKey : String) (outcome : ObservedOutcome J) :
    Except InteractionError (Interaction J × InteractionStore J) :=
  if (r.receipt.any fun old =>
      outcome.receipt.any fun new => !host.extendsReceipt old new) then
    .error ⟨409, "receipt_conflict",
      "Receipt checkpoints cannot remove or change acknowledged effects"⟩
  else if (outcome.receipt.any fun receipt =>
      decide (64 * 1024 < host.receiptBytes receipt)) then
    .error ⟨413, "too_large", "Receipt exceeds 64 KiB"⟩
  else if awaits r operationKey outcome = false then
    .error ⟨409, "reservation_mismatch", "No matching pending reservation"⟩
  else
    .ok (observedRecord r outcome,
      match outcome with
      | .notSubmitted => s.putDispatch operationKey .released
      | .unknown _ | .reported _ _ | .partially _ _ => s)

def applyEdit (s : InteractionStore J) (r : Interaction J) (newKey : String) :
    EditKind J → Except InteractionError (Interaction J × InteractionStore J)
  | .update kind => (s.applyUpdate host r kind).map fun r => (r, s)
  | .reserve valuesDigest =>
      (applyReserve host r valuesDigest newKey).map fun r => (r, s)
  | .observe operationKey outcome =>
      s.applyObserve host r operationKey outcome

def EditKind.isObserve : EditKind J → Bool
  | .observe _ _ => true
  | .update _ | .reserve _ => false

/-- The checks an edit makes of its record first. -/
def checkEdit (now : ℕ) (input : EditInteraction J) (r : Interaction J) :
    Except InteractionError Unit :=
  if r.owner.isReference then
    .error ⟨409, "reference_read_only",
      "Native owners retain draft, decision and execution authority"⟩
  else if EditKind.isObserve input.kind = false ∧ r.expiresAt ≤ now then
    .error ⟨410, "expired", "Interaction has expired"⟩
  else if r.revision ≠ input.expectedRevision then
    .error ⟨409, "stale_revision", "Interaction revision changed"⟩
  else .ok ()

def edit (s : InteractionStore J) (now : ℕ) (newKey : String)
    (input : EditInteraction J) :
    Except InteractionError (InteractionResult J × InteractionStore J) :=
  match (s.recent input.id).find? fun recent =>
      decide (recent.requestId = input.requestId) with
  | some previous =>
      if previous.fingerprint = host.editFingerprint input then
        (s.readFrom input.id input.sessionId).map fun r => (⟨r, true⟩, s)
      else .error requestConflict
  | none =>
      match s.readFrom input.id input.sessionId with
      | .error e => .error e
      | .ok r =>
          match checkEdit now input r with
          | .error e => .error e
          | .ok () =>
              match s.applyEdit host r newKey input.kind with
              | .error e => .error e
              | .ok (r, s) =>
                  let r := { r with revision := r.revision + 1 }
                  (s.save host r).map fun s =>
                    (⟨r, false⟩, s.rememberEdit host input)

/-- The ordinary form's dispatch check. -/
def checkForm (s : InteractionStore J) (now : ℕ) (input : CheckDispatch) :
    Except InteractionError (InteractionStore J) :=
  let key := input.owner.storageKey ""
  if input.owner.isApproval then
    .error ⟨409, "review_required",
      "An approval dispatches only through its reviewed card"⟩
  else
    match s.owners key, s.ownedRecord key with
    | some _, none =>
        .error ⟨409, "review_required",
          "This claim step has an unreadable Companion draft"⟩
    | none, _ =>
        .ok { s with manual := Function.update s.manual key (some now) }
    | some _, some r =>
        if s.ownerState now r = .blocked then
          .error ⟨409, "dispatch_consumed",
            "A Companion submission for this claim step already reached " ++
              "the claim service; check the claims list before submitting again"⟩
        else
          let s := s.supersede r
          .ok { s with manual := Function.update s.manual key (some now) }

/-- What the card and the check must agree on. -/
def isReviewed (now : ℕ) (input : CheckDispatch) (r : Interaction J) :
    Bool :=
  decide (r.owner = input.owner) && decide (r.status = .reserved) &&
    decide (now < r.expiresAt) && decide (input.cardRef = some r.id) &&
    (r.reservation.any fun res =>
      decide (input.operationKey = some res.operationKey) &&
        decide (input.valuesDigest = some res.valuesDigest))

/-- A card's dispatch check; the operation it consumes. -/
def checkCard (s : InteractionStore J) (now : ℕ) (input : CheckDispatch) :
    Except InteractionError (String × InteractionStore J) :=
  let key := input.owner.storageKey ""
  match s.ownedRecord key with
  | none =>
      .error ⟨409, "review_required",
        "No matching managed draft exists for this owner"⟩
  | some r =>
      if ((s.manual key).any fun manualAt =>
          decide (r.createdAt ≤ manualAt)) then
        .error ⟨409, "dispatch_consumed",
          "This claim step was submitted from the form; " ++
            "check the claims list before submitting again"⟩
      else if isReviewed now input r = false then
        .error ⟨409, "review_required", "This action has a managed draft; " ++
            "reopen and review its current operation"⟩
      else
        match r.reservation with
        | none =>
            .error ⟨409, "review_required",
              "This action has a managed draft; " ++
                "reopen and review its current operation"⟩
        | some res =>
            if (s.dispatch res.operationKey).isSome then
              .error ⟨409, "dispatch_consumed",
                "The reserved operation was already dispatched; " ++
                  "reconcile its outcome"⟩
            else
              .ok (res.operationKey, s.putDispatch res.operationKey .consumed)

/-- Removes a record and what points at it, except what stops a second
dispatch. -/
def forget (s : InteractionStore J) (now : ℕ) (id : String)
    (expiryEntry : Option ExpiryEntry) : InteractionStore J :=
  let requests := (s.requestsOf.filter fun entry =>
    decide (entry.1 = id)).map Prod.snd
  let s := { s with
    requests := fun requestId =>
      if requestId ∈ requests then none else s.requests requestId
    requestsOf := s.requestsOf.filter fun entry => !decide (entry.1 = id)
    recent := Function.update s.recent id []
    expiry := s.expiry.filter fun entry =>
      !decide (expiryEntry = some entry) }
  match s.records id with
  | none => s
  | some r =>
      let hasChunks := (s.chunks id).isSome
      let s := { s with chunks := Function.update s.chunks id none }
      if s.ownerState now r = .blocked then
        if r.values.isEmpty && r.updatedByUser.isEmpty && !hasChunks then s
        else
          { s with
            records := Function.update s.records id (some { r with
              values := []
              updatedByUser := []
              revision := r.revision + 1 }) }
      else
        { s with
          records := Function.update s.records id none
          sessions := s.sessions.filter fun entry =>
            !decide (entry = ⟨r.sessionId, r.createdAt, r.id⟩)
          owners :=
            if s.owners r.ownerKey = some id then
              Function.update s.owners r.ownerKey none
            else s.owners }

/-- The entries retention reads: those that are due, oldest first. -/
def due (s : InteractionStore J) (now : ℕ) : List ExpiryEntry :=
  ((s.expiry.filter fun entry =>
    decide (entry.expiresAt < now - retainMs)).mergeSort fun a b =>
      decide (a.expiresAt < b.expiresAt ∨
        a.expiresAt = b.expiresAt ∧ a.id ≤ b.id)).take pruneBatch

/-- The chat's entries, oldest first. -/
def ofSession (s : InteractionStore J) (sessionId : String) :
    List SessionEntry :=
  ((s.sessions.filter fun entry =>
    decide (entry.sessionId = sessionId)).mergeSort fun a b =>
      decide (a.createdAt < b.createdAt ∨
        a.createdAt = b.createdAt ∧ a.id ≤ b.id)).take pruneBatch

def forgetDue (s : InteractionStore J) (now : ℕ)
    (entries : List ExpiryEntry) : InteractionStore J :=
  entries.foldl (fun s entry => s.forget now entry.id (some entry)) s

def forgetOfSession (s : InteractionStore J) (now : ℕ)
    (entries : List SessionEntry) : InteractionStore J :=
  entries.foldl (fun s entry =>
    let expiryEntry := (s.records entry.id).map fun r =>
      (⟨r.expiresAt, r.id⟩ : ExpiryEntry)
    let s := s.forget now entry.id expiryEntry
    { s with sessions := s.sessions.filter fun e => !decide (e = entry) }) s

end InteractionStore

/-- Keys retention has read and not yet worked on. -/
inductive ForgetPass where
  | due (entries : List ExpiryEntry)
  | session (entries : List SessionEntry)
deriving DecidableEq, Repr

/-- What an operation answered, oldest first. -/
inductive InteractionFact where
  | prepared (key : OwnerKey)
  | cardAllowed (key : OwnerKey) (operationKey : String)
  | formAllowed (key : OwnerKey)
  | observed (key : OwnerKey) (id operationKey : String)
      (status : InteractionStatus)
deriving DecidableEq, Repr

structure InteractionSystem (J : Type) where
  store : InteractionStore J
  uuids : List String
  passes : List ForgetPass
  facts : List InteractionFact

inductive InteractionEvent (J : Type) where
  | prepare (now : ℕ) (newId : String) (input : PrepareInteraction J)
  | edit (now : ℕ) (newKey : String) (input : EditInteraction J)
  | checkDispatch (now : ℕ) (input : CheckDispatch)
  | pruneReads (now : ℕ)
  | sessionReads (sessionId : String)
  | forgets (pass : ℕ) (now : ℕ)
deriving DecidableEq

namespace InteractionSystem

variable {J : Type} (host : InteractionHost J)

def empty : InteractionSystem J := ⟨.empty, [], [], []⟩

def editFacts (input : EditInteraction J) (result : InteractionResult J) :
    List InteractionFact :=
  match input.kind with
  | .observe operationKey _ =>
      if result.replayed then []
      else
        [.observed result.interaction.ownerKey result.interaction.id
          operationKey result.interaction.status]
  | .update _ | .reserve _ => []

def prepare (s : InteractionSystem J) (now : ℕ) (newId : String)
    (input : PrepareInteraction J) : InteractionSystem J :=
  let s := { s with uuids := s.uuids ++ [newId] }
  match s.store.prepare host now newId input with
  | .error _ => s
  | .ok (result, store) =>
      { s with
        store := store
        facts := s.facts ++ if result.replayed then []
          else [.prepared (input.owner.storageKey input.sessionId)] }

def edit (s : InteractionSystem J) (now : ℕ) (newKey : String)
    (input : EditInteraction J) : InteractionSystem J :=
  let s := { s with uuids := s.uuids ++ [newKey] }
  match s.store.edit host now newKey input with
  | .error _ => s
  | .ok (result, store) =>
      { s with
        store := store
        facts := s.facts ++ editFacts input result }

/-- A card reference makes it a card's dispatch. -/
def checkDispatch (s : InteractionSystem J) (now : ℕ)
    (input : CheckDispatch) : InteractionSystem J :=
  let key := input.owner.storageKey ""
  if input.owner.isDispatchable = false ∨
      input.owner.accountDid ≠ some host.userDid then s
  else if input.cardRef = none then
    match s.store.checkForm now input with
    | .error _ => s
    | .ok store =>
        { s with store := store, facts := s.facts ++ [.formAllowed key] }
  else
    match s.store.checkCard now input with
    | .error _ => s
    | .ok (operationKey, store) =>
        { s with
          store := store
          facts := s.facts ++ [.cardAllowed key operationKey] }

def forgets (s : InteractionSystem J) (pass : ℕ) (now : ℕ) :
    Option (InteractionSystem J) :=
  match s.passes[pass]? with
  | none => none
  | some (.due entries) =>
      some { s with
        store := s.store.forgetDue now entries
        passes := s.passes.eraseIdx pass }
  | some (.session entries) =>
      some { s with
        store := s.store.forgetOfSession now entries
        passes := s.passes.eraseIdx pass }

def step (s : InteractionSystem J) :
    InteractionEvent J → Option (InteractionSystem J)
  | .prepare now newId input =>
      if newId ∈ s.uuids then none else some (s.prepare host now newId input)
  | .edit now newKey input =>
      if newKey ∈ s.uuids then none else some (s.edit host now newKey input)
  | .checkDispatch now input => some (s.checkDispatch host now input)
  | .pruneReads now =>
      some { s with passes := s.passes ++ [.due (s.store.due now)] }
  | .sessionReads sessionId =>
      some { s with
        passes := s.passes ++ [.session (s.store.ofSession sessionId)] }
  | .forgets pass now => s.forgets pass now

end InteractionSystem

end QiForge
