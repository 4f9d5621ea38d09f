import QiForge.KeyedRows
import QiForge.Transition

/-!
# Hub actions

`prepareHubAction` asks for the capabilities, reserves the request key, sends
the POST and records the reference it answers; `recordOutcome` checks the
recorded reference and then stores the outcome.  Any calls are under way at
once, each between two of its awaits; a transaction of the store is one step,
and a request or its answer may be lost.

A prune takes rows whose review expired 30 days ago; no prepare of such a key
and no delivery to such an action is under way then.  `posts`, `resolved` and `delivered` record what was sent, returned
and accepted since the rows concerned were last pruned.
-/

namespace QiForge

structure HubActionOrigin where
  ownerDid : String
  sessionId : String
  runId : String
  requestId : String
  bindingId : String
  bindingRevision : ℤ
  requestKey : String
deriving DecidableEq

/-- A reference the protocol has parsed; `rest` is what no check reads. -/
structure HubReference where
  id : String
  accountId : String
  bindingId : String
  bindingRevision : ℤ
  revision : ℤ
  digest : String
  expiresAt : ℤ
  rest : String
deriving DecidableEq

structure HubOutcome where
  eventId : String
  ownerDid : String
  reference : HubReference
  authorizedRevision : ℤ
  authorizedDigest : String
  sequence : ℤ
  rest : String
deriving DecidableEq

/-- A row of `hub_action_requests`; the operation is its canonical JSON. -/
structure HubRequestRow where
  origin : HubActionOrigin
  operation : String
  expiresAt : ℤ
deriving DecidableEq

structure HubActionRow where
  origin : HubActionOrigin
  reference : HubReference
deriving DecidableEq

structure HubActionStore where
  requests : List HubRequestRow
  actions : List HubActionRow
  outcomes : List HubOutcome
deriving DecidableEq

namespace HubRequestRow

def key (row : HubRequestRow) : String := row.origin.requestKey

end HubRequestRow

namespace HubActionRow

def key (row : HubActionRow) : String := row.origin.requestKey
def id (row : HubActionRow) : String := row.reference.id

end HubActionRow

namespace HubOutcome

def actionId (outcome : HubOutcome) : String := outcome.reference.id

end HubOutcome

namespace HubActionStore

def empty : HubActionStore := ⟨[], [], []⟩

def byRequestKey (store : HubActionStore) (requestKey : String) :
    Option HubReference :=
  (KeyedRows.get HubActionRow.key requestKey store.actions).map
    HubActionRow.reference

def reserve (store : HubActionStore) (origin : HubActionOrigin)
    (encoded : String) (proposedExpiry : ℤ) :
    Except String (HubActionStore × ℤ) :=
  match KeyedRows.get HubRequestRow.key origin.requestKey store.requests with
  | some previous =>
      if previous.origin ≠ origin ∨ previous.operation ≠ encoded then
        .error "Hub action request key belongs to another operation"
      else .ok (store, previous.expiresAt)
  | none =>
      .ok ({ store with
        requests := store.requests ++ [⟨origin, encoded, proposedExpiry⟩] },
        proposedExpiry)

/-- `INSERT` fails on an action id that is there. -/
def record (store : HubActionStore) (origin : HubActionOrigin)
    (reference : HubReference) :
    Except String (HubActionStore × HubReference) :=
  if reference.bindingId ≠ origin.bindingId ∨
      reference.bindingRevision ≠ origin.bindingRevision then
    .error "Hub action reference does not match the channel binding"
  else
    match KeyedRows.get HubActionRow.key origin.requestKey store.actions with
    | some previous =>
        if previous.origin ≠ origin ∨ previous.reference ≠ reference then
          .error "Hub action request key belongs to another action"
        else .ok (store, previous.reference)
    | none =>
        match KeyedRows.get HubActionRow.id reference.id store.actions with
        | some _ => .error "UNIQUE constraint failed: hub_actions.action_id"
        | none =>
            .ok ({ store with
              actions := store.actions ++ [⟨origin, reference⟩] }, reference)

/-- The check of an outcome before its transaction. -/
def checkOutcome (store : HubActionStore) (outcome : HubOutcome) :
    Except String Unit :=
  match store.actions.find? fun row =>
      decide (row.origin.ownerDid = outcome.ownerDid ∧
        row.id = outcome.actionId) with
  | none => .error "Hub outcome does not match a prepared action"
  | some held =>
      if held.reference ≠ outcome.reference then
        .error "Hub outcome does not match a prepared action"
      else if outcome.authorizedRevision < held.reference.revision ∨
          (outcome.authorizedRevision = held.reference.revision ∧
            outcome.authorizedDigest ≠ held.reference.digest) then
        .error "Hub outcome revision does not descend from the reference"
      else .ok ()

/-- The stored outcome of the action with the highest sequence. -/
def latest (store : HubActionStore) (actionId : String) : Option HubOutcome :=
  store.outcomes.foldl (fun latest outcome =>
    if outcome.actionId ≠ actionId then latest
    else
      match latest with
      | none => some outcome
      | some other =>
          if other.sequence < outcome.sequence then some outcome
          else some other) none

/-- The transaction of an outcome; whether it was new. -/
def storeOutcome (store : HubActionStore) (outcome : HubOutcome) :
    Except String (HubActionStore × Bool) :=
  match KeyedRows.get HubOutcome.eventId outcome.eventId store.outcomes with
  | some existing =>
      if existing ≠ outcome then .error "Hub outcome event ID conflict"
      else .ok (store, false)
  | none =>
      if (store.latest outcome.actionId).any fun latest =>
          decide (outcome.sequence < latest.sequence) then .ok (store, false)
      else if store.outcomes.any fun stored =>
          decide (stored.actionId = outcome.actionId ∧
            stored.sequence = outcome.sequence) then
        .error "Hub outcome sequence conflict"
      else
        .ok ({ store with outcomes := store.outcomes ++ [outcome] }, true)

/-- The run's actions with their latest stored outcome. -/
def runState (store : HubActionStore) (ownerDid sessionId runId : String) :
    List (HubReference × Option HubOutcome) :=
  ((store.actions.filter fun row =>
      decide (row.origin.ownerDid = ownerDid ∧
        row.origin.sessionId = sessionId ∧
        row.origin.runId = runId)).insertionSort
    fun a b => a.id ≤ b.id).map fun row =>
      (row.reference, store.latest row.id)

def prune (store : HubActionStore) (keys actionIds : List String) :
    HubActionStore where
  requests := store.requests.filter fun row => decide (row.key ∉ keys)
  actions := store.actions.filter fun row => decide (row.id ∉ actionIds)
  outcomes := store.outcomes.filter fun outcome =>
    decide (outcome.actionId ∉ actionIds)

end HubActionStore

/-- The parts of the protocol package that the calls use. -/
structure HubProtocol where
  Operation : Type
  Capabilities : Type
  canonicalJson : Operation → String
  accountId : Capabilities → String
  /-- `assertOperationEnabled`, the text it throws -/
  enabled : Capabilities → Operation → String → Except String Unit

structure PrepareInput (P : HubProtocol) where
  origin : HubActionOrigin
  operation : P.Operation
  nowMs : ℤ

/-- Where a `prepareHubAction` call waits. -/
inductive PreparePhase (P : HubProtocol) where
  | capabilities
  | reserve (capabilities : P.Capabilities)
  | lookup
  | post (capabilities : P.Capabilities) (expiresAt : ℤ)
  | answer (capabilities : P.Capabilities)
  | record (reference : HubReference)

structure PrepareCall (P : HubProtocol) where
  input : PrepareInput P
  phase : PreparePhase P

/-- A POST as it was sent, with the clock of its call. -/
structure HubPost (P : HubProtocol) where
  origin : HubActionOrigin
  operation : P.Operation
  expiresAt : ℤ
  nowMs : ℤ

structure HubSystem (P : HubProtocol) where
  store : HubActionStore
  prepares : List (ℕ × PrepareCall P)
  deliveries : List (ℕ × HubOutcome)
  posts : List (HubPost P)
  resolved : List (String × HubReference)
  delivered : List (HubOutcome × Bool)

inductive HubEvent (P : HubProtocol) where
  | prepare (call : ℕ) (input : PrepareInput P)
  | capabilities (call : ℕ) (capabilities : P.Capabilities)
  | reserve (call : ℕ)
  | lookup (call : ℕ)
  | post (call : ℕ)
  | answer (call : ℕ) (reference : HubReference)
  | record (call : ℕ)
  /-- the request of the call, or its answer, is lost -/
  | lose (call : ℕ)
  | recordOutcome (call : ℕ) (outcome : HubOutcome)
  | storeOutcome (call : ℕ)
  | prune (keys actionIds : List String)

namespace HubSystem

variable {P : HubProtocol}

def start : HubSystem P := ⟨.empty, [], [], [], [], []⟩

def callOf {α : Type} (calls : List (ℕ × α)) (call : ℕ) : Option α :=
  (KeyedRows.get Prod.fst call calls).map Prod.snd

def drop {α : Type} (calls : List (ℕ × α)) (call : ℕ) : List (ℕ × α) :=
  calls.filter fun entry => decide (entry.1 ≠ call)

def ended (s : HubSystem P) (call : ℕ) : HubSystem P :=
  { s with prepares := drop s.prepares call }

/-- The call goes on to another wait. -/
def goes (s : HubSystem P) (call : ℕ) (input : PrepareInput P)
    (phase : PreparePhase P) : HubSystem P :=
  { s with prepares := (call, ⟨input, phase⟩) :: drop s.prepares call }

def seconds (nowMs : ℤ) : ℤ := nowMs / 1000

def reserveNow (s : HubSystem P) (call : ℕ) (input : PrepareInput P)
    (capabilities : P.Capabilities) : HubSystem P :=
  match s.store.reserve input.origin (P.canonicalJson input.operation)
      (seconds input.nowMs + 15 * 60) with
  | .error _ => s.ended call
  | .ok (store, expiresAt) =>
      { s with store := store }.goes call input
        (if expiresAt ≤ seconds input.nowMs then .lookup
          else .post capabilities expiresAt)

def resolve (s : HubSystem P) (call : ℕ) (key : String)
    (reference : HubReference) : HubSystem P :=
  { s.ended call with resolved := (key, reference) :: s.resolved }

/-- A reference of another account or binding is refused. -/
def answerNow (s : HubSystem P) (call : ℕ) (input : PrepareInput P)
    (capabilities : P.Capabilities) (reference : HubReference) :
    HubSystem P :=
  if reference.accountId ≠ P.accountId capabilities ∨
      reference.bindingId ≠ input.origin.bindingId ∨
      reference.bindingRevision ≠ input.origin.bindingRevision then
    s.ended call
  else s.goes call input (.record reference)

def recordNow (s : HubSystem P) (call : ℕ) (input : PrepareInput P)
    (reference : HubReference) : HubSystem P :=
  match s.store.record input.origin reference with
  | .error _ => s.ended call
  | .ok (store, recorded) =>
      { s with store := store }.resolve call input.origin.requestKey recorded

def storeOutcomeNow (s : HubSystem P) (call : ℕ) (outcome : HubOutcome) :
    HubSystem P :=
  let s := { s with deliveries := drop s.deliveries call }
  match s.store.storeOutcome outcome with
  | .error _ => s
  | .ok (store, new) =>
      { s with store := store, delivered := (outcome, new) :: s.delivered }

/-- No call for the rows is under way. -/
def idle (s : HubSystem P) (keys actionIds : List String) : Bool :=
  (s.prepares.all fun entry =>
    decide (entry.2.input.origin.requestKey ∉ keys)) &&
  s.deliveries.all fun entry => decide (entry.2.actionId ∉ actionIds)

def pruneNow (s : HubSystem P) (keys actionIds : List String) : HubSystem P :=
  { s with
    store := s.store.prune keys actionIds
    posts := s.posts.filter fun post =>
      decide (post.origin.requestKey ∉ keys)
    resolved := s.resolved.filter fun entry =>
      decide (entry.2.id ∉ actionIds)
    delivered := s.delivered.filter fun entry =>
      decide (entry.1.actionId ∉ actionIds) }

def step (s : HubSystem P) : HubEvent P → Option (HubSystem P)
  | .prepare call input =>
      if (callOf s.prepares call).isSome then none
      else some (s.goes call input .capabilities)
  | .capabilities call capabilities =>
      match callOf s.prepares call with
      | some ⟨input, .capabilities⟩ =>
          match P.enabled capabilities input.operation
              input.origin.ownerDid with
          | .error _ => some (s.ended call)
          | .ok () => some (s.goes call input (.reserve capabilities))
      | _ => none
  | .reserve call =>
      match callOf s.prepares call with
      | some ⟨input, .reserve capabilities⟩ =>
          some (s.reserveNow call input capabilities)
      | _ => none
  | .lookup call =>
      match callOf s.prepares call with
      | some ⟨input, .lookup⟩ =>
          match s.store.byRequestKey input.origin.requestKey with
          | some recorded =>
              some (s.resolve call input.origin.requestKey recorded)
          | none => some (s.ended call)
      | _ => none
  | .post call =>
      match callOf s.prepares call with
      | some ⟨input, .post capabilities expiresAt⟩ =>
          some { s.goes call input (.answer capabilities) with
            posts := ⟨input.origin, input.operation, expiresAt,
              input.nowMs⟩ :: s.posts }
      | _ => none
  | .answer call reference =>
      match callOf s.prepares call with
      | some ⟨input, .answer capabilities⟩ =>
          some (s.answerNow call input capabilities reference)
      | _ => none
  | .record call =>
      match callOf s.prepares call with
      | some ⟨input, .record reference⟩ =>
          some (s.recordNow call input reference)
      | _ => none
  | .lose call => some (s.ended call)
  | .recordOutcome call outcome =>
      if (callOf s.deliveries call).isSome then none
      else
        match s.store.checkOutcome outcome with
        | .error _ => some s
        | .ok () =>
            some { s with deliveries := (call, outcome) :: s.deliveries }
  | .storeOutcome call =>
      match callOf s.deliveries call with
      | some outcome => some (s.storeOutcomeNow call outcome)
      | none => none
  | .prune keys actionIds =>
      if s.idle keys actionIds then some (s.pruneNow keys actionIds)
      else none

end HubSystem

end QiForge
