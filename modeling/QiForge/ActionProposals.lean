import QiForge.KeyedRows

/-!
# The action cards of one owner

The table of the cards, one row each, the receipts, and the lookups that
`refreshActionProposal` has started.  A method is one step; one that throws
leaves the store.  The first and the last fields of a row are a history: its
number in the order of the inserts, how often it was claimed, and whether the
owner or `closeUnexecuted` revoked it.
-/

namespace QiForge

section Throwing

variable {ε α β : Type*} {result : Except ε α} {value : α}

theorem except_ite_eq_ok {condition : Prop} [Decidable condition] {error : ε}
    (hok : (if condition then .error error else result) = .ok value) :
    ¬ condition ∧ result = .ok value := by
  split_ifs at hok with hcondition
  exact ⟨hcondition, hok⟩

theorem except_map_eq_ok {f : α → β} {mapped : β}
    (hok : result.map f = .ok mapped) :
    ∃ inner, result = .ok inner ∧ f inner = mapped := by
  cases result with
  | error error => cases hok
  | ok inner => exact ⟨inner, rfl, Except.ok.inj hok⟩

end Throwing

def verifyRetryBaseMs : ℕ := 30000
def verifyRetryMaxMs : ℕ := 10 * 60000
def verifyMaxAttempts : ℕ := 10
def verifyFirstDelayMs : ℕ := 30000
def verifyNotFoundGraceMs : ℕ := 2 * 60000
def actionProposalRetentionMs : ℕ := 90 * 24 * 60 * 60000
def actionProposalUnresolvedRetentionMs : ℕ := 180 * 24 * 60 * 60000
def actionProposalExecutionWindowMs : ℕ := 60 * 60000

def backoff (base max' attempts : ℕ) : ℕ := min (base * 2 ^ attempts) max'

/-- The immutable part of a card; `action` is what it signs, less the memo. -/
structure ActionProposalSubject where
  id : String
  title : String
  sessionId : String
  runId : String
  invocationId : String
  action : String
  memo : String
  evidenceRefs : List String
  createdAt : ℕ
  expiresAt : ℕ
deriving DecidableEq, Repr

structure VerifiedActionTransaction where
  transactionHash : String
  height : ℕ
  code : ℕ
  verifiedAt : ℕ
deriving DecidableEq, Repr

inductive ActionStatus where
  | prepared
  | claimed
  | unknown
  | succeeded
  | failed
  | rejected
  | revoked
  | superseded
deriving DecidableEq, Repr

inductive EndedStatus where
  | rejected
  | revoked
  | superseded
deriving DecidableEq, Repr

inductive ActionLifecycle where
  | prepared
  | claimed (claimedAt : ℕ)
  | unknown (claimedAt : ℕ) (transactionHash : Option String)
      (executionBlockedAt : Option ℕ)
  | ended (status : EndedStatus) (endedAt : ℕ)
  | verified (claimedAt : ℕ) (transaction : VerifiedActionTransaction)
deriving DecidableEq, Repr

namespace ActionLifecycle

def status : ActionLifecycle → ActionStatus
  | prepared => .prepared
  | claimed _ => .claimed
  | unknown _ _ _ => .unknown
  | ended .rejected _ => .rejected
  | ended .revoked _ => .revoked
  | ended .superseded _ => .superseded
  | verified _ transaction =>
      if transaction.code = 0 then .succeeded else .failed

def transactionHash : ActionLifecycle → Option String
  | unknown _ hash _ => hash
  | verified _ transaction => some transaction.transactionHash
  | _ => none

def claimedAt : ActionLifecycle → Option ℕ
  | claimed at' => some at'
  | unknown at' _ _ => some at'
  | verified at' _ => some at'
  | _ => none

end ActionLifecycle

inductive ProposalCommand where
  | claim (digest : String)
  | reject (digest : String)
  | revoke (digest : String)
  | supersede (digest : String)
  | reconcile (transactionHash : Option String)
deriving DecidableEq, Repr

structure ProposalRow where
  serial : ℕ
  subject : ActionProposalSubject
  digest : String
  lifecycle : ActionLifecycle
  status : ActionStatus
  transactionHash : Option String
  transactionHashRejected : Bool
  verifyAfter : ℕ
  verifyAttempts : ℕ
  hashRecordedAt : ℕ
  createdAt : ℕ
  unexecutedClose : Bool
  unexecutedClaimedAt : Option ℕ
  timesClaimed : ℕ
  ownerRevoked : Bool
  closedUnexecuted : Bool
deriving DecidableEq, Repr

inductive ReceiptState where
  | waiting
  | pending
  | delivered
  | abandoned
  | unavailable
deriving DecidableEq, Repr

def ProposalRow.id (row : ProposalRow) : String := row.subject.id

/-- A card as a method returned it. -/
structure ReadProposal where
  id : String
  lifecycle : ActionLifecycle
deriving DecidableEq, Repr

/-- A definite answer of the verifier about a card and a hash. -/
inductive TransactionProof where
  | verified (height code : ℕ)
  | memoMismatch
  | subjectMismatch
deriving DecidableEq, Repr

inductive LookupAnswer where
  | proof (proof : TransactionProof)
  | notFound
  | unavailable
deriving DecidableEq, Repr

structure ActionProposalStore where
  rows : List ProposalRow
  receipts : List (String × ReceiptState)
  clock : ℕ
  read : List ReadProposal
  lookups : List (String × String)
  inserted : ℕ

def normalizeHash (hash : String) : String :=
  String.ofList (hash.toList.map Char.toUpper)

namespace ActionProposalStore

def empty : ActionProposalStore where
  rows := []
  receipts := []
  clock := 0
  read := []
  lookups := []
  inserted := 0

def get (s : ActionProposalStore) (id : String) : Option ProposalRow :=
  KeyedRows.get ProposalRow.id id s.rows

def updateRow (s : ActionProposalStore) (id : String)
    (change : ProposalRow → ProposalRow) : ActionProposalStore :=
  { s with rows := KeyedRows.update ProposalRow.id id change s.rows }

/-- Keeps the indexed columns with the lifecycle, and one hash on one card. -/
def writeLifecycle (s : ActionProposalStore) (id : String)
    (lifecycle : ActionLifecycle) (retainedHash : Option String) :
    Except String ActionProposalStore :=
  let hash := (lifecycle.transactionHash.or retainedHash).map normalizeHash
  if hash.isSome ∧ ∃ other ∈ s.rows,
      other.transactionHash = hash ∧ other.subject.id ≠ id then
    .error "Transaction already recorded for another proposal"
  else
    .ok (s.updateRow id fun row =>
      { row with
        lifecycle := lifecycle
        status := lifecycle.status
        transactionHash := hash })

/-- The card as the method that just ran returns it. -/
def noteRead (s : ActionProposalStore) (id : String) : ActionProposalStore :=
  match s.get id with
  | none => s
  | some row => { s with read := s.read ++ [⟨id, row.lifecycle⟩] }

variable (digestActionProposal : ActionProposalSubject → String)

def create (s : ActionProposalStore) (now : ℕ)
    (subject : ActionProposalSubject) (receiptOrigin : Bool) :
    Except String ActionProposalStore :=
  if subject.memo ≠ subject.id then
    .error "The transaction memo must carry the proposal ID"
  else if subject.expiresAt ≤ subject.createdAt then
    .error "Expiry must follow creation"
  else
    match KeyedRows.get (fun row => row.subject.invocationId)
        subject.invocationId s.rows with
    | some prior =>
        let retry := { subject with
          id := prior.subject.id
          createdAt := prior.subject.createdAt
          expiresAt := prior.subject.expiresAt
          memo := prior.subject.id }
        if digestActionProposal retry ≠ prior.digest then
          .error "Invocation already prepared different values"
        else .ok (s.noteRead prior.subject.id)
    | none =>
        if subject.expiresAt ≤ now then .error "Proposal expired"
        else if (s.get subject.id).isSome then
          .error "UNIQUE constraint failed: action_proposals.id"
        else
          .ok { s with
            rows := s.rows ++ [{
              serial := s.inserted
              subject := subject
              digest := digestActionProposal subject
              lifecycle := .prepared
              status := .prepared
              transactionHash := none
              transactionHashRejected := false
              verifyAfter := 0
              verifyAttempts := 0
              hashRecordedAt := 0
              createdAt := subject.createdAt
              unexecutedClose := false
              unexecutedClaimedAt := none
              timesClaimed := 0
              ownerRevoked := false
              closedUnexecuted := false }]
            receipts := s.receipts ++ [(subject.id,
              if receiptOrigin then .waiting else .unavailable)]
            inserted := s.inserted + 1 }

/-- A fresh hash gets a fresh verification schedule. -/
def scheduleFresh (s : ActionProposalStore) (now : ℕ) (id : String) :
    ActionProposalStore :=
  s.updateRow id fun row =>
    { row with
      transactionHashRejected := false
      verifyAfter := now + verifyFirstDelayMs
      verifyAttempts := 0
      hashRecordedAt := now }

/-- A late hash of a card that `closeUnexecuted` closed. -/
def reopen (s : ActionProposalStore) (now : ℕ) (id : String)
    (claimedAt : ℕ) (hash : String) : Except String ActionProposalStore :=
  match s.writeLifecycle id (.unknown claimedAt (some (normalizeHash hash))
      none) none with
  | .error error => .error error
  | .ok s =>
      .ok ((s.updateRow id fun row => { row with
        unexecutedClose := false }).scheduleFresh now id)

/-- The `reconcile` command on a card that is claimed or unknown. -/
def recordReference (s : ActionProposalStore) (now : ℕ) (row : ProposalRow)
    (claimedAt : ℕ) (current hash : Option String) :
    Except String ActionProposalStore :=
  let replacing := decide (current.isSome ∧ hash.isSome ∧
    current ≠ hash.map normalizeHash)
  let firstHash := hash.isSome && current.isNone
  if replacing && !row.transactionHashRejected then
    .error "Transaction reference already recorded"
  else
    let s :=
      if replacing || firstHash then s.scheduleFresh now row.subject.id else s
    s.writeLifecycle row.subject.id
      (.unknown claimedAt ((hash.or current).map normalizeHash) none) none

def reconcile (s : ActionProposalStore) (now : ℕ) (row : ProposalRow)
    (hash : Option String) : Except String ActionProposalStore :=
  match row.lifecycle with
  | .verified _ transaction =>
      if hash.all fun hash =>
          decide (transaction.transactionHash = normalizeHash hash) then .ok s
      else .error "Proposal was not claimed"
  | .ended .revoked _ =>
      match hash, row.unexecutedClose, row.unexecutedClaimedAt with
      | some hash, true, some claimedAt =>
          s.reopen now row.subject.id claimedAt hash
      | _, _, _ => .error "Proposal was not claimed"
  | .claimed claimedAt => s.recordReference now row claimedAt none hash
  | .unknown claimedAt current none =>
      s.recordReference now row claimedAt current hash
  | .unknown _ current (some _) =>
      if hash.all fun hash => decide (current = some (normalizeHash hash))
      then .ok s
      else .error "Execution is blocked"
  | _ => .error "Proposal was not claimed"

/-- A command that uses a prepared card up. -/
def consume (s : ActionProposalStore) (now : ℕ) (row : ProposalRow)
    (lifecycle : ActionLifecycle) : Except String ActionProposalStore :=
  if row.lifecycle ≠ .prepared then .error "Proposal is already consumed"
  else if row.subject.expiresAt ≤ now then .error "Proposal expired"
  else s.writeLifecycle row.subject.id lifecycle none

def revoke (s : ActionProposalStore) (now : ℕ) (row : ProposalRow) :
    Except String ActionProposalStore :=
  match row.lifecycle with
  | .unknown _ hash (some _) =>
      s.writeLifecycle row.subject.id (.ended .revoked now) hash
  | _ => s.consume now row (.ended .revoked now)

def command (s : ActionProposalStore) (now : ℕ) (row : ProposalRow) :
    ProposalCommand → Except String ActionProposalStore
  | .reconcile hash => s.reconcile now row hash
  | .claim digest =>
      if row.digest ≠ digest then .error "Confirmed values changed"
      else
        (s.consume now row (.claimed now)).map fun s =>
          s.updateRow row.subject.id fun row =>
            { row with timesClaimed := row.timesClaimed + 1 }
  | .reject digest =>
      if row.digest ≠ digest then .error "Confirmed values changed"
      else s.consume now row (.ended .rejected now)
  | .revoke digest =>
      if row.digest ≠ digest then .error "Confirmed values changed"
      else
        (s.revoke now row).map fun s =>
          s.updateRow row.subject.id fun row =>
            { row with ownerRevoked := true }
  | .supersede digest =>
      if row.digest ≠ digest then .error "Confirmed values changed"
      else s.consume now row (.ended .superseded now)

def transition (s : ActionProposalStore) (now : ℕ) (id : String)
    (command : ProposalCommand) : Except String ActionProposalStore :=
  match s.get id with
  | none => .ok s
  | some row => (s.command now row command).map fun s => s.noteRead id

/-- Takes the one lookup the cooldown allows. -/
def claimVerification (s : ActionProposalStore) (now : ℕ) (id : String) :
    Bool × ActionProposalStore :=
  match s.rows.find? fun row =>
      decide (row.subject.id = id ∧ row.verifyAfter ≤ now) with
  | none => (false, s)
  | some _ =>
      (true, s.updateRow id fun row =>
        { row with
          verifyAfter := now +
            backoff verifyRetryBaseMs verifyRetryMaxMs row.verifyAttempts
          verifyAttempts := row.verifyAttempts + 1 })

def recordVerified (s : ActionProposalStore) (id : String)
    (verified : VerifiedActionTransaction) :
    Except String ActionProposalStore :=
  match s.get id with
  | none => .ok s
  | some row =>
      match row.lifecycle with
      | .unknown claimedAt hash _ =>
          if hash ≠ some verified.transactionHash then
            .error "Transaction is not pending verification"
          else
            (s.writeLifecycle id (.verified claimedAt verified) none).map
              fun s =>
                { s with
                  receipts := s.receipts.map fun receipt =>
                    if receipt = (id, .waiting) then (id, .pending)
                    else receipt }
      | _ => .error "Transaction is not pending verification"

def markTransactionRejected (s : ActionProposalStore)
    (id transactionHash : String) : ActionProposalStore :=
  s.updateRow id fun row =>
    if row.status = .unknown ∧ row.transactionHash = some transactionHash then
      { row with transactionHashRejected := true }
    else row

def blockExecution (s : ActionProposalStore) (now : ℕ)
    (id transactionHash : String) : Except String ActionProposalStore :=
  match s.get id with
  | none => .ok s
  | some row =>
      match row.lifecycle with
      | .unknown claimedAt hash none =>
          if hash ≠ some transactionHash then .ok s
          else
            (s.writeLifecycle id (.unknown claimedAt hash (some now))
              none).map fun s =>
                s.updateRow id fun row =>
                  { row with
                    transactionHashRejected := false
                    verifyAttempts := verifyMaxAttempts }
      | _ => .ok s

/-- Not found so soon after the hash arrived costs no attempt. -/
def deferNotFound (s : ActionProposalStore) (now : ℕ)
    (id transactionHash : String) : ActionProposalStore :=
  s.updateRow id fun row =>
    if row.status = .unknown ∧
        row.transactionHash = some (normalizeHash transactionHash) ∧
        now < row.hashRecordedAt + verifyNotFoundGraceMs then
      { row with
        verifyAttempts := row.verifyAttempts - 1
        verifyAfter := now + verifyFirstDelayMs }
    else row

def dueVerifications (s : ActionProposalStore) (now limit : ℕ) :
    List ProposalRow :=
  ((s.rows.filter fun row => decide (row.status = .unknown ∧
      row.transactionHash.isSome ∧ row.verifyAfter ≤ now ∧
      row.verifyAttempts < verifyMaxAttempts)).insertionSort
    fun a b => a.verifyAfter < b.verifyAfter ∨
      a.verifyAfter = b.verifyAfter ∧ a.subject.id ≤ b.subject.id).take limit

def closeRow (now : ℕ) (s : ActionProposalStore) (id : String) :
    ActionProposalStore :=
  match s.get id with
  | none => s
  | some row =>
      match row.lifecycle.claimedAt, row.lifecycle.transactionHash with
      | some claimedAt, none =>
          match s.writeLifecycle id (.ended .revoked now) none with
          | .error _ => s
          | .ok s =>
              s.updateRow id fun row =>
                { row with
                  unexecutedClose := true
                  unexecutedClaimedAt := some claimedAt
                  closedUnexecuted := true }
      | _, _ => s

/-- The claimed cards whose execution window passed with no hash. -/
def dueCloses (s : ActionProposalStore) (now : ℕ) : List ProposalRow :=
  ((s.rows.filter fun row =>
      decide ((row.status = .claimed ∨ row.status = .unknown) ∧
        row.transactionHash = none ∧ row.unexecutedClose = false) &&
      row.lifecycle.claimedAt.any fun claimedAt =>
        decide (claimedAt + actionProposalExecutionWindowMs ≤
          now)).insertionSort
    fun a b => a.lifecycle.claimedAt.getD 0 < b.lifecycle.claimedAt.getD 0 ∨
      a.lifecycle.claimedAt.getD 0 = b.lifecycle.claimedAt.getD 0 ∧
        a.subject.id ≤ b.subject.id).take 16

def closeUnexecuted (s : ActionProposalStore) (now : ℕ) :
    ActionProposalStore :=
  ((s.dueCloses now).map fun row => row.subject.id).foldl (closeRow now) s

def isFinished : ActionStatus → Bool
  | .claimed | .unknown => false
  | _ => true

/-- Whether retention has run out for the card. -/
def isPrunable (s : ActionProposalStore) (now : ℕ) (row : ProposalRow) :
    Bool :=
  decide (row.createdAt + actionProposalRetentionMs < now) &&
    !decide ((row.subject.id, ReceiptState.pending) ∈ s.receipts) &&
    (isFinished row.status ||
      (decide (row.createdAt + actionProposalUnresolvedRetentionMs < now) &&
        (decide (row.status = .claimed) || (decide (row.status = .unknown) &&
            (row.transactionHash.isNone ||
              decide (verifyMaxAttempts ≤ row.verifyAttempts))))))

def prunableIds (s : ActionProposalStore) (now : ℕ) : List String :=
  (s.rows.filter fun row => s.isPrunable now row).map fun row =>
    row.subject.id

def prune (s : ActionProposalStore) (ids : List String) :
    ActionProposalStore :=
  { s with
    rows := s.rows.filter fun row => !decide (row.subject.id ∈ ids)
    receipts := s.receipts.filter fun receipt => !decide (receipt.1 ∈ ids) }

/-- `refreshActionProposal` up to its lookup. -/
def refreshActionProposal (s : ActionProposalStore) (now : ℕ)
    (proposal : ReadProposal) : ActionProposalStore :=
  match proposal.lifecycle with
  | .unknown _ (some hash) none =>
      match s.claimVerification now proposal.id with
      | (false, s) => s
      | (true, s) =>
          { s with lookups := s.lookups ++ [(proposal.id, hash)] }
  | _ => s

/-- What a method that may throw leaves. -/
def leave (s : ActionProposalStore) :
    Except String ActionProposalStore → ActionProposalStore
  | .error _ => s
  | .ok s' => s'

/-- `refreshActionProposal` from the lookup's answer on. -/
def lookupAnswered (s : ActionProposalStore) (now : ℕ) (id hash : String) :
    LookupAnswer → ActionProposalStore
  | .proof (.verified height code) =>
      s.leave (s.recordVerified id ⟨normalizeHash hash, height, code, now⟩)
  | .proof .subjectMismatch => s.leave (s.blockExecution now id hash)
  | .proof .memoMismatch => s.markTransactionRejected id hash
  | .notFound => s.deferNotFound now id hash
  | .unavailable => s

end ActionProposalStore

/-- A hash as the command's schema takes it. -/
def isTransactionHash (hash : String) : Bool :=
  decide (hash.length = 64) && hash.toList.all fun c =>
    c.isDigit || ('a' ≤ c && c ≤ 'f') || ('A' ≤ c && c ≤ 'F')

inductive ProposalEvent where
  | create (subject : ActionProposalSubject) (receiptOrigin : Bool)
  | get (id : String)
  | transition (id : String) (command : ProposalCommand)
  | dueVerifications (limit : ℕ)
  | refresh (proposal : ReadProposal)
  | answer (id hash : String) (answer : LookupAnswer)
  | claimVerification (id : String)
  | closeUnexecuted
  | prune (ids : List String)
  | receiptMirrored (id : String)
  | receiptAbandoned (id : String)
deriving DecidableEq, Repr

namespace ActionProposalStore

variable (digestActionProposal : ActionProposalSubject → String)
  (verifier : String → String → Option TransactionProof)

-- the equality test of the membership below
local instance : LawfulBEq (String × String) := inferInstance

/-- One event; the clock does not go back, and the verifier's proofs about one
card and hash agree. -/
def step (s : ActionProposalStore) (at' : ℕ × ProposalEvent) :
    Option ActionProposalStore :=
  let now := at'.1
  if now < s.clock then none
  else
    let s := { s with clock := now }
    match at'.2 with
    | .create subject receiptOrigin =>
        some (s.leave (s.create digestActionProposal now subject
          receiptOrigin))
    | .get id => some (s.noteRead id)
    | .transition id command =>
        match command with
        | .reconcile (some hash) =>
            if isTransactionHash hash then
              some (s.leave (s.transition now id command))
            else none
        | _ => some (s.leave (s.transition now id command))
    | .dueVerifications limit =>
        some (((s.dueVerifications now limit).map fun row =>
          row.subject.id).foldl noteRead s)
    | .refresh proposal =>
        if proposal ∈ s.read then some (s.refreshActionProposal now proposal)
        else none
    | .answer id hash answer =>
        if (id, hash) ∈ s.lookups then
          let s := { s with lookups := s.lookups.erase (id, hash) }
          match answer with
          | .proof proof =>
              if verifier id hash = some proof then
                some ((s.lookupAnswered now id hash answer).noteRead id)
              else none
          | _ => some ((s.lookupAnswered now id hash answer).noteRead id)
        else none
    | .claimVerification id => some (s.claimVerification now id).2
    | .closeUnexecuted => some (s.closeUnexecuted now)
    | .prune ids =>
        if ids.Nodup ∧ (∀ id ∈ ids, id ∈ s.prunableIds now) ∧
            ids.length = min 64 (s.prunableIds now).length then
          some (s.prune ids)
        else none
    | .receiptMirrored id =>
        some { s with
          receipts := s.receipts.map fun receipt =>
            if receipt = (id, .pending) ∨ receipt = (id, .abandoned) then
              (id, .delivered)
            else receipt }
    | .receiptAbandoned id =>
        some { s with
          receipts := s.receipts.map fun receipt =>
            if receipt = (id, .pending) then (id, .abandoned)
            else receipt }

end ActionProposalStore

end QiForge
