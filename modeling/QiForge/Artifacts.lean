import QiForge.OrderedMap
import QiForge.Transition

/-!
# Artefacts and their share copies

Rows of the user's database and share copies in R2, written by `create`,
`revoke` and `deleteForSession`.  A call is the request it is about to make;
requests of different calls interleave, each may fail before or after it took
effect, and the object may stop.
-/

namespace QiForge

/-- R2's ceiling for one multi-key `delete`. -/
def r2MaxBatch : ℕ := 1000

/-- The columns no statement updates. -/
structure ArtifactBody where
  sessionId : String
  title : String
  content : String
  shareKey : String
  createdAt : ℕ
  expiresAt : ℕ
deriving DecidableEq, Repr

structure ArtifactRow where
  body : ArtifactBody
  uploaded : Bool
  revokedAt : Option ℕ
deriving DecidableEq, Repr

/-- An object under `art/`: what was sealed, its key, and its metadata. -/
structure SharedCopy where
  shareKey : String
  title : String
  content : String
  createdAt : ℕ
  expiresAt : ℕ
deriving DecidableEq, Repr

def sealArtifact (body : ArtifactBody) : SharedCopy where
  shareKey := body.shareKey
  title := body.title
  content := body.content
  createdAt := body.createdAt
  expiresAt := body.expiresAt

structure ArtifactInput where
  artifactId : String
  sessionId : String
  title : String
  content : String
deriving DecidableEq, Repr

/-- A call by the request it makes next. -/
inductive ArtifactCall where
  | insertRow (input : ArtifactInput)
  | readRow (artifactId : String)
  | putCopy (artifactId : String) (row : ArtifactRow)
  | markUploaded (artifactId : String) (row : ArtifactRow)
  | lookUp (artifactId : String)
  | deleteCopy (artifactId : String) (row : ArtifactRow)
  | markRevoked (artifactId : String)
  | listRows (sessionId : String)
  | deleteCopies (sessionId : String) (ids : List String)
  | deleteRows (sessionId : String) (ids : List String)
deriving DecidableEq, Repr

inductive ArtifactRequest where
  | create (input : ArtifactInput)
  | revoke (artifactId : String)
  | deleteForSession (sessionId : String)
deriving DecidableEq, Repr

def ArtifactRequest.first : ArtifactRequest → ArtifactCall
  | .create input => .insertRow input
  | .revoke artifactId => .lookUp artifactId
  | .deleteForSession sessionId => .listRows sessionId

/-- The table and the bucket, with what calls have promised: links that were
handed out since their row was created, and artefacts a call has answered to
be revoked or deleted since. -/
structure ArtifactLedger where
  rows : OrderedMap String ArtifactRow
  objects : OrderedMap String SharedCopy
  links : List (String × ArtifactBody)
  withdrawn : List String

/-- What a call does after its request was answered. -/
inductive ArtifactProgress where
  | next (call : ArtifactCall)
  | linked (artifactId : String) (body : ArtifactBody)
  | withdrawn (ids : List String)
  | over
deriving DecidableEq, Repr

/-- How a request ends. -/
inductive Landing where
  | lands
  | failsBefore
  | failsAfter
deriving DecidableEq, Repr

namespace ArtifactLedger

def empty : ArtifactLedger := ⟨OrderedMap.empty, OrderedMap.empty, [], []⟩

def rowsOf (l : ArtifactLedger) (sessionId : String) : List String :=
  (l.rows.filter fun _ row => row.body.sessionId == sessionId).keys

/-- `INSERT OR IGNORE`. -/
def insertRow (ttlMs now : ℕ) (shareKey : String) (input : ArtifactInput)
    (l : ArtifactLedger) : ArtifactLedger :=
  if l.rows.has input.artifactId then l
  else
    { l with
      rows := l.rows.push input.artifactId
        { body :=
            { sessionId := input.sessionId
              title := input.title
              content := input.content
              shareKey := shareKey
              createdAt := now
              expiresAt := now + ttlMs }
          uploaded := false
          revokedAt := none }
      links := l.links.filter fun link => link.1 ≠ input.artifactId
      withdrawn := l.withdrawn.filter fun id => id ≠ input.artifactId }

def updateRow (artifactId : String) (f : ArtifactRow → ArtifactRow)
    (l : ArtifactLedger) : ArtifactLedger :=
  { l with
    rows := l.rows.mapValues fun id row =>
      if id = artifactId then f row else row }

def deleteCopies (ids : List String) (l : ArtifactLedger) : ArtifactLedger :=
  { l with objects := l.objects.filter fun id _ => id ∉ ids }

def deleteRows (sessionId : String) (l : ArtifactLedger) : ArtifactLedger :=
  { l with
    rows := l.rows.filter fun _ row => row.body.sessionId != sessionId }

end ArtifactLedger

namespace ArtifactCall

/-- What the request does where it takes effect; R2 refuses a delete of more
keys than its batch. -/
def effect (ttlMs now : ℕ) (shareKey : String) (l : ArtifactLedger) :
    ArtifactCall → ArtifactLedger
  | .insertRow input => l.insertRow ttlMs now shareKey input
  | .readRow _ => l
  | .putCopy artifactId row =>
      { l with objects := l.objects.set artifactId (sealArtifact row.body) }
  | .markUploaded artifactId _ =>
      l.updateRow artifactId fun row => { row with uploaded := true }
  | .lookUp _ => l
  | .deleteCopy artifactId _ => l.deleteCopies [artifactId]
  | .markRevoked artifactId =>
      l.updateRow artifactId fun row => { row with revokedAt := some now }
  | .listRows _ => l
  | .deleteCopies _ ids =>
      if r2MaxBatch < ids.length then l else l.deleteCopies ids
  | .deleteRows sessionId _ => l.deleteRows sessionId

/-- How the call goes on once it has the answer of a request that found `l`. -/
def answered (l : ArtifactLedger) : ArtifactCall → ArtifactProgress
  | .insertRow input => .next (.readRow input.artifactId)
  | .readRow artifactId =>
      match l.rows.get? artifactId with
      | none => .over
      | some row =>
          if !row.uploaded && row.revokedAt.isNone then
            .next (.putCopy artifactId row)
          else .linked artifactId row.body
  | .putCopy artifactId row => .next (.markUploaded artifactId row)
  | .markUploaded artifactId row => .linked artifactId row.body
  | .lookUp artifactId =>
      match l.rows.get? artifactId with
      | none => .over
      | some row => .next (.deleteCopy artifactId row)
  | .deleteCopy artifactId row =>
      if row.revokedAt.isNone then .next (.markRevoked artifactId)
      else .withdrawn [artifactId]
  | .markRevoked artifactId => .withdrawn [artifactId]
  | .listRows sessionId =>
      if l.rowsOf sessionId = [] then .over
      else .next (.deleteCopies sessionId (l.rowsOf sessionId))
  | .deleteCopies sessionId ids =>
      if r2MaxBatch < ids.length then .over
      else .next (.deleteRows sessionId ids)
  | .deleteRows sessionId _ => .withdrawn (l.rowsOf sessionId)

/-- The call has deleted the copy and is about to change its row. -/
def holds (artifactId : String) : ArtifactCall → Bool
  | .markRevoked id => id == artifactId
  | .deleteRows _ ids => ids.contains artifactId
  | _ => false

/-- A call that runs alone, none of its requests failing. -/
def finish (ttlMs now : ℕ) (shareKey : String) :
    ℕ → ArtifactLedger → ArtifactCall → ArtifactLedger
  | 0, l, _ => l
  | fuel + 1, l, call =>
      match call.answered l with
      | .next after =>
          finish ttlMs now shareKey fuel (call.effect ttlMs now shareKey l)
            after
      | _ => call.effect ttlMs now shareKey l

end ArtifactCall

structure ArtifactState where
  ledger : ArtifactLedger
  calls : OrderedMap ℕ ArtifactCall

inductive ArtifactEvent where
  | start (n : ℕ) (request : ArtifactRequest)
  | advance (n : ℕ) (landing : Landing) (now : ℕ) (shareKey : String)
  | stop
deriving DecidableEq, Repr

namespace ArtifactState

def empty : ArtifactState := ⟨ArtifactLedger.empty, OrderedMap.empty⟩

/-- The ledger and the calls after the request of call `n` was answered. -/
def proceed (s : ArtifactState) (n : ℕ) (l : ArtifactLedger) :
    ArtifactProgress → ArtifactState
  | .next call => ⟨l, s.calls.set n call⟩
  | .linked artifactId body =>
      ⟨{ l with links := (artifactId, body) :: l.links }, s.calls.delete n⟩
  | .withdrawn ids =>
      ⟨{ l with withdrawn := ids ++ l.withdrawn }, s.calls.delete n⟩
  | .over => ⟨l, s.calls.delete n⟩

def step (ttlMs : ℕ) (s : ArtifactState) : ArtifactEvent → Option ArtifactState
  | .start n request =>
      if s.calls.has n then none
      else some { s with calls := s.calls.push n request.first }
  | .advance n landing now shareKey =>
      (s.calls.get? n).map fun call =>
        match landing with
        | .failsBefore => s.proceed n s.ledger .over
        | .failsAfter =>
            s.proceed n (call.effect ttlMs now shareKey s.ledger) .over
        | .lands =>
            s.proceed n (call.effect ttlMs now shareKey s.ledger)
              (call.answered s.ledger)
  | .stop => some { s with calls := OrderedMap.empty }

end ArtifactState

end QiForge
