import QiForge.OrderedMap
import QiForge.ResultStore
import QiForge.Transition

/-!
# The runs of the result store

Rows and session references are kept in the database, large results as
objects of the bucket.  Stores and removals run one at a time, a request to
either store at a time; the answer to the request they wait for comes, or is
an error, or the object stops and the work is forgotten.  A failed R2 request
may have taken effect, in part for a delete of many keys; a failed
transaction has not.

The ledger says what the store is for: how long each result was promised, and
which of the sessions that stored it were not deleted since.
-/

namespace QiForge
namespace ResultStore

/-- R2 deletes at most 1,000 keys per call. -/
def DELETE_BATCH : ℕ := 1000

variable {Id Session : Type*} [DecidableEq Id] [DecidableEq Session]

/-- The rows of a removal; `owner` is the session whose deletion it is. -/
structure Removal (Id Session : Type*) where
  owner : Option Session
  rows : List (Id × ResultTier)

/-- The request a store or removal waits for. -/
inductive Work (Id Session : Type*) where
  | lookup (sessionId : Session) (content : List Char) (startedAt : ℕ)
  | revive (id : Id) (sessionId : Session) (expiresAt : ℕ)
  | upload (sessionId : Session) (content : List Char) (expiresAt : ℕ)
  | insert (sessionId : Session) (content : List Char) (expiresAt : ℕ)
  | dropReferences (sessionId : Session)
  | selectExpired (only : Option Id) (startedAt : ℕ)
  | deleteObjects (removal : Removal Id Session) (todo kept : List Id)
  | deleteRows (removal : Removal Id Session) (kept : List Id)

/-- What a stored result was promised. -/
structure Entry (Session : Type*) where
  expiresAt : ℕ
  holders : List Session

structure Handle (Id : Type*) where
  id : Id
  expiresAt : ℕ

structure State (Id Session : Type*) where
  now : ℕ
  rows : OrderedMap Id (ResultRow Session)
  refs : List (Id × Session)
  objects : Id → Option (List UInt8)
  work : Option (Work Id Session)
  ledger : Id → Entry Session
  handles : List (Handle Id)

def State.init (now : ℕ) : State Id Session where
  now := now
  rows := OrderedMap.empty
  refs := []
  objects := fun _ => none
  work := none
  ledger := fun _ => ⟨0, []⟩
  handles := []

inductive Event (Id Session : Type*) where
  | tick (ms : ℕ)
  | put (sessionId : Session) (content : List Char)
  | deleteForSession (sessionId : Session)
  | sweep
  /-- A read that found its row expired. -/
  | removeExpired (id : Id)
  | answer
  /-- An error; of an R2 request, for the keys in `landed` after the fact. -/
  | error (landed : List Id)
  | stop

namespace State

/-! ## The tables -/

/-- `UPDATE tool_results SET expires_at = ? WHERE id IN (...)`. -/
def expireAt (rows : OrderedMap Id (ResultRow Session)) (ids : List Id)
    (expiresAt : ℕ) : OrderedMap Id (ResultRow Session) :=
  rows.mapValues fun id row =>
    if id ∈ ids then { row with expiresAt } else row

/-- `INSERT ... ON CONFLICT (id) DO UPDATE`, which keeps the session. -/
def upsert (rows : OrderedMap Id (ResultRow Session)) (id : Id)
    (row : ResultRow Session) : OrderedMap Id (ResultRow Session) :=
  match rows.get? id with
  | none => rows.set id row
  | some old => rows.set id { row with sessionId := old.sessionId }

/-- The rows no session but this one holds. -/
def orphaned (s : State Id Session) (sessionId : Session) :
    List (Id × ResultTier) :=
  (s.rows.entries.filter fun (id, row) =>
      (decide (row.sessionId = sessionId) || s.refs.any fun ref =>
            decide (ref.1 = id) && decide (ref.2 = sessionId)) &&
        !s.refs.any fun ref =>
          decide (ref.1 = id) && !decide (ref.2 = sessionId)).map
    fun (id, row) => (id, row.tier)

def expiredRows (s : State Id Session) (only : Option Id) (now : ℕ) :
    List (Id × ResultTier) :=
  (s.rows.entries.filter fun (id, row) =>
      (match only with
        | none => true
        | some wanted => decide (id = wanted)) &&
          decide (row.expiresAt ≤ now)).map
    fun (id, row) => (id, row.tier)

/-! ## Handles -/

/-- The ledger once a session has stored a result: the sessions that stored
it before count while it has not expired. -/
def promise (s : State Id Session) (id : Id) (sessionId : Session)
    (expiresAt : ℕ) : Id → Entry Session :=
  Function.update s.ledger id
    { expiresAt
      holders :=
        if s.now < (s.ledger id).expiresAt then
          (s.ledger id).holders.insert sessionId
        else [sessionId] }

/-- A store has committed and returns its handle. -/
def handOut (s : State Id Session) (id : Id) (sessionId : Session)
    (expiresAt : ℕ) (rows : OrderedMap Id (ResultRow Session)) :
    State Id Session :=
  { s with
    rows
    refs := s.refs.insert (id, sessionId)
    work := none
    ledger := s.promise id sessionId expiresAt
    handles := ⟨id, expiresAt⟩ :: s.handles }

/-! ## Stores and removals -/

section Steps

variable (hash : List UInt8 → Id) (o : Options)

/-- Delete the objects of the R2 rows, or go on with the rows at once. -/
def startRemoval (removal : Removal Id Session) : Option (Work Id Session) :=
  let r2Ids :=
    (removal.rows.filter fun row => decide (row.2 = .r2)).map Prod.fst
  if removal.rows.isEmpty then none
  else if o.bucket && !r2Ids.isEmpty then
    some (.deleteObjects removal r2Ids [])
  else some (.deleteRows removal [])

/-- The R2 delete of a batch has come back; `gone` are the keys it deleted
and `kept` the rows of the batches that failed. -/
def batchDeleted (s : State Id Session) (removal : Removal Id Session)
    (todo kept gone : List Id) : State Id Session :=
  { s with
    objects := fun id => if id ∈ gone then none else s.objects id
    work := some
        (if (todo.drop DELETE_BATCH).isEmpty then .deleteRows removal kept
        else .deleteObjects removal (todo.drop DELETE_BATCH) kept) }

/-- The second transaction of a removal. -/
def deleteRows (s : State Id Session) (removal : Removal Id Session)
    (kept : List Id) : State Id Session :=
  let ids := removal.rows.map Prod.fst
  { s with
    rows := expireAt (s.rows.filter fun id _ => !(id ∈ ids ∧ id ∉ kept)) kept 0
    refs := s.refs.filter fun ref => ref.1 ∉ ids ∧ ref.1 ∉ kept
    work := none }

def answered (s : State Id Session) : Work Id Session → State Id Session
  | .lookup sessionId content startedAt =>
      let id := hash (utf8 content)
      let expiresAt := startedAt + o.ttlMs
      -- an expired row is not reused
      match (s.rows.get? id).filter fun row =>
          decide (startedAt < row.expiresAt) with
      | some _ => { s with work := some (.revive id sessionId expiresAt) }
      | none =>
          match resultRow o sessionId content expiresAt with
          | none => { s with work := none }
          | some row =>
              { s with
                work :=
                  match row.tier with
                  | .r2 => some (.upload sessionId content expiresAt)
                  | .sqlite => some (.insert sessionId content expiresAt) }
  | .revive id sessionId expiresAt =>
      s.handOut id sessionId expiresAt (expireAt s.rows [id] expiresAt)
  | .upload sessionId content expiresAt =>
      { s with
        objects := Function.update s.objects (hash (utf8 content))
            (some (utf8 content))
        work := some (.insert sessionId content expiresAt) }
  | .insert sessionId content expiresAt =>
      match resultRow o sessionId content expiresAt with
      | none => { s with work := none }
      | some row =>
          s.handOut (hash (utf8 content)) sessionId expiresAt
            (upsert s.rows (hash (utf8 content)) row)
  | .dropReferences sessionId =>
      { s with
        refs := s.refs.filter fun ref => ref.2 ≠ sessionId
        ledger := fun id =>
          { s.ledger id with
            holders := (s.ledger id).holders.filter fun holder =>
                holder ≠ sessionId }
        work := startRemoval o ⟨some sessionId, s.orphaned sessionId⟩ }
  | .selectExpired only startedAt =>
      { s with work := startRemoval o ⟨none, s.expiredRows only startedAt⟩ }
  | .deleteObjects removal todo kept =>
      s.batchDeleted removal todo kept (todo.take DELETE_BATCH)
  | .deleteRows removal kept => s.deleteRows removal kept

def failed (s : State Id Session) (landed : List Id) :
    Work Id Session → State Id Session
  | .upload _ content _ =>
      { s with
        objects :=
          if hash (utf8 content) ∈ landed then
            Function.update s.objects (hash (utf8 content))
              (some (utf8 content))
          else s.objects
        work := none }
  | .deleteObjects removal todo kept =>
      let batch := todo.take DELETE_BATCH
      s.batchDeleted removal todo (kept ++ batch)
        (batch.filter fun id => id ∈ landed)
  | _ => { s with work := none }

/-- A store or removal starts when the ones before it are done. -/
def begin (s : State Id Session) (work : Work Id Session) :
    Option (State Id Session) :=
  match s.work with
  | none => some { s with work := some work }
  | some _ => none

def step (s : State Id Session) : Event Id Session → Option (State Id Session)
  | .tick ms => some { s with now := s.now + ms }
  | .put sessionId content => s.begin (.lookup sessionId content s.now)
  | .deleteForSession sessionId => s.begin (.dropReferences sessionId)
  | .sweep => s.begin (.selectExpired none s.now)
  | .removeExpired id => s.begin (.selectExpired (some id) s.now)
  | .answer => s.work.map fun work => s.answered hash o work
  | .error landed => s.work.map fun work => s.failed hash landed work
  | .stop => some { s with work := none }

end Steps

/-! ## What is claimed of a state -/

/-- The ids of the rows a removal is about to delete. -/
def removing (s : State Id Session) : List Id :=
  match s.work with
  | some (.deleteObjects removal _ _) => removal.rows.map Prod.fst
  | some (.deleteRows removal _) => removal.rows.map Prod.fst
  | _ => []

/-- The session whose results are being removed. -/
def removingFor (s : State Id Session) : Option Session :=
  match s.work with
  | some (.deleteObjects removal _ _) => removal.owner
  | some (.deleteRows removal _) => removal.owner
  | _ => none

/-- Rows that have not expired have their objects, the ones being removed
apart; a handle reads until it expires while a session that stored the result
is left; the deletion of a session removes nothing another one holds. -/
structure Holds (o : Options) (s : State Id Session) : Prop where
  objects : ∀ id row, s.rows.get? id = some row → s.now < row.expiresAt →
    row.tier = .r2 → id ∉ s.removing → s.objects id ≠ none
  readable : ∀ h ∈ s.handles, s.now < h.expiresAt →
    (s.ledger h.id).holders ≠ [] → ∀ offset length, ∃ chunk,
      read o (s.rows.get? h.id) (s.objects h.id) s.now offset length =
        .ok chunk
  unheld : ∀ sessionId, s.removingFor = some sessionId →
    ∀ id ∈ s.removing, ∀ other, (id, other) ∉ s.refs

/-- A row that has not expired has lost its object to the removal in
progress. -/
def Lost (s : State Id Session) : Prop :=
  ∃ id ∈ s.removing, ∃ row, s.rows.get? id = some row ∧
    s.now < row.expiresAt ∧ row.tier = .r2 ∧ s.objects id = none

/-- The event gives up the removal in progress: the object stops, or the
transaction that deletes the rows fails. -/
def GivesUp (s : State Id Session) : Event Id Session → Prop
  | .stop => True
  | .error _ =>
      match s.work with
      | some (.deleteRows _ _) => True
      | _ => False
  | _ => False

/-- No removal is given up between an object and its row. -/
def Whole (s : State Id Session) (e : Event Id Session) : Prop :=
  s.GivesUp e → ¬s.Lost

end State
end ResultStore
end QiForge
