import QiForge.Transition

/-!
# The document write guard

The writer sends one batch at a time through the guard: it sends the batch
again when the call rejects with anything but `M_FORBIDDEN` and drops it when
the call resolves.  A call is a wait, a check of `close()` and a send that may
be acknowledged or fail, and `close()` may come at any moment between.

Times are milliseconds.  The batches, the newest first, record every send with
the way it ended; `landed` tells whether the homeserver stored a failed one.
-/

namespace QiForge

inductive DocWriteFailure where
  | forbidden (detail : String)
  | unsent (detail : String) (mayHaveLanded : Bool)
deriving DecidableEq

inductive OnGiveUp where
  | reject
  | drain
deriving DecidableEq

structure DocWriteGuardOptions where
  maxAttempts : Option ℤ
  budgetMs : Option ℚ
  baseBackoffMs : Option ℚ
  onGiveUp : OnGiveUp

def docWriteMaxAttempts : ℤ := 4
def docWriteRetryBudgetMs : ℚ := 15000
def docWriteBaseBackoffMs : ℚ := 250

namespace DocWriteGuardOptions

def attempts (opts : DocWriteGuardOptions) : ℤ :=
  max 1 (opts.maxAttempts.getD docWriteMaxAttempts)

def budget (opts : DocWriteGuardOptions) : ℚ :=
  max 0 (opts.budgetMs.getD docWriteRetryBudgetMs)

def backoff (opts : DocWriteGuardOptions) : ℚ :=
  max 0 (opts.baseBackoffMs.getD docWriteBaseBackoffMs)

end DocWriteGuardOptions

/-- What the guard reads of the error of a failed send. -/
structure SendError where
  detail : String
  errcode : Option String
  httpStatus : Option ℕ
  /-- `getRetryAfterMs()` of a `MatrixError`, when it answers a number. -/
  getRetryAfterMs : Option ℚ
  /-- `data.retry_after_ms`, when it is a number. -/
  retryAfterField : Option ℚ
deriving DecidableEq

/-- The homeserver's requested wait before the next send, if it sent one. -/
def retryAfterMs (error : SendError) : Option ℚ :=
  match error.getRetryAfterMs.filter fun ms => decide (0 ≤ ms) with
  | some fromServer => some fromServer
  | none => error.retryAfterField.filter fun ms => decide (0 ≤ ms)

def sendMayHaveLanded (error : SendError) : Bool :=
  match error.httpStatus with
  | none => true
  | some status => status == 408 || decide (status ≥ 500)

def isRetryableSendError (error : SendError) : Bool :=
  match error.httpStatus with
  | none => true
  | some status => status == 408 || status == 429 || decide (status ≥ 500)

structure DocWriteGuard where
  sends : ℕ
  recorded : Option DocWriteFailure
  closed : Bool
  failedSends : ℕ
  streakMayHaveLanded : Bool
  streakStartedAt : Option ℚ
  nextSendAt : ℚ
deriving DecidableEq

/-- How a call of the writer ends when it is not acknowledged: it resolves,
or rejects with `M_FORBIDDEN`, or with another error. -/
inductive DocWriteReply where
  | resolves
  | forbids
  | rejects
deriving DecidableEq

namespace DocWriteGuard

def new : DocWriteGuard := ⟨0, none, false, 0, false, none, 0⟩

def giveUp (opts : DocWriteGuardOptions) (g : DocWriteGuard) :
    DocWriteReply :=
  if g.closed ∨ opts.onGiveUp = .drain then .resolves else .forbids

/-- The wait after the error of the `failedSends`-th failed send. -/
def delay (opts : DocWriteGuardOptions) (error : SendError)
    (failedSends : ℕ) : ℚ :=
  max ((retryAfterMs error).getD 0) (opts.backoff * 2 ^ (failedSends - 1))

def abandonedDetail (detail : String) (failedSends : ℕ) : String :=
  detail ++ " (after " ++ toString failedSends ++ " attempt" ++
    (if failedSends = 1 then "" else "s") ++ ")"

def onSendFailed (opts : DocWriteGuardOptions) (now : ℚ) (error : SendError)
    (g : DocWriteGuard) : DocWriteGuard × DocWriteReply :=
  if error.errcode = some "M_FORBIDDEN" then
    ({ g with recorded := some (.forbidden error.detail) },
      if opts.onGiveUp = .drain then .resolves else .forbids)
  else
    let failedSends := g.failedSends + 1
    let mayHaveLanded := g.streakMayHaveLanded || sendMayHaveLanded error
    let startedAt := g.streakStartedAt.getD now
    let delay := delay opts error failedSends
    let g := { g with
      failedSends := failedSends
      streakMayHaveLanded := mayHaveLanded
      streakStartedAt := some startedAt }
    if isRetryableSendError error = false ∨ opts.attempts ≤ (failedSends : ℤ) ∨
        opts.budget < now + delay - startedAt then
      let g := { g with
        recorded := some
          (.unsent (abandonedDetail error.detail failedSends) mayHaveLanded) }
      (g, g.giveUp opts)
    else ({ g with nextSendAt := now + delay }, .rejects)

def acknowledged (g : DocWriteGuard) : DocWriteGuard := { g with
    failedSends := 0
    streakMayHaveLanded := false
    streakStartedAt := none
    nextSendAt := 0 }

/-- A batch dropped after close was never acknowledged; it is reported as
possibly saved. -/
def dropped (g : DocWriteGuard) : DocWriteGuard := { g with
    recorded := g.recorded.or (some (.unsent
        "the document closed before the change was acknowledged" true)) }

/-- Why a write did not reach the room, if one did not; `canWrite` is the
provider's, when there is one. -/
def writeFailure (g : DocWriteGuard) (canWrite : Option Bool) :
    Option DocWriteFailure :=
  g.recorded.or (if canWrite = some false then
      some (.forbidden "the homeserver rejected the write")
    else none)

/-- The report of a flush whose wait ended, or failed with a text. -/
def flush (g : DocWriteGuard) (canWrite : Option Bool)
    (waited : Except String Unit) : Option DocWriteFailure :=
  match waited with
  | .ok () => g.writeFailure canWrite
  | .error detail => (g.writeFailure canWrite).or (some (.unsent detail true))

end DocWriteGuard

inductive SendEnding where
  | acknowledged
  | failed (at' : ℚ) (error : SendError) (landed : Bool)
deriving DecidableEq

structure DocSend where
  at' : ℚ
  ending : Option SendEnding
deriving DecidableEq

inductive BatchFate where
  | pending
  | acknowledged
  | dropped
  | refused
deriving DecidableEq

/-- A batch of document changes and its sends, the newest first. -/
structure DocBatch where
  sends : List DocSend
  fate : BatchFate
deriving DecidableEq

inductive DocWritePhase where
  | idle
  | waiting (until' : ℚ)
  | sending
deriving DecidableEq

structure DocWriter where
  guard : DocWriteGuard
  now : ℚ
  phase : DocWritePhase
  batches : List DocBatch
deriving DecidableEq

inductive DocWriteEvent where
  | tick (ms : ℚ)
  | send
  | resume
  | acknowledged
  | failed (error : SendError) (landed : Bool)
  | close

namespace DocWriter

def start (now : ℚ) : DocWriter := ⟨.new, now, .idle, []⟩

/-- The batch the writer sends: the one not dropped yet, or a new one. -/
def withBatch (w : DocWriter) : DocWriter :=
  match w.batches with
  | [] => { w with batches := [⟨[], .pending⟩] }
  | batch :: _ =>
      if batch.fate = .pending then w
      else { w with batches := ⟨[], .pending⟩ :: w.batches }

def onBatch (w : DocWriter) (change : DocBatch → DocBatch) : DocWriter :=
  match w.batches with
  | [] => w
  | batch :: batches => { w with batches := change batch :: batches }

def BatchFate.after : DocWriteReply → BatchFate
  | .resolves => .dropped
  | .forbids => .refused
  | .rejects => .pending

/-- The call ends without an acknowledgement. -/
def reply (w : DocWriter) (reply : DocWriteReply) : DocWriter :=
  { w.onBatch fun batch => { batch with fate := BatchFate.after reply } with
    phase := .idle }

def endSend (ending : SendEnding) (batch : DocBatch) : DocBatch :=
  match batch.sends with
  | [] => batch
  | send :: sends =>
      { batch with sends := { send with ending := some ending } :: sends }

/-- A client error or `M_FORBIDDEN` is an answer: nothing was stored. -/
def truthful (error : SendError) (landed : Bool) : Bool := !landed ||
    (sendMayHaveLanded error && decide (error.errcode ≠ some "M_FORBIDDEN"))

def step (opts : DocWriteGuardOptions) (w : DocWriter) :
    DocWriteEvent → Option DocWriter
  | .tick ms => if 0 ≤ ms then some { w with now := w.now + ms } else none
  | .send =>
      if w.phase = .idle then
        let w := w.withBatch
        if w.guard.recorded.isSome then some (w.reply (w.guard.giveUp opts))
        else some { w with phase := .waiting w.guard.nextSendAt }
      else none
  | .resume =>
      match w.phase with
      | .waiting until' =>
          if w.guard.closed then
            some { w.reply .resolves with guard := w.guard.dropped }
          else if until' ≤ w.now then
            some { w.onBatch fun batch =>
                { batch with sends := ⟨w.now, none⟩ :: batch.sends } with
              guard := { w.guard with sends := w.guard.sends + 1 }
              phase := .sending }
          else none
      | _ => none
  | .acknowledged =>
      if w.phase = .sending then
        some { w.onBatch fun batch =>
            { endSend .acknowledged batch with fate := .acknowledged } with
          guard := w.guard.acknowledged
          phase := .idle }
      else none
  | .failed error landed =>
      if w.phase = .sending ∧ truthful error landed = true then
        let (guard, reply) := w.guard.onSendFailed opts w.now error
        some ({ w.onBatch (endSend (.failed w.now error landed)) with
          guard := guard }.reply reply)
      else none
  | .close => some { w with guard := { w.guard with closed := true } }

end DocWriter

end QiForge
