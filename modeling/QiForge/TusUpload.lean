import QiForge.OwnerStore
import QiForge.TusReader

/-!
# The resumable upload

The server appends a PATCH whole or not at all, and only at its committed
offset; once every byte is there it may close the upload, after which it knows
the session no longer.  What becomes of each request is the faults': a reply
may be lost or replaced by an error status, whether the server got the request
or not, and a PATCH sent before may reach the server late or once more.

`appended` and `sent` record what the server appended and what it was sent.
-/

namespace QiForge.Tus

def tusPartAlignBytes : ℕ := 64 * 1024
def tusMinPartBytes : ℕ := 5 * 1024 * 1024

structure TusUploadOptions where
  totalLength : ℕ
  partSize : ℕ
  retryDelaysMs : List ℕ := [2000, 5000, 15000]

structure TusUploadResult where
  fileId : Option String
  contentHash : Option String
  cid : Option String
  parts : ℕ
deriving DecidableEq

/-- What `tusUpload` throws; `network` is a failed or aborted fetch and
`thrown` any other error of a request. -/
inductive TusUploadError where
  | totalLength
  | partSize (partSize : ℕ)
  | create (status : ℕ)
  | noLocation
  | part (count offset status : ℕ)
  | committed (committed offset : ℕ)
  | tooLong (totalLength : ℕ)
  | tooShort (offset totalLength : ℕ)
  | network
  | thrown
deriving DecidableEq

def isRetryable : TusUploadError → Bool
  | .create status => decide (status ∉ OwnerStore.fatalStatuses)
  | .part _ _ status => decide (status ∉ OwnerStore.fatalStatuses)
  | .network => true
  | _ => false

structure Server where
  totalLength : ℕ
  committed : Bytes
  closed : Bool
  appended : List (ℕ × Bytes)
  sent : List (ℕ × Bytes)
deriving DecidableEq

namespace Server

def fresh (totalLength : ℕ) : Server := ⟨totalLength, [], false, [], []⟩

/-- A PATCH that reaches the server, and the status it is refused with. -/
def append (s : Server) (patch : ℕ × Bytes) : Server × Option ℕ :=
  if s.closed then (s, some 404)
  else if patch.1 = s.committed.length then
    ({ s with
        committed := s.committed ++ patch.2
        appended := s.appended ++ [patch] }, none)
  else (s, some 409)

/-- A PATCH sent before reaches the server. -/
def arrive (s : Server) (offset : ℕ) : Server :=
  match s.sent.find? fun patch => decide (patch.1 = offset) with
  | none => s
  | some patch => (s.append patch).1

def close (s : Server) : Server :=
  if s.committed.length = s.totalLength then { s with closed := true } else s

end Server

/-- What happens at the server before a request gets there: PATCHes arrive
late or once more, and the upload is closed if it is complete. -/
structure Meanwhile where
  late : List ℕ
  closes : Bool

def Server.pass (s : Server) (meanwhile : Meanwhile) : Server :=
  let s := meanwhile.late.foldl Server.arrive s
  if meanwhile.closes then s.close else s

inductive PostFate where
  | answered (status : ℕ) (location : Option Bool)
  | lost
  | thrown

structure VfsHeaders where
  fileId : Option String
  contentHash : Option String
  cid : Option String

abbrev ErrorStatus := { status : ℕ // ¬(200 ≤ status ∧ status < 300) }

/-- The server's own reply, or what comes in its place. -/
inductive PatchFate where
  | answered (headers : VfsHeaders)
  | status (reaches : Bool) (status : ErrorStatus)
  | lost (reaches : Bool)
  | thrown

def PatchFate.reaches : PatchFate → Bool
  | .answered _ => true
  | .status reaches _ => reaches
  | .lost reaches => reaches
  | .thrown => false

inductive HeadFate where
  | answered
  | status (status : ErrorStatus)
  | lost
deriving DecidableEq

/-- A PATCH of a part and the probe that follows when it fails. -/
structure Attempt where
  beforePatch : Meanwhile
  patch : PatchFate
  beforeHead : Meanwhile
  head : HeadFate

structure Faults where
  post : ℕ → PostFate
  /-- by the count of the part and the attempt -/
  part : ℕ → ℕ → Attempt
  deleteReaches : Bool

/-- A Location that is no URL throws a TypeError, which passes for the
network's. -/
def post : PostFate → Except TusUploadError Unit
  | .answered status location =>
      if status ≠ 201 then .error (.create status)
      else
        match location with
        | none => .error .noLocation
        | some false => .error .network
        | some true => .ok ()
  | .lost => .error .network
  | .thrown => .error .thrown

def create (fates : ℕ → PostFate) : ℕ → List ℕ → Except TusUploadError Unit
  | attempt, [] => post (fates attempt)
  | attempt, _ :: delays =>
      match post (fates attempt) with
      | .ok () => .ok ()
      | .error error =>
          if isRetryable error then create fates (attempt + 1) delays
          else .error error

/-- The server once a PATCH has been sent and reached it or not. -/
def Server.receive (s : Server) (offset : ℕ) (part : Bytes)
    (attempt : Attempt) : Server × Option ℕ :=
  let s := ({ s with sent := s.sent ++ [(offset, part)] }).pass
    attempt.beforePatch
  if attempt.patch.reaches then s.append (offset, part) else (s, none)

def patch (s : Server) (count offset : ℕ) (part : Bytes)
    (attempt : Attempt) : Server × Except TusUploadError VfsHeaders :=
  let (s, refused) := s.receive offset part attempt
  match attempt.patch with
  | .answered headers =>
      match refused with
      | none => (s, .ok headers)
      | some status => (s, .error (.part count offset status))
  | .status _ status => (s, .error (.part count offset status.val))
  | .lost _ => (s, .error .network)
  | .thrown => (s, .error .thrown)

/-- The session's offset; none when the probe failed or the session is
gone. -/
def committedOffset (s : Server) : HeadFate → Option ℕ
  | .answered => if s.closed then none else some s.committed.length
  | .status _ => none
  | .lost => none

/-- The attempts of one part; without headers the part was found
committed. -/
def sendPart (attempts : ℕ → Attempt) (count offset : ℕ) (part : Bytes) :
    Server → ℕ → List ℕ → Server × Except TusUploadError (Option VfsHeaders)
  | s, attempt, [] =>
      match patch s count offset part (attempts attempt) with
      | (s, .ok headers) => (s, .ok (some headers))
      | (s, .error error) => (s, .error error)
  | s, attempt, _ :: delays =>
      match patch s count offset part (attempts attempt) with
      | (s, .ok headers) => (s, .ok (some headers))
      | (s, .error error) =>
          if isRetryable error then
            let s := s.pass (attempts attempt).beforeHead
            match committedOffset s (attempts attempt).head with
            | none => sendPart attempts count offset part s (attempt + 1) delays
            | some committed =>
                if committed = offset + part.length then (s, .ok none)
                else if committed ≠ offset then
                  (s, .error (.committed committed offset))
                else
                  sendPart attempts count offset part s (attempt + 1) delays
          else (s, .error error)

def TusUploadResult.withHeaders (result : TusUploadResult)
    (headers : VfsHeaders) : TusUploadResult :=
  { result with
    fileId := headers.fileId
    contentHash := headers.contentHash
    cid := headers.cid }

/-- The loop over the parts; `count` of them are sent. -/
def sendParts (options : TusUploadOptions) (faults : Faults)
    (reader : PartReader) (offset count : ℕ) (result : TusUploadResult)
    (s : Server) : Server × Except TusUploadError TusUploadResult :=
  match hnext : reader.next options.partSize with
  | (none, _) =>
      if offset ≠ options.totalLength then
        (s, .error (.tooShort offset options.totalLength))
      else (s, .ok { result with parts := count })
  | (some part, next) =>
      if offset + part.length > options.totalLength then
        (s, .error (.tooLong options.totalLength))
      else
        match sendPart (faults.part (count + 1)) (count + 1) offset part s 0
            options.retryDelaysMs with
        | (s, .error error) => (s, .error error)
        | (s, .ok headers) =>
            let result :=
              if offset + part.length = options.totalLength then
                (headers.map result.withHeaders).getD result
              else result
            sendParts options faults next (offset + part.length) (count + 1)
              result s
termination_by reader.rest.length
decreasing_by exact PartReader.next_shorter hnext

/-- Best effort: the session is deleted after an error. -/
def Server.abortSession (s : Server) (reaches : Bool) : Server :=
  if reaches then { s with closed := true } else s

/-- A single part may have any size. -/
def TusUploadOptions.partsAligned (options : TusUploadOptions) : Prop :=
  options.partSize < options.totalLength → tusMinPartBytes ≤ options.partSize ∧
      options.partSize % tusPartAlignBytes = 0

instance (options : TusUploadOptions) : Decidable options.partsAligned :=
  inferInstanceAs (Decidable (_ → _))

def tusUpload (options : TusUploadOptions) (source : List Bytes)
    (faults : Faults) :
    Server × Except TusUploadError TusUploadResult :=
  let s := Server.fresh options.totalLength
  if options.totalLength < 1 then (s, .error .totalLength)
  else if ¬options.partsAligned then (s, .error (.partSize options.partSize))
  else
    match create faults.post 0 options.retryDelaysMs with
    | .error error => (s, .error error)
    | .ok () =>
        match sendParts options faults (PartReader.start source) 0 0
            ⟨none, none, none, 0⟩ s with
        | (s, .ok result) => (s, .ok result)
        | (s, .error error) =>
            (s.abortSession faults.deleteReaches, .error error)

end QiForge.Tus
