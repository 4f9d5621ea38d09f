import QiForge.OwnerStorage

/-!
# The owner store's saves and reads

`retries` is the number of the retry delays.  A save is given its time stamp
and the gzipped bytes of its snapshot; its requests and decisions are those of
the source.  A run is a sequence of saves, one at a time, each of which may be
cut off between two requests.
-/

namespace QiForge

abbrev VfsProgram (α : Type) := Requests VfsRequest VfsRequest.Answer VfsError α

structure Uploaded where
  id : Option ℕ
  contentHash : Option String

/-- The etag is a content hash or, without one, the file's id. -/
structure SaveResult where
  etag : String ⊕ ℕ
  bytes : ℕ

def tusPartBytes : ℕ := 5 * 1024 * 1024
def singleShotMaxBytes : ℕ := tusPartBytes

namespace OwnerStore

open Requests

def listOracleFiles : VfsProgram (List VfsFileStat) := request VfsRequest.list

/-- The file at exactly `path`, if any. -/
def statPath (path : VfsPath) : VfsProgram (Option VfsFileStat) :=
  listOracleFiles.bind fun listing =>
    ok (listing.find? fun file => decide (file.path = path))

def newest (path : VfsPath) (listing : List VfsFileStat) :
    Option (VfsFileStat × ℕ) :=
  listing.foldl (fun newest file =>
    match asideStamp path file.path with
    | none => newest
    | some stamp =>
        match newest with
        | none => some (file, stamp)
        | some (other, at') =>
            if at' < stamp then some (file, stamp) else some (other, at'))
    none

/-- The file at the path or the newest set-aside copy. -/
def pick (path : VfsPath) (listing : List VfsFileStat) : Option VfsFileStat :=
  match listing.find? fun file => decide (file.path = path) with
  | some exact => some exact
  | none => (newest path listing).map Prod.fst

def ownerCopy (path : VfsPath) : VfsProgram (Option VfsFileStat) :=
  listOracleFiles.bind fun listing => ok (pick path listing)

def move (id : ℕ) (destinationPath : VfsPath) : VfsProgram Unit :=
  (request (VfsRequest.move id destinationPath)).bind fun (body : Option BatchItem) =>
    match body with
    | some .ok => ok ()
    | some (.refused status) => fail (.status status)
    | none => fail (.status 500)

def moveOnce (id : ℕ) (destinationPath : VfsPath) : VfsProgram Unit :=
  (move id destinationPath).tryCatch fun error =>
    if error = .status 409 then
      (statPath destinationPath).bind fun found =>
        if found.map VfsFileStat.id = some id then ok () else fail error
    else fail error

def moveWithRetry (retries id : ℕ) (destinationPath : VfsPath) :
    VfsProgram Unit :=
  withRetry isRetryableRequest (moveOnce id destinationPath) retries

/-- One attempt to move the uploaded file to the real path; an occupant is
moved aside, and the set-aside copies are passed on with the result. -/
def moveIntoPlaceOnce (path : VfsPath) (tempId stamp : ℕ)
    (aside : List VfsFileStat) :
    VfsProgram (Except VfsError Unit × List VfsFileStat) :=
  (move tempId path).andThen fun moved =>
    match moved with
    | .ok () => ok (.ok (), aside)
    | .error error =>
        if error = .status 409 then
          (statPath path).andThen fun found =>
            match found with
            | .error error => ok (.error error, aside)
            | .ok none => ok (.error error, aside)
            | .ok (some occupant) =>
                if occupant.id = tempId then ok (.ok (), aside)
                else
                  let asidePath := asidePath path stamp
                    ("-o".toList ++ (toString aside.length).toList)
                  (move occupant.id asidePath).andThen fun set =>
                    match set with
                    | .error error => ok (.error error, aside)
                    | .ok () => ok (.error error,
                        aside ++ [{ occupant with path := asidePath }])
        else ok (.error error, aside)

def moveIntoPlace (path : VfsPath) (tempId stamp : ℕ) : ℕ → List VfsFileStat →
      VfsProgram (Except VfsError Unit × List VfsFileStat)
  | 0, aside => moveIntoPlaceOnce path tempId stamp aside
  | retries + 1, aside =>
      (moveIntoPlaceOnce path tempId stamp aside).bind fun attempt =>
        match attempt with
        | (.ok (), aside) => ok (.ok (), aside)
        | (.error error, aside) =>
            if isRetryableRequest error ∨ error = .status 409 then
              moveIntoPlace path tempId stamp retries aside
            else ok (.error error, aside)

/-- Puts the previous file back; best effort. -/
def restoreAside (path : VfsPath) (retries : ℕ)
    (aside : List VfsFileStat) : VfsProgram Unit :=
  match aside with
  | [] => ok ()
  | previous :: _ =>
      (moveWithRetry retries previous.id path).tryCatch fun _ => ok ()

def uploadSingleShot (retries : ℕ) (tempPath : VfsPath)
    (gz : List UInt8) : VfsProgram Uploaded :=
  (withRetry isRetryableRequest (request (VfsRequest.create tempPath gz)) retries).bind
    fun (created : Option (ℕ × String)) =>
      ok ⟨created.map Prod.fst, created.map Prod.snd⟩

/-- Statuses after which resending the same part can never succeed. -/
def fatalStatuses : List ℕ := [400, 401, 403, 404, 410, 411, 412, 413, 415]

def isRetryable : VfsError → Bool
  | .network => true
  | .status code => !decide (code ∈ fatalStatuses)
  | .other => false

/-- The session's offset; `none` when the probe failed. -/
def committedOffset (session : ℕ) : VfsProgram (Option ℕ) :=
  ((request (VfsRequest.probe session)).bind fun offset => ok (some offset)).tryCatch
    fun _ => ok none

def patchPart (session offset : ℕ) (part : List UInt8) :
    VfsProgram (Option (ℕ × String)) :=
  request (VfsRequest.sendPart session offset part)

/-- Sends one part, probing the offset after an error. -/
def sendPart (session offset : ℕ) (part : List UInt8) :
    ℕ → VfsProgram (Option (ℕ × String))
  | 0 => patchPart session offset part
  | retries + 1 =>
      (patchPart session offset part).tryCatch fun error =>
        if isRetryable error then
          (committedOffset session).bind fun committed =>
            if committed = some (offset + part.length) then ok none
            else if committed.isSome ∧ committed ≠ some offset then
              fail .other
            else sendPart session offset part retries
        else fail error

/-- The parts of the stream, each but the last of the part size. -/
def parts (size : ℕ) : ℕ → List UInt8 → List (List UInt8)
  | 0, _ => []
  | fuel + 1, bytes =>
      if bytes = [] then []
      else bytes.take size :: parts size fuel (bytes.drop size)

def sendParts (retries session totalLength : ℕ) :
    List (List UInt8) → ℕ → Option (ℕ × String) →
      VfsProgram (Option (ℕ × String))
  | [], offset, result =>
      if offset ≠ totalLength then fail .other else ok result
  | part :: rest, offset, result =>
      if totalLength < offset + part.length then fail .other
      else
        (sendPart session offset part retries).bind fun sent =>
          sendParts retries session totalLength rest (offset + part.length)
            (if offset + part.length = totalLength then sent else result)

def tusUpload (retries : ℕ) (path : VfsPath) (totalLength : ℕ)
    (gz : List UInt8) : VfsProgram (Option (ℕ × String)) :=
  if totalLength < 1 then fail .other
  else
    (withRetry isRetryable (request (VfsRequest.startUpload path totalLength))
      retries).bind fun session =>
        (sendParts retries session totalLength
          (parts tusPartBytes gz.length gz) 0 none).tryCatch fun error =>
            (request (VfsRequest.abort session)).andThen fun _ => fail error

def uploadResumable (retries : ℕ) (tempPath : VfsPath)
    (gz : List UInt8) (gzLength : ℕ) : VfsProgram Uploaded :=
  (tusUpload retries tempPath gzLength gz).bind fun result =>
    ok ⟨result.map Prod.fst, result.map Prod.snd⟩

def postDelete (ids : List ℕ) : VfsProgram (Option (List BatchItem)) :=
  request (VfsRequest.delete ids)

def batchDelete (ids : List ℕ) : VfsProgram Unit :=
  (postDelete ids).bind fun body =>
    match (body.getD []).find? fun item =>
        !decide (item = .ok ∨ item = .refused 404) with
    | some (.refused status) => fail (.status status)
    | _ => ok ()

/-- The uploaded temp file's id. -/
def upload (path : VfsPath) (retries stamp : ℕ) (gz : List UInt8)
    (gzLength : ℕ) : VfsProgram (ℕ × Option String) :=
  (if gzLength ≤ singleShotMaxBytes then
      uploadSingleShot retries (tempPath path stamp) gz
    else uploadResumable retries (tempPath path stamp) gz gzLength).bind
    fun uploaded =>
      match uploaded.id with
      | some id => ok (id, uploaded.contentHash)
      | none =>
          (statPath (tempPath path stamp)).bind fun found =>
            match found with
            | some file => ok (file.id, uploaded.contentHash)
            | none => fail .other

/-- Moves the previous files aside, in the order of the listing. -/
def moveAside (path : VfsPath) (retries stamp : ℕ) :
    List VfsFileStat → List VfsFileStat → VfsProgram (List VfsFileStat)
  | [], aside => ok aside
  | file :: rest, aside =>
      let asidePath := asidePath path stamp (if aside = [] then []
          else "-".toList ++ (toString aside.length).toList)
      (moveWithRetry retries file.id asidePath).bind fun _ =>
        moveAside path retries stamp rest
          (aside ++ [{ file with path := asidePath }])

/-- Deletes the old copies once the new file is at the path; best effort. -/
def deleteStale (retries : ℕ) (stale : List VfsFileStat) : VfsProgram Unit :=
  if stale = [] then ok ()
  else
    (withRetry isRetryableRequest
      (batchDelete (stale.map VfsFileStat.id)) retries).tryCatch
        fun _ => ok ()

def save (path : VfsPath) (retries stamp : ℕ) (gz : List UInt8)
    (gzippedLength : Option ℕ) : VfsProgram SaveResult :=
  listOracleFiles.bind fun listing =>
  let existing := listing.filter fun file => decide (file.path = path)
  let leftovers := listing.filter fun file => isLeftover path file.path
  let gzLength := gzippedLength.getD gz.length
  (upload path retries stamp gz gzLength).bind fun (tempId, contentHash) =>
  (moveAside path retries stamp existing []).bind fun aside =>
  (moveIntoPlace path tempId stamp retries aside).bind fun (moved, aside) =>
  match moved with
  | .error error => (restoreAside path retries aside).bind fun _ => fail error
  | .ok () =>
      let stale := (leftovers ++ aside).filter fun file =>
        !decide (file.id = tempId)
      (deleteStale retries stale).bind fun _ =>
      match contentHash with
      | some hash => ok ⟨.inl hash, gzLength⟩
      | none =>
          (statPath path).bind fun found =>
            ok ⟨match found.bind VfsFileStat.checksum with
              | some hash => .inl hash
              | none => .inr tempId, gzLength⟩

end OwnerStore

/-- The saves of one store: the owner's files, the last time stamp, the
snapshots of the saves in their order, the last save that returned, and the
one that runs. -/
structure OwnerRun where
  storage : OwnerStorage
  clock : ℕ
  snapshots : List (List UInt8)
  returned : Option ℕ
  running : Option (VfsProgram SaveResult)

inductive OwnerEvent where
  | save (now : ℕ) (gz : List UInt8) (gzippedLength : Option ℕ)
  | request (fate : VfsFate)
  | finish
  | stop
deriving DecidableEq

namespace OwnerRun

variable (checksum : List UInt8 → String) (path : VfsPath) (retries : ℕ)

def start (files : List VfsFile) (nextId : ℕ) : OwnerRun where
  storage := ⟨files, nextId, 0⟩
  clock := 0
  snapshots := []
  returned := none
  running := none

def step (s : OwnerRun) : OwnerEvent → Option OwnerRun
  | .save now gz gzippedLength =>
      if s.running.isSome ∨ now ≤ s.clock then none
      else
        some { s with
          storage := { s.storage with saving := s.snapshots.length }
          clock := now
          snapshots := s.snapshots ++ [gz]
          running := some (OwnerStore.save path retries now gz gzippedLength) }
  | .request fate =>
      s.running.bind fun program =>
        (program.step (OwnerStorage.serve checksum) s.storage fate).map
          fun (storage, program) =>
            { s with storage := storage, running := some program }
  | .finish =>
      match s.running with
      | some (.done (.ok _)) =>
          some { s with
            returned := some (s.snapshots.length - 1)
            running := none }
      | some (.done (.error _)) => some { s with running := none }
      | _ => none
  | .stop => some { s with running := none }

end OwnerRun

end QiForge
