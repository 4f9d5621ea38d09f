import QiForge.Requests

/-!
# The owner's files

The names of the owner store and the requests it sends to the owner's file
system.  A file is complete or still uploading; a path holds one file.  The
last field of a file is a history: the save it was uploaded by.
-/

namespace QiForge

abbrev VfsPath := List Char

def tempPathInfix : List Char := ".uploading-".toList
def asidePathInfix : List Char := ".replaced-".toList

def base36Digit (digit : ℕ) : Char :=
  if digit < 10 then Char.ofNat (48 + digit) else Char.ofNat (87 + digit)

def base36Value (c : Char) : Option ℕ :=
  if 48 ≤ c.toNat ∧ c.toNat ≤ 57 then some (c.toNat - 48)
  else if 97 ≤ c.toNat ∧ c.toNat ≤ 122 then some (c.toNat - 87)
  else if 65 ≤ c.toNat ∧ c.toNat ≤ 90 then some (c.toNat - 55)
  else none

/-- `n.toString(36)` -/
def toBase36 (n : ℕ) : List Char :=
  if n = 0 then ['0'] else (Nat.digits 36 n).reverse.map base36Digit

/-- `Number.parseInt(text, 36)`, `none` for not a number; a sign does not occur
in the stamps. -/
def parseBase36 (text : List Char) : Option ℕ :=
  match (text.map base36Value).takeWhile Option.isSome with
  | [] => none
  | digits =>
      some (digits.foldl (fun value digit => value * 36 + digit.getD 0) 0)

def tempPath (path : VfsPath) (stamp : ℕ) : VfsPath :=
  path ++ (tempPathInfix ++ toBase36 stamp)

def asidePath (path : VfsPath) (stamp : ℕ) (suffix : List Char) : VfsPath :=
  path ++ (asidePathInfix ++ (toBase36 stamp ++ suffix))

/-- A crashed or failed flush's temp upload or set-aside copy of this file. -/
def isLeftover (path file : VfsPath) : Bool :=
  (path ++ tempPathInfix).isPrefixOf file ||
    (path ++ asidePathInfix).isPrefixOf file

/-- The stamp of a set-aside copy: `<stamp>` or `<stamp>-<n>`. -/
def asideStamp (path file : VfsPath) : Option ℕ :=
  if (path ++ asidePathInfix).isPrefixOf file then
    parseBase36 ((file.drop (path ++ asidePathInfix).length).takeWhile
      fun c => !decide (c = '-'))
  else none

structure VfsFile where
  id : ℕ
  path : VfsPath
  content : List UInt8
  uploading : Option ℕ
  writtenBy : ℕ
deriving DecidableEq

structure VfsFileStat where
  id : ℕ
  path : VfsPath
  checksum : Option String
deriving DecidableEq

/-- The files, the number of the save that runs, and the next id. -/
structure OwnerStorage where
  files : List VfsFile
  nextId : ℕ
  saving : ℕ
deriving DecidableEq

inductive VfsError where
  | network
  | status (code : ℕ)
  | other
deriving DecidableEq, Repr

/-- Transient: network failures, 5xx, 429. -/
def isRetryableRequest : VfsError → Bool
  | .network => true
  | .status code => decide (500 ≤ code ∨ code = 429)
  | .other => false

/-- One item's result of a batch request. -/
inductive BatchItem where
  | ok
  | refused (status : ℕ)
deriving DecidableEq, Repr

inductive VfsRequest where
  | list
  | create (path : VfsPath) (body : List UInt8)
  | move (id : ℕ) (destinationPath : VfsPath)
  | delete (ids : List ℕ)
  | startUpload (path : VfsPath) (totalLength : ℕ)
  | sendPart (session offset : ℕ) (part : List UInt8)
  | probe (session : ℕ)
  | abort (session : ℕ)

namespace VfsRequest

/-- What an answer carries; the body is `none` where it could not be read. -/
def Answer : VfsRequest → Type
  | list => List VfsFileStat
  | create _ _ => Option (ℕ × String)
  | move _ _ => Option BatchItem
  | delete _ => Option (List BatchItem)
  | startUpload _ _ => ℕ
  | sendPart _ _ _ => Option (ℕ × String)
  | probe _ => ℕ
  | abort _ => Unit

end VfsRequest

/-- Whether a request is answered, is answered with a body that breaks off, or
fails before or after it took effect. -/
inductive VfsFate where
  | answered
  | unreadable (pages : ℕ)
  | failed (took : Bool) (error : VfsError)
deriving DecidableEq, Repr

namespace OwnerStorage

variable (checksum : List UInt8 → String)

def find (s : OwnerStorage) (id : ℕ) : Option VfsFile :=
  s.files.find? fun file => decide (file.id = id)

def at' (s : OwnerStorage) (path : VfsPath) : Option VfsFile :=
  s.files.find? fun file => decide (file.path = path)

def stat (file : VfsFile) : VfsFileStat :=
  ⟨file.id, file.path, some (checksum file.content)⟩

def listing (s : OwnerStorage) : List VfsFileStat :=
  s.files.map (stat checksum)

def change (s : OwnerStorage) (id : ℕ) (f : VfsFile → VfsFile) :
    OwnerStorage :=
  { s with
    files := s.files.map fun file => if file.id = id then f file else file }

def add (s : OwnerStorage) (path : VfsPath) (content : List UInt8)
    (uploading : Option ℕ) : OwnerStorage :=
  { s with
    files := s.files ++ [⟨s.nextId, path, content, uploading, s.saving⟩]
    nextId := s.nextId + 1 }

def drop (s : OwnerStorage) (ids : List ℕ) : OwnerStorage :=
  { s with files := s.files.filter fun file => !decide (file.id ∈ ids) }

/-- What a request does, and its answer when that arrives. -/
def answer (s : OwnerStorage) :
    (op : VfsRequest) → OwnerStorage × Except VfsError op.Answer
  | .list => (s, .ok (s.listing checksum))
  | .create path body =>
      match s.at' path with
      | some _ => (s, .error (.status 409))
      | none => (s.add path body none, .ok (some (s.nextId, checksum body)))
  | .move id destinationPath =>
      match s.find id, s.at' destinationPath with
      | none, _ => (s, .ok (some (.refused 404)))
      | some _, some _ => (s, .ok (some (.refused 409)))
      | some _, none =>
          (s.change id fun file => { file with path := destinationPath },
            .ok (some .ok))
  | .delete ids =>
      (s.drop ids, .ok (some (ids.map fun id =>
        if (s.find id).isSome then .ok else .refused 404)))
  | .startUpload path totalLength =>
      match s.at' path with
      | none => (s.add path [] (some totalLength), .ok s.nextId)
      | some file =>
          if file.uploading.isSome then
            ((s.drop [file.id]).add path [] (some totalLength), .ok s.nextId)
          else (s, .error (.status 409))
  | .sendPart session offset part =>
      match s.find session with
      | none => (s, .error (.status 404))
      | some file =>
          match file.uploading with
          | none => (s, .error (.status 404))
          | some total =>
              if offset ≠ file.content.length then
                (s, .error (.status 409))
              else if total < offset + part.length then
                (s, .error (.status 413))
              else if offset + part.length = total then
                (s.change session fun file =>
                    { file with
                      content := file.content ++ part
                      uploading := none },
                  .ok (some (session, checksum (file.content ++ part))))
              else
                (s.change session fun file =>
                  { file with content := file.content ++ part }, .ok none)
  | .probe session =>
      match s.find session with
      | none => (s, .error (.status 404))
      | some file =>
          if file.uploading.isSome then (s, .ok file.content.length)
          else (s, .error (.status 404))
  | .abort session =>
      match s.find session with
      | none => (s, .error (.status 404))
      | some file =>
          if file.uploading.isSome then (s.drop [session], .ok ())
          else (s, .error (.status 404))

/-- What is left of an answer whose body breaks off: of a listing the pages
before, of the others nothing. -/
def garble (pages : ℕ) : (op : VfsRequest) → op.Answer → op.Answer
  | .list, files => List.take (200 * pages) files
  | .create _ _, _ => none
  | .move _ _, _ => none
  | .delete _, _ => none
  | .startUpload _ _, session => session
  | .sendPart _ _ _, sent => sent
  | .probe _, offset => offset
  | .abort _, done => done

def serve (s : OwnerStorage) (op : VfsRequest) :
    VfsFate → OwnerStorage × Except VfsError op.Answer
  | .answered => s.answer checksum op
  | .unreadable pages =>
      ((s.answer checksum op).1,
        (s.answer checksum op).2.map (garble pages op))
  | .failed took error =>
      (if took then (s.answer checksum op).1 else s, .error error)

end OwnerStorage

end QiForge
