import QiForge.SqliteText
import QiForge.Utf8Text

/-!
# The store of tool results

A result is kept under the hash of its bytes, in its row or, from
`r2MinBytes` on, in an object of the bucket.  A read takes a byte range of
it, moved onto the boundaries of its characters: of a row it has all the
bytes, of an object those of the range and three on either side.
-/

namespace QiForge
namespace ResultStore

inductive ResultTier where
  | sqlite
  | r2
  deriving DecidableEq, Repr

def SQLITE_RESULT_MAX_BYTES : ℕ := 1500000

def MAX_READ_BYTES : ℕ := 64 * 1024

/-- Longest UTF-8 sequence minus its lead byte. -/
def UTF8_MAX_CONTINUATION : ℕ := 3

def DEFAULT_RESULT_R2_MIN_BYTES : ℕ := 1000000

/-- The options of a store; `bucket` says whether one is bound. -/
structure Options where
  bucket : Bool
  r2MinBytes : ℕ
  ttlMs : ℕ
  r2MinBytes_pos : 0 < r2MinBytes

/-- The `TOOL_RESULT_R2_MIN_BYTES` knob; `none` is a value that is no
integer. -/
def r2MinBytesKnob (r2Min : Option ℤ) : ℕ :=
  match r2Min with
  | none => DEFAULT_RESULT_R2_MIN_BYTES
  | some n =>
      if 64 * 1024 ≤ n ∧ n ≤ SQLITE_RESULT_MAX_BYTES then n.toNat
      else DEFAULT_RESULT_R2_MIN_BYTES

theorem r2MinBytesKnob_pos (r2Min : Option ℤ) : 0 < r2MinBytesKnob r2Min := by
  cases r2Min with
  | none => simp [r2MinBytesKnob, DEFAULT_RESULT_R2_MIN_BYTES]
  | some n =>
      simp only [r2MinBytesKnob]
      split_ifs with hbounds
      · omega
      · simp [DEFAULT_RESULT_R2_MIN_BYTES]

structure ResultRow (Session : Type*) where
  sessionId : Session
  size : ℕ
  tier : ResultTier
  content : Option (List Char)
  expiresAt : ℕ

def useR2 (o : Options) (bytes : List UInt8) : Bool :=
  o.bucket && decide (o.r2MinBytes ≤ bytes.length)

/-- The row a result is stored with, its text as it was bound; `none` when it
fits neither tier. -/
def resultRow {Session : Type*} (o : Options) (sessionId : Session)
    (content : List Char) (expiresAt : ℕ) : Option (ResultRow Session) :=
  let bytes := utf8 content
  if useR2 o bytes then
    some
      { sessionId
        size := bytes.length
        tier := .r2
        content := none
        expiresAt }
  else if SQLITE_RESULT_MAX_BYTES < bytes.length then none
  else
    some
      { sessionId
        size := bytes.length
        tier := .sqlite
        content := some (bindText content)
        expiresAt }

/-- The object a result is stored with. -/
def resultObject (o : Options) (content : List Char) : Option (List UInt8) :=
  if useR2 o (utf8 content) then some (utf8 content) else none

/-! ## Ranges on character boundaries -/

/-- `while (p at) at -= 1`, of a `p` that fails at zero. -/
def back (p : ℕ → Bool) : ℕ → ℕ
  | 0 => 0
  | n + 1 => if p (n + 1) then back p n else n + 1

/-- `while (p at) at += 1`, at most `fuel` times. -/
def forward (p : ℕ → Bool) : ℕ → ℕ → ℕ
  | 0, n => n
  | fuel + 1, n => if p n then forward p fuel (n + 1) else n

def continues (bytes : List UInt8) (base limit n : ℕ) : Bool :=
  decide (base < n) && decide (n < limit) &&
    isContinuation (bytes.getD (n - base) 0)

structure ByteRange where
  start : ℕ
  stop : ℕ
  deriving DecidableEq, Repr

def alignUtf8Range (bytes : List UInt8) (base size start stop : ℕ) :
    ByteRange :=
  let limit := min size (base + bytes.length)
  let goesOn := continues bytes base limit
  let first := back goesOn start
  let last := max first (min stop limit)
  let cut := back (fun n => decide (first < n) && goesOn n) last
  if cut = first ∧ first < limit then
    -- `goesOn` fails from `limit` on, so the fuel does not run out
    ⟨first, forward goesOn limit (first + 1)⟩
  else ⟨first, cut⟩

/-! ## Reads -/

structure Chunk where
  tier : ResultTier
  size : ℕ
  offset : ℕ
  length : ℕ
  text : List Char
  next : Option ℕ
  deriving DecidableEq, Repr

inductive ReadResultOutcome where
  | notFound
  | expired
  | ok (chunk : Chunk)
  /-- The bucket refused the range, and `read` throws. -/
  | failed
  deriving DecidableEq, Repr

/-- A ranged get of the bucket: a range that starts outside the object is an
error. -/
def rangeGet (object : List UInt8) (offset length : ℕ) : Option (List UInt8) :=
  if offset < object.length then some ((object.drop offset).take length)
  else none

def subarray (bytes : List UInt8) (start stop : ℕ) : List UInt8 :=
  (bytes.take stop).drop start

section Read

variable {Session : Type*} (o : Options)

def requestedOffset (size : ℕ) (offset : ℤ) : ℕ :=
  (max 0 (min offset size)).toNat

def requestedSpan (size requested : ℕ) (length : ℤ) : ℕ :=
  (max 1 (min length (min MAX_READ_BYTES (size - requested)))).toNat

/-- The bytes around the range and the position of the first of them. -/
def readWindow (row : ResultRow Session) (object : Option (List UInt8))
    (requested span : ℕ) : Except ReadResultOutcome (ℕ × List UInt8) :=
  match row.tier with
  | .sqlite => .ok (0, utf8 (row.content.getD []))
  | .r2 =>
      let base := requested - UTF8_MAX_CONTINUATION
      let limit := min row.size (requested + span + UTF8_MAX_CONTINUATION)
      match (if o.bucket then object else none) with
      | none => .error .notFound
      | some object =>
          match rangeGet object base (max 1 (limit - base)) with
          | none => .error .failed
          | some bytes => .ok (base, bytes)

/-- The chunk of a row that has not expired; `offset` and `length` are the
floors of the arguments. -/
def readChunk (row : ResultRow Session) (object : Option (List UInt8))
    (offset length : ℤ) : ReadResultOutcome :=
  let requested := requestedOffset row.size offset
  let span := requestedSpan row.size requested length
  match readWindow o row object requested span with
  | .error outcome => outcome
  | .ok (base, bytes) =>
      let range := alignUtf8Range bytes base row.size requested
          (min row.size (requested + span))
      .ok
        { tier := row.tier
          size := row.size
          offset := range.start
          length := range.stop - range.start
          text := decodeUtf8
              (subarray bytes (range.start - base) (range.stop - base))
          next := if range.stop < row.size then some range.stop else none }

def read (row : Option (ResultRow Session)) (object : Option (List UInt8))
    (now : ℕ) (offset length : ℤ) : ReadResultOutcome :=
  match row with
  | none => .notFound
  | some row =>
      if row.expiresAt ≤ now then .expired
      else readChunk o row object offset length

end Read

end ResultStore
end QiForge
