import QiForge.OrderedMap

/-!
# The user key-value store in memory

Caps and their errors, and the store whose maps keep their entries in the
order of use.  A value is kept as its JSON text; a write is undone in its own
namespace when it is refused, while expired entries it swept elsewhere stay
away.
-/

namespace QiForge

structure UserKvLimits where
  maxValueBytes : ℕ
  maxEntriesPerNamespace : ℕ
  maxTotalEntries : ℕ
  maxTotalBytes : ℕ
deriving DecidableEq, Repr

inductive UserKvLimitKind where
  | value
  | namespaceEntries
  | entries
  | bytes
deriving DecidableEq, Repr

structure UserKvLimitError where
  limit : UserKvLimitKind
  namespaceName : String
  max : ℕ
  actual : ℕ
deriving DecidableEq, Repr

/-- What a call may throw: a refusal, or what the function of an update
threw. -/
inductive UserKvError (E : Type*) where
  | limit (error : UserKvLimitError)
  | thrown (error : E)
deriving DecidableEq, Repr

/-- Values and their JSON text, which survives a parse and is never empty.  It
escapes U+0000. -/
structure UserKvCodec (V : Type*) where
  encode : V → String
  decode : String → V
  survives : ∀ value, encode (decode (encode value)) = encode value
  nonempty : ∀ value, 0 < (encode value).utf8ByteSize

/-- Options of a write; a deadline is in the future and at least one entry is
kept. -/
structure UserKvWriteOptions where
  idleTtlMs : Option ℚ
  maxEntries : Option ℕ
  future : ∀ ttl ∈ idleTtlMs, 0 < ttl
  keeps : ∀ n ∈ maxEntries, 1 ≤ n

structure UserKvUsage where
  namespaceEntries : ℕ
  totalEntries : ℕ
  totalBytes : ℕ
deriving DecidableEq, Repr

structure UserKvGrowth where
  entries : Bool
  bytes : Bool
deriving DecidableEq, Repr

/-- UTF-8 bytes of namespace, key and value. -/
def userKvRowBytes (ns key : String) (valueBytes : ℕ) : ℕ :=
  ns.utf8ByteSize + key.utf8ByteSize + valueBytes

def assertUserKvValueSize (ns json : String) (limits : UserKvLimits) :
    Except UserKvLimitError ℕ :=
  let bytes := json.utf8ByteSize
  if limits.maxValueBytes < bytes then
    .error ⟨.value, ns, limits.maxValueBytes, bytes⟩
  else .ok bytes

/-- The first cap a write breaks, of the measures it grew. -/
def userKvOverflow (ns : String) (usage : UserKvUsage) (grew : UserKvGrowth)
    (limits : UserKvLimits) : Option UserKvLimitError :=
  if grew.entries ∧ limits.maxEntriesPerNamespace < usage.namespaceEntries then
    some ⟨.namespaceEntries, ns, limits.maxEntriesPerNamespace,
      usage.namespaceEntries⟩
  else if grew.entries ∧ limits.maxTotalEntries < usage.totalEntries then
    some ⟨.entries, ns, limits.maxTotalEntries, usage.totalEntries⟩
  else if grew.bytes ∧ limits.maxTotalBytes < usage.totalBytes then
    some ⟨.bytes, ns, limits.maxTotalBytes, usage.totalBytes⟩
  else none

structure KvEntry where
  json : String
  bytes : ℕ
  idleTtlMs : Option ℚ
  expiresAt : Option ℚ
deriving DecidableEq, Repr

namespace KvEntry

def expired (now : ℚ) (entry : KvEntry) : Bool :=
  entry.expiresAt.any fun expiresAt => decide (expiresAt ≤ now)

/-- The entry read at `now`: its idle deadline slides. -/
def refresh (now : ℚ) (entry : KvEntry) : KvEntry :=
  { entry with expiresAt := entry.idleTtlMs.map (now + ·) }

/-- The entry a write at `now` makes. -/
def written (now : ℚ) (ns key json : String) (opts : UserKvWriteOptions) :
    KvEntry where
  json := json
  bytes := userKvRowBytes ns key json.utf8ByteSize
  idleTtlMs := opts.idleTtlMs
  expiresAt := opts.idleTtlMs.map (now + ·)

end KvEntry

/-- A call on a store; the function of an update may throw and may answer
nothing. -/
inductive UserKvOp (V E : Type*) where
  | get (ns key : String)
  | set (ns key : String) (value : V) (opts : UserKvWriteOptions)
  | update (ns key : String) (fn : Option V → Except E (Option V))
      (opts : UserKvWriteOptions)
  | delete (ns key : String)

/-- The namespace and the key of a call. -/
def UserKvOp.names {V E : Type*} : UserKvOp V E → String × String
  | .get ns key | .set ns key _ _ | .update ns key _ _ | .delete ns key =>
      (ns, key)

/-- A call and the time the clock shows while it runs. -/
structure UserKvCall (V E : Type*) where
  now : ℚ
  op : UserKvOp V E

/-- A value, nothing, or an error. -/
abbrev UserKvAnswer (V E : Type*) := Except (UserKvError E) (Option V)

abbrev KvBucket := OrderedMap String KvEntry

/-- `namespaces` of the store in memory. -/
abbrev MemoryKv := OrderedMap String KvBucket

namespace KvBucket

/-- The live entry, refreshed and marked most recently used. -/
def touch (now : ℚ) (key : String) (entries : KvBucket) :
    Option KvEntry × KvBucket :=
  match entries.get? key with
  | none => (none, entries)
  | some entry =>
      if entry.expired now then (none, entries.delete key)
      else
        (some (entry.refresh now), entries.push key (entry.refresh now))

def dropExpired (now : ℚ) (entries : KvBucket) : KvBucket :=
  entries.filter fun _ entry => !entry.expired now

/-- The write's own trim: expired entries, then the oldest. -/
def trim (now : ℚ) (maxEntries : Option ℕ) (entries : KvBucket) : KvBucket :=
  match maxEntries with
  | none => entries
  | some maxEntries =>
      let entries := dropExpired now entries
      entries.dropOldest (entries.size - maxEntries)

end KvBucket

namespace MemoryKv

variable {V E : Type*}

def bucket (m : MemoryKv) (ns : String) : KvBucket :=
  (m.get? ns).getD OrderedMap.empty

def usage (m : MemoryKv) (ns : String) : UserKvUsage where
  namespaceEntries := (bucket m ns).size
  totalEntries := (m.entries.map fun entry => entry.2.size).sum
  totalBytes := (m.entries.map fun entry =>
    (entry.2.entries.map fun e => e.2.bytes).sum).sum

/-- How many expired entries there are, and the store without them. -/
def sweepExpired (m : MemoryKv) (now : ℚ) : ℕ × MemoryKv :=
  ((m.entries.map fun entry =>
      entry.2.entries.countP fun e => e.2.expired now).sum,
    m.mapValues fun _ entries => KvBucket.dropExpired now entries)

def atomically {α ε : Type*} (m : MemoryKv) (ns : String)
    (body : MemoryKv → Except ε α × MemoryKv) : Except ε α × MemoryKv :=
  match body m with
  | (.ok value, m') => (.ok value, m')
  | (.error error, m') => (.error error, m'.set ns (bucket m ns))

/-- The caps after a write, swept once before it is refused. -/
def enforce (limits : UserKvLimits) (now : ℚ) (ns : String)
    (grew : UserKvGrowth) (m : MemoryKv) :
    Except UserKvLimitError Unit × MemoryKv :=
  if !grew.entries && !grew.bytes then (.ok (), m)
  else
    match userKvOverflow ns (usage m ns) grew limits with
    | none => (.ok (), m)
    | some overflow =>
        let (swept, m) := sweepExpired m now
        if 0 < swept then
          match userKvOverflow ns (usage m ns) grew limits with
          | none => (.ok (), m)
          | some overflow => (.error overflow, m)
        else (.error overflow, m)

def write (limits : UserKvLimits) (now : ℚ) (ns key : String)
    (json : Option String) (opts : UserKvWriteOptions) (m : MemoryKv) :
    Except UserKvLimitError Unit × MemoryKv :=
  let previous := ((bucket m ns).get? key).filter fun entry =>
    !entry.expired now
  let entries := (bucket m ns).delete key
  match json with
  | none => (.ok (), m.set ns (KvBucket.trim now opts.maxEntries entries))
  | some json =>
      match assertUserKvValueSize ns json limits with
      | .error error => (.error error, m.set ns entries)
      | .ok valueBytes =>
          let bytes := userKvRowBytes ns key valueBytes
          let entries := entries.push key
            { json := json
              bytes := bytes
              idleTtlMs := opts.idleTtlMs
              expiresAt := opts.idleTtlMs.map (now + ·) }
          enforce limits now ns
            { entries := previous.isNone
              bytes := decide ((previous.map KvEntry.bytes).getD 0 < bytes) }
            (m.set ns (KvBucket.trim now opts.maxEntries entries))

def updateBody (codec : UserKvCodec V) (limits : UserKvLimits) (now : ℚ)
    (ns key : String) (fn : Option V → Except E (Option V))
    (opts : UserKvWriteOptions) (m : MemoryKv) :
    Except (UserKvError E) (Option String) × MemoryKv :=
  let (entry, entries) := KvBucket.touch now key (bucket m ns)
  let m := m.set ns entries
  match fn (entry.map fun entry => codec.decode entry.json) with
  | .error error => (.error (.thrown error), m)
  | .ok next =>
      let encoded := next.map codec.encode
      match write limits now ns key encoded opts m with
      | (.error error, m) => (.error (.limit error), m)
      | (.ok _, m) => (.ok encoded, m)

def call (codec : UserKvCodec V) (limits : UserKvLimits) (m : MemoryKv)
    (c : UserKvCall V E) : UserKvAnswer V E × MemoryKv :=
  match c.op with
  | .get ns key =>
      let (entry, entries) := KvBucket.touch c.now key (bucket m ns)
      (.ok (entry.map fun entry => codec.decode entry.json), m.set ns entries)
  | .set ns key value opts =>
      match atomically m ns
          (write limits c.now ns key (some (codec.encode value)) opts) with
      | (.error error, m) => (.error (.limit error), m)
      | (.ok _, m) => (.ok none, m)
  | .update ns key fn opts =>
      match atomically m ns (updateBody codec limits c.now ns key fn opts) with
      | (.error error, m) => (.error error, m)
      | (.ok json, m) => (.ok (json.map codec.decode), m)
  | .delete ns key => (.ok none, m.set ns ((bucket m ns).delete key))

def empty : MemoryKv := OrderedMap.empty

end MemoryKv

end QiForge
