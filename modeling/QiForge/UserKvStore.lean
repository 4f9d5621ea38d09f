import QiForge.SqliteText
import QiForge.UserKv

/-!
# The user key-value store in SQLite

The table `user_kv`, where `touched_seq` keeps the order of use, and the calls
as transactions: one that throws leaves the table as it was.  The order of the
list that holds the rows is not the table's; a statement that writes a row
puts it last.
-/

namespace QiForge

structure KvRow extends KvEntry where
  touchedSeq : ℕ
deriving DecidableEq, Repr

/-- The rows by namespace and key. -/
abbrev UserKvTable := OrderedMap (String × String) KvRow

namespace UserKvTable

/-- A name as a statement is given it. -/
def bindName (name : String) : String := String.ofList (bindText name.toList)

theorem bindName_eq {name : String} (h : nul ∉ name.toList) :
    bindName name = name := by
  unfold bindName
  rw [bindText_eq_self.mpr h, String.ofList_toList]

/-! The statements are modelled with their names as they were bound. -/

variable {V E : Type*}

/-- `NEXT_SEQ` -/
def nextSeq (t : UserKvTable) : ℕ :=
  (t.entries.map fun row => row.2.touchedSeq).foldl max 0 + 1

/-- Writes the row of a namespace and key, most recently used. -/
def upsert (ns key : String) (entry : KvEntry) (t : UserKvTable) :
    UserKvTable :=
  t.push (ns, key) { entry with touchedSeq := nextSeq t }

def touch (now : ℚ) (ns key : String) (t : UserKvTable) :
    Option String × UserKvTable :=
  match t.get? (ns, key) with
  | none => (none, t)
  | some row =>
      if row.expired now then (none, t.delete (ns, key))
      else (some row.json, upsert ns key (row.refresh now) t)

/-- Rows of the namespace and rows and bytes of the store, expired rows
included. -/
def usage (t : UserKvTable) (ns : String) : UserKvUsage where
  namespaceEntries := t.entries.countP fun row => decide (row.1.1 = ns)
  totalEntries := t.entries.length
  totalBytes := (t.entries.map fun row => row.2.bytes).sum

/-- The keys of the namespace beyond the `maxEntries` used last. -/
def overdue (t : UserKvTable) (ns : String) (maxEntries : ℕ) : List String :=
  (((t.entries.filter fun row => decide (row.1.1 = ns)).insertionSort
      fun a b => b.2.touchedSeq ≤ a.2.touchedSeq).drop maxEntries).map
    fun row => row.1.2

def trim (now : ℚ) (ns : String) (maxEntries : ℕ) (t : UserKvTable) :
    UserKvTable :=
  let t := t.filter fun k row => !(decide (k.1 = ns) && row.expired now)
  let keys := overdue t ns maxEntries
  t.filter fun k _ => !(decide (k.1 = ns) && decide (k.2 ∈ keys))

def trimTo (now : ℚ) (ns : String) (maxEntries : Option ℕ)
    (t : UserKvTable) : UserKvTable :=
  match maxEntries with
  | none => t
  | some maxEntries => trim now ns maxEntries t

/-- How many rows are expired, and the table without them. -/
def sweepExpired (t : UserKvTable) (now : ℚ) : ℕ × UserKvTable :=
  (t.entries.countP fun row => row.2.expired now,
    t.filter fun _ row => !row.expired now)

def enforceCaps (limits : UserKvLimits) (now : ℚ) (ns : String)
    (grew : UserKvGrowth) (t : UserKvTable) :
    Except UserKvLimitError UserKvTable :=
  if !grew.entries && !grew.bytes then .ok t
  else
    match userKvOverflow ns (usage t (bindName ns)) grew limits with
    | none => .ok t
    | some overflow =>
        let (swept, t) := sweepExpired t now
        if 0 < swept then
          match userKvOverflow ns (usage t (bindName ns)) grew limits with
          | none => .ok t
          | some overflow => .error overflow
        else .error overflow

/-- The body of the transaction of an update. -/
def updateBody (codec : UserKvCodec V) (limits : UserKvLimits) (now : ℚ)
    (ns key : String) (fn : Option V → Except E (Option V))
    (opts : UserKvWriteOptions) (t : UserKvTable) :
    Except (UserKvError E) (Option V × UserKvTable) :=
  let (current, t) := touch now (bindName ns) (bindName key) t
  match fn (current.map codec.decode) with
  | .error error => .error (.thrown error)
  | .ok none =>
      .ok (none, trimTo now (bindName ns) opts.maxEntries
        (t.delete (bindName ns, bindName key)))
  | .ok (some next) =>
      let json := codec.encode next
      match assertUserKvValueSize ns json limits with
      | .error error => .error (.limit error)
      | .ok valueBytes =>
          let t := upsert (bindName ns) (bindName key)
            { json := json
              bytes := userKvRowBytes ns key valueBytes
              idleTtlMs := opts.idleTtlMs
              expiresAt := opts.idleTtlMs.map (now + ·) } t
          match enforceCaps limits now ns
              { entries := current.isNone
                bytes := decide ((current.map String.utf8ByteSize).getD 0 <
                  valueBytes) }
              (trimTo now (bindName ns) opts.maxEntries t) with
          | .error error => .error (.limit error)
          | .ok t => .ok (some (codec.decode json), t)

/-- A transaction: rolled back when its body throws. -/
def transaction {α ε : Type*} (t : UserKvTable)
    (body : UserKvTable → Except ε (α × UserKvTable)) :
    Except ε α × UserKvTable :=
  match body t with
  | .ok (value, t') => (.ok value, t')
  | .error error => (.error error, t)

def update (codec : UserKvCodec V) (limits : UserKvLimits) (now : ℚ)
    (ns key : String) (fn : Option V → Except E (Option V))
    (opts : UserKvWriteOptions) (t : UserKvTable) :
    UserKvAnswer V E × UserKvTable :=
  transaction t (updateBody codec limits now ns key fn opts)

def call (codec : UserKvCodec V) (limits : UserKvLimits) (t : UserKvTable)
    (c : UserKvCall V E) : UserKvAnswer V E × UserKvTable :=
  match c.op with
  | .get ns key =>
      let (json, t) := touch c.now (bindName ns) (bindName key) t
      (.ok (json.map codec.decode), t)
  | .set ns key value opts =>
      let json := codec.encode value
      match update codec limits c.now ns key
          (fun _ => .ok (some (codec.decode json))) opts t with
      | (.error error, t) => (.error error, t)
      | (.ok _, t) => (.ok none, t)
  | .update ns key fn opts => update codec limits c.now ns key fn opts t
  | .delete ns key =>
      (.ok none, t.delete (bindName ns, bindName key))

def empty : UserKvTable := OrderedMap.empty

end UserKvTable

end QiForge
