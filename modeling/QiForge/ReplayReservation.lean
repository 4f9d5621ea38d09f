import QiForge.OrderedMap
import QiForge.Transition

/-!
# Reserving an invocation against replay

Concurrent `validate` calls that share one invocation store, each from its
reservation on.  The store is the in-memory one; `StoreInterface` says which
of the optional operations it offers, and with `addIfAbsent` missing the calls
fall back to the set of pending CIDs and to `has` and `add`.  An event is one
store operation taking effect or one call continuing after it; verification
answers what it likes.
-/

namespace QiForge

structure MemoryInvocationStore (Cid : Type) where
  store : OrderedMap Cid ℕ
  lastFullSweepAt : Option ℕ
  defaultTtlMs : ℕ
  maxEntries : ℕ

def fullSweepIntervalMs : ℕ := 1000

namespace MemoryInvocationStore

variable {Cid : Type} [DecidableEq Cid]

def isLive (s : MemoryInvocationStore Cid) (cid : Cid) (now : ℕ) :
    Bool × MemoryInvocationStore Cid :=
  match s.store.get? cid with
  | none => (false, s)
  | some expiresAt =>
      if expiresAt < now then
        (false, { s with store := s.store.delete cid })
      else (true, s)

def sweepExpired (s : MemoryInvocationStore Cid) (now : ℕ) :
    MemoryInvocationStore Cid :=
  { s with
    store := s.store.filter fun _ expiresAt => !decide (expiresAt < now) }

/-- Make room at the cap: sweep at most once per interval, then evict the
oldest entries. -/
def makeRoom (s : MemoryInvocationStore Cid) (now : ℕ) :
    MemoryInvocationStore Cid :=
  let due :=
    match s.lastFullSweepAt with
    | none => true
    | some last => decide (last + fullSweepIntervalMs ≤ now)
  let s :=
    if decide (s.maxEntries ≤ s.store.size) && due then
      { s.sweepExpired now with lastFullSweepAt := some now }
    else s
  { s with
    store := s.store.dropOldest (s.store.size + 1 - s.maxEntries) }

def insert (s : MemoryInvocationStore Cid) (cid : Cid)
    (ttlMs : Option ℕ) (now : ℕ) : MemoryInvocationStore Cid :=
  let s := MemoryInvocationStore.makeRoom
      { s with store := s.store.delete cid } now
  { s with store := s.store.set cid (now + ttlMs.getD s.defaultTtlMs) }

def has (s : MemoryInvocationStore Cid) (cid : Cid) (now : ℕ) :
    Bool × MemoryInvocationStore Cid :=
  s.isLive cid now

def add (s : MemoryInvocationStore Cid) (cid : Cid) (ttlMs : Option ℕ)
    (now : ℕ) : MemoryInvocationStore Cid :=
  s.insert cid ttlMs now

def addIfAbsent (s : MemoryInvocationStore Cid) (cid : Cid)
    (ttlMs : Option ℕ) (now : ℕ) : Bool × MemoryInvocationStore Cid :=
  match s.isLive cid now with
  | (true, s) => (false, s)
  | (false, s) => (true, s.insert cid ttlMs now)

def delete (s : MemoryInvocationStore Cid) (cid : Cid) :
    MemoryInvocationStore Cid :=
  { s with store := s.store.delete cid }

def marked (s : MemoryInvocationStore Cid) (cid : Cid) : Bool :=
  s.store.has cid

end MemoryInvocationStore

/-- The optional operations of an invocation store. -/
structure StoreInterface where
  addIfAbsent : Bool
  delete : Bool

inductive ValidatePhase where
  | asking
  | checking
  | checked (used : Bool)
  | verifying
  | committing
  | committed
  | releasing
  | replay
  | accepted
  | failed
deriving DecidableEq, Repr

structure ValidateCall (Cid : Type) where
  cid : Cid
  ttlMs : Option ℕ
  phase : ValidatePhase

structure ReplayGuard (Cid : Type) where
  store : MemoryInvocationStore Cid
  pending : Cid → Bool
  calls : ℕ → Option (ValidateCall Cid)

inductive ReplayEvent (Cid : Type) where
  | validate (id : ℕ) (cid : Cid) (ttlMs : Option ℕ)
  | addIfAbsent (id now : ℕ)
  | has (id now : ℕ)
  | answered (id : ℕ)
  | verified (id : ℕ) (ok : Bool)
  | add (id now : ℕ)
  | added (id : ℕ)
  | delete (id : ℕ)
  | cleanup (now : ℕ)

namespace ReplayGuard

variable {Cid : Type} [DecidableEq Cid]

/-- No call yet; the store may hold marks of earlier ones. -/
def start (store : MemoryInvocationStore Cid) : ReplayGuard Cid where
  store := store
  pending := fun _ => false
  calls := fun _ => none

def setPhase (g : ReplayGuard Cid) (id : ℕ) (call : ValidateCall Cid)
    (phase : ValidatePhase) : ReplayGuard Cid :=
  { g with
    calls := Function.update g.calls id (some { call with phase := phase }) }

def setPending (g : ReplayGuard Cid) (cid : Cid) (value : Bool) :
    ReplayGuard Cid :=
  { g with pending := Function.update g.pending cid value }

/-- `reserveInvocation` up to its first wait. -/
def reserveInvocation (kind : StoreInterface) (g : ReplayGuard Cid) (id : ℕ)
    (call : ValidateCall Cid) : ReplayGuard Cid :=
  if kind.addIfAbsent then g.setPhase id call .asking
  else if g.pending call.cid then g.setPhase id call .replay
  else (g.setPending call.cid true).setPhase id call .checking

/-- Verification has answered: `commit` or `release`. -/
def verified (kind : StoreInterface) (g : ReplayGuard Cid) (id : ℕ)
    (call : ValidateCall Cid) (ok : Bool) : ReplayGuard Cid :=
  match kind.addIfAbsent, ok with
  | true, true => g.setPhase id call .accepted
  | true, false =>
      if kind.delete then g.setPhase id call .releasing
      else g.setPhase id call .failed
  | false, true => g.setPhase id call .committing
  | false, false => (g.setPending call.cid false).setPhase id call .failed

def stepCall (kind : StoreInterface) (g : ReplayGuard Cid) (id : ℕ)
    (call : ValidateCall Cid) :
    ReplayEvent Cid → Option (ReplayGuard Cid)
  | .addIfAbsent _ now =>
      if call.phase = .asking then
        let (placed, store) := g.store.addIfAbsent call.cid call.ttlMs now
        some ({ g with store := store }.setPhase id call
          (if placed then .verifying else .replay))
      else none
  | .has _ now =>
      if call.phase = .checking then
        let (used, store) := g.store.has call.cid now
        some ({ g with store := store }.setPhase id call (.checked used))
      else none
  | .answered _ =>
      match call.phase with
      | .checked true =>
          some ((g.setPending call.cid false).setPhase id call .replay)
      | .checked false => some (g.setPhase id call .verifying)
      | _ => none
  | .verified _ ok =>
      if call.phase = .verifying then some (g.verified kind id call ok)
      else none
  | .add _ now =>
      if call.phase = .committing then
        some ({ g with
          store := g.store.add call.cid call.ttlMs now }.setPhase id call
            .committed)
      else none
  | .added _ =>
      if call.phase = .committed then
        some ((g.setPending call.cid false).setPhase id call .accepted)
      else none
  | .delete _ =>
      if call.phase = .releasing then
        some ({ g with
          store := g.store.delete call.cid }.setPhase id call .failed)
      else none
  | _ => none

def step (kind : StoreInterface) (g : ReplayGuard Cid)
    (e : ReplayEvent Cid) : Option (ReplayGuard Cid) :=
  match e with
  | .validate id cid ttlMs =>
      if (g.calls id).isSome then none
      else some (g.reserveInvocation kind id ⟨cid, ttlMs, .asking⟩)
  | .cleanup now => some { g with store := g.store.sweepExpired now }
  | .addIfAbsent id _ | .has id _ | .answered id | .verified id _
  | .add id _ | .added id | .delete id =>
      (g.calls id).bind fun call => g.stepCall kind id call e

end ReplayGuard
end QiForge
