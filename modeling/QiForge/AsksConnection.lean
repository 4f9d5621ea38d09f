import QiForge.OrderedMap
import QiForge.Transition

/-!
# The asks connection

One person's pending sign-in, token pair and upload addresses.  `complete`,
`token`, `refused` and `disconnect` run one at a time; `begin`, `keepUpload`
and the reads run beside them.  An event is one storage, crypto or network
call that lands, so any other event may come between two awaits of a call.
What is sealed is read back as it was written.

`actsFor` is the account asks gives a pair to: it names that account when it
is asked, a refresh gives a pair of the same account, and it never gives a
refresh token again that it has replaced.  The random part of a state does not
repeat.  `history` has what happened, newest first.
-/

namespace QiForge

inductive AsksSurface where
  | whatsapp
  | chat
deriving DecidableEq

structure AsksPending where
  state : String
  verifier : String
  surface : AsksSurface
  did : String
  expiresAt : ℤ
deriving DecidableEq

structure AsksTokens where
  access : String
  refresh : String
  expiresAt : ℤ
deriving DecidableEq

structure AsksStored where
  tokens : AsksTokens
  account : Option String
deriving DecidableEq

structure AsksUpload where
  address : String
  expiresAt : ℤ
deriving DecidableEq

inductive TokenAnswer where
  | ok (tokens : AsksTokens)
  | ended
  | lost
deriving DecidableEq

inductive AccountRead where
  | ok (address : String)
  | refused
  | unreachable
deriving DecidableEq

inductive AsksReason where
  | unknown
  | expired
deriving DecidableEq

/-- Why a connection is dropped. -/
inductive AsksEnd where
  | refresh
  | refused (access : String)
  | disconnect
deriving DecidableEq

inductive AsksAct where
  | issued (pending : AsksPending)
  | taken (state : String)
  | exchanged (pending : AsksPending) (code : String) (now : ℤ)
  | signedIn (did : String)
  | sent (refresh : String)
  | paired (refresh : String)
  | handed (access : String) (stored : Option AsksStored)
  | denied (access : String)
  | dropping (reason : AsksEnd) (stored : Option AsksStored)
  | ended
  | keeping (draft : String) (upload : AsksUpload)
  | kept (draft : String) (upload : AsksUpload)
deriving DecidableEq

/-- Where the call that holds the queue waits. -/
inductive AsksWork where
  | complete (state code : String)
  | pendingRead (state code : String) (read : Option AsksPending)
  | forgetting (pending : AsksPending) (code : String)
  | exchange (pending : AsksPending) (code : String)
  | exchanging (pending : AsksPending)
  | account (pending : AsksPending) (tokens : AsksTokens)
  | revoking
  | keeping (pending : AsksPending) (tokens : AsksTokens) (account : String)
  | token
  | tokensRead (read : Option AsksStored)
  | refresh (held : AsksStored) (retry : Bool)
  | refreshing (held : AsksStored) (retry : Bool)
  | rotating (held : AsksStored) (tokens : AsksTokens)
  | refused (access : String)
  | refusedRead (access : String) (read : Option AsksStored)
  | checking (held : AsksStored)
  | disconnect
  | disconnectRead (read : Option AsksStored)
  | ending (reason : AsksEnd) (held : AsksStored)
  | drop (tokens uploads : Bool)

/-- A `keepUpload` between its read and its put; `stale` once the connection
has ended. -/
structure AsksKeep where
  draft : String
  upload : AsksUpload
  now : ℤ
  read : OrderedMap String AsksUpload
  stale : Bool

structure AsksConnection where
  now : ℤ
  pending : Option AsksPending
  tokens : Option AsksStored
  uploads : OrderedMap String AsksUpload
  work : Option AsksWork
  keeps : List (ℕ × AsksKeep)
  history : List AsksAct

inductive AsksEvent where
  | tick (now : ℤ)
  | begin (pending : AsksPending)
  | complete (state code : String)
  | token
  | refused (access : String)
  | disconnect
  /-- the storage or crypto call of the queue's call lands -/
  | land
  | answer (answer : TokenAnswer)
  | account (read : AccountRead)
  | dropTokens
  | dropUploads
  | keepUpload (call : ℕ) (draft : String) (upload : AsksUpload) (now : ℤ)
  | putUpload (call : ℕ)

def refreshEarlyMs : ℤ := 2 * 60000

/-- The account a `did:ixo:<ixo1…>` DID names. -/
def addressOfDid (did : String) : Option String :=
  match "did:ixo:".toList.isPrefixOf? did.toList with
  | none => none
  | some address =>
      match "ixo1".toList.isPrefixOf? address with
      | none => none
      | some name =>
          if 20 ≤ name.length ∧ name.length ≤ 90 ∧ name.all fun c =>
              ('0' ≤ c && c ≤ '9') || ('a' ≤ c && c ≤ 'z') then
            some (String.ofList address)
          else none

/-- `pendingFor`, of the record that was read. -/
def pendingFor (read : Option AsksPending) (now : ℤ) (state : String) :
    Except AsksReason AsksPending :=
  match read with
  | none => .error .unknown
  | some pending =>
      if pending.state ≠ state then .error .unknown
      else if now < pending.expiresAt then .ok pending
      else .error .expired

namespace AsksKeep

/-- The record `keepUpload` writes: what it read, less what had expired. -/
def written (keep : AsksKeep) : OrderedMap String AsksUpload :=
  (keep.read.filter fun _ one => decide (keep.now < one.expiresAt)).set
    keep.draft keep.upload

end AsksKeep

namespace AsksConnection

def start (now : ℤ) : AsksConnection := ⟨now, none, none, .empty, none, [], []⟩

def log (s : AsksConnection) (act : AsksAct) : AsksConnection :=
  { s with history := act :: s.history }

def wait (s : AsksConnection) (work : AsksWork) : AsksConnection :=
  { s with work := some work }

/-- The call has returned; the next one may run. -/
def done (s : AsksConnection) : AsksConnection := { s with work := none }

def uploadOf (s : AsksConnection) (draft : String) : Option String :=
  match s.uploads.get? draft with
  | none => none
  | some one => if s.now < one.expiresAt then some one.address else none

def enter (s : AsksConnection) (work : AsksWork) : Option AsksConnection :=
  match s.work with
  | none => some (s.wait work)
  | some _ => none

def handOut (s : AsksConnection) (access : String) : AsksConnection :=
  (s.log (.handed access s.tokens)).done

def startDrop (s : AsksConnection) (reason : AsksEnd) : AsksConnection :=
  (s.log (.dropping reason s.tokens)).wait (.drop true true)

def land (s : AsksConnection) : AsksWork → Option AsksConnection
  | .complete state code => some (s.wait (.pendingRead state code s.pending))
  | .pendingRead state code read =>
      match pendingFor read s.now state with
      | .error _ => some s.done
      | .ok pending => some (s.wait (.forgetting pending code))
  | .forgetting pending code =>
      some (({ s with pending := none }.log (.taken pending.state)).wait
        (.exchange pending code))
  | .exchange pending code =>
      some ((s.log (.exchanged pending code s.now)).wait (.exchanging pending))
  | .revoking => some s.done
  | .keeping pending tokens account =>
      some ({ s with tokens := some ⟨tokens, some account⟩ }.log
        (.signedIn pending.did)).done
  | .token => some (s.wait (.tokensRead s.tokens))
  | .tokensRead none => some s.done
  | .tokensRead (some held) =>
      if refreshEarlyMs < held.tokens.expiresAt - s.now then
        some (s.handOut held.tokens.access)
      else some (s.wait (.refresh held true))
  | .refresh held retry =>
      some ((s.log (.sent held.tokens.refresh)).wait (.refreshing held retry))
  | .rotating held tokens =>
      some ({ s with tokens := some ⟨tokens, held.account⟩ }.handOut
        tokens.access)
  | .refused access => some (s.wait (.refusedRead access s.tokens))
  | .refusedRead _ none => some s.done
  | .refusedRead access (some held) =>
      if held.tokens.access ≠ access then some s.done
      else some (s.wait (.checking held))
  | .disconnect => some (s.wait (.disconnectRead s.tokens))
  | .disconnectRead none => some (s.startDrop .disconnect)
  | .disconnectRead (some held) => some (s.wait (.ending .disconnect held))
  | .ending reason _ => some (s.startDrop reason)
  | .exchanging _ | .account _ _ | .refreshing _ _ | .checking _
  | .drop _ _ => none

/-- The answer of the token endpoint. -/
def answered (actsFor : AsksTokens → String) (s : AsksConnection)
    (answer : TokenAnswer) : AsksWork → Option AsksConnection
  | .exchanging pending =>
      match answer with
      | .ok tokens =>
          if AsksAct.paired tokens.refresh ∈ s.history then none
          else some (s.wait (.account pending tokens))
      | .ended | .lost => some s.done
  | .refreshing held retry =>
      match answer with
      | .ok tokens =>
          let s := s.log (.paired held.tokens.refresh)
          if AsksAct.paired tokens.refresh ∈ s.history ∨
              actsFor tokens ≠ actsFor held.tokens then none
          else some (s.wait (.rotating held tokens))
      | .ended => some (s.startDrop .refresh)
      | .lost =>
          if retry then some (s.wait (.refresh held false))
          else if s.now < held.tokens.expiresAt then
            some (s.handOut held.tokens.access)
          else some s.done
  | _ => none

/-- The account an access token acts for, as asks answers it. -/
def accountRead (actsFor : AsksTokens → String) (s : AsksConnection)
    (read : AccountRead) : AsksWork → Option AsksConnection
  | .account pending tokens =>
      match read with
      | .ok address =>
          if address ≠ actsFor tokens then none
          else if addressOfDid pending.did ≠ some address then
            some (s.wait .revoking)
          else some (s.wait (.keeping pending tokens address))
      | .refused | .unreachable => some (s.wait .revoking)
  | .checking held =>
      match read with
      | .refused =>
          some ((s.log (.denied held.tokens.access)).wait
            (.ending (.refused held.tokens.access) held))
      | .ok _ | .unreachable => some s.done
  | _ => none

/-- Both deletes of a drop have landed. -/
def dropped (s : AsksConnection) : AsksConnection :=
  let keeps := s.keeps.map fun call =>
    (call.1, { call.2 with stale := true })
  ({ s with keeps := keeps }.log .ended).done

def keepOf (s : AsksConnection) (call : ℕ) : Option AsksKeep :=
  (s.keeps.find? fun entry => decide (entry.1 = call)).map Prod.snd

def step (actsFor : AsksTokens → String) (s : AsksConnection) :
    AsksEvent → Option AsksConnection
  | .tick now => if s.now ≤ now then some { s with now := now } else none
  | .begin pending =>
      if s.history.any fun act =>
          match act with
          | .issued other => decide (other.state = pending.state)
          | _ => false then none
      else some ({ s with pending := some pending }.log (.issued pending))
  | .complete state code => s.enter (.complete state code)
  | .token => s.enter .token
  | .refused access => s.enter (.refused access)
  | .disconnect => s.enter .disconnect
  | .land => s.work.bind s.land
  | .answer answer => s.work.bind (s.answered actsFor answer)
  | .account read => s.work.bind (s.accountRead actsFor read)
  | .dropTokens =>
      match s.work with
      | some (.drop true uploads) =>
          let s := { s with tokens := none }
          some (if uploads then s.wait (.drop false true) else s.dropped)
      | _ => none
  | .dropUploads =>
      match s.work with
      | some (.drop tokens true) =>
          let s := { s with uploads := .empty }
          some (if tokens then s.wait (.drop true false) else s.dropped)
      | _ => none
  | .keepUpload call draft upload now =>
      if s.now < now ∨ (s.keepOf call).isSome then none
      else
        some ({ s with keeps := (call, ⟨draft, upload, now, s.uploads,
          false⟩) :: s.keeps }.log (.keeping draft upload))
  | .putUpload call =>
      match s.keepOf call with
      | none => none
      | some keep =>
          some ({ s with
            uploads := keep.written
            keeps := s.keeps.filter fun entry => decide (entry.1 ≠ call)
            }.log (.kept keep.draft keep.upload))

end AsksConnection

end QiForge
