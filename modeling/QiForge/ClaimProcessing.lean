import QiForge.CreditBalance

/-!
# Settling held credits on the chain

A tick lists a user with a held amount, splits it by the ceiling of the
pricing list and runs the four tasks of the claim workflow for each amount,
each on a thread named by the pending claim's id.  Every command may fail
before or after it took effect, and the tick gives the user up then.
-/

namespace QiForge

def isStrWhiteSpace (c : Char) : Bool :=
  c.isWhitespace || decide (c.toNat ∈ [0x0b, 0x0c, 0xa0, 0x1680, 0x2028,
    0x2029, 0x202f, 0x205f, 0x3000, 0xfeff]) ||
    decide (0x2000 ≤ c.toNat ∧ c.toNat ≤ 0x200a)

/-- `Number.parseInt(text, 10)`, `none` for not a number. -/
def parseDecimal (text : String) : Option ℤ :=
  let value (digits : List Char) : Option ℤ :=
    match digits.takeWhile Char.isDigit with
    | [] => none
    | digits => some (digits.foldl
        (fun value digit => value * 10 + (digit.toNat - '0'.toNat : ℕ)) 0)
  match text.toList.dropWhile isStrWhiteSpace with
  | '-' :: rest => (value rest).map Int.neg
  | '+' :: rest => value rest
  | rest => value rest

structure OraclePrice where
  amount : String
  denom : String
deriving DecidableEq, Repr

structure ClaimSubscription where
  oracleClaimsCollectionId : Option String
  totalCredits : ℤ
deriving DecidableEq, Repr

structure PendingClaim where
  claimId : String
  amount : ℤ
deriving DecidableEq, Repr

structure ClaimProcessingConfig where
  denom : String
  minimumClaimThreshold : ℕ
  generateClaimId : String → ℕ → String

/-- The loop of `calculateSplits`, `none` when the fuel runs out. -/
def calculateSplitsLoop (maxAmount : ℤ) : ℕ → ℤ → Option (List ℤ)
  | 0, remaining => if 0 < remaining then none else some []
  | fuel + 1, remaining =>
      if 0 < remaining then
        let chunk := min remaining maxAmount
        (calculateSplitsLoop maxAmount fuel (remaining - chunk)).map
          (chunk :: ·)
      else some []

/-- `calculateSplits`; a ceiling that is not a number gives one chunk that is
not a number either. -/
def calculateSplits (fuel : ℕ) (heldAmount : ℤ) (maxAmount : Option ℤ) :
    Option (List (Option ℤ)) :=
  match maxAmount with
  | none => if 0 < heldAmount then some [none] else some []
  | some maxAmount =>
      if heldAmount ≤ maxAmount then some [some heldAmount]
      else (calculateSplitsLoop maxAmount fuel heldAmount).map
        (List.map some)

/-- What the tick does with a user it listed. -/
inductive UserEvaluation where
  | skip
  | error
  | full
  | split (splits : List ℤ)
deriving DecidableEq, Repr

def evaluateUser (cfg : ClaimProcessingConfig) (fuel : ℕ) (heldAmount : ℤ)
    (subscription : Option ClaimSubscription)
    (pricingList : List OraclePrice) : Option UserEvaluation :=
  if heldAmount < cfg.minimumClaimThreshold then some .skip
  else
    match subscription with
    | none => some .skip
    | some subscription =>
        if subscription.oracleClaimsCollectionId.getD "" = "" then some .skip
        else if subscription.totalCredits < heldAmount then some .skip
        else
          match (pricingList.find? fun item => item.denom = cfg.denom).map
              OraclePrice.amount with
          | none => some .error
          | some maxAllowedClaimAmount =>
              if maxAllowedClaimAmount = "" then some .error
              else
                (calculateSplits fuel heldAmount
                  (parseDecimal maxAllowedClaimAmount)).map fun splits =>
                    if 1 < splits.length then .split (splits.filterMap id)
                    else .full

/-- What a thread of the workflow has finished. -/
inductive WorkflowProgress where
  | begun
  | intentSubmitted
  | saved (cid : String)
  | submitted (cid : String)
  | sent (cid : String)
deriving DecidableEq, Repr

namespace WorkflowProgress

def cid? : WorkflowProgress → Option String
  | .begun => none
  | .intentSubmitted => none
  | .saved cid => some cid
  | .submitted cid => some cid
  | .sent cid => some cid

/-- The claim the thread knows to be accepted. -/
def submitted? : WorkflowProgress → Option String
  | .submitted cid => some cid
  | .sent cid => some cid
  | _ => none

def tasksLeft : WorkflowProgress → ℕ
  | .begun => 4
  | .intentSubmitted => 3
  | .saved _ => 2
  | .submitted _ => 1
  | .sent _ => 0

end WorkflowProgress

inductive TickPhase where
  | listed
  | begin
  | setPendingClaim
  | getPendingClaim (claimId : String)
  | updatePendingClaim (claimId : String) (pending : PendingClaim)
  | invoke (claimId : String)
  | task (threadId : String) (progress : WorkflowProgress) (attempts : ℕ)
  | clearPendingClaim (cid : String)
  | takeOut (cid : String)
deriving DecidableEq, Repr

/-- A tick at one user: the amounts still to be claimed, the current one
first, its index when the held amount was split, and what was charged when
the user was listed. -/
structure ClaimTick where
  amounts : List ℤ
  split : Option ℕ
  phase : TickPhase
  chargedAtList : ℤ
deriving DecidableEq, Repr

/-- A claim on the chain; `completed` when its workflow returned. -/
structure AcceptedClaim where
  cid : String
  amount : ℤ
  completed : Bool
deriving DecidableEq, Repr

/-- One user in Redis, in the checkpoints and on the chain, where the accepted
claims are those not yet taken out of the held amount and those taken out. -/
structure UserClaims where
  heldAmount : ℤ
  pendingClaim : Option PendingClaim
  threads : String → WorkflowProgress
  intent : Option ℤ
  unsettled : List AcceptedClaim
  settled : List AcceptedClaim
  ticks : List ClaimTick
  charged : ℤ

inductive TickEvent where
  | evaluate (subscription : Option ClaimSubscription)
      (pricingList : List OraclePrice)
  | redis
  | createPendingClaim (batchStartTime : ℕ)
  | invoke
  | submitIntent
  | saveToMatrix (cid : String)
  | submitToChain
  | sendToSubsApi
deriving DecidableEq, Repr

inductive CommandOutcome where
  | ok
  | failed (tookEffect retried : Bool)
deriving DecidableEq, Repr

inductive SettlementEvent where
  | limit (balance credits : ℤ)
  | lapse
  | list
  | tick (index : ℕ) (event : TickEvent) (outcome : CommandOutcome)
deriving DecidableEq, Repr

/-- A command of a tick: the user with its effect; on success, what the user
and the tick are then; and the tick that tries it again. -/
structure TickCommand where
  effect : UserClaims
  success : Option (UserClaims × Option ClaimTick)
  retry : Option ClaimTick

namespace ClaimTick

def amount (t : ClaimTick) : ℤ := t.amounts.headD 0

def workflowThread (did claimId : String) (t : ClaimTick) : String :=
  match t.split with
  | none => did ++ ":" ++ claimId
  | some index => did ++ ":" ++ claimId ++ ":split" ++ toString index

def toPhase (t : ClaimTick) (phase : TickPhase) : ClaimTick :=
  { t with phase := phase }

/-- The tick after the current amount. -/
def next (t : ClaimTick) : Option ClaimTick :=
  match t.amounts.tail with
  | [] => none
  | amounts =>
      some { t with
        amounts := amounts
        split := t.split.map (· + 1)
        phase := .begin }

/-- The attempt after one that failed: three at most. -/
def retry (t : ClaimTick) (threadId : String)
    (progress : WorkflowProgress) (attempts : ℕ) : Option ClaimTick :=
  if attempts + 1 < 3 then
    some (t.toPhase (.task threadId progress (attempts + 1)))
  else none

end ClaimTick

namespace UserClaims

def start : UserClaims where
  heldAmount := 0
  pendingClaim := none
  threads := fun _ => .begun
  intent := none
  unsettled := []
  settled := []
  ticks := []
  charged := 0

def accepted (u : UserClaims) : List AcceptedClaim := u.settled ++ u.unsettled

/-- The chain accepts a claim, with the intent of its collection. -/
def accept (u : UserClaims) (cid : String) (amount : ℤ) : UserClaims :=
  { u with
    intent := none
    unsettled := u.unsettled ++ [⟨cid, amount, false⟩] }

/-- The workflow of a claim returns. -/
def complete (u : UserClaims) (cid : String) : UserClaims := { u with
    unsettled := u.unsettled.map fun claim =>
      if claim.cid = cid then { claim with completed := true } else claim }

/-- Takes the claim's amount out of the held amount, or drops all of it for
a claim that was not split. -/
def takeOut (u : UserClaims) (t : ClaimTick) (cid : String) : UserClaims :=
  { u with
    heldAmount := if t.split.isSome then u.heldAmount - t.amount else 0
    unsettled := u.unsettled.filter fun claim => claim.cid ≠ cid
    settled := u.settled ++ u.unsettled.filter fun claim =>
      claim.cid = cid }

/-- A task of the workflow finished: its checkpoint, and the tick after it. -/
def finishTask (u : UserClaims) (t : ClaimTick) (threadId : String)
    (progress : WorkflowProgress) : UserClaims × Option ClaimTick :=
  let u := { u with
    threads := Function.update u.threads threadId progress }
  match progress with
  | .sent cid => (u.complete cid, some (t.toPhase (.clearPendingClaim cid)))
  | progress => (u, some (t.toPhase (.task threadId progress 0)))

/-- A Redis command, which is not tried again. -/
def redisCommand (u : UserClaims) (t : Option ClaimTick) : TickCommand :=
  ⟨u, some (u, t), none⟩

def redis (u : UserClaims) (t : ClaimTick) : Option TickCommand :=
  match t.phase with
  | .begin =>
      if t.amount ≤ 0 then some (u.redisCommand none)
      else
        match u.pendingClaim with
        | none => some (u.redisCommand (some (t.toPhase .setPendingClaim)))
        | some pending =>
            if pending.amount ≠ t.amount then
              some (u.redisCommand (some (t.toPhase
                (.getPendingClaim pending.claimId))))
            else
              some (u.redisCommand (some (t.toPhase (.invoke pending.claimId))))
  | .getPendingClaim claimId =>
      match u.pendingClaim with
      | none => some (u.redisCommand (some (t.toPhase (.invoke claimId))))
      | some pending =>
          some (u.redisCommand (some (t.toPhase
            (.updatePendingClaim claimId pending))))
  | .updatePendingClaim claimId pending =>
      some (({ u with
          pendingClaim := some ⟨pending.claimId, t.amount⟩ }).redisCommand
        (some (t.toPhase (.invoke claimId))))
  | .clearPendingClaim cid =>
      some (({ u with pendingClaim := none }).redisCommand
        (some (t.toPhase (.takeOut cid))))
  | .takeOut cid => some ((u.takeOut t cid).redisCommand t.next)
  | _ => none

/-- A command of the tick, `none` when it is not its turn or never ends. -/
def command (cfg : ClaimProcessingConfig) (did : String) (u : UserClaims)
    (t : ClaimTick) : TickEvent → Option TickCommand
  | .evaluate subscription pricingList =>
      if t.phase = .listed then
        (evaluateUser cfg t.amount.toNat t.amount subscription
          pricingList).map fun
          | .skip => u.redisCommand none
          | .error => u.redisCommand none
          | .full => u.redisCommand (some (t.toPhase .begin))
          | .split splits => u.redisCommand (some { t with
              amounts := splits
              split := some 1
              phase := .begin })
      else none
  | .redis => u.redis t
  | .createPendingClaim batchStartTime =>
      if t.phase = .setPendingClaim then
        let claimId := cfg.generateClaimId did batchStartTime
        some (({ u with
            pendingClaim := some ⟨claimId, t.amount⟩ }).redisCommand
          (some (t.toPhase (.invoke claimId))))
      else none
  | .invoke =>
      match t.phase with
      | .invoke claimId =>
          let threadId := t.workflowThread did claimId
          match u.threads threadId with
          | .sent cid => some ((u.complete cid).redisCommand
              (some (t.toPhase (.clearPendingClaim cid))))
          | progress => some (u.redisCommand
              (some (t.toPhase (.task threadId progress 0))))
      | _ => none
  | .submitIntent =>
      match t.phase with
      | .task threadId .begun attempts =>
          let paid := if u.intent.isSome then u
            else { u with intent := some t.amount }
          some ⟨paid, some (paid.finishTask t threadId .intentSubmitted),
            t.retry threadId .begun attempts⟩
      | _ => none
  | .saveToMatrix cid =>
      match t.phase with
      | .task threadId .intentSubmitted attempts =>
          some ⟨u, some (u.finishTask t threadId (.saved cid)),
            t.retry threadId .intentSubmitted attempts⟩
      | _ => none
  | .submitToChain =>
      match t.phase with
      | .task threadId (.saved cid) attempts =>
          -- the chain refuses a claim it has accepted
          if cid ∈ u.accepted.map AcceptedClaim.cid then
            some ⟨u, none, t.retry threadId (.saved cid) attempts⟩
          else
            let accepted := u.accept cid t.amount
            some ⟨accepted,
              some (accepted.finishTask t threadId (.submitted cid)),
              t.retry threadId (.saved cid) attempts⟩
      | _ => none
  | .sendToSubsApi =>
      match t.phase with
      | .task threadId (.submitted cid) attempts =>
          some ⟨u, some (u.finishTask t threadId (.sent cid)),
            t.retry threadId (.submitted cid) attempts⟩
      | _ => none

/-- The tick, gone when it is done with the user. -/
def setTick (u : UserClaims) (index : ℕ) (t : Option ClaimTick) :
    UserClaims :=
  { u with
    ticks := match t with
      | some t => u.ticks.set index t
      | none => u.ticks.eraseIdx index }

def settle (u : UserClaims) (index : ℕ) (command : TickCommand) :
    CommandOutcome → Option UserClaims
  | .ok => command.success.map fun (u, t) => u.setTick index t
  | .failed tookEffect retried =>
      some ((if tookEffect then command.effect else u).setTick index
        (if retried then command.retry else none))

def step (cfg : ClaimProcessingConfig) (did : String) (u : UserClaims) :
    SettlementEvent → Option UserClaims
  | .limit balance credits =>
      if 0 ≤ credits then
        let heldAmount := (limitTokensScript balance u.heldAmount credits).2.2
        some { u with
          heldAmount := heldAmount
          charged := u.charged + (heldAmount - u.heldAmount) }
      else none
  | .lapse => some { u with pendingClaim := none }
  | .list =>
      if (cfg.minimumClaimThreshold : ℤ) ≤ u.heldAmount then
        some { u with
          ticks := u.ticks ++ [⟨[u.heldAmount], none, .listed, u.charged⟩] }
      else none
  | .tick index event outcome =>
      u.ticks[index]?.bind fun t =>
        (u.command cfg did t event).bind fun command =>
          u.settle index command outcome

end UserClaims

/-- The credits of every user and their claims. -/
abbrev ClaimStore := String → UserClaims

def ClaimStore.step (cfg : ClaimProcessingConfig) :
    ClaimStore → String × SettlementEvent → Option ClaimStore :=
  Transition.pointwise (UserClaims.step cfg)

def ClaimStore.start : ClaimStore := fun _ => .start

end QiForge
