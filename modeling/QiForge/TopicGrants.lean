import QiForge.Base64
import QiForge.DigitStrings
import QiForge.JsonText

/-!
# Topic grants

`buildTopicGrant` and `decodeTopicGrant`: a constraint is merged into the
authorization the chain already holds, and the message is decoded again before
it is returned.  The generated protobuf codecs and the bech32 check of an
address enter as parameters.
-/

namespace QiForge

namespace TopicGrants

inductive Role where
  | submit
  | evaluate
deriving DecidableEq, Repr

def submitUrl : String := "/ixo.claims.v1beta1.SubmitClaimAuthorization"

def evaluateUrl : String := "/ixo.claims.v1beta1.EvaluateClaimAuthorization"

def grantUrl : String := "/ixo.entity.v1beta1.MsgGrantEntityAccountAuthz"

def Role.typeUrl : Role → String
  | .submit => submitUrl
  | .evaluate => evaluateUrl

/-- A text the date-time schema admits, with its `Date.parse`. -/
structure Datetime where
  text : String
  ms : ℤ
  fromYearZero : -62167219200000 ≤ ms
  toYear9999 : ms ≤ 253402300799999

structure Timestamp where
  seconds : Int64
  nanos : Int32
deriving DecidableEq

structure Coin where
  denom : String
  amount : String
deriving DecidableEq

/-- `rest` holds the fields the code carries along without reading them. -/
structure SubmitConstraint (S : Type) where
  collectionId : String
  agentQuota : UInt64
  maxAmount : List Coin
  memberAddress : String
  rest : S
deriving DecidableEq

structure EvaluateConstraint (E : Type) where
  collectionId : String
  claimIds : List String
  agentQuota : UInt64
  beforeDate : Option Timestamp
  maxCustomAmount : List Coin
  rest : E
deriving DecidableEq

structure SubmitAuthorization (S : Type) where
  admin : String
  constraints : List (SubmitConstraint S)
deriving DecidableEq

structure EvaluateAuthorization (E : Type) where
  admin : String
  constraints : List (EvaluateConstraint E)
deriving DecidableEq

structure AnyMessage where
  typeUrl : String
  value : List UInt8
deriving DecidableEq

structure Grant where
  authorization : Option AnyMessage
  expiration : Option Timestamp
deriving DecidableEq

structure GrantMessage where
  id : String
  ownerAddress : String
  name : String
  granteeAddress : String
  grant : Option Grant
deriving DecidableEq

/-- The protobuf package, which reads back what it wrote.  The values of `S`
and `E` in `absentSubmit` and `absentEvaluate` are those of a constraint built
without these fields. -/
structure Codec (S E : Type) where
  encodeSubmit : SubmitAuthorization S → List UInt8
  decodeSubmit : List UInt8 → Option (SubmitAuthorization S)
  encodeEvaluate : EvaluateAuthorization E → List UInt8
  decodeEvaluate : List UInt8 → Option (EvaluateAuthorization E)
  encodeGrant : GrantMessage → List UInt8
  decodeGrant : List UInt8 → Option GrantMessage
  absentSubmit : S
  absentEvaluate : E
  fromJsonTimestamp : ℤ → Timestamp
  submit_roundTrip : ∀ a, decodeSubmit (encodeSubmit a) = some a
  evaluate_roundTrip : ∀ a, decodeEvaluate (encodeEvaluate a) = some a
  grant_roundTrip : ∀ m, decodeGrant (encodeGrant m) = some m
  -- a message with a name is not empty
  grant_nonempty : ∀ m, m.name ≠ "" → encodeGrant m ≠ []
  -- exact from 1970 on, and before at whole seconds
  timestamp_exact : ∀ ms : ℤ, 0 ≤ ms ∨ 1000 ∣ ms → fromJsonTimestamp ms =
      ⟨Int64.ofInt (ms / 1000), Int32.ofInt (ms % 1000 * 1000000)⟩

/-- Why a request or a message is refused: it does not match its schema, it
does not decode, or it fails a check of the code. -/
inductive Refusal where
  | schema
  | wire
  | error (message : String)
deriving DecidableEq

abbrev Result := Except Refusal

def require (ok : Bool) (refusal : Refusal) : Result Unit :=
  if ok then .ok () else .error refusal

def read {α : Type} (decoded : Option α) : Result α :=
  match decoded with
  | some value => .ok value
  | none => .error .wire

structure Existing where
  role : Role
  valueBase64 : List Char
  expiresAt : Option Datetime

structure Request where
  role : Role
  ownerAddress : String
  entityDid : String
  adminAddress : String
  granteeAddress : String
  collectionId : String
  agentQuota : List Char
  expiresAt : Datetime
  beforeDate : Option Datetime
  existing : Option Existing

structure Wire where
  typeUrl : String
  valueBase64 : List Char
deriving DecidableEq

def bytes (text : List Char) : Result (List UInt8) := read (Base64.atob text)

/-- A decimal number without a leading zero, at most the largest `int64`. -/
def quota (text : List Char) : Bool :=
  text.all Char.isDigit && text.head? != some '0' && text != [] &&
    decide (DigitString.value text ≤ 9223372036854775807)

def didPrefix : String := "did:ixo:"

/-- A number's decimal text, `constraintQuota` on it. -/
def constraintQuota (value : UInt64) : Bool :=
  decide (value.toNat ≤ 18446744073709551615)

/-- `z.string().min(min).max(max)` on texts counts UTF-16 units. -/
def sized (min max : ℕ) (text : String) : Bool :=
  let length := (utf16 text.toList).length
  decide (min ≤ length) && decide (length ≤ max)

section

variable {S E : Type}

/-- `BuildTopicGrantSchema`. -/
def Request.valid (isIxoAddress : String → Bool) (p : Request) : Bool :=
  isIxoAddress p.ownerAddress && didPrefix.toList.isPrefixOf p.entityDid.toList &&
    isIxoAddress p.adminAddress && isIxoAddress p.granteeAddress &&
    sized 1 256 p.collectionId && quota p.agentQuota &&
    p.existing.all fun existing =>
      decide (1 ≤ existing.valueBase64.length) &&
        decide (existing.valueBase64.length ≤ 131072)

def timestamp (ms : ℤ) : Timestamp where
  seconds := Int64.ofInt (ms / 1000)
  -- the remainder has the sign of the instant
  nanos := Int32.ofInt (Int.tmod ms 1000 * 1000000)

def maxSafeInteger : ℤ := 9007199254740991

/-- The instant, in milliseconds. -/
def iso (value : Option Timestamp) : Result ℤ :=
  match value with
  | none => .error (.error "Absolute grant expiry is required")
  | some value => do
      let seconds := value.seconds.toInt
      let nanos := value.nanos.toInt
      require (decide (|seconds| ≤ maxSafeInteger) && decide (0 ≤ nanos) &&
          decide (nanos ≤ 999999999))
        (.error "Invalid protobuf timestamp")
      -- a date drops what is left of a millisecond
      let ms := Int.tdiv (seconds * 1000000000 + nanos) 1000000
      require (decide (|ms| ≤ 8640000000000000)) (.error "Invalid time value")
      return ms

def Coin.valid (coin : Coin) : Bool :=
  coin.amount.toList.all Char.isDigit && coin.amount != "" && coin.denom != ""

def SubmitConstraint.check (isIxoAddress : String → Bool)
    (c : SubmitConstraint S) : Result Unit :=
  require (c.collectionId != "" && constraintQuota c.agentQuota &&
      (c.memberAddress == "" || isIxoAddress c.memberAddress) &&
      c.maxAmount.all Coin.valid) .schema

def checkDate : Option Timestamp → Result Unit
  | none => .ok ()
  | some date => do
      let _ ← iso (some date)
      return ()

def EvaluateConstraint.check (c : EvaluateConstraint E) : Result Unit := do
  require (c.collectionId != "" || c.claimIds != [])
    (.error "Missing authorization collection")
  require (constraintQuota c.agentQuota) .schema
  checkDate c.beforeDate
  require (c.maxCustomAmount.all Coin.valid) .schema

def checkEach {α : Type} (check : α → Result Unit) : List α → Result Unit
  | [] => .ok ()
  | c :: rest => do
      check c
      checkEach check rest

inductive Authorization (S E : Type) where
  | submit (value : SubmitAuthorization S)
  | evaluate (value : EvaluateAuthorization E)

namespace Authorization

def role : Authorization S E → Role
  | .submit _ => .submit
  | .evaluate _ => .evaluate

def admin : Authorization S E → String
  | .submit value => value.admin
  | .evaluate value => value.admin

end Authorization

def nestedSubmit (isIxoAddress : String → Bool) (C : Codec S E)
    (value : List UInt8) : Result (Authorization S E) := do
  let decoded ← read (C.decodeSubmit value)
  require (decide (value = C.encodeSubmit decoded))
    (.error "Noncanonical Submit authorization")
  require (isIxoAddress decoded.admin) .schema
  require (decide (decoded.constraints.length ≤ 128))
    (.error "Too many constraints")
  checkEach (SubmitConstraint.check isIxoAddress) decoded.constraints
  return .submit decoded

def nestedEvaluate (isIxoAddress : String → Bool) (C : Codec S E)
    (value : List UInt8) : Result (Authorization S E) := do
  let decoded ← read (C.decodeEvaluate value)
  require (decide (value = C.encodeEvaluate decoded))
    (.error "Noncanonical Evaluate authorization")
  require (isIxoAddress decoded.admin) .schema
  require (decide (decoded.constraints.length ≤ 128))
    (.error "Too many constraints")
  checkEach EvaluateConstraint.check decoded.constraints
  return .evaluate decoded

def nested (isIxoAddress : String → Bool) (C : Codec S E) (type : String)
    (value : List UInt8) : Result (Authorization S E) :=
  if type = submitUrl then nestedSubmit isIxoAddress C value
  else if type = evaluateUrl then nestedEvaluate isIxoAddress C value
  else .error (.error "Unsupported claims authorization")

structure Review (S E : Type) where
  ownerAddress : String
  entityDid : String
  adminAddress : String
  granteeAddress : String
  role : Role
  expiresAt : ℤ
  authorization : Authorization S E

structure Decoded (S E : Type) where
  message : GrantMessage
  review : Review S E

def decodeTopicGrant (isIxoAddress : String → Bool) (C : Codec S E)
    (wire : Wire) : Result (Decoded S E) := do
  require (decide (wire.typeUrl = grantUrl) &&
      decide (1 ≤ wire.valueBase64.length) &&
      decide (wire.valueBase64.length ≤ 131072)) .schema
  let encoded ← bytes wire.valueBase64
  let decoded ← read (C.decodeGrant encoded)
  require (decide (encoded = C.encodeGrant decoded))
    (.error "Noncanonical grant message")
  require (isIxoAddress decoded.ownerAddress) .schema
  require (isIxoAddress decoded.granteeAddress) .schema
  match decoded.grant with
  | some { authorization := some authorization, expiration } => do
      require (decide (decoded.name = "admin") &&
          didPrefix.toList.isPrefixOf decoded.id.toList)
        (.error "Invalid owner grant")
      let auth ← nested isIxoAddress C authorization.typeUrl
        authorization.value
      let expiresAt ← iso expiration
      return {
        message := decoded
        review := {
          ownerAddress := decoded.ownerAddress
          entityDid := decoded.id
          adminAddress := auth.admin
          granteeAddress := decoded.granteeAddress
          role := auth.role
          expiresAt
          authorization := auth } }
  | _ => .error (.error "Invalid owner grant")

/-- The checks on the grant the chain already holds. -/
def checkExisting (isIxoAddress : String → Bool) (C : Codec S E)
    (p : Request) : Result Unit :=
  match p.existing with
  | none => .ok ()
  | some existing => do
      require (decide (existing.role = p.role))
        (.error "Prior authorization role mismatch")
      let value ← bytes existing.valueBase64
      let auth ← nested isIxoAddress C p.role.typeUrl value
      require (decide (auth.admin = p.adminAddress))
        (.error "Prior authorization admin mismatch")
      match existing.expiresAt with
      | none =>
          .error (.error ("The existing grant for this account has no " ++
            "expiry; a dated grant would shorten it"))
      | some expiresAt =>
          require (decide (expiresAt.ms = p.expiresAt.ms))
            (.error ("The existing grant for this account expires at " ++
              expiresAt.text ++ "; request the same expiry so its other " ++
              "constraints keep it"))

def requestedQuota (p : Request) : UInt64 :=
  UInt64.ofNat (DigitString.value p.agentQuota)

def nextSubmit (C : Codec S E) (p : Request) : SubmitConstraint S where
  collectionId := p.collectionId
  agentQuota := requestedQuota p
  maxAmount := []
  memberAddress := ""
  rest := C.absentSubmit

def nextEvaluate (C : Codec S E) (p : Request) (beforeDate : Datetime) :
    EvaluateConstraint E where
  collectionId := p.collectionId
  claimIds := []
  agentQuota := requestedQuota p
  beforeDate := some (C.fromJsonTimestamp beforeDate.ms)
  maxCustomAmount := []
  rest := C.absentEvaluate

/-- A prior constraint stays unless it is the collection's own. -/
def keepsSubmit (p : Request) (c : SubmitConstraint S) : Bool :=
  c.collectionId != p.collectionId || c.memberAddress != ""

def keepsEvaluate (p : Request) (c : EvaluateConstraint E) : Bool :=
  c.collectionId != p.collectionId || decide (0 < c.claimIds.length)

def priorSubmit (C : Codec S E) (p : Request) :
    Result (List (SubmitConstraint S)) :=
  match p.existing with
  | none => .ok []
  | some existing => do
      let value ← bytes existing.valueBase64
      let decoded ← read (C.decodeSubmit value)
      return decoded.constraints

def priorEvaluate (C : Codec S E) (p : Request) :
    Result (List (EvaluateConstraint E)) :=
  match p.existing with
  | none => .ok []
  | some existing => do
      let value ← bytes existing.valueBase64
      let decoded ← read (C.decodeEvaluate value)
      return decoded.constraints

def encodedSubmit (C : Codec S E) (p : Request) : Result (List UInt8) := do
  let prior ← priorSubmit C p
  return C.encodeSubmit
    { admin := p.adminAddress
      constraints := nextSubmit C p :: prior.filter (keepsSubmit p) }

def encodedEvaluate (C : Codec S E) (p : Request) : Result (List UInt8) := do
  match p.beforeDate with
  | none =>
      .error (.error
        "Evaluator beforeDate must be absolute and within grant expiry")
  | some beforeDate => do
      require (decide (beforeDate.ms ≤ p.expiresAt.ms)) (.error
        "Evaluator beforeDate must be absolute and within grant expiry")
      let prior ← priorEvaluate C p
      return C.encodeEvaluate
        { admin := p.adminAddress
          constraints :=
            nextEvaluate C p beforeDate :: prior.filter (keepsEvaluate p) }

def grantMessage (p : Request) (encoded : List UInt8) : GrantMessage where
  id := p.entityDid
  ownerAddress := p.ownerAddress
  name := "admin"
  granteeAddress := p.granteeAddress
  grant := some
    { authorization :=
        some { typeUrl := p.role.typeUrl, value := encoded }
      expiration := some (timestamp p.expiresAt.ms) }

def wireOf (C : Codec S E) (message : GrantMessage) : Wire where
  typeUrl := grantUrl
  valueBase64 := Base64.btoa (C.encodeGrant message)

def encodedAuthorization (C : Codec S E) (p : Request) : Result (List UInt8) :=
  match p.role with
  | .submit => encodedSubmit C p
  | .evaluate => encodedEvaluate C p

def buildTopicGrant (isIxoAddress : String → Bool) (C : Codec S E)
    (p : Request) : Result Wire := do
  require (p.valid isIxoAddress) .schema
  checkExisting isIxoAddress C p
  let encoded ← encodedAuthorization C p
  let result := wireOf C (grantMessage p encoded)
  let _ ← decodeTopicGrant isIxoAddress C result
  return result

end

end TopicGrants

end QiForge
