import QiForge.ProofChainShape

/-!
# Validating a delegation

`validateDelegation()`: the token decodes to a tree of delegations, whose
proofs are embedded or bare links.  The tree is checked for its audience, its
shape, its validity window, its signatures and its revocations, each by a
walk of its own.
-/

namespace QiForge
namespace DelegationValidation

structure Capability (V : Type) where
  can : String
  resource : String
  nb : Option V

/-- What a delegation says of itself.  An expiration of `none` is the
infinite one. -/
structure Data (V : Type) where
  cid : String
  issuer : String
  audience : String
  expiration : Option ℤ
  notBefore : Option ℤ
  capabilities : List (Capability V)
  facts : List V

/-- A proof as it travelled: its block embedded, or a bare link to it.  Each
place a block is referenced from has a node of its own. -/
inductive Node (V : Type) where
  | link (cid : String)
  | delegation (data : Data V) (proofs : List (Node V))

namespace Node

variable {V : Type}

def cid : Node V → String
  | .link cid => cid
  | .delegation data _ => data.cid

def proofs : Node V → List (Node V)
  | .link _ => []
  | .delegation _ proofs => proofs

mutual

/-- The nodes of a tree, its root first. -/
def subnodes : Node V → List (Node V)
  | .link cid => [.link cid]
  | .delegation data proofs =>
      .delegation data proofs :: subnodesAll proofs

def subnodesAll : List (Node V) → List (Node V)
  | [] => []
  | proof :: rest => subnodes proof ++ subnodesAll rest

end

end Node

inductive Code where
  | invalidFormat
  | unauthorized
  | expired
  | invalidSignature
  | revocationCheckFailed
  | revoked
deriving DecidableEq, Repr

structure Failure where
  code : Code
  message : String

structure Accepted (V : Type) where
  invoker : String
  capability : Option (Capability V)
  expiration : Option ℤ
  proofChain : Option (List String)
  proofChainCids : List String
  facts : Option (List V)

/-- What the validator is made with, and the code it calls outside its
package: the DID resolver, the signature check of a key over a delegation
(false where a key does not parse), and the text of a date, `none` where
`toISOString` throws. -/
structure Options (V : Type) where
  serverDid : String
  proofChainLimits : Option ProofChain.ProofChainLimits
  allowUniversalResource : Bool
  requireExpiration : Bool
  revocationChecker : Option (List String → Except String (List String))
  revocationFailureOpen : Bool
  resolve : String → Except String (List String)
  verifySignature : String → Data V → Bool
  isoDate : ℤ → Option String

variable {V : Type}

/-! ## The walks over the tree -/

structure TimeBounds where
  expiration : Option ℤ
  notBefore : Option ℤ

namespace TimeBounds

def start : TimeBounds := ⟨none, none⟩

def meet (bounds : TimeBounds) (data : Data V) : TimeBounds where
  expiration :=
    match data.expiration, bounds.expiration with
    | none, expiration => expiration
    | some found, none => some found
    | some found, some expiration => some (min expiration found)
  notBefore :=
    match data.notBefore, bounds.notBefore with
    | none, notBefore => notBefore
    | some found, none => some found
    | some found, some notBefore => some (max notBefore found)

end TimeBounds

mutual

def boundsFrom : Node V → TimeBounds → TimeBounds
  | .link _, bounds => bounds
  | .delegation data proofs, bounds => boundsFromAll proofs (bounds.meet data)

def boundsFromAll : List (Node V) → TimeBounds → TimeBounds
  | [], bounds => bounds
  | proof :: rest, bounds => boundsFromAll rest (boundsFrom proof bounds)

end

def chainTimeBounds (root : Node V) : TimeBounds :=
  boundsFrom root TimeBounds.start

def universalResource : String := "ucan:*"

mutual

/-- The walk for the universal resource: what it has seen, and whether it
found one. -/
def universalFrom : Node V → List String → Bool × List String
  | .link cid, seen =>
      if cid ∈ seen then (false, seen) else (false, cid :: seen)
  | .delegation data proofs, seen =>
      if data.cid ∈ seen then (false, seen)
      else if data.capabilities.any (·.resource = universalResource) then
        (true, data.cid :: seen)
      else universalFromAll proofs (data.cid :: seen)

def universalFromAll : List (Node V) → List String → Bool × List String
  | [], seen => (false, seen)
  | proof :: rest, seen =>
      match universalFrom proof seen with
      | (true, seen) => (true, seen)
      | (false, seen) => universalFromAll rest seen

end

def chainUsesUniversalResource (root : Node V) : Bool :=
  (universalFrom root []).1

mutual

/-- What the bounds on the shape read of a tree. -/
def shape : Node V → ProofChain.Node
  | .link _ => .node none 0 []
  | .delegation data proofs =>
      .node (some data.issuer) data.capabilities.length (shapeAll proofs)

def shapeAll : List (Node V) → List ProofChain.Node
  | [] => []
  | proof :: rest => shape proof :: shapeAll rest

end

/-- The CIDs a walk has seen and those it has listed. -/
structure Collected where
  seen : List String
  cids : List String

mutual

def collect : Node V → Collected → Collected
  | .link cid, s =>
      if cid ∈ s.seen then s else ⟨cid :: s.seen, s.cids ++ [cid]⟩
  | .delegation data proofs, s =>
      if data.cid ∈ s.seen then s
      else
        let s := collectAll proofs { s with seen := data.cid :: s.seen }
        { s with cids := s.cids ++ [data.cid] }

def collectAll : List (Node V) → Collected → Collected
  | [], s => s
  | proof :: rest, s => collectAll rest (collect proof s)

end

def delegationChainCids (root : Node V) : List String :=
  (collect root ⟨[], []⟩).cids

/-- The issuers from the root of the first proof path down, if every block on
it is embedded. -/
def buildProofChain : Node V → Option (List String)
  | .link _ => none
  | .delegation data [] => some [data.issuer]
  | .delegation data (proof :: _) =>
      (buildProofChain proof).map fun chain => chain ++ [data.issuer]

/-! ## The checks -/

section Checks

variable (options : Options V)

def structuralError (root : Node V) : Option Failure :=
  match options.proofChainLimits.bind fun limits =>
      limits.proofChainShapeError (shape root) with
  | some reason => some ⟨.invalidFormat, reason⟩
  | none =>
      if !options.allowUniversalResource && chainUsesUniversalResource root then
        some ⟨.unauthorized, "A capability on the universal resource " ++
          universalResource ++ " is not accepted by this validator"⟩
      else none

/-- The keys of an audience, none when it does not resolve. -/
def keysOf (did : String) : List String :=
  match options.resolve did with
  | .error _ => []
  | .ok keys => keys

def incompleteMessage : String :=
  "Proof chain incomplete: a proof block is not embedded in the token"

def brokenMessage (audience issuer : String) : String :=
  "Proof chain broken: proof audience " ++ audience ++
    " does not match delegation issuer " ++ issuer

/-- The issuer's key of a delegation, or why there is none. -/
def verifyIssuer (data : Data V) : Except Failure String :=
  match options.resolve data.issuer with
  | .error why =>
      .error ⟨.invalidSignature,
        "Cannot resolve issuer DID " ++ data.issuer ++ ": " ++ why⟩
  | .ok [] =>
      .error ⟨.invalidSignature,
        "No keys found for issuer DID " ++ data.issuer⟩
  | .ok (first :: keys) =>
      match (first :: keys).find? fun key =>
          options.verifySignature key data with
      | none =>
          .error ⟨.invalidSignature,
            "Signature verification failed for issuer " ++ data.issuer⟩
      | some key => .ok key

mutual

def verifyDelegationChain : Node V → Except Failure Unit
  | .link _ => .error ⟨.unauthorized, incompleteMessage⟩
  | .delegation data proofs =>
      match verifyIssuer options data with
      | .error failure => .error failure
      | .ok key => verifyProofs data key proofs

/-- The loop over the proofs of a delegation verified by `key`. -/
def verifyProofs (parent : Data V) (key : String) :
    List (Node V) → Except Failure Unit
  | [] => .ok ()
  | .link _ :: _ => .error ⟨.unauthorized, incompleteMessage⟩
  | .delegation data proofs :: rest =>
      if data.audience ≠ parent.issuer ∧ key ∉ keysOf options data.audience
      then
        .error ⟨.unauthorized, brokenMessage data.audience parent.issuer⟩
      else
        match verifyDelegationChain (.delegation data proofs) with
        | .error failure => .error failure
        | .ok () => verifyProofs parent key rest

end

def checkRevoked (cids : List String) : Option Failure :=
  match options.revocationChecker, cids with
  | none, _ | some _, [] => none
  | some check, cids =>
      match check cids with
      | .error why =>
          if options.revocationFailureOpen then none
          else
            some ⟨.revocationCheckFailed,
              "Could not determine revocation status: " ++ why⟩
      | .ok revoked =>
          (revoked.find? fun cid => cids.contains cid).map fun cid =>
            ⟨.revoked, "Delegation " ++ cid ++ " has been revoked"⟩

/-- The validator's expiry check. -/
def pastExpiry (now : ℤ) (bounds : TimeBounds) : Option ℤ :=
  bounds.expiration.filter fun expiration => expiration < now

def beforeStart (now : ℤ) (bounds : TimeBounds) : Option ℤ :=
  bounds.notBefore.filter fun notBefore => now < notBefore

/-- A failure that names a date, or what the catch makes of a date that has no
text. -/
def datedFailure (code : Code) (front back : String) (seconds : ℤ) :
    Failure :=
  match options.isoDate (seconds * 1000) with
  | some date => ⟨code, front ++ date ++ back⟩
  | none => ⟨.invalidFormat, "Invalid time value"⟩

def windowError (now : ℤ) (bounds : TimeBounds) : Option Failure :=
  match pastExpiry now bounds with
  | some expiration =>
      some (datedFailure options .expired "Delegation expired at " ""
        expiration)
  | none =>
      match beforeStart now bounds with
      | some notBefore =>
          some (datedFailure options .unauthorized
            "Delegation is not valid before " "" notBefore)
      | none =>
          if options.requireExpiration && bounds.expiration.isNone then
            some ⟨.unauthorized,
              "Delegation has no expiration; this validator requires a bounded expiry"⟩
          else none

def accepted (data : Data V) (proofs : List (Node V)) : Accepted V where
  invoker := data.issuer
  capability := data.capabilities.head?
  expiration := (chainTimeBounds (.delegation data proofs)).expiration
  proofChain := buildProofChain (.delegation data proofs)
  proofChainCids := delegationChainCids (.delegation data proofs)
  facts := if data.facts = [] then none else some data.facts

/-- The validation of what `Delegation.extract` made of the token, at a time
in seconds. -/
def validateDelegationToken (now : ℤ) (extracted : Except String (Node V)) :
    Except Failure (Accepted V) :=
  match extracted with
  | .error why => .error ⟨.invalidFormat, "Failed to decode: " ++ why⟩
  | .ok (.link _) =>
      .error ⟨.invalidFormat, "Delegation missing issuer or audience"⟩
  | .ok (.delegation data proofs) =>
      let root : Node V := .delegation data proofs
      if data.audience ≠ options.serverDid then
        .error ⟨.unauthorized, "Delegation addressed to " ++ data.audience ++
          ", not " ++ options.serverDid⟩
      else
        match structuralError options root with
        | some failure => .error failure
        | none =>
            match windowError options now (chainTimeBounds root) with
            | some failure => .error failure
            | none =>
                match verifyDelegationChain options root with
                | .error failure => .error failure
                | .ok () =>
                    match checkRevoked options (delegationChainCids root) with
                    | some failure => .error failure
                    | none => .ok (accepted data proofs)

end Checks

end DelegationValidation
end QiForge
