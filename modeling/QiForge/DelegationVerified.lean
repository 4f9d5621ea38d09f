import QiForge.DelegationCids

/-!
# What an accepted delegation has been checked for

Each walk covers the whole tree, so an accepted delegation has every node of
its tree verified, in its window and asked about.  The window is where the
validator and the library disagree: it refuses a token after its expiry
second, the library from that second on.
-/

namespace QiForge
namespace DelegationValidation

open Node

variable {V : Type}

/-- The key is the first of the issuer's that verifies the delegation. -/
def SignedBy (options : Options V) (data : Data V) (key : String) : Prop :=
  ∃ keys, options.resolve data.issuer = .ok keys ∧
    keys.find? (fun key => options.verifySignature key data) = some key

/-- A proof is addressed to the delegation that carries it, or to a DID with
the key that verified it. -/
def AddressedTo (options : Options V) (data : Data V) (key : String)
    (proof : Node V) : Prop :=
  ∃ proofData proofs, proof = .delegation proofData proofs ∧
    (proofData.audience = data.issuer ∨
      key ∈ keysOf options proofData.audience)

/-- An embedded delegation with a verified signature and linked proofs. -/
def Verified (options : Options V) (node : Node V) : Prop := ∃ data proofs key,
    node = .delegation data proofs ∧
    SignedBy options data key ∧
    ∀ proof ∈ proofs, AddressedTo options data key proof

/-! ## The signatures -/

theorem signedBy_of_verifyIssuer
    {options : Options V} {data : Data V} {key : String}
    (hverify : verifyIssuer options data = .ok key) :
    SignedBy options data key := by
  unfold verifyIssuer at hverify
  cases hresolve : options.resolve data.issuer with
  | error why =>
      rw [hresolve] at hverify
      cases hverify
  | ok keys =>
      rw [hresolve] at hverify
      cases keys with
      | nil => cases hverify
      | cons first rest =>
          simp only at hverify
          cases hfind : (first :: rest).find? fun key =>
              options.verifySignature key data with
          | none =>
              rw [hfind] at hverify
              cases hverify
          | some found =>
              rw [hfind] at hverify
              cases hverify
              exact ⟨first :: rest, hresolve, hfind⟩

mutual

theorem verified_of_chain {options : Options V} (root : Node V)
    (hchain : verifyDelegationChain options root = .ok ()) :
    ∀ node ∈ root.subnodes, Verified options node := by
  cases root with
  | link cid =>
      simp only [verifyDelegationChain] at hchain
      cases hchain
  | delegation data proofs =>
      simp only [verifyDelegationChain] at hchain
      cases hissuer : verifyIssuer options data with
      | error failure =>
          rw [hissuer] at hchain
          cases hchain
      | ok key =>
          rw [hissuer] at hchain
          obtain ⟨hlinked, hbelow⟩ := verified_of_proofs proofs hchain
          intro node hnode
          rcases mem_subnodes_delegation.mp hnode with rfl | hmem
          · exact ⟨data, proofs, key, rfl, signedBy_of_verifyIssuer hissuer,
              hlinked⟩
          · exact hbelow node hmem

theorem verified_of_proofs
    {options : Options V} {parent : Data V} {key : String}
    (proofs : List (Node V))
    (hproofs : verifyProofs options parent key proofs = .ok ()) :
    (∀ proof ∈ proofs, AddressedTo options parent key proof) ∧
      ∀ node ∈ subnodesAll proofs, Verified options node := by
  cases proofs with
  | nil =>
      refine ⟨fun proof hproof => absurd hproof List.not_mem_nil, ?_⟩
      intro node hnode
      rw [subnodesAll_nil] at hnode
      cases hnode
  | cons proof rest =>
      cases proof with
      | link cid =>
          simp only [verifyProofs] at hproofs
          cases hproofs
      | delegation data below =>
          simp only [verifyProofs] at hproofs
          split at hproofs
          · cases hproofs
          · next hlinked =>
            cases hchain :
              verifyDelegationChain options (.delegation data below) with
            | error failure =>
                rw [hchain] at hproofs
                cases hproofs
            | ok _ =>
                rw [hchain] at hproofs
                have hfirst :=
                  verified_of_chain (.delegation data below) hchain
                obtain ⟨hrest, hnodes⟩ := verified_of_proofs rest hproofs
                constructor
                · intro proof hproof
                  rcases List.mem_cons.mp hproof with rfl | hmem
                  · refine ⟨data, below, rfl, ?_⟩
                    by_contra hnone
                    rw [not_or] at hnone
                    exact hlinked hnone
                  · exact hrest proof hmem
                · intro node hnode
                  rcases mem_subnodesAll_cons.mp hnode with hmem | hmem
                  · exact hfirst node hmem
                  · exact hnodes node hmem

end

/-! ## The validity window -/

def expirationOf : Node V → Option ℤ
  | .link _ => none
  | .delegation data _ => data.expiration

def notBeforeOf : Node V → Option ℤ
  | .link _ => none
  | .delegation data _ => data.notBefore

/-- One bound is broken by a time that another is broken by, or by the
node's. -/
theorem pastExpiry_meet (now : ℤ) (bounds : TimeBounds) (data : Data V) :
    (pastExpiry now (bounds.meet data)).isSome ↔
      (pastExpiry now bounds).isSome ∨
        ∃ expiration, data.expiration = some expiration ∧
          expiration < now := by
  simp only [pastExpiry, TimeBounds.meet]
  cases hdata : data.expiration with
  | none => simp
  | some found =>
      cases hbounds : bounds.expiration with
      | none => simp
      | some expiration =>
          simp only [Option.isSome_filter, Option.any_some,
            decide_eq_true_eq, Option.some.injEq, exists_eq_left',
            min_lt_iff]

theorem beforeStart_meet (now : ℤ) (bounds : TimeBounds) (data : Data V) :
    (beforeStart now (bounds.meet data)).isSome ↔
      (beforeStart now bounds).isSome ∨
        ∃ notBefore, data.notBefore = some notBefore ∧ now < notBefore := by
  simp only [beforeStart, TimeBounds.meet]
  cases hdata : data.notBefore with
  | none => simp
  | some found =>
      cases hbounds : bounds.notBefore with
      | none => simp
      | some notBefore =>
          simp only [Option.isSome_filter, Option.any_some,
            decide_eq_true_eq, Option.some.injEq, exists_eq_left',
            lt_max_iff]

mutual

theorem boundsFrom_broken (now : ℤ) (root : Node V) (bounds : TimeBounds) :
    ((pastExpiry now (boundsFrom root bounds)).isSome ↔
      (pastExpiry now bounds).isSome ∨ ∃ node ∈ root.subnodes, ∃ expiration,
          expirationOf node = some expiration ∧ expiration < now) ∧
    ((beforeStart now (boundsFrom root bounds)).isSome ↔
      (beforeStart now bounds).isSome ∨ ∃ node ∈ root.subnodes, ∃ notBefore,
          notBeforeOf node = some notBefore ∧ now < notBefore) := by
  cases root with
  | link cid =>
      simp [boundsFrom, expirationOf, notBeforeOf]
  | delegation data proofs =>
      obtain ⟨hpast, hbefore⟩ :=
        boundsFromAll_broken now proofs (bounds.meet data)
      constructor
      · rw [boundsFrom, hpast, pastExpiry_meet, or_assoc]
        simp only [mem_subnodes_delegation, exists_eq_or_imp, expirationOf]
      · rw [boundsFrom, hbefore, beforeStart_meet, or_assoc]
        simp only [mem_subnodes_delegation, exists_eq_or_imp, notBeforeOf]

theorem boundsFromAll_broken
    (now : ℤ) (proofs : List (Node V)) (bounds : TimeBounds) :
    ((pastExpiry now (boundsFromAll proofs bounds)).isSome ↔
      (pastExpiry now bounds).isSome ∨
        ∃ node ∈ subnodesAll proofs, ∃ expiration,
          expirationOf node = some expiration ∧ expiration < now) ∧
    ((beforeStart now (boundsFromAll proofs bounds)).isSome ↔
      (beforeStart now bounds).isSome ∨
        ∃ node ∈ subnodesAll proofs, ∃ notBefore,
          notBeforeOf node = some notBefore ∧ now < notBefore) := by
  cases proofs with
  | nil => simp [boundsFromAll]
  | cons proof rest =>
      obtain ⟨hpast, hbefore⟩ := boundsFrom_broken now proof bounds
      obtain ⟨hpastRest, hbeforeRest⟩ :=
        boundsFromAll_broken now rest (boundsFrom proof bounds)
      constructor
      · rw [boundsFromAll, hpastRest, hpast, or_assoc]
        simp only [mem_subnodesAll_cons, or_and_right, exists_or]
      · rw [boundsFromAll, hbeforeRest, hbefore, or_assoc]
        simp only [mem_subnodesAll_cons, or_and_right, exists_or]

end

theorem pastExpiry_iff (now : ℤ) (root : Node V) :
    (pastExpiry now (chainTimeBounds root)).isSome ↔
      ∃ node ∈ root.subnodes, ∃ expiration,
        expirationOf node = some expiration ∧ expiration < now := by
  rw [chainTimeBounds, (boundsFrom_broken now root TimeBounds.start).1]
  simp [pastExpiry, TimeBounds.start]

theorem beforeStart_iff (now : ℤ) (root : Node V) :
    (beforeStart now (chainTimeBounds root)).isSome ↔
      ∃ node ∈ root.subnodes, ∃ notBefore,
        notBeforeOf node = some notBefore ∧ now < notBefore := by
  rw [chainTimeBounds, (boundsFrom_broken now root TimeBounds.start).2]
  simp [beforeStart, TimeBounds.start]

variable {options : Options V}

/-- A window that is not refused is open at every node. -/
theorem window_open {now : ℤ} {root : Node V}
    (hwindow : windowError options now (chainTimeBounds root) = none) :
    ∀ node ∈ root.subnodes,
      (∀ expiration, expirationOf node = some expiration → now ≤ expiration) ∧
      ∀ notBefore, notBeforeOf node = some notBefore → notBefore ≤ now := by
  unfold windowError at hwindow
  cases hpast : pastExpiry now (chainTimeBounds root) with
  | some expiration =>
      rw [hpast] at hwindow
      cases hwindow
  | none =>
      rw [hpast] at hwindow
      cases hbefore : beforeStart now (chainTimeBounds root) with
      | some notBefore =>
          rw [hbefore] at hwindow
          cases hwindow
      | none =>
          have hnotPast : ¬ (pastExpiry now (chainTimeBounds root)).isSome := by
            simp [hpast]
          have hnotBefore :
              ¬ (beforeStart now (chainTimeBounds root)).isSome := by
            simp [hbefore]
          rw [pastExpiry_iff] at hnotPast
          rw [beforeStart_iff] at hnotBefore
          intro node hnode
          constructor
          · intro expiration hexpiration
            by_contra hlate
            exact hnotPast ⟨node, hnode, expiration, hexpiration, by omega⟩
          · intro notBefore hstart
            by_contra hearly
            exact hnotBefore ⟨node, hnode, notBefore, hstart, by omega⟩

/-! ## Revocations -/

/-- Nothing the validator asked about was reported revoked. -/
theorem not_revoked_of_check {cids revoked : List String} {cid : String}
    {check : List String → Except String (List String)}
    (hchecked : checkRevoked options cids = none)
    (hchecker : options.revocationChecker = some check)
    (hanswer : check cids = .ok revoked)
    (hcid : cid ∈ cids) :
    cid ∉ revoked := by
  intro hrevoked
  cases cids with
  | nil => cases hcid
  | cons first rest =>
      simp only [checkRevoked, hchecker, hanswer, Option.map_eq_none_iff,
        List.find?_eq_none] at hchecked
      exact hchecked cid hrevoked (by simpa using hcid)

/-! ## An accepted delegation -/

/-- What an accepted delegation has been checked for. -/
structure FullyVerified (options : Options V) (now : ℤ) (root : Node V)
    (result : Accepted V) : Prop where
  audience : ∃ data proofs,
    root = .delegation data proofs ∧ data.audience = options.serverDid
  verified : ∀ node ∈ root.subnodes, Verified options node
  window : ∀ node ∈ root.subnodes,
    (∀ expiration, expirationOf node = some expiration → now ≤ expiration) ∧
    ∀ notBefore, notBeforeOf node = some notBefore → notBefore ≤ now
  /-- The checker is asked about `proofChainCids`, in one call. -/
  asked : checkRevoked options result.proofChainCids = none
  revocation : ∀ node ∈ root.subnodes, ∀ check revoked,
    options.revocationChecker = some check →
    check result.proofChainCids = .ok revoked →
    node.cid ∉ revoked
  cids : ListsTree root result.proofChainCids

/-- An accepted delegation, with what its checks answered. -/
theorem accepted_checks {now : ℤ} {root : Node V} {result : Accepted V}
    (haccepted : validateDelegationToken options now (.ok root) = .ok result) :
    ∃ data proofs, root = .delegation data proofs ∧
      data.audience = options.serverDid ∧
      windowError options now (chainTimeBounds root) = none ∧
      verifyDelegationChain options root = .ok () ∧
      checkRevoked options (delegationChainCids root) = none ∧
      result = accepted data proofs := by
  cases root with
  | link cid =>
      simp only [validateDelegationToken] at haccepted
      cases haccepted
  | delegation data proofs =>
      simp only [validateDelegationToken] at haccepted
      split at haccepted
      · cases haccepted
      · next haudience =>
        split at haccepted
        · cases haccepted
        · split at haccepted
          · cases haccepted
          · next hwindow =>
            split at haccepted
            · cases haccepted
            · next hchain =>
              split at haccepted
              · cases haccepted
              · next hchecked =>
                exact ⟨data, proofs, rfl, not_not.mp haudience, hwindow,
                  hchain, hchecked, (Except.ok.inj haccepted).symm⟩

theorem fullyVerified_of_accepted
    {now : ℤ} {root : Node V} {result : Accepted V}
    (haddressed : root.Addressed)
    (haccepted : validateDelegationToken options now (.ok root) = .ok result) :
    FullyVerified options now root result := by
  obtain ⟨data, proofs, rfl, haudience, hwindow, hchain, hchecked, rfl⟩ :=
    accepted_checks haccepted
  have hlists := delegationChainCids_listsTree haddressed
  exact
    { audience := ⟨data, proofs, rfl, haudience⟩
      verified := verified_of_chain _ hchain
      window := window_open hwindow
      asked := hchecked
      revocation := fun node hnode check revoked hchecker hanswer =>
        not_revoked_of_check hchecked hchecker hanswer
          ((hlists.mem_iff _).mpr ⟨node, hnode, rfl⟩)
      cids := hlists }

/-- The library refuses a delegation from its expiry second on. -/
def ucantoExpired (now expiration : ℤ) : Prop := expiration ≤ now

/-- What is claimed of the validation of one tree. -/
structure Sound (options : Options V) (now : ℤ) (root : Node V) : Prop where
  verified : ∀ result,
    validateDelegationToken options now (.ok root) = .ok result →
    FullyVerified options now root result
  /-- The expiry check refuses the trees the library has one expired in. -/
  boundary : (pastExpiry now (chainTimeBounds root)).isSome ↔
      ∃ node ∈ root.subnodes, ∃ expiration,
        expirationOf node = some expiration ∧ ucantoExpired now expiration

/-- A node expires in this second and none before. -/
def ExpiresNow (now : ℤ) (root : Node V) : Prop :=
  (∃ node ∈ root.subnodes, expirationOf node = some now) ∧
  ∀ node ∈ root.subnodes, ∀ expiration,
    expirationOf node = some expiration → now ≤ expiration

/-- The validation is sound except in the second the tree expires in. -/
theorem validateDelegation_sound_iff
    (options : Options V) (now : ℤ) (root : Node V)
    (haddressed : root.Addressed) :
    Sound options now root ↔ ¬ ExpiresNow now root := by
  constructor
  · rintro hsound ⟨⟨node, hnode, hnow⟩, hleast⟩
    have hpast := hsound.boundary.mpr ⟨node, hnode, now, hnow, le_rfl⟩
    obtain ⟨late, hlate, expiration, hexpiration, hlt⟩ :=
      (pastExpiry_iff now root).mp hpast
    have hle := hleast late hlate expiration hexpiration
    omega
  · intro hnot
    refine ⟨fun result => fullyVerified_of_accepted haddressed, ?_⟩
    rw [pastExpiry_iff]
    constructor
    · rintro ⟨node, hnode, expiration, hexpiration, hlt⟩
      exact ⟨node, hnode, expiration, hexpiration, hlt.le⟩
    · rintro ⟨node, hnode, expiration, hexpiration, hle⟩
      rcases lt_or_eq_of_le hle with hlt | rfl
      · exact ⟨node, hnode, expiration, hexpiration, hlt⟩
      · by_contra hnone
        refine hnot ⟨⟨node, hnode, hexpiration⟩, ?_⟩
        intro other hother earliest hearliest
        by_contra hearly
        exact hnone ⟨other, hother, earliest, hearliest, by omega⟩

/-! ## In the expiry second -/

def serverOptions : Options Unit where
  serverDid := "did:key:server"
  proofChainLimits := some ProofChain.DEFAULT_PROOF_CHAIN_LIMITS
  allowUniversalResource := false
  requireExpiration := true
  revocationChecker := some fun _ => .ok []
  revocationFailureOpen := false
  resolve := fun did => .ok [did]
  verifySignature := fun key data => key = data.issuer
  isoDate := fun _ => none

def ownerGrant : Data Unit where
  cid := "grant"
  issuer := "did:key:owner"
  audience := "did:key:agent"
  expiration := some 200
  notBefore := none
  capabilities := [⟨"tenant/*", "ixo:tenant:did:key:owner", none⟩]
  facts := []

def agentGrant : Data Unit where
  cid := "share"
  issuer := "did:key:agent"
  audience := "did:key:server"
  expiration := some 100
  notBefore := none
  capabilities := [⟨"tenant/*", "ixo:tenant:did:key:owner", none⟩]
  facts := []

def sharedGrant : Node Unit :=
  .delegation agentGrant [.delegation ownerGrant []]

theorem sharedGrant_addressed : sharedGrant.Addressed := by
  intro a ha b hb hcid
  simp only [sharedGrant, subnodes, subnodesAll, List.append_nil,
    List.mem_cons, List.not_mem_nil, or_false] at ha hb
  rcases ha with rfl | rfl <;> rcases hb with rfl | rfl
  · rfl
  · exact absurd hcid (by decide)
  · exact absurd hcid (by decide)
  · rfl

theorem sharedGrant_expiresNow_iff (now : ℤ) :
    ExpiresNow now sharedGrant ↔ now = 100 := by
  simp only [ExpiresNow, sharedGrant, subnodes, subnodesAll, List.append_nil,
    List.mem_cons, List.not_mem_nil, or_false, exists_eq_or_imp,
    exists_eq_left, forall_eq_or_imp, forall_eq, expirationOf, agentGrant,
    ownerGrant, Option.some.injEq, forall_eq']
  omega

/-- A second before the grant expires. -/
theorem validateDelegation_sound_before : Sound serverOptions 99 sharedGrant :=
  (validateDelegation_sound_iff serverOptions 99 sharedGrant
    sharedGrant_addressed).mpr
    (by rw [sharedGrant_expiresNow_iff]; decide)

/-- In the second it expires the grant is accepted. -/
theorem not_sound_in_expiry_second :
    (validateDelegationToken serverOptions 100 (.ok sharedGrant)).isOk ∧
      ¬ Sound serverOptions 100 sharedGrant := by
  constructor
  · decide +kernel
  · intro hsound
    have hpast := hsound.boundary.mpr
      ⟨sharedGrant, mem_subnodes_self _, 100, rfl, le_rfl⟩
    exact absurd hpast (by decide)

end DelegationValidation
end QiForge
