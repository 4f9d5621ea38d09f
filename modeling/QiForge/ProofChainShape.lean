import QiForge.JsNumber

/-!
# The shape of a proof chain

The walk over the raw proof tree of a token that bounds its depth, its nodes,
its issuers and the work of verifying it, before any signature is checked.
The walk stops at the first bound it finds broken; what it answers is what the
bounds say of the whole tree.
-/

namespace QiForge
namespace ProofChain

open Number

/-- What `proofs` may hold: `other` is not an object. -/
inductive Node where
  | other
  | node (issuer : Option String) (capabilities : ℕ) (proofs : List Node)

structure ProofChainLimits where
  maxDepth : ℕ
  maxNodes : ℕ
  maxProofsPerLink : ℕ
  maxCapabilitiesPerLink : ℕ
  maxIssuers : ℕ
  maxWork : ℕ
  positive : 0 < maxDepth ∧ 0 < maxNodes ∧ 0 < maxProofsPerLink ∧
      0 < maxCapabilitiesPerLink ∧ 0 < maxIssuers ∧ 0 < maxWork

def DEFAULT_PROOF_CHAIN_LIMITS : ProofChainLimits where
  maxDepth := 10
  maxNodes := 64
  maxProofsPerLink := 16
  maxCapabilitiesPerLink := 32
  maxIssuers := 16
  maxWork := 256
  positive := by decide

/-- The variables the walk closes over; `touched` is not one of them and
counts the nodes looked at. -/
structure Walk where
  visits : Number
  issuers : Finset String
  reason : Option String
  touched : ℕ

namespace Walk

def start : Walk := ⟨some 0, ∅, none, 0⟩

def fail (s : Walk) (why : String) : Number × Walk :=
  (none, { s with reason := s.reason.or (some why) })

def touch (s : Walk) : Walk := { s with touched := s.touched + 1 }

def visit (s : Walk) : Walk := { s with visits := add s.visits (some 1) }

def addIssuer (s : Walk) : Option String → Walk
  | none => s
  | some issuer => { s with issuers := insert issuer s.issuers }

end Walk

def charge (capabilities : ℕ) (below : Number) : Number :=
  mul (some (max 1 capabilities)) (add (some 1) below)

namespace ProofChainLimits

variable (limits : ProofChainLimits)

def tooDeep : String :=
  "Proof chain is deeper than " ++ toString limits.maxDepth ++ " links"

def tooManyNodes : String :=
  "Proof chain has more than " ++ toString limits.maxNodes ++ " nodes"

def tooManyIssuers : String :=
  "Proof chain involves more than " ++ toString limits.maxIssuers ++ " issuers"

def tooManyCapabilities : String := "A delegation carries more than " ++
    toString limits.maxCapabilitiesPerLink ++ " capabilities"

def tooManyProofs : String :=
  "A delegation carries more than " ++ toString limits.maxProofsPerLink ++
    " proofs"

def tooMuchWork : String :=
  "Proof chain needs more than " ++ toString limits.maxWork ++
    " units of verification work"

mutual

def walk : Node → Number → Walk → Number × Walk
  | .other, _, s => (some 1, s)
  | .node issuer capabilities proofs, depth, s =>
      let s := s.touch
      if exceeds depth limits.maxDepth then s.fail limits.tooDeep
      else
        let s := s.visit
        if exceeds s.visits limits.maxNodes then s.fail limits.tooManyNodes
        else
          let s := s.addIssuer issuer
          if limits.maxIssuers < s.issuers.card then
            s.fail limits.tooManyIssuers
          else if limits.maxCapabilitiesPerLink < capabilities then
            s.fail limits.tooManyCapabilities
          else if limits.maxProofsPerLink < proofs.length then
            s.fail limits.tooManyProofs
          else
            let (below, s) := walkProofs proofs (add depth (some 1)) (some 0) s
            let work := charge capabilities below
            if exceeds work limits.maxWork then s.fail limits.tooMuchWork
            else (work, s)

/-- The loop over the proofs, with the work found so far. -/
def walkProofs : List Node → Number → Number → Walk → Number × Walk
  | [], _, below, s => (below, s)
  | proof :: rest, depth, below, s =>
      let (work, s) := walk proof depth s
      let below := add below work
      if exceeds below limits.maxWork then (below, s)
      else walkProofs rest depth below s

end

def proofChainShapeError (root : Node) : Option String :=
  (limits.walk root (some 0) Walk.start).2.reason

/-- Nodes looked at before the answer. -/
def touchedNodes (root : Node) : ℕ :=
  (limits.walk root (some 0) Walk.start).2.touched

end ProofChainLimits

/-! ## What the bounds are about -/

namespace Node

mutual

/-- Verification work: each capability tries every proof. -/
def work : Node → ℕ
  | .other => 1
  | .node _ capabilities proofs => max 1 capabilities * (1 + workAll proofs)

def workAll : List Node → ℕ
  | [] => 0
  | proof :: rest => work proof + workAll rest

end

mutual

/-- Nodes of the tree, a shared one counted at each place. -/
def count : Node → ℕ
  | .other => 0
  | .node _ _ proofs => 1 + countAll proofs

def countAll : List Node → ℕ
  | [] => 0
  | proof :: rest => count proof + countAll rest

end

def issuerSet : Option String → Finset String
  | none => ∅
  | some issuer => {issuer}

mutual

def issuers : Node → Finset String
  | .other => ∅
  | .node issuer _ proofs => issuerSet issuer ∪ issuersAll proofs

def issuersAll : List Node → Finset String
  | [] => ∅
  | proof :: rest => issuers proof ∪ issuersAll rest

end

mutual

/-- Every node keeps the bounds on depth, capabilities and proofs. -/
def Within (limits : ProofChainLimits) : ℕ → Node → Prop
  | _, .other => True
  | depth, .node _ capabilities proofs =>
      depth ≤ limits.maxDepth ∧ capabilities ≤ limits.maxCapabilitiesPerLink ∧
        proofs.length ≤ limits.maxProofsPerLink ∧
        WithinAll limits (depth + 1) proofs

def WithinAll (limits : ProofChainLimits) : ℕ → List Node → Prop
  | _, [] => True
  | depth, proof :: rest =>
      Within limits depth proof ∧ WithinAll limits depth rest

end

end Node

namespace ProofChainLimits

/-- A tree keeps every bound. -/
structure Keeps (limits : ProofChainLimits) (root : Node) : Prop where
  within : Node.Within limits 0 root
  nodes : root.count ≤ limits.maxNodes
  issuers : root.issuers.card ≤ limits.maxIssuers
  work : root.work ≤ limits.maxWork

/-- The limits that are compared with counts are safe integers. -/
structure Safe (limits : ProofChainLimits) : Prop where
  depth : limits.maxDepth ≤ maxSafeInteger
  nodes : limits.maxNodes ≤ maxSafeInteger
  work : limits.maxWork ≤ maxSafeInteger

/-! ## One node and one list of proofs -/

variable {limits : ProofChainLimits}

/-- The walk after `n` nodes with the issuers `I`, no bound broken. -/
def soFar (n : ℕ) (I : Finset String) : Walk := ⟨some n, I, none, n⟩

/-- The subtree at `depth` keeps the bounds after what came before it. -/
structure Fits (limits : ProofChainLimits) (depth n : ℕ)
    (I : Finset String) (v : Node) : Prop where
  within : Node.Within limits depth v
  nodes : n + v.count ≤ limits.maxNodes
  issuers : (I ∪ v.issuers).card ≤ limits.maxIssuers
  work : v.work ≤ limits.maxWork

/-- The same for a list of proofs, after `b` units of work. -/
structure FitsAll (limits : ProofChainLimits) (depth n b : ℕ)
    (I : Finset String) (proofs : List Node) : Prop where
  within : Node.WithinAll limits depth proofs
  nodes : n + Node.countAll proofs ≤ limits.maxNodes
  issuers : (I ∪ Node.issuersAll proofs).card ≤ limits.maxIssuers
  work : b + Node.workAll proofs ≤ limits.maxWork

theorem addIssuer_soFar (n : ℕ) (I : Finset String) (issuer : Option String) :
    (soFar n I).addIssuer issuer = soFar n (I ∪ Node.issuerSet issuer) := by
  cases issuer with
  | none => simp [Walk.addIssuer, Node.issuerSet, soFar]
  | some name =>
      simp only [Walk.addIssuer, Node.issuerSet, soFar]
      rw [Finset.union_comm, Finset.singleton_union]

theorem visit_touch_soFar {n : ℕ} (hn : n + 1 ≤ 2 ^ 53) (I : Finset String) :
    (soFar n I).touch.visit = soFar (n + 1) I := by
  simp only [Walk.touch, Walk.visit, soFar, add_of_le hn]

/-- The checks of a node before its proofs. -/
def Entered (limits : ProofChainLimits) (depth n : ℕ) (I : Finset String)
    (issuer : Option String) (capabilities : ℕ) (proofs : List Node) :
    Prop :=
  depth ≤ limits.maxDepth ∧ n + 1 ≤ limits.maxNodes ∧
    (I ∪ Node.issuerSet issuer).card ≤ limits.maxIssuers ∧
    capabilities ≤ limits.maxCapabilitiesPerLink ∧
    proofs.length ≤ limits.maxProofsPerLink

section Walking

variable {depth n b : ℕ} {I : Finset String} {issuer : Option String}
  {capabilities : ℕ} {proofs : List Node}

/-- A node that breaks a bound of its own stops the walk. -/
theorem walk_not_entered (hsafe : limits.Safe) (hn : n ≤ limits.maxNodes)
    (hout : ¬Entered limits depth n I issuer capabilities proofs) :
    ∃ s, limits.walk (.node issuer capabilities proofs) (some depth)
          (soFar n I) = (none, s) ∧
        s.reason ≠ none ∧ s.touched = n + 1 := by
  have hsafeNodes := hsafe.nodes
  have hn53 : n + 1 ≤ 2 ^ 53 := by
    simp only [maxSafeInteger] at hsafeNodes
    omega
  rw [walk]
  by_cases hdepth : limits.maxDepth < depth
  · have hexceeds : exceeds (some depth) limits.maxDepth = true :=
      decide_eq_true hdepth
    exact ⟨_, if_pos hexceeds, by simp [Walk.touch, soFar], rfl⟩
  have hshallow : ¬exceeds (some depth) limits.maxDepth = true := by
    simpa [exceeds] using hdepth
  rw [if_neg hshallow]
  rw [visit_touch_soFar hn53]
  by_cases hnodes : limits.maxNodes < n + 1
  · have hexceeds : exceeds (soFar (n + 1) I).visits limits.maxNodes = true :=
      decide_eq_true hnodes
    exact ⟨_, if_pos hexceeds, by simp [soFar], rfl⟩
  have hroom : ¬exceeds (soFar (n + 1) I).visits limits.maxNodes = true := by
    simpa [exceeds, soFar] using hnodes
  rw [if_neg hroom, addIssuer_soFar]
  by_cases hissuers : limits.maxIssuers < (I ∪ Node.issuerSet issuer).card
  · exact ⟨_, if_pos hissuers, by simp [soFar], rfl⟩
  rw [if_neg (show ¬limits.maxIssuers <
    (soFar (n + 1) (I ∪ Node.issuerSet issuer)).issuers.card from hissuers)]
  by_cases hcapabilities : limits.maxCapabilitiesPerLink < capabilities
  · exact ⟨_, if_pos hcapabilities, by simp [soFar], rfl⟩
  rw [if_neg hcapabilities]
  by_cases hproofs : limits.maxProofsPerLink < proofs.length
  · exact ⟨_, if_pos hproofs, by simp [soFar], rfl⟩
  refine absurd ?_ hout
  exact ⟨Nat.not_lt.mp hdepth, Nat.not_lt.mp hnodes,
    Nat.not_lt.mp hissuers, Nat.not_lt.mp hcapabilities,
    Nat.not_lt.mp hproofs⟩

/-- A node that keeps its own bounds walks its proofs and is charged. -/
theorem walk_entered (hsafe : limits.Safe)
    (hin : Entered limits depth n I issuer capabilities proofs) :
    limits.walk (.node issuer capabilities proofs) (some depth) (soFar n I) =
      let result := limits.walkProofs proofs (some (depth + 1)) (some 0)
        (soFar (n + 1) (I ∪ Node.issuerSet issuer))
      if exceeds (charge capabilities result.1) limits.maxWork then
        result.2.fail limits.tooMuchWork
      else (charge capabilities result.1, result.2) := by
  rcases hin with ⟨hdepth, hnodes, hissuers, hcapabilities, hproofs⟩
  have hsafeNodes := hsafe.nodes
  have hsafeDepth := hsafe.depth
  simp only [maxSafeInteger] at hsafeNodes hsafeDepth
  have hn53 : n + 1 ≤ 2 ^ 53 := by omega
  have hd53 : depth + 1 ≤ 2 ^ 53 := by omega
  have hshallow : ¬exceeds (some depth) limits.maxDepth = true := by
    simpa [exceeds] using hdepth
  have hroom : ¬exceeds (soFar (n + 1) I).visits limits.maxNodes = true := by
    simpa [exceeds, soFar] using hnodes
  have hfew : ¬limits.maxIssuers <
      (soFar (n + 1) (I ∪ Node.issuerSet issuer)).issuers.card :=
    Nat.not_lt.mpr hissuers
  rw [walk, if_neg hshallow]
  rw [visit_touch_soFar hn53, if_neg hroom, addIssuer_soFar, if_neg hfew,
    if_neg (Nat.not_lt.mpr hcapabilities), if_neg (Nat.not_lt.mpr hproofs),
    add_of_le hd53]

/-- What a broken bound looks like to the caller. -/
def Stopped (limits : ProofChainLimits) (result : Number × Walk) : Prop :=
  result.1 = none ∧ result.2.reason ≠ none ∧
    result.2.touched ≤ limits.maxNodes + 1

theorem charge_some (capabilities : ℕ) (hb : 1 + b ≤ 2 ^ 53) :
    charge capabilities (some b) = ofInt (max 1 capabilities * (1 + b)) := by
  rw [charge, add_of_le hb]
  rfl

end Walking

section Bounds

variable {depth n b : ℕ} {I : Finset String} {issuer : Option String}
  {capabilities : ℕ} {proofs : List Node}

theorem Fits.entered
    (h : Fits limits depth n I (.node issuer capabilities proofs)) :
    Entered limits depth n I issuer capabilities proofs := by
  rcases h.within with ⟨hdepth, hcapabilities, hproofs, -⟩
  refine ⟨hdepth, ?_, ?_, hcapabilities, hproofs⟩
  · have hnodes := h.nodes
    rw [Node.count] at hnodes
    omega
  · refine le_trans (Finset.card_le_card ?_) h.issuers
    rw [Node.issuers, ← Finset.union_assoc]
    exact Finset.subset_union_left

theorem Fits.fitsAll
    (h : Fits limits depth n I (.node issuer capabilities proofs)) :
    FitsAll limits (depth + 1) (n + 1) 0 (I ∪ Node.issuerSet issuer)
      proofs := by
  rcases h.within with ⟨-, -, -, hall⟩
  have hnodes := h.nodes
  have hissuers := h.issuers
  have hwork := h.work
  rw [Node.count] at hnodes
  rw [Node.issuers, ← Finset.union_assoc] at hissuers
  rw [Node.work] at hwork
  refine ⟨hall, by omega, hissuers, ?_⟩
  have hcharge : 1 + Node.workAll proofs ≤
      max 1 capabilities * (1 + Node.workAll proofs) :=
    Nat.le_mul_of_pos_left _ (le_max_left 1 capabilities)
  omega

theorem fits_node (hin : Entered limits depth n I issuer capabilities proofs)
    (hall : FitsAll limits (depth + 1) (n + 1) 0
      (I ∪ Node.issuerSet issuer) proofs)
    (hwork : max 1 capabilities * (1 + Node.workAll proofs) ≤ limits.maxWork) :
    Fits limits depth n I (.node issuer capabilities proofs) := by
  rcases hin with ⟨hdepth, -, -, hcapabilities, hproofs⟩
  have hnodes := hall.nodes
  constructor
  · exact ⟨hdepth, hcapabilities, hproofs, hall.within⟩
  · rw [Node.count]
    omega
  · rw [Node.issuers, ← Finset.union_assoc]
    exact hall.issuers
  · rw [Node.work]
    exact hwork

/-- The bounds on a list are those on its first proof and then on the
rest. -/
theorem fitsAll_cons {proof : Node} {rest : List Node} :
    FitsAll limits depth n b I (proof :: rest) ↔
      (Fits limits depth n I proof ∧ b + proof.work ≤ limits.maxWork) ∧
        FitsAll limits depth (n + proof.count) (b + proof.work)
          (I ∪ proof.issuers) rest := by
  constructor
  · rintro ⟨⟨hfirst, hrest⟩, hnodes, hissuers, hwork⟩
    rw [Node.countAll] at hnodes
    rw [Node.issuersAll, ← Finset.union_assoc] at hissuers
    rw [Node.workAll] at hwork
    have hcard : (I ∪ proof.issuers).card ≤ limits.maxIssuers :=
      le_trans (Finset.card_le_card Finset.subset_union_left) hissuers
    exact ⟨⟨⟨hfirst, by omega, hcard, by omega⟩, by omega⟩,
      ⟨hrest, by omega, hissuers, by omega⟩⟩
  · rintro ⟨⟨hfirst, -⟩, hrest⟩
    have hnodes := hrest.nodes
    have hissuers := hrest.issuers
    have hwork := hrest.work
    refine ⟨⟨hfirst.within, hrest.within⟩, ?_, ?_, ?_⟩
    · rw [Node.countAll]
      omega
    · rw [Node.issuersAll, ← Finset.union_assoc]
      exact hissuers
    · rw [Node.workAll]
      omega

/-- What the walk of a node answers. -/
def WalkSpec (limits : ProofChainLimits) (depth n : ℕ)
    (I : Finset String) (v : Node) : Prop :=
  (Fits limits depth n I v ∧ limits.walk v (some depth) (soFar n I) =
      (some v.work, soFar (n + v.count) (I ∪ v.issuers))) ∨
  (¬Fits limits depth n I v ∧
    Stopped limits (limits.walk v (some depth) (soFar n I)))

/-- What the loop over proofs answers. -/
def WalkProofsSpec (limits : ProofChainLimits) (depth n b : ℕ)
    (I : Finset String) (proofs : List Node) : Prop :=
  let result := limits.walkProofs proofs (some depth) (some b) (soFar n I)
  (FitsAll limits depth n b I proofs ∧ result =
      (some (b + Node.workAll proofs),
        soFar (n + Node.countAll proofs) (I ∪ Node.issuersAll proofs))) ∨
  (¬FitsAll limits depth n b I proofs ∧
    exceeds result.1 limits.maxWork = true ∧
    result.2.touched ≤ limits.maxNodes + 1)

theorem stopped_fail {s : Walk} {why : String}
    (htouched : s.touched ≤ limits.maxNodes + 1) :
    Stopped limits (s.fail why) := by
  refine ⟨rfl, ?_, htouched⟩
  cases hreason : s.reason with
  | none => simp [Walk.fail, hreason]
  | some reason => simp [Walk.fail, hreason]

/-- A node, once its proofs are known. -/
theorem walk_node (hsafe : limits.Safe) (hn : n ≤ limits.maxNodes)
    (hproofs : Entered limits depth n I issuer capabilities proofs →
      WalkProofsSpec limits (depth + 1) (n + 1) 0
        (I ∪ Node.issuerSet issuer) proofs) :
    WalkSpec limits depth n I (.node issuer capabilities proofs) := by
  by_cases hin : Entered limits depth n I issuer capabilities proofs
  · rw [WalkSpec, walk_entered hsafe hin]
    rcases hproofs hin with ⟨hall, hresult⟩ | ⟨hnot, hexceeds, htouched⟩
    · have hbelow := hall.work
      have hsafeWork := hsafe.work
      simp only [maxSafeInteger] at hsafeWork
      rw [hresult]
      dsimp only
      rw [Nat.zero_add] at hbelow ⊢
      rw [charge_some capabilities (by omega), exceeds_ofInt hsafe.work]
      by_cases hwork : max 1 capabilities * (1 + Node.workAll proofs) ≤
          limits.maxWork
      · refine Or.inl ⟨fits_node hin hall hwork, ?_⟩
        rw [if_neg (by simpa using hwork), ofInt_of_le (by omega),
          Node.work, Node.count, Node.issuers, Finset.union_assoc,
          Nat.add_assoc]
      · refine Or.inr ⟨fun hfits => hwork ?_, ?_⟩
        · have hfit := hfits.work
          rw [Node.work] at hfit
          exact hfit
        · rw [if_pos (by simpa using hwork)]
          apply stopped_fail
          exact le_trans hall.nodes (Nat.le_succ _)
    · refine Or.inr ⟨fun hfits => hnot hfits.fitsAll, ?_⟩
      have hcharge : exceeds (charge capabilities
            (limits.walkProofs proofs (some (depth + 1)) (some 0)
              (soFar (n + 1) (I ∪ Node.issuerSet issuer))).1)
          limits.maxWork = true :=
        exceeds_mul_add hsafe.work (le_max_left 1 capabilities) hexceeds
      rw [if_pos hcharge]
      exact stopped_fail htouched
  · refine Or.inr ⟨fun hfits => hin hfits.entered, ?_⟩
    rcases walk_not_entered hsafe hn hin with ⟨s, hwalk, hreason, htouched⟩
    rw [hwalk]
    exact ⟨rfl, hreason, by dsimp only; omega⟩

/-- A list of proofs, once its first proof and the rest are known. -/
theorem walkProofs_cons (hsafe : limits.Safe) {proof : Node} {rest : List Node}
    (hproof : WalkSpec limits depth n I proof)
    (hrest : n + proof.count ≤ limits.maxNodes →
      (I ∪ proof.issuers).card ≤ limits.maxIssuers →
      b + proof.work ≤ limits.maxWork →
      WalkProofsSpec limits depth (n + proof.count) (b + proof.work)
        (I ∪ proof.issuers) rest) :
    WalkProofsSpec limits depth n b I (proof :: rest) := by
  rw [WalkProofsSpec, walkProofs, fitsAll_cons]
  rcases hproof with ⟨hfits, hwalk⟩ | ⟨hnot, hstopped⟩
  · rw [hwalk]
    dsimp only
    rw [exceeds_add hsafe.work]
    by_cases hwork : b + proof.work ≤ limits.maxWork
    · have hsafeWork := hsafe.work
      simp only [maxSafeInteger] at hsafeWork
      rw [if_neg (by simpa using hwork), add_of_le (by omega)]
      rcases hrest hfits.nodes hfits.issuers hwork with
        ⟨hall, hresult⟩ | ⟨hnone, hexceeds, htouched⟩
      · refine Or.inl ⟨⟨⟨hfits, hwork⟩, hall⟩, ?_⟩
        rw [hresult, Node.workAll, Node.countAll, Node.issuersAll,
          Nat.add_assoc, Nat.add_assoc, Finset.union_assoc]
      · exact Or.inr ⟨fun h => hnone h.2, hexceeds, htouched⟩
    · rw [if_pos (by simpa using hwork)]
      refine Or.inr ⟨fun h => hwork h.1.2, ?_, ?_⟩
      · dsimp only
        rw [exceeds_add hsafe.work]
        simpa using hwork
      · exact le_trans hfits.nodes (Nat.le_succ _)
  · rcases hstopped with ⟨hnone, -, htouched⟩
    refine Or.inr ⟨fun h => hnot h.1.1, ?_⟩
    dsimp only
    rw [hnone, add_none, if_pos (show exceeds none limits.maxWork = true
      from rfl)]
    exact ⟨rfl, htouched⟩

end Bounds

/-! ## The whole tree -/

mutual

theorem walk_spec (hsafe : limits.Safe) :
    ∀ (v : Node) {depth n : ℕ} {I : Finset String},
      n ≤ limits.maxNodes → I.card ≤ limits.maxIssuers →
        WalkSpec limits depth n I v
  | .other, depth, n, I, hn, hI => by
      refine Or.inl ⟨⟨trivial, hn, ?_, limits.positive.2.2.2.2.2⟩, ?_⟩
      · rw [Node.issuers, Finset.union_empty]
        exact hI
      · simp [walk, Node.work, Node.count, Node.issuers]
  | .node _ _ proofs, _, _, _, hn, _ =>
      walk_node hsafe hn fun hin =>
        walkProofs_spec hsafe proofs hin.2.1 hin.2.2.1 (Nat.zero_le _)

theorem walkProofs_spec (hsafe : limits.Safe) :
    ∀ (proofs : List Node) {depth n b : ℕ} {I : Finset String},
      n ≤ limits.maxNodes → I.card ≤ limits.maxIssuers →
        b ≤ limits.maxWork → WalkProofsSpec limits depth n b I proofs
  | [], depth, n, b, I, hn, hI, hb => by
      refine Or.inl ⟨⟨trivial, hn, ?_, hb⟩, ?_⟩
      · rw [Node.issuersAll, Finset.union_empty]
        exact hI
      · simp [walkProofs, Node.workAll, Node.countAll, Node.issuersAll]
  | proof :: rest, _, _, _, _, hn, hI, _ =>
      walkProofs_cons hsafe (walk_spec hsafe proof hn hI)
        fun hn hI hb => walkProofs_spec hsafe rest hn hI hb

end

/-- The walk answers null exactly for the trees that keep every bound, and
looks at no more than one node past the bound on nodes. -/
theorem proofChainShapeError_spec (limits : ProofChainLimits)
    (hsafe : limits.Safe) (root : Node) :
    (limits.proofChainShapeError root = none ↔ limits.Keeps root) ∧
      limits.touchedNodes root ≤ limits.maxNodes + 1 := by
  have hfits : Fits limits 0 0 ∅ root ↔ limits.Keeps root := by
    constructor
    · rintro ⟨hwithin, hnodes, hissuers, hwork⟩
      rw [Nat.zero_add] at hnodes
      rw [Finset.empty_union] at hissuers
      exact ⟨hwithin, hnodes, hissuers, hwork⟩
    · rintro ⟨hwithin, hnodes, hissuers, hwork⟩
      refine ⟨hwithin, by omega, ?_, hwork⟩
      rw [Finset.empty_union]
      exact hissuers
  rw [← hfits, proofChainShapeError, touchedNodes]
  have hspec : WalkSpec limits 0 0 ∅ root :=
    walk_spec hsafe root (Nat.zero_le _) (Nat.zero_le _)
  rcases hspec with
    ⟨hkeeps, hwalk⟩ | ⟨hbreaks, -, hreason, htouched⟩
  · have hstart : limits.walk root (some 0) Walk.start =
        (some root.work, soFar (0 + root.count) (∅ ∪ root.issuers)) := hwalk
    rw [hstart]
    refine ⟨⟨fun _ => hkeeps, fun _ => rfl⟩, ?_⟩
    exact le_trans hkeeps.nodes (Nat.le_succ _)
  · exact ⟨⟨fun hnone => absurd hnone hreason,
      fun hfits => absurd hfits hbreaks⟩, htouched⟩

/-- Two links that rest on the same proof, one of them twice. -/
def sharedChain : Node :=
  let shared := Node.node (some "did:key:root") 1 []
  .node (some "did:key:carol") 1 [.node (some "did:key:alice") 2 [shared],
      .node (some "did:key:bob") 1 [shared, shared]]

theorem proofChainShapeError_spec_default :
    (DEFAULT_PROOF_CHAIN_LIMITS.proofChainShapeError sharedChain = none ↔
        DEFAULT_PROOF_CHAIN_LIMITS.Keeps sharedChain) ∧
      DEFAULT_PROOF_CHAIN_LIMITS.touchedNodes sharedChain ≤ 65 :=
  proofChainShapeError_spec DEFAULT_PROOF_CHAIN_LIMITS
    ⟨by decide, by decide, by decide⟩ sharedChain

/-- A chain of links without issuers, by their capabilities. -/
def chainOf : List ℕ → List Node
  | [] => []
  | capabilities :: rest => [.node none capabilities (chainOf rest)]

/-- The work of `55` links, `52` of them with two capabilities, is
`2 ^ 53 + 1`. -/
def longChain : Node := .node none 1 (chainOf (1 :: 1 :: List.replicate 52 2))

/-- A limit on the work that is past the safe integers. -/
def hugeLimits : ProofChainLimits where
  maxDepth := 64
  maxNodes := 64
  maxProofsPerLink := 16
  maxCapabilitiesPerLink := 32
  maxIssuers := 16
  maxWork := 2 ^ 53
  positive := by decide

theorem not_exact_hugeLimits :
    hugeLimits.proofChainShapeError longChain = none ∧
      ¬hugeLimits.Keeps longChain := by
  constructor
  · decide +kernel
  · intro hkeeps
    have hwork := hkeeps.work
    revert hwork
    decide +kernel

end ProofChainLimits
end ProofChain
end QiForge
