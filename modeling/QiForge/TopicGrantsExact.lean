import QiForge.TopicGrantsMerge
import QiForge.Utf8Text
import Mathlib.Data.Countable.Basic
import Mathlib.Logic.Encodable.Basic
import Mathlib.Tactic.DeriveCountable

/-!
# Which topic grants are built

A grant that is returned holds the requested constraint first and the prior
ones that stay; a request is accepted when the grant it names on the chain
matches, the result has room, and its instants have no negative remainder.
-/

namespace QiForge

namespace TopicGrants

section

variable {S E : Type} {isIxoAddress : String → Bool} {C : Codec S E}
  {p : Request}

theorem buildTopicGrant_ok {wire : Wire} :
    buildTopicGrant isIxoAddress C p = .ok wire ↔ p.valid isIxoAddress = true ∧
      (∀ existing ∈ p.existing, ∃ auth,
        Matches isIxoAddress C p existing auth) ∧
      ∃ a, Merged C p a ∧ Fits C (grantOf C p a) ∧
        a.Passes isIxoAddress ∧ Exact p.expiresAt.ms ∧
        wire = wireOf C (grantOf C p a) := by
  unfold buildTopicGrant
  rw [require_bind, bind_ok]
  constructor
  · rintro ⟨hvalid, _, hexisting, hrest⟩
    rw [bind_ok] at hrest
    obtain ⟨encoded, hencoded, hrest⟩ := hrest
    obtain ⟨a, ha, rfl⟩ := encodedAuthorization_ok.mp hencoded
    obtain ⟨decoded, hdecoded, hwire⟩ := bind_ok.mp hrest
    obtain ⟨hfits, hpasses, hexact, _⟩ :=
      (decodeTopicGrant_ok hvalid ha.role).mp hdecoded
    exact ⟨hvalid, checkExisting_ok.mp hexisting, a, ha, hfits, hpasses,
      hexact, pure_ok.mp hwire⟩
  · rintro ⟨hvalid, hexisting, a, ha, hfits, hpasses, hexact, rfl⟩
    refine ⟨hvalid, (), checkExisting_ok.mpr hexisting, ?_⟩
    rw [bind_ok]
    exact ⟨_, encodedAuthorization_ok.mpr ⟨a, ha, rfl⟩, bind_ok.mpr
      ⟨_, (decodeTopicGrant_ok hvalid ha.role).mpr
        ⟨hfits, hpasses, hexact, rfl⟩, rfl⟩⟩

theorem collectionId_ne (hvalid : p.valid isIxoAddress = true) :
    p.collectionId ≠ "" := by
  obtain ⟨⟨_, _, _, _, hsized, _⟩, _⟩ := Request.valid_iff.mp hvalid
  intro hempty
  rw [hempty] at hsized
  revert hsized
  decide

theorem requestedQuota_toNat (hvalid : p.valid isIxoAddress = true) :
    (requestedQuota p).toNat = DigitString.value p.agentQuota := by
  obtain ⟨⟨_, _, _, _, _, hquota⟩, _⟩ := Request.valid_iff.mp hvalid
  unfold quota at hquota
  rw [Bool.and_eq_true, decide_eq_true_eq] at hquota
  exact UInt64.toNat_ofNat_of_lt' (by
    have := hquota.2
    show _ < 2 ^ 64
    omega)

theorem constraintQuota_all (value : UInt64) :
    constraintQuota value = true := by
  have := value.toNat_lt
  exact decide_eq_true (by omega)

theorem fromJsonTimestamp_eq {ms : ℤ} (h : Exact ms) :
    C.fromJsonTimestamp ms = timestamp ms := by
  rw [C.timestamp_exact ms h]
  unfold timestamp
  rw [tmod_exact h]

theorem nextSubmit_passes (hvalid : p.valid isIxoAddress = true) :
    (nextSubmit C p).check isIxoAddress = .ok () := by
  refine require_ok.mpr ?_
  rw [Bool.and_eq_true, Bool.and_eq_true, Bool.and_eq_true]
  exact ⟨⟨⟨bne_iff_ne.mpr (collectionId_ne hvalid), constraintQuota_all _⟩,
    rfl⟩, rfl⟩

theorem iso_nextEvaluate {beforeDate : Datetime} (h : Exact beforeDate.ms) :
    iso (nextEvaluate C p beforeDate).beforeDate = .ok beforeDate.ms := by
  show iso (some (C.fromJsonTimestamp beforeDate.ms)) = _
  rw [fromJsonTimestamp_eq h]
  exact (iso_timestamp beforeDate _).mpr ⟨h, rfl⟩

theorem nextEvaluate_passes (hvalid : p.valid isIxoAddress = true)
    {beforeDate : Datetime} (h : Exact beforeDate.ms) :
    (nextEvaluate C p beforeDate).check = .ok () := by
  unfold EvaluateConstraint.check
  rw [require_bind, require_bind, bind_ok]
  refine ⟨?_, constraintQuota_all _, (), ?_, rfl⟩
  · rw [Bool.or_eq_true]
    exact Or.inl (bne_iff_ne.mpr (collectionId_ne hvalid))
  · exact bind_ok.mpr ⟨_, iso_nextEvaluate (p := p) h, rfl⟩

/-- The prior constraints are those of the grant that was decoded. -/
theorem priorSubmit_passes (hexisting : ∀ existing ∈ p.existing, ∃ auth,
      Matches isIxoAddress C p existing auth)
    (hrole : p.role = .submit) :
    ∃ prior, priorSubmit C p = .ok prior ∧
      ∀ c ∈ prior, c.check isIxoAddress = .ok () := by
  unfold priorSubmit
  cases hprior : p.existing with
  | none => exact ⟨[], rfl, fun _ hc => by cases hc⟩
  | some existing =>
    obtain ⟨auth, h⟩ := hexisting existing hprior
    cases auth with
    | evaluate d =>
      have hauth := h.authRole
      rw [hrole] at hauth
      cases hauth
    | submit d =>
      refine ⟨d.constraints, ?_, h.passes.constraints⟩
      dsimp only
      rw [h.decodes, ok_bind, read_bind]
      exact ⟨d, C.submit_roundTrip d, rfl⟩

theorem priorEvaluate_passes (hexisting : ∀ existing ∈ p.existing, ∃ auth,
      Matches isIxoAddress C p existing auth)
    (hrole : p.role = .evaluate) :
    ∃ prior, priorEvaluate C p = .ok prior ∧
      ∀ c ∈ prior, c.check = .ok () := by
  unfold priorEvaluate
  cases hprior : p.existing with
  | none => exact ⟨[], rfl, fun _ hc => by cases hc⟩
  | some existing =>
    obtain ⟨auth, h⟩ := hexisting existing hprior
    cases auth with
    | submit d =>
      have hauth := h.authRole
      rw [hrole] at hauth
      cases hauth
    | evaluate d =>
      refine ⟨d.constraints, ?_, h.passes.constraints⟩
      dsimp only
      rw [h.decodes, ok_bind, read_bind]
      exact ⟨d, C.evaluate_roundTrip d, rfl⟩

/-- A request for a grant that can be built: its evaluator date lies within
the expiry, the grant on the chain matches, and the result has room. -/
structure Admissible (isIxoAddress : String → Bool) (C : Codec S E)
    (p : Request) : Prop where
  valid : p.valid isIxoAddress = true
  existing : ∀ existing ∈ p.existing, ∃ auth,
    Matches isIxoAddress C p existing auth
  evaluator : p.role = .evaluate → ∃ beforeDate,
    p.beforeDate = some beforeDate ∧
      beforeDate.ms ≤ p.expiresAt.ms ∧ Exact beforeDate.ms
  expiry : Exact p.expiresAt.ms
  room : ∀ a, Merged C p a → a.count ≤ 128
  fits : ∀ a, Merged C p a → Fits C (grantOf C p a)

namespace Admissible

theorem merged (h : Admissible isIxoAddress C p) :
    ∃ a, Merged C p a ∧ a.ConstraintsPass isIxoAddress := by
  cases hrole : p.role with
  | submit =>
    obtain ⟨prior, hprior, hpasses⟩ := priorSubmit_passes h.existing hrole
    refine ⟨_, .submit prior hrole hprior, ?_⟩
    intro c hc
    rcases List.mem_cons.mp hc with rfl | hc
    · exact nextSubmit_passes h.valid
    · exact hpasses c (List.mem_filter.mp hc).1
  | evaluate =>
    obtain ⟨beforeDate, hdate, hwithin, hexact⟩ := h.evaluator hrole
    obtain ⟨prior, hprior, hpasses⟩ := priorEvaluate_passes h.existing hrole
    refine ⟨_, .evaluate prior beforeDate hrole hdate hwithin hprior, ?_⟩
    intro c hc
    rcases List.mem_cons.mp hc with rfl | hc
    · exact nextEvaluate_passes h.valid hexact
    · exact hpasses c (List.mem_filter.mp hc).1

theorem accepted (h : Admissible isIxoAddress C p) :
    ∃ wire, buildTopicGrant isIxoAddress C p = .ok wire := by
  obtain ⟨a, ha, hconstraints⟩ := h.merged
  obtain ⟨⟨_, _, hadmin, _⟩, _⟩ := Request.valid_iff.mp h.valid
  refine ⟨_, buildTopicGrant_ok.mpr ⟨h.valid, h.existing, a, ha,
    h.fits a ha, ⟨?_, h.room a ha, hconstraints⟩, h.expiry, rfl⟩⟩
  rw [ha.admin]
  exact hadmin

end Admissible

/-- An accepted grant decodes to what was asked before what was there, under
the requested names and expiry; and an admissible request is accepted. -/
theorem grant_as_asked (isIxoAddress : String → Bool) (C : Codec S E)
    (p : Request) :
    (∀ wire, buildTopicGrant isIxoAddress C p = .ok wire →
      ∃ a decoded, Merged C p a ∧
        decodeTopicGrant isIxoAddress C wire = .ok decoded ∧
        decoded.review = {
          ownerAddress := p.ownerAddress
          entityDid := p.entityDid
          adminAddress := p.adminAddress
          granteeAddress := p.granteeAddress
          role := p.role
          expiresAt := p.expiresAt.ms
          authorization := a } ∧
        (requestedQuota p).toNat = DigitString.value p.agentQuota ∧
        (∀ existing ∈ p.existing, ∃ date,
          existing.expiresAt = some date ∧ date.ms = p.expiresAt.ms) ∧
        (∀ beforeDate, Exact beforeDate.ms →
          iso (nextEvaluate C p beforeDate).beforeDate = .ok beforeDate.ms)) ∧
    (Admissible isIxoAddress C p →
      ∃ wire, buildTopicGrant isIxoAddress C p = .ok wire) := by
  refine ⟨?_, Admissible.accepted⟩
  intro wire hwire
  obtain ⟨hvalid, hexisting, a, ha, hfits, hpasses, hexact, rfl⟩ :=
    buildTopicGrant_ok.mp hwire
  refine ⟨a, decodedGrant C p a, ha,
    (decodeTopicGrant_ok hvalid ha.role).mpr ⟨hfits, hpasses, hexact, rfl⟩,
    ?_, requestedQuota_toNat hvalid, ?_, fun _ => iso_nextEvaluate⟩
  · unfold decodedGrant
    rw [ha.admin, ha.role]
  · intro existing hmem
    obtain ⟨auth, hmatches⟩ := hexisting existing hmem
    exact hmatches.expiry

end

section Example

instance countableString : Countable String :=
  have : Countable Char :=
    Function.Injective.countable fun (_ _ : Char) h => Char.toNat_inj.mp h
  Function.Injective.countable fun (_ _ : String) h => String.toList_inj.mp h

instance countableInt32 : Countable Int32 :=
  Function.Injective.countable fun (_ _ : Int32) h => Int32.toInt_inj.mp h

instance countableInt64 : Countable Int64 :=
  Function.Injective.countable fun (_ _ : Int64) h => Int64.toInt_inj.mp h

instance countableUInt8 : Countable UInt8 :=
  Function.Injective.countable fun (_ _ : UInt8) h => UInt8.toNat_inj.mp h

instance countableUInt64 : Countable UInt64 :=
  Function.Injective.countable fun (_ _ : UInt64) h => UInt64.toNat_inj.mp h

deriving instance Countable for Timestamp
deriving instance Countable for Coin
deriving instance Countable for SubmitConstraint
deriving instance Countable for SubmitAuthorization
deriving instance Countable for EvaluateConstraint
deriving instance Countable for EvaluateAuthorization
deriving instance Countable for AnyMessage
deriving instance Countable for Grant
deriving instance Countable for GrantMessage

/-! The wire format of the messages, of the fields the example sets. -/

def varint : ℕ → ℕ → List UInt8
  | 0, _ => []
  | fuel + 1, n =>
      if n < 128 then [UInt8.ofNat n]
      else UInt8.ofNat (n % 128 + 128) :: varint fuel (n / 128)

def bytesField (number : ℕ) (value : List UInt8) : List UInt8 :=
  UInt8.ofNat (8 * number + 2) :: varint 10 value.length ++ value

def stringField (number : ℕ) (value : String) : List UInt8 :=
  if value = "" then [] else bytesField number (utf8 value.toList)

def uintField (number value : ℕ) : List UInt8 :=
  if value = 0 then [] else UInt8.ofNat (8 * number) :: varint 10 value

def submitWire (a : SubmitAuthorization Unit) : List UInt8 :=
  stringField 1 a.admin ++ a.constraints.flatMap fun c =>
    bytesField 2 (stringField 1 c.collectionId ++
      uintField 2 c.agentQuota.toNat ++ c.maxAmount.flatMap fun coin =>
        bytesField 3 (stringField 1 coin.denom ++ stringField 2 coin.amount))

def anyWire (any : AnyMessage) : List UInt8 :=
  stringField 1 any.typeUrl ++ bytesField 2 any.value

def timestampWire (t : Timestamp) : List UInt8 :=
  uintField 1 t.seconds.toInt.toNat ++ uintField 2 t.nanos.toInt.toNat

def grantWire (grant : Grant) : List UInt8 :=
  grant.authorization.toList.flatMap (bytesField 1 ∘ anyWire) ++
    grant.expiration.toList.flatMap (bytesField 2 ∘ timestampWire)

def messageWire (m : GrantMessage) : List UInt8 :=
  stringField 1 m.id ++ stringField 2 m.name ++
    stringField 3 m.granteeAddress ++
    m.grant.toList.flatMap (bytesField 4 ∘ grantWire) ++
    stringField 5 m.ownerAddress

/-- An injective writing that gives the chosen values their wire bytes; no
message starts with a zero byte. -/
noncomputable def writing {α : Type} [DecidableEq α] [Countable α]
    (wire : α → List UInt8) (chosen : List α) (value : α) : List UInt8 :=
  have := Encodable.ofCountable α
  if value ∈ chosen then wire value
  else 0 :: List.replicate (Encodable.encode value) 1

theorem writing_injective {α : Type} [DecidableEq α] [Countable α]
    {wire : α → List UInt8} {chosen : List α}
    (hzero : ∀ a ∈ chosen, (wire a).head? ≠ some 0)
    (hwire : ∀ a ∈ chosen, ∀ b ∈ chosen, wire a = wire b → a = b) :
    Function.Injective (writing wire chosen) := by
  intro a b hab
  unfold writing at hab
  by_cases ha : a ∈ chosen
  · by_cases hb : b ∈ chosen
    · rw [if_pos ha, if_pos hb] at hab
      exact hwire a ha b hb hab
    · rw [if_pos ha, if_neg hb] at hab
      exact absurd (congrArg List.head? hab) (hzero a ha)
  · by_cases hb : b ∈ chosen
    · rw [if_neg ha, if_pos hb] at hab
      exact absurd (congrArg List.head? hab.symm) (hzero b hb)
    · rw [if_neg ha, if_neg hb] at hab
      have hlength := congrArg List.length hab
      simp only [List.length_cons, List.length_replicate] at hlength
      exact @Encodable.encode_injective α (Encodable.ofCountable α) a b
        (by omega)

open Classical in
/-- Reads back what an injective writing wrote. -/
noncomputable def reading {α : Type} (write : α → List UInt8)
    (text : List UInt8) : Option α :=
  if h : ∃ value, write value = text then some h.choose else none

theorem reading_write {α : Type} {write : α → List UInt8}
    (h : Function.Injective write) (value : α) :
    reading write (write value) = some value := by
  unfold reading
  have hex : ∃ other, write other = write value := ⟨value, rfl⟩
  rw [dif_pos hex, h hex.choose_spec]

theorem writing_chosen {α : Type} [DecidableEq α] [Countable α]
    {wire : α → List UInt8} {chosen : List α} {value : α}
    (h : value ∈ chosen) : writing wire chosen value = wire value := if_pos h

def exampleOwner : String := "ixo1qyqszqgpqyqszqgpqyqszqgpqyqszqgpdxlvf0"

def exampleGrantee : String := "ixo1qgpqyqszqgpqyqszqgpqyqszqgpqyqszuzefze"

def exampleAdmin : String := "ixo1qvpsxqcrqvpsxqcrqvpsxqcrqvpsxqcrajcggc"

def exampleAddresses (address : String) : Bool :=
  [exampleOwner, exampleGrantee, exampleAdmin].contains address

def exampleExpiry : Datetime where
  text := "2027-10-18T10:00:00.000Z"
  ms := 1823853600000
  fromYearZero := by decide
  toYear9999 := by decide

/-- On the chain: the collection's own constraint and another's. -/
def examplePrior : SubmitAuthorization Unit where
  admin := exampleAdmin
  constraints := [⟨"target", 2, [], "", ()⟩,
      ⟨"other", 9, [⟨"uixo", "123"⟩], "", ()⟩]

def exampleRequest : Request where
  role := .submit
  ownerAddress := exampleOwner
  entityDid := "did:ixo:entity:123"
  adminAddress := exampleAdmin
  granteeAddress := exampleGrantee
  collectionId := "target"
  agentQuota := ['7']
  expiresAt := exampleExpiry
  beforeDate := none
  existing := some
    ⟨.submit, Base64.btoa (submitWire examplePrior), some exampleExpiry⟩

def exampleMerged : SubmitAuthorization Unit where
  admin := exampleAdmin
  constraints := [⟨"target", 7, [], "", ()⟩,
      ⟨"other", 9, [⟨"uixo", "123"⟩], "", ()⟩]

def exampleSubmits : List (SubmitAuthorization Unit) :=
  [examplePrior, exampleMerged]

def exampleMessage : GrantMessage :=
  grantMessage exampleRequest (submitWire exampleMerged)

theorem prior_mem : examplePrior ∈ exampleSubmits := List.mem_cons_self

theorem merged_mem : exampleMerged ∈ exampleSubmits :=
  List.mem_cons_of_mem _ List.mem_cons_self

theorem submits_injective :
    Function.Injective (writing submitWire exampleSubmits) :=
  writing_injective (by decide +kernel) (by decide +kernel)

theorem messages_injective :
    Function.Injective (writing messageWire [exampleMessage]) := by
  refine writing_injective (by decide +kernel) ?_
  intro a ha b hb _
  rw [List.mem_singleton.mp ha, List.mem_singleton.mp hb]

noncomputable def exampleCodec : Codec Unit Unit where
  encodeSubmit := writing submitWire exampleSubmits
  decodeSubmit := reading (writing submitWire exampleSubmits)
  encodeEvaluate := writing (fun _ => []) []
  decodeEvaluate := reading (writing (fun _ => []) [])
  encodeGrant := writing messageWire [exampleMessage]
  decodeGrant := reading (writing messageWire [exampleMessage])
  absentSubmit := ()
  absentEvaluate := ()
  fromJsonTimestamp := fun ms =>
    ⟨Int64.ofInt (ms / 1000), Int32.ofInt (ms % 1000 * 1000000)⟩
  submit_roundTrip := reading_write submits_injective
  evaluate_roundTrip := reading_write (writing_injective (by simp) (by simp))
  grant_roundTrip := reading_write messages_injective
  grant_nonempty := by
    intro message _ hnil
    unfold writing at hnil
    split at hnil
    · rename_i hmem
      rw [List.mem_singleton.mp hmem] at hnil
      exact absurd hnil (by decide +kernel)
    · cases hnil
  timestamp_exact := fun _ _ => rfl

theorem example_bytes : bytes (Base64.btoa (submitWire examplePrior)) =
    .ok (exampleCodec.encodeSubmit examplePrior) := by
  rw [show exampleCodec.encodeSubmit examplePrior = submitWire examplePrior
    from writing_chosen prior_mem]
  exact read_ok.mpr (Base64.atob_btoa _)

theorem example_merged {a : Authorization Unit Unit}
    (h : Merged exampleCodec exampleRequest a) : a = .submit exampleMerged := by
  cases h with
  | evaluate prior beforeDate hrole hdate hwithin hprior => cases hrole
  | submit prior hrole hprior =>
    have hbytes := example_bytes
    unfold priorSubmit exampleRequest at hprior
    dsimp only at hprior
    rw [hbytes, ok_bind, exampleCodec.submit_roundTrip] at hprior
    cases hprior
    have hfilter : examplePrior.constraints.filter
        (keepsSubmit exampleRequest) =
          [⟨"other", 9, [⟨"uixo", "123"⟩], "", ()⟩] := by
      decide +kernel
    have hquota : requestedQuota exampleRequest = 7 := by decide +kernel
    rw [hfilter]
    unfold nextSubmit
    rw [hquota]
    rfl

theorem example_admissible :
    Admissible exampleAddresses exampleCodec exampleRequest where
  valid := by decide +kernel
  existing := by
    intro existing hexisting
    cases hexisting
    refine ⟨.submit examplePrior, rfl, rfl, ?_, ⟨?_, ?_, ?_⟩, rfl,
      exampleExpiry, rfl, rfl⟩
    · exact example_bytes
    · decide +kernel
    · decide
    · intro c hc
      refine require_ok.mpr ?_
      rcases List.mem_cons.mp hc with rfl | hc
      · decide +kernel
      · obtain rfl := List.mem_singleton.mp hc
        decide +kernel
  evaluator := nofun
  expiry := Or.inl (by decide)
  room := by
    intro a ha
    rw [example_merged ha]
    decide
  fits := by
    intro a ha
    rw [example_merged ha]
    have hnested : exampleCodec.encodeSubmit exampleMerged =
        submitWire exampleMerged :=
      writing_chosen merged_mem
    have hmessage : grantOf exampleCodec exampleRequest
        (.submit exampleMerged) = exampleMessage :=
      congrArg (grantMessage exampleRequest) hnested
    have hmem : exampleMessage ∈ [exampleMessage] := List.mem_singleton_self _
    have hbytes : exampleCodec.encodeGrant exampleMessage =
        messageWire exampleMessage := writing_chosen hmem
    unfold Fits wireOf
    rw [hmessage, hbytes]
    decide +kernel

theorem grant_as_asked_example :
    ∃ wire, buildTopicGrant exampleAddresses exampleCodec exampleRequest =
      .ok wire :=
  (grant_as_asked exampleAddresses exampleCodec exampleRequest).2
    example_admissible

/-- Half a second before 1970. -/
def fractional : Request where
  role := .submit
  ownerAddress := exampleOwner
  entityDid := "did:ixo:entity:123"
  adminAddress := exampleAdmin
  granteeAddress := exampleGrantee
  collectionId := "target"
  agentQuota := ['7']
  expiresAt := ⟨"1969-12-31T23:59:59.500Z", -500, by decide, by decide⟩
  beforeDate := none
  existing := none

/-- An evaluator grant without its date, which the schema leaves optional. -/
def undated : Request where
  role := .evaluate
  ownerAddress := exampleOwner
  entityDid := "did:ixo:entity:123"
  adminAddress := exampleAdmin
  granteeAddress := exampleGrantee
  collectionId := "target"
  agentQuota := ['7']
  expiresAt := exampleExpiry
  beforeDate := none
  existing := none

/-- Both are valid and name no grant on the chain, and neither is built. -/
theorem valid_but_refused : (fractional.valid exampleAddresses = true ∧
      ∀ wire, buildTopicGrant exampleAddresses exampleCodec fractional ≠
        .ok wire) ∧
    (undated.valid exampleAddresses = true ∧
      buildTopicGrant exampleAddresses exampleCodec undated = .error (.error
          "Evaluator beforeDate must be absolute and within grant expiry")) := by
  refine ⟨⟨by decide +kernel, ?_⟩, by decide +kernel, ?_⟩
  · intro wire hwire
    obtain ⟨_, _, _, _, _, _, hexact, _⟩ := buildTopicGrant_ok.mp hwire
    rcases hexact with hnonneg | hdvd
    · revert hnonneg
      decide
    · revert hdvd
      decide
  · unfold buildTopicGrant
    rw [show undated.valid exampleAddresses = true by decide +kernel]
    rfl

end Example

end TopicGrants

end QiForge
