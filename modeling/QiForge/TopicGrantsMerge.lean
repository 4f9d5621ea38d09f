import QiForge.TopicGrants

/-!
# What a topic grant holds

Each check of the builder and of the decoder as an equivalence; from them,
what an accepted grant decodes to and which requests are accepted.
-/

namespace QiForge

namespace TopicGrants

section Results

variable {α β : Type}

theorem bind_ok {x : Result α} {f : α → Result β} {b : β} :
    (x >>= f) = .ok b ↔ ∃ a, x = .ok a ∧ f a = .ok b := by
  cases x with
  | error refusal =>
    constructor
    · intro h
      cases h
    · rintro ⟨a, h, _⟩
      cases h
  | ok a =>
    constructor
    · intro h
      exact ⟨a, rfl, h⟩
    · rintro ⟨a', h, hf⟩
      cases h
      exact hf

theorem ok_bind {a : α} {f : α → Result β} :
    ((.ok a : Result α) >>= f) = f a := rfl

theorem require_ok {ok : Bool} {refusal : Refusal} {u : Unit} :
    require ok refusal = .ok u ↔ ok = true := by
  cases ok with
  | true => exact iff_of_true rfl rfl
  | false => exact iff_of_false nofun nofun

theorem require_bind {ok : Bool} {refusal : Refusal} {f : Unit → Result β}
    {b : β} :
    (require ok refusal >>= f) = .ok b ↔ ok = true ∧ f () = .ok b := by
  rw [bind_ok]
  constructor
  · rintro ⟨_, hok, hf⟩
    exact ⟨require_ok.mp hok, hf⟩
  · rintro ⟨hok, hf⟩
    exact ⟨(), require_ok.mpr hok, hf⟩

theorem read_ok {decoded : Option α} {value : α} :
    read decoded = .ok value ↔ decoded = some value := by
  cases decoded with
  | none => exact iff_of_false nofun nofun
  | some v =>
    constructor
    · intro h
      rw [Except.ok.inj h]
    · intro h
      rw [Option.some.inj h]
      rfl

theorem read_bind {decoded : Option α} {f : α → Result β} {b : β} :
    (read decoded >>= f) = .ok b ↔ ∃ value, decoded = some value ∧
      f value = .ok b := by
  rw [bind_ok]
  simp only [read_ok]

theorem pure_ok {a b : α} : (pure a : Result α) = .ok b ↔ b = a := by
  constructor
  · intro h
    exact (Except.ok.inj h).symm
  · rintro rfl
    rfl

theorem checkEach_ok {check : α → Result Unit} {l : List α} {u : Unit} :
    checkEach check l = .ok u ↔ ∀ c ∈ l, check c = .ok () := by
  induction l with
  | nil => exact iff_of_true rfl fun _ hc => by cases hc
  | cons c rest ih =>
    unfold checkEach
    rw [bind_ok, List.forall_mem_cons]
    constructor
    · rintro ⟨_, hc, hrest⟩
      exact ⟨hc, ih.mp hrest⟩
    · rintro ⟨hc, hrest⟩
      exact ⟨(), hc, ih.mpr hrest⟩

theorem checkEach_bind {check : α → Result Unit} {l : List α}
    {f : Unit → Result β} {b : β} :
    (checkEach check l >>= f) = .ok b ↔
      (∀ c ∈ l, check c = .ok ()) ∧ f () = .ok b := by
  rw [bind_ok]
  constructor
  · rintro ⟨_, hl, hf⟩
    exact ⟨checkEach_ok.mp hl, hf⟩
  · rintro ⟨hl, hf⟩
    exact ⟨(), checkEach_ok.mpr hl, hf⟩

end Results

/-- An instant whose remainder is not negative. -/
def Exact (ms : ℤ) : Prop := 0 ≤ ms ∨ 1000 ∣ ms

theorem tmod_exact {ms : ℤ} (h : Exact ms) : Int.tmod ms 1000 = ms % 1000 := by
  have hcond : 0 ≤ ms ∨ 1000 ∣ ms := h
  rw [Int.tmod_eq_emod, if_pos hcond]
  omega

theorem tmod_not_exact {ms : ℤ} (h : ¬ Exact ms) :
    Int.tmod ms 1000 = ms % 1000 - 1000 := by
  have hcond : ¬ (0 ≤ ms ∨ 1000 ∣ ms) := h
  rw [Int.tmod_eq_emod, if_neg hcond]
  rfl

theorem exact_iff (ms : ℤ) : Exact ms ↔ 0 ≤ Int.tmod ms 1000 := by
  constructor
  · intro h
    rw [tmod_exact h]
    omega
  · intro h
    by_contra hnot
    rw [tmod_not_exact hnot] at h
    omega

theorem timestamp_seconds (date : Datetime) :
    (timestamp date.ms).seconds.toInt = date.ms / 1000 := by
  have hfrom := date.fromYearZero
  have hto := date.toYear9999
  exact Int64.toInt_ofInt_of_le (by omega) (by omega)

theorem tmod_lt (ms : ℤ) : |Int.tmod ms 1000| ≤ 999 := by
  by_cases h : Exact ms
  · rw [tmod_exact h, abs_le]
    omega
  · have hnot : ¬ (0 ≤ ms ∨ 1000 ∣ ms) := h
    rw [tmod_not_exact h, abs_le]
    omega

theorem timestamp_nanos (ms : ℤ) :
    (timestamp ms).nanos.toInt = Int.tmod ms 1000 * 1000000 := by
  have h := abs_le.mp (tmod_lt ms)
  exact Int32.toInt_ofInt_of_le (by omega) (by omega)

/-- The expiry is read back exactly when its remainder is not negative. -/
theorem iso_timestamp (date : Datetime) (ms : ℤ) :
    iso (some (timestamp date.ms)) = .ok ms ↔
      Exact date.ms ∧ ms = date.ms := by
  have hfrom := date.fromYearZero
  have hto := date.toYear9999
  have hmod := abs_le.mp (tmod_lt date.ms)
  simp only [iso, require_bind, pure_ok, timestamp_seconds, timestamp_nanos,
    Bool.and_eq_true, decide_eq_true_eq, maxSafeInteger]
  have hms : Exact date.ms →
      (date.ms / 1000 * 1000000000 + Int.tmod date.ms 1000 * 1000000).tdiv
        1000000 = date.ms := by
    intro hexact
    have hsum : date.ms / 1000 * 1000000000 +
        date.ms % 1000 * 1000000 = date.ms * 1000000 := by omega
    rw [tmod_exact hexact, hsum, Int.mul_tdiv_cancel _ (by decide)]
  constructor
  · rintro ⟨⟨⟨_, hnanos⟩, _⟩, _, rfl⟩
    have hexact : Exact date.ms := (exact_iff _).mpr (by omega)
    exact ⟨hexact, hms hexact⟩
  · rintro ⟨hexact, rfl⟩
    have hnonneg := (exact_iff _).mp hexact
    rw [hms hexact]
    refine ⟨⟨⟨abs_le.mpr ⟨?_, ?_⟩, ?_⟩, ?_⟩, abs_le.mpr ⟨?_, ?_⟩, rfl⟩ <;>
      omega

section

variable {S E : Type} {isIxoAddress : String → Bool} {C : Codec S E}
  {p : Request}

namespace Authorization

def encode (C : Codec S E) : Authorization S E → List UInt8
  | .submit value => C.encodeSubmit value
  | .evaluate value => C.encodeEvaluate value

theorem encode_inj {auth a : Authorization S E} (hrole : auth.role = a.role)
    (h : auth.encode C = a.encode C) : auth = a := by
  cases auth with
  | submit d =>
    cases a with
    | submit d' =>
      have hdecode := congrArg C.decodeSubmit h
      dsimp only [encode] at hdecode
      rw [C.submit_roundTrip, C.submit_roundTrip] at hdecode
      rw [Option.some.inj hdecode]
    | evaluate d' => cases hrole
  | evaluate d =>
    cases a with
    | submit d' => cases hrole
    | evaluate d' =>
      have hdecode := congrArg C.decodeEvaluate h
      dsimp only [encode] at hdecode
      rw [C.evaluate_roundTrip, C.evaluate_roundTrip] at hdecode
      rw [Option.some.inj hdecode]

def count : Authorization S E → ℕ
  | .submit value => value.constraints.length
  | .evaluate value => value.constraints.length

def ConstraintsPass (isIxoAddress : String → Bool) : Authorization S E → Prop
  | .submit value => ∀ c ∈ value.constraints, c.check isIxoAddress = .ok ()
  | .evaluate value => ∀ c ∈ value.constraints, c.check = .ok ()

/-- What the decoder asks of an authorization. -/
structure Passes (isIxoAddress : String → Bool) (a : Authorization S E) :
    Prop where
  admin : isIxoAddress a.admin = true
  count : a.count ≤ 128
  constraints : a.ConstraintsPass isIxoAddress

end Authorization

variable {auth : Authorization S E}

theorem nestedSubmit_ok {value : List UInt8} :
    nestedSubmit isIxoAddress C value = .ok auth ↔
      auth.role = .submit ∧ value = auth.encode C ∧
        auth.Passes isIxoAddress := by
  unfold nestedSubmit
  simp only [read_bind, require_bind, checkEach_bind, pure_ok,
    decide_eq_true_eq]
  constructor
  · rintro ⟨d, _, hvalue, hadmin, hcount, hconstraints, rfl⟩
    exact ⟨rfl, hvalue, hadmin, hcount, hconstraints⟩
  · rintro ⟨hrole, hvalue, hpasses⟩
    cases auth with
    | evaluate d => cases hrole
    | submit d =>
      have hdecode : C.decodeSubmit value = some d := by
        rw [hvalue]
        exact C.submit_roundTrip d
      exact ⟨d, hdecode, hvalue, hpasses.admin, hpasses.count,
        hpasses.constraints, rfl⟩

theorem nestedEvaluate_ok {value : List UInt8} :
    nestedEvaluate isIxoAddress C value = .ok auth ↔
      auth.role = .evaluate ∧ value = auth.encode C ∧
        auth.Passes isIxoAddress := by
  unfold nestedEvaluate
  simp only [read_bind, require_bind, checkEach_bind, pure_ok,
    decide_eq_true_eq]
  constructor
  · rintro ⟨d, _, hvalue, hadmin, hcount, hconstraints, rfl⟩
    exact ⟨rfl, hvalue, hadmin, hcount, hconstraints⟩
  · rintro ⟨hrole, hvalue, hpasses⟩
    cases auth with
    | submit d => cases hrole
    | evaluate d =>
      have hdecode : C.decodeEvaluate value = some d := by
        rw [hvalue]
        exact C.evaluate_roundTrip d
      exact ⟨d, hdecode, hvalue, hpasses.admin, hpasses.count,
        hpasses.constraints, rfl⟩

/-- The decoder takes the encoding of what passes, and nothing else. -/
theorem nested_ok {role : Role} {value : List UInt8} :
    nested isIxoAddress C role.typeUrl value = .ok auth ↔
      auth.role = role ∧ value = auth.encode C ∧ auth.Passes isIxoAddress := by
  cases role with
  | submit => exact nestedSubmit_ok
  | evaluate => exact nestedEvaluate_ok

/-- The grant on the chain as the request names it: of the role, under the
admin, with the requested expiry. -/
structure Matches (isIxoAddress : String → Bool) (C : Codec S E)
    (p : Request) (existing : Existing) (auth : Authorization S E) :
    Prop where
  role : existing.role = p.role
  authRole : auth.role = p.role
  decodes : bytes existing.valueBase64 = .ok (auth.encode C)
  passes : auth.Passes isIxoAddress
  admin : auth.admin = p.adminAddress
  expiry : ∃ date, existing.expiresAt = some date ∧ date.ms = p.expiresAt.ms

theorem checkExisting_ok {u : Unit} : checkExisting isIxoAddress C p = .ok u ↔
      ∀ existing ∈ p.existing, ∃ auth,
        Matches isIxoAddress C p existing auth := by
  unfold checkExisting
  cases p.existing with
  | none => exact iff_of_true rfl fun _ h => by cases h
  | some existing =>
    rw [require_bind, decide_eq_true_eq]
    simp only [bind_ok, Option.mem_some_iff, forall_eq']
    constructor
    · rintro ⟨hrole, value, hvalue, auth, hauth, _, hadmin, hexpiry⟩
      obtain ⟨hauthRole, rfl, hpasses⟩ := nested_ok.mp hauth
      cases hdate : existing.expiresAt with
      | none =>
        rw [hdate] at hexpiry
        cases hexpiry
      | some date =>
        rw [hdate] at hexpiry
        exact ⟨auth, hrole, hauthRole, hvalue, hpasses,
          of_decide_eq_true (require_ok.mp hadmin), date, hdate,
          of_decide_eq_true (require_ok.mp hexpiry)⟩
    · rintro ⟨auth, hrole, hauthRole, hvalue, hpasses, hadmin, date, hdate,
        hexpiry⟩
      refine ⟨hrole, _, hvalue, auth, nested_ok.mpr
        ⟨hauthRole, rfl, hpasses⟩, (), require_ok.mpr ?_, ?_⟩
      · exact decide_eq_true hadmin
      · rw [hdate]
        exact require_ok.mpr (decide_eq_true hexpiry)

/-- The requested constraint, then the prior ones that stay. -/
inductive Merged (C : Codec S E) (p : Request) : Authorization S E → Prop
  | submit (prior : List (SubmitConstraint S))
      (hrole : p.role = .submit)
      (hprior : priorSubmit C p = .ok prior) :
      Merged C p (.submit
        { admin := p.adminAddress
          constraints := nextSubmit C p :: prior.filter (keepsSubmit p) })
  | evaluate (prior : List (EvaluateConstraint E)) (beforeDate : Datetime)
      (hrole : p.role = .evaluate)
      (hdate : p.beforeDate = some beforeDate)
      (hwithin : beforeDate.ms ≤ p.expiresAt.ms)
      (hprior : priorEvaluate C p = .ok prior) :
      Merged C p (.evaluate
        { admin := p.adminAddress
          constraints :=
            nextEvaluate C p beforeDate :: prior.filter (keepsEvaluate p) })

theorem Merged.role {a : Authorization S E} (h : Merged C p a) :
    a.role = p.role := by
  cases h with
  | submit prior hrole hprior => exact hrole.symm
  | evaluate prior beforeDate hrole hdate hwithin hprior => exact hrole.symm

theorem Merged.admin {a : Authorization S E} (h : Merged C p a) :
    a.admin = p.adminAddress := by
  cases h with
  | submit prior hrole hprior => rfl
  | evaluate prior beforeDate hrole hdate hwithin hprior => rfl

theorem encodedAuthorization_ok {encoded : List UInt8} :
    encodedAuthorization C p = .ok encoded ↔
      ∃ a, Merged C p a ∧ encoded = a.encode C := by
  unfold encodedAuthorization
  cases hrole : p.role with
  | submit =>
    dsimp only [encodedSubmit]
    rw [bind_ok]
    simp only [pure_ok]
    constructor
    · rintro ⟨prior, hprior, rfl⟩
      exact ⟨_, .submit prior hrole hprior, rfl⟩
    · rintro ⟨a, ha, rfl⟩
      cases ha with
      | submit prior hsubmit hprior => exact ⟨prior, hprior, rfl⟩
      | evaluate prior beforeDate hevaluate hdate hwithin hprior =>
        rw [hrole] at hevaluate
        cases hevaluate
  | evaluate =>
    dsimp only [encodedEvaluate]
    constructor
    · intro h
      cases hdate : p.beforeDate with
      | none =>
        rw [hdate] at h
        cases h
      | some beforeDate =>
        rw [hdate] at h
        dsimp only at h
        rw [require_bind, bind_ok] at h
        obtain ⟨hwithin, prior, hprior, hencoded⟩ := h
        exact ⟨_, .evaluate prior beforeDate hrole hdate
          (of_decide_eq_true hwithin) hprior, pure_ok.mp hencoded⟩
    · rintro ⟨a, ha, rfl⟩
      cases ha with
      | submit prior hsubmit hprior =>
        rw [hrole] at hsubmit
        cases hsubmit
      | evaluate prior beforeDate hevaluate hdate hwithin hprior =>
        rw [hdate]
        rw [require_bind, bind_ok]
        exact ⟨decide_eq_true hwithin, prior, hprior, rfl⟩

/-- The message a merged authorization travels in. -/
def grantOf (C : Codec S E) (p : Request) (a : Authorization S E) :
    GrantMessage :=
  grantMessage p (a.encode C)

/-- What the decoder reads in that message. -/
def decodedGrant (C : Codec S E) (p : Request) (a : Authorization S E) :
    Decoded S E where
  message := grantOf C p a
  review := {
    ownerAddress := p.ownerAddress
    entityDid := p.entityDid
    adminAddress := a.admin
    granteeAddress := p.granteeAddress
    role := a.role
    expiresAt := p.expiresAt.ms
    authorization := a }

/-- The message is at most as long as its schema allows. -/
def Fits (C : Codec S E) (message : GrantMessage) : Prop :=
  (wireOf C message).valueBase64.length ≤ 131072

theorem Request.valid_iff : p.valid isIxoAddress = true ↔
      (isIxoAddress p.ownerAddress = true ∧
        didPrefix.toList.isPrefixOf p.entityDid.toList = true ∧
        isIxoAddress p.adminAddress = true ∧
        isIxoAddress p.granteeAddress = true ∧
        sized 1 256 p.collectionId = true ∧ quota p.agentQuota = true) ∧
      ∀ existing ∈ p.existing, 1 ≤ existing.valueBase64.length ∧
        existing.valueBase64.length ≤ 131072 := by
  simp only [Request.valid, Bool.and_eq_true, Option.all_eq_true,
    decide_eq_true_eq, Option.mem_def]
  tauto

theorem decodeTopicGrant_ok (hvalid : p.valid isIxoAddress = true)
    {a : Authorization S E} (hrole : a.role = p.role)
    {decoded : Decoded S E} :
    decodeTopicGrant isIxoAddress C (wireOf C (grantOf C p a)) = .ok decoded ↔
      Fits C (grantOf C p a) ∧ a.Passes isIxoAddress ∧
        Exact p.expiresAt.ms ∧ decoded = decodedGrant C p a := by
  obtain ⟨⟨howner, hid, _, hgrantee, _⟩, _⟩ := Request.valid_iff.mp hvalid
  have hbytes : bytes (wireOf C (grantOf C p a)).valueBase64 =
      .ok (C.encodeGrant (grantOf C p a)) :=
    read_ok.mpr (Base64.atob_btoa _)
  have hname : (grantOf C p a).name ≠ "" := by
    show "admin" ≠ ""
    decide
  have hnonempty : 1 ≤ (wireOf C (grantOf C p a)).valueBase64.length :=
    List.length_pos_iff.mpr (Base64.btoa_ne_nil (C.grant_nonempty _ hname))
  have hnested : ∀ auth,
      nested isIxoAddress C p.role.typeUrl (a.encode C) = .ok auth ↔
        auth = a ∧ a.Passes isIxoAddress := by
    intro auth
    constructor
    · intro hauth
      obtain ⟨hauthRole, hencode, hpasses⟩ := nested_ok.mp hauth
      obtain rfl := Authorization.encode_inj (hauthRole.trans hrole.symm)
        hencode.symm
      exact ⟨rfl, hpasses⟩
    · rintro ⟨rfl, hpasses⟩
      exact nested_ok.mpr ⟨hrole, rfl, hpasses⟩
  unfold decodeTopicGrant
  rw [require_bind, hbytes, ok_bind, read_bind, C.grant_roundTrip]
  simp only [Option.some.injEq, exists_eq_left']
  rw [require_bind, require_bind, require_bind]
  dsimp only [grantOf, grantMessage]
  rw [require_bind, bind_ok]
  simp only [hnested, bind_ok, iso_timestamp, pure_ok, Bool.and_eq_true]
  constructor
  · rintro ⟨⟨_, hfits⟩, _, _, _, _, auth, ⟨rfl, hpasses⟩, ms,
      ⟨hexact, rfl⟩, rfl⟩
    have hlength := of_decide_eq_true hfits
    exact ⟨hlength, hpasses, hexact, rfl⟩
  · rintro ⟨hfits, hpasses, hexact, rfl⟩
    have hlength : (wireOf C (grantOf C p a)).valueBase64.length ≤ 131072 :=
      hfits
    exact ⟨⟨⟨decide_eq_true rfl, decide_eq_true hnonempty⟩,
      decide_eq_true hlength⟩, decide_eq_true trivial, howner, hgrantee,
      ⟨decide_eq_true trivial, hid⟩, a, ⟨rfl, hpasses⟩, _, ⟨hexact, rfl⟩, rfl⟩

end

end TopicGrants

end QiForge
