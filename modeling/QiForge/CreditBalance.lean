import QiForge.Pointwise

/-!
# The credit balance of a user

The balance and the held amount of each user in Redis, and the credits on the
chain.  A charge is one script; an override reads the held amount and writes
the balance in two steps, with a chain balance fetched before.  What the chain
granted, and what was accepted, settled and charged, is kept as a history.
-/

namespace QiForge

inductive LimitedType where
  | token
  | request
deriving DecidableEq, Repr

structure TokenLimiterError where
  message : String
  type : LimitedType
  limit : Option ℤ
  reset : Option ℤ
  currentBalance : Option ℤ
deriving DecidableEq, Repr

structure LimitResult where
  success : Bool
  remaining : ℤ
deriving DecidableEq, Repr

/-- `LIMIT_TOKENS_SCRIPT`: its answer, the balance and the held amount. -/
def limitTokensScript (balance heldAmount tokenCount : ℤ) :
    (ℕ × ℤ × String) × ℤ × ℤ :=
  let newBalance := balance - tokenCount
  if newBalance < 0 then
    ((0, newBalance + tokenCount, "INSUFFICIENT_BALANCE"),
      newBalance + tokenCount, heldAmount)
  else
    ((1, newBalance, "SUCCESS"), newBalance, heldAmount + tokenCount)

/-- What the second step of `overrideUserBalance` answers and writes. -/
def overrideBalance (disableCredits : Bool) (balance heldAmount : ℤ) :
    Except TokenLimiterError ℤ × ℤ :=
  let newBalance := balance - heldAmount
  if newBalance < 0 then
    if disableCredits then (.ok 0, 0)
    else
      (.error ⟨"It looks like you have some usage pending that's higher " ++
        "than your current balance (" ++ toString ((balance : ℚ) / 1000) ++
        "). Please add more credits to your account to continue. If you " ++
        "think this is a mistake, please contact support. (Held: " ++
        toString ((heldAmount : ℚ) / 1000) ++ ")",
        .token, none, none, some balance⟩, 0)
  else (.ok newBalance, newBalance)

/-- An override on its way: the balance it fetched and, once read, the held
amount; what was granted, accepted and settled when it fetched, and what was
settled and charged when it read. -/
structure BalanceOverride where
  balance : ℤ
  granted : ℤ
  accepted : ℤ
  settled : ℤ
  read : Option ℤ
  settledAtRead : ℤ
  chargedAtRead : ℤ
deriving DecidableEq, Repr

structure UserCredits where
  balance : ℤ
  heldAmount : ℤ
  chain : ℤ
  overrides : List BalanceOverride
  latest : Option BalanceOverride
  granted : ℤ
  accepted : ℤ
  settled : ℤ
  charged : ℤ
deriving DecidableEq, Repr

inductive CreditEvent where
  | limit (credits : ℤ)
  | fetchBalance
  | readHeldAmount (override : ℕ)
  | writeBalance (override : ℕ)
  | topUp (amount : ℤ)
  | acceptClaim (amount : ℤ)
  | incrementUserHeldAmount (amount : ℤ)
  | deleteUserHeldAmount
deriving DecidableEq, Repr

namespace UserCredits

def start (chain : ℕ) : UserCredits where
  balance := 0
  heldAmount := 0
  chain := chain
  overrides := []
  latest := none
  granted := chain
  accepted := 0
  settled := 0
  charged := 0

def limit (u : UserCredits) (credits : ℤ) :
    Except TokenLimiterError LimitResult × UserCredits :=
  match limitTokensScript u.balance u.heldAmount credits with
  | ((success, balance, _), newBalance, newHeld) =>
      let u := { u with
        balance := newBalance
        heldAmount := newHeld
        charged := u.charged + (newHeld - u.heldAmount) }
      if success = 0 then
        (.error ⟨"Insufficient balance. Current balance: " ++
          toString balance, .token, some credits, none, some balance⟩, u)
      else (.ok ⟨true, balance⟩, u)

/-- Takes a settled amount out of the held amount. -/
def settle (u : UserCredits) (amount : ℤ) : UserCredits := { u with
    heldAmount := u.heldAmount - amount
    settled := u.settled + amount }

def step (disableCredits : Bool) (u : UserCredits) :
    CreditEvent → Option UserCredits
  | .limit credits =>
      if 0 ≤ credits then some (u.limit credits).2 else none
  | .fetchBalance =>
      some { u with
        overrides := u.overrides ++ [⟨u.chain, u.granted, u.accepted,
          u.settled, none, 0, 0⟩] }
  | .readHeldAmount i =>
      u.overrides[i]?.bind fun override =>
        if override.read.isSome then none
        else
          some { u with
            overrides := u.overrides.set i { override with
              read := some u.heldAmount
              settledAtRead := u.settled
              chargedAtRead := u.charged } }
  | .writeBalance i =>
      u.overrides[i]?.bind fun override =>
        override.read.map fun heldAmount =>
          { u with
            balance := (overrideBalance disableCredits override.balance
              heldAmount).2
            overrides := u.overrides.eraseIdx i
            latest := some override }
  | .topUp amount =>
      if 0 ≤ amount then
        some { u with
          chain := u.chain + amount
          granted := u.granted + amount }
      else none
  | .acceptClaim amount =>
      if 0 ≤ amount then
        some { u with
          chain := u.chain - amount
          accepted := u.accepted + amount }
      else none
  | .incrementUserHeldAmount amount =>
      if amount ≤ 0 then some (u.settle (-amount)) else none
  | .deleteUserHeldAmount => some (u.settle u.heldAmount)

end UserCredits

/-- The credits of every user. -/
abbrev CreditsStore := String → UserCredits

def CreditsStore.step (disableCredits : Bool) :
    CreditsStore → String × CreditEvent → Option CreditsStore :=
  Transition.pointwise fun _ => UserCredits.step disableCredits

namespace UserCredits

/-- Balance, held amount and what was settled since the balance of the last
override was fetched are covered by that balance and later top-ups. -/
def Covered (u : UserCredits) : Prop := ∀ override, u.latest = some override →
    u.balance + u.heldAmount + (u.settled - override.settled) ≤
      override.balance + (u.granted - override.granted)

/-- An override is written as if it were one step with its fetch: no charge
since it read the held amount, no settlement between its fetch and that read,
and no more held than the balance it fetched. -/
def Undisturbed (u : UserCredits) : CreditEvent → Prop
  | .writeBalance i => ∀ override ∈ u.overrides[i]?,
      ∀ heldAmount ∈ override.read, override.chargedAtRead = u.charged ∧
          override.settled = override.settledAtRead ∧
            heldAmount ≤ override.balance
  | _ => True

/-- A settlement takes out no more than what the accepted claims are of. -/
def Paid (u : UserCredits) : CreditEvent → Prop
  | .incrementUserHeldAmount amount => u.settled - amount ≤ u.accepted
  | .deleteUserHeldAmount => u.settled + u.heldAmount ≤ u.accepted
  | _ => True

/-- A refused limit changes nothing; an accepted one moves its credits from
the balance to the held amount. -/
def LimitMoves (u : UserCredits) : Prop := ∀ credits, 0 ≤ credits →
    (u.balance < credits ∧ (∃ error, (u.limit credits).1 = .error error) ∧
      (u.limit credits).2 = u) ∨
    (credits ≤ u.balance ∧
      (u.limit credits).1 = .ok ⟨true, u.balance - credits⟩ ∧
      (u.limit credits).2 = { u with
        balance := u.balance - credits
        heldAmount := u.heldAmount + credits
        charged := u.charged + credits })

variable {disableCredits : Bool} {u u' : UserCredits} {event : CreditEvent}

instance : Decidable (u.Undisturbed event) := by
  cases event <;> unfold Undisturbed <;> infer_instance

instance : Decidable (u.Paid event) := by
  cases event <;> unfold Paid <;> infer_instance

/-- What was true of an override when it fetched and when it read. -/
structure Fetched (granted : ℤ) (override : BalanceOverride) : Prop where
  granted : override.granted ≤ granted
  balance : override.balance = override.granted - override.accepted
  read : ∀ heldAmount, override.read = some heldAmount →
    heldAmount = override.chargedAtRead - override.settledAtRead

structure Sound (u : UserCredits) : Prop where
  balance : 0 ≤ u.balance
  heldAmount : u.heldAmount = u.charged - u.settled
  chain : u.chain = u.granted - u.accepted
  overrides : ∀ override ∈ u.overrides, Fetched u.granted override
  latest : ∀ override, u.latest = some override → Fetched u.granted override
  unwritten : u.latest = none → u.balance = 0 ∧ u.charged = 0
  granted : 0 ≤ u.granted

/-- Nothing was settled that was not accepted. -/
structure Accepted (u : UserCredits) : Prop where
  settled : u.settled ≤ u.accepted
  overrides : ∀ override ∈ u.overrides, override.settled ≤ override.accepted
  latest : ∀ override, u.latest = some override →
    override.settled ≤ override.accepted

theorem limit_accepted {credits : ℤ} (h : credits ≤ u.balance) :
    u.limit credits = (.ok ⟨true, u.balance - credits⟩, { u with
        balance := u.balance - credits
        heldAmount := u.heldAmount + credits
        charged := u.charged + credits }) := by
  have hnot : ¬ u.balance - credits < 0 := by omega
  simp [limit, limitTokensScript, hnot]

theorem limit_refused {credits : ℤ} (h : u.balance < credits) :
    u.limit credits = (.error ⟨"Insufficient balance. Current balance: " ++
      toString u.balance, .token, some credits, none, some u.balance⟩,
      u) := by
  have hneg : u.balance - credits < 0 := by omega
  simp [limit, limitTokensScript, hneg]

theorem limitMoves (u : UserCredits) : u.LimitMoves := by
  intro credits _
  rcases lt_or_ge u.balance credits with hlt | hge
  · rw [limit_refused hlt]
    exact .inl ⟨hlt, ⟨_, rfl⟩, rfl⟩
  · rw [limit_accepted hge]
    exact .inr ⟨hge, rfl, rfl⟩

theorem Fetched.mono {granted granted' : ℤ} {override : BalanceOverride}
    (h : Fetched granted override) (hgranted : granted ≤ granted') :
    Fetched granted' override :=
  ⟨h.granted.trans hgranted, h.balance, h.read⟩

theorem overrideBalance_nonneg (balance heldAmount : ℤ) :
    0 ≤ (overrideBalance disableCredits balance heldAmount).2 := by
  unfold overrideBalance
  dsimp only
  split
  · split <;> exact le_rfl
  · exact not_lt.mp ‹_›

theorem overrideBalance_eq {balance heldAmount : ℤ}
    (h : heldAmount ≤ balance) :
    (overrideBalance disableCredits balance heldAmount).2 =
      balance - heldAmount := by
  unfold overrideBalance
  exact congrArg Prod.snd (if_neg (by omega))

theorem Sound.settle (h : u.Sound) (amount : ℤ) : (u.settle amount).Sound := by
  have hheld := h.heldAmount
  refine { h with heldAmount := ?_ }
  · dsimp only [UserCredits.settle]
    omega

theorem Sound.step (h : u.Sound)
    (hstep : u.step disableCredits event = some u') : u'.Sound := by
  cases event with
  | limit credits =>
      rcases Option.ite_none_right_eq_some.mp hstep with ⟨hcredits, hsome⟩
      cases hsome
      by_cases hfit : credits ≤ u.balance
      · rw [limit_accepted hfit]
        have hheld := h.heldAmount
        refine { h with balance := ?_, heldAmount := ?_, unwritten := ?_ }
        · dsimp only
          omega
        · dsimp only
          omega
        · intro hnone
          rcases h.unwritten hnone with ⟨hbalance, hcharged⟩
          dsimp only
          omega
      · rw [limit_refused (not_le.mp hfit)]
        exact h
  | fetchBalance =>
      cases hstep
      refine ⟨h.balance, h.heldAmount, h.chain, ?_, h.latest, h.unwritten,
        h.granted⟩
      intro override hoverride
      rcases List.mem_append.mp hoverride with hold | hnew
      · exact h.overrides override hold
      · rw [List.mem_singleton.mp hnew]
        exact ⟨le_rfl, h.chain, nofun⟩
  | readHeldAmount i =>
      rcases Option.bind_eq_some_iff.mp hstep with ⟨override, hget, hread⟩
      rcases Option.ite_none_left_eq_some.mp hread with ⟨-, hsome⟩
      cases hsome
      refine ⟨h.balance, h.heldAmount, h.chain, ?_, h.latest, h.unwritten,
        h.granted⟩
      intro other hother
      rcases List.mem_or_eq_of_mem_set hother with hold | rfl
      · exact h.overrides other hold
      · have hfetched := h.overrides override (List.mem_of_getElem? hget)
        refine ⟨hfetched.granted, hfetched.balance, ?_⟩
        intro heldAmount heq
        rw [← Option.some.inj heq]
        exact h.heldAmount
  | writeBalance i =>
      rcases Option.bind_eq_some_iff.mp hstep with ⟨override, hget, hmap⟩
      rcases Option.map_eq_some_iff.mp hmap with ⟨heldAmount, -, rfl⟩
      refine ⟨overrideBalance_nonneg _ _, h.heldAmount, h.chain, ?_, ?_,
        nofun, h.granted⟩
      · exact fun other hother =>
          h.overrides other (List.mem_of_mem_eraseIdx hother)
      · intro other hother
        rw [← Option.some.inj hother]
        exact h.overrides override (List.mem_of_getElem? hget)
  | topUp amount =>
      rcases Option.ite_none_right_eq_some.mp hstep with ⟨hamount, hsome⟩
      cases hsome
      have hchain := h.chain
      have hgranted := h.granted
      have hmono : u.granted ≤ u.granted + amount := by omega
      refine ⟨h.balance, h.heldAmount, ?_, ?_, ?_, h.unwritten,
        hgranted.trans hmono⟩
      · dsimp only
        omega
      · exact fun other hother => (h.overrides other hother).mono hmono
      · exact fun other hother => (h.latest other hother).mono hmono
  | acceptClaim amount =>
      rcases Option.ite_none_right_eq_some.mp hstep with ⟨-, hsome⟩
      cases hsome
      have hchain := h.chain
      refine ⟨h.balance, h.heldAmount, ?_, h.overrides, h.latest,
        h.unwritten, h.granted⟩
      dsimp only
      omega
  | incrementUserHeldAmount amount =>
      rcases Option.ite_none_right_eq_some.mp hstep with ⟨-, hsome⟩
      cases hsome
      exact h.settle (-amount)
  | deleteUserHeldAmount =>
      cases hstep
      exact h.settle u.heldAmount

theorem Covered.settle (h : u.Covered) (amount : ℤ) :
    (u.settle amount).Covered := by
  intro override hlatest
  have hcovered := h override hlatest
  dsimp only [UserCredits.settle]
  omega

/-- An undisturbed override covers what it leaves, also where nothing was
covered before. -/
theorem covered_writeBalance {i : ℕ} (hsound : u.Sound)
    (hmeets : u.Undisturbed (.writeBalance i))
    (hstep : u.step disableCredits (.writeBalance i) = some u') :
    u'.Covered := by
  rcases Option.bind_eq_some_iff.mp hstep with ⟨override, hget, hmap⟩
  rcases Option.map_eq_some_iff.mp hmap with ⟨heldAmount, hread, rfl⟩
  rcases hmeets override hget heldAmount hread with
    ⟨hcharged, hsettled, hle⟩
  have hfetched := hsound.overrides override (List.mem_of_getElem? hget)
  have hheld := hfetched.read heldAmount hread
  have hnow := hsound.heldAmount
  have hgranted := hfetched.granted
  intro other hother
  cases hother
  rw [overrideBalance_eq hle]
  dsimp only
  omega

theorem Covered.step (h : u.Covered) (hsound : u.Sound)
    (hmeets : u.Undisturbed event)
    (hstep : u.step disableCredits event = some u') : u'.Covered := by
  cases event with
  | limit credits =>
      rcases Option.ite_none_right_eq_some.mp hstep with ⟨hcredits, hsome⟩
      cases hsome
      by_cases hfit : credits ≤ u.balance
      · rw [limit_accepted hfit]
        intro override hlatest
        have hcovered := h override hlatest
        dsimp only
        omega
      · rw [limit_refused (not_le.mp hfit)]
        exact h
  | fetchBalance =>
      cases hstep
      exact h
  | readHeldAmount i =>
      rcases Option.bind_eq_some_iff.mp hstep with ⟨override, -, hread⟩
      rcases Option.ite_none_left_eq_some.mp hread with ⟨-, hsome⟩
      cases hsome
      exact h
  | writeBalance i => exact covered_writeBalance hsound hmeets hstep
  | topUp amount =>
      rcases Option.ite_none_right_eq_some.mp hstep with ⟨hamount, hsome⟩
      cases hsome
      intro override hlatest
      have hcovered := h override hlatest
      dsimp only
      omega
  | acceptClaim amount =>
      rcases Option.ite_none_right_eq_some.mp hstep with ⟨-, hsome⟩
      cases hsome
      exact h
  | incrementUserHeldAmount amount =>
      rcases Option.ite_none_right_eq_some.mp hstep with ⟨-, hsome⟩
      cases hsome
      exact h.settle (-amount)
  | deleteUserHeldAmount =>
      cases hstep
      exact h.settle u.heldAmount

theorem Accepted.step (h : u.Accepted) (hpaid : u.Paid event)
    (hstep : u.step disableCredits event = some u') : u'.Accepted := by
  cases event with
  | limit credits =>
      rcases Option.ite_none_right_eq_some.mp hstep with ⟨-, hsome⟩
      cases hsome
      by_cases hfit : credits ≤ u.balance
      · rw [limit_accepted hfit]
        exact { h with }
      · rw [limit_refused (not_le.mp hfit)]
        exact h
  | fetchBalance =>
      cases hstep
      refine ⟨h.settled, ?_, h.latest⟩
      intro override hoverride
      rcases List.mem_append.mp hoverride with hold | hnew
      · exact h.overrides override hold
      · rw [List.mem_singleton.mp hnew]
        exact h.settled
  | readHeldAmount i =>
      rcases Option.bind_eq_some_iff.mp hstep with ⟨override, hget, hread⟩
      rcases Option.ite_none_left_eq_some.mp hread with ⟨-, hsome⟩
      cases hsome
      refine ⟨h.settled, ?_, h.latest⟩
      intro other hother
      rcases List.mem_or_eq_of_mem_set hother with hold | rfl
      · exact h.overrides other hold
      · exact h.overrides override (List.mem_of_getElem? hget)
  | writeBalance i =>
      rcases Option.bind_eq_some_iff.mp hstep with ⟨override, hget, hmap⟩
      rcases Option.map_eq_some_iff.mp hmap with ⟨heldAmount, -, rfl⟩
      refine ⟨h.settled, ?_, ?_⟩
      · exact fun other hother =>
          h.overrides other (List.mem_of_mem_eraseIdx hother)
      · intro other hother
        rw [← Option.some.inj hother]
        exact h.overrides override (List.mem_of_getElem? hget)
  | topUp amount =>
      rcases Option.ite_none_right_eq_some.mp hstep with ⟨-, hsome⟩
      cases hsome
      exact { h with }
  | acceptClaim amount =>
      rcases Option.ite_none_right_eq_some.mp hstep with ⟨hamount, hsome⟩
      cases hsome
      refine ⟨?_, h.overrides, h.latest⟩
      have hsettled := h.settled
      dsimp only
      omega
  | incrementUserHeldAmount amount =>
      rcases Option.ite_none_right_eq_some.mp hstep with ⟨-, hsome⟩
      cases hsome
      refine ⟨?_, h.overrides, h.latest⟩
      have hle : u.settled - amount ≤ u.accepted := hpaid
      dsimp only [settle]
      omega
  | deleteUserHeldAmount =>
      cases hstep
      exact ⟨hpaid, h.overrides, h.latest⟩

/-- Covered charges are charges the chain granted. -/
theorem Covered.charged_le (h : u.Covered) (hsound : u.Sound)
    (haccepted : u.Accepted) :
    u.charged + u.balance ≤ u.granted := by
  cases hlatest : u.latest with
  | none =>
      rcases hsound.unwritten hlatest with ⟨hbalance, hcharged⟩
      have hgranted := hsound.granted
      omega
  | some override =>
      have hcovered := h override hlatest
      have hfetched := hsound.latest override hlatest
      have hbalance := hfetched.balance
      have hsettled := haccepted.latest override hlatest
      have hheld := hsound.heldAmount
      omega

theorem sound_start (chain : ℕ) : (start chain).Sound := by
  constructor <;> simp [start]

theorem accepted_start (chain : ℕ) : (start chain).Accepted := by
  constructor <;> simp [start]

end UserCredits

namespace CreditsStore

variable {disableCredits : Bool}

def start (chain : String → ℕ) : CreditsStore :=
  fun did => UserCredits.start (chain did)

/-- The step's override, if it is one, is undisturbed. -/
def Undisturbed : CreditsStore → String × CreditEvent → Prop :=
  Transition.AtKey fun _ => UserCredits.Undisturbed

/-- The step's settlement, if it is one, is of an accepted claim. -/
def Paid : CreditsStore → String × CreditEvent → Prop :=
  Transition.AtKey fun _ => UserCredits.Paid

instance (s : CreditsStore) (event : String × CreditEvent) :
    Decidable (s.Undisturbed event) :=
  inferInstanceAs (Decidable ((s event.1).Undisturbed event.2))

instance (s : CreditsStore) (event : String × CreditEvent) :
    Decidable (s.Paid event) :=
  inferInstanceAs (Decidable ((s event.1).Paid event.2))

variable {events : List (String × CreditEvent)} {chain : String → ℕ}

theorem run_sound {s : CreditsStore}
    (hrun : Transition.run (step disableCredits) (start chain) events =
      some s) :
    ∀ did, (s did).Sound :=
  Transition.pointwise_run_preserves (I := fun _ (u : UserCredits) => u.Sound)
    (fun _ _ _ _ hbefore hstep => hbefore.step hstep)
    (fun did => UserCredits.sound_start (chain did)) hrun

theorem run_covered {s : CreditsStore}
    (hmeets : Transition.Meets (step disableCredits) Undisturbed
      (start chain) events)
    (hrun : Transition.run (step disableCredits) (start chain) events =
      some s) :
    ∀ did, (s did).Covered := by
  have hboth : ∀ did, (s did).Sound ∧ (s did).Covered :=
    Transition.pointwise_run_preserves_of_meets
      (I := fun _ (u : UserCredits) => u.Sound ∧ u.Covered)
      (fun _ _ _ _ hbefore hcond hstep => ⟨hbefore.1.step hstep,
        hbefore.2.step hbefore.1 hcond hstep⟩)
      hmeets (fun did => ⟨UserCredits.sound_start (chain did), nofun⟩) hrun
  exact fun did => (hboth did).2

theorem run_accepted {s : CreditsStore}
    (hmeets : Transition.Meets (step disableCredits) Paid (start chain) events)
    (hrun : Transition.run (step disableCredits) (start chain) events =
      some s) :
    ∀ did, (s did).Accepted :=
  Transition.pointwise_run_preserves_of_meets
    (I := fun _ (u : UserCredits) => u.Accepted)
    (fun _ _ _ _ hbefore hcond hstep => hbefore.step hcond hstep)
    hmeets (fun did => UserCredits.accepted_start (chain did)) hrun

/-- Balances and charges in every run. -/
theorem balance_never_spent_twice (disableCredits : Bool)
    (chain : String → ℕ) (events : List (String × CreditEvent))
    (s : CreditsStore)
    (hrun : Transition.run (step disableCredits) (start chain) events =
      some s) :
    (∀ did, 0 ≤ (s did).balance ∧ (s did).LimitMoves) ∧
      (Transition.Meets (step disableCredits) Undisturbed (start chain)
          events →
        ∀ did, (s did).Covered) ∧
      (Transition.Meets (step disableCredits) Undisturbed (start chain)
          events →
        Transition.Meets (step disableCredits) Paid (start chain) events →
          ∀ did, (s did).charged ≤ (s did).granted) := by
  have hsound := run_sound hrun
  refine ⟨fun did => ⟨(hsound did).balance, (s did).limitMoves⟩, ?_, ?_⟩
  · exact fun hmeets => run_covered hmeets hrun
  · intro hmeets hpaid did
    have hcharged := (run_covered hmeets hrun did).charged_le (hsound did)
      (run_accepted hpaid hrun did)
    have hbalance := (hsound did).balance
    omega

/-- The user's events, one user's only. -/
def eventsOf (did : String) (events : List CreditEvent) :
    List (String × CreditEvent) :=
  events.map fun event => (did, event)

theorem balance_never_spent_twice_settled :
    ∃ s, Transition.run (step false) (start fun _ => 100)
        (eventsOf "did:ixo:a" [.fetchBalance, .readHeldAmount 0,
          .writeBalance 0, .limit 30, .acceptClaim 30,
          .incrementUserHeldAmount (-30), .limit 100]) = some s ∧
      (s "did:ixo:a").Covered ∧
        (s "did:ixo:a").charged ≤ (s "did:ixo:a").granted := by
  cases hrun : Transition.run (step false) (start fun _ => 100)
      (eventsOf "did:ixo:a" [.fetchBalance, .readHeldAmount 0,
        .writeBalance 0, .limit 30, .acceptClaim 30,
        .incrementUserHeldAmount (-30), .limit 100]) with
  | none =>
      have hruns : (Transition.run (step false) (start fun _ => 100)
          (eventsOf "did:ixo:a" [.fetchBalance, .readHeldAmount 0,
            .writeBalance 0, .limit 30, .acceptClaim 30,
            .incrementUserHeldAmount (-30), .limit 100])).isSome = true := by
        decide +kernel
      simp [hrun] at hruns
  | some s =>
      rcases balance_never_spent_twice false _ _ s hrun with
        ⟨-, hcovered, hcharged⟩
      exact ⟨s, rfl, hcovered (by decide +kernel) "did:ixo:a",
        hcharged (by decide +kernel) (by decide +kernel) "did:ixo:a"⟩

/-- A charge between the read and the write of an override is given back. -/
theorem balance_spent_twice : ¬ ∀ (disableCredits : Bool) (chain : String → ℕ)
        (events : List (String × CreditEvent)) (s : CreditsStore),
      Transition.run (step disableCredits) (start chain) events = some s →
        ∀ did, 0 ≤ (s did).balance ∧ (s did).LimitMoves ∧
          (s did).Covered ∧ (s did).charged ≤ (s did).granted := by
  intro hclaim
  have hcharged : (Transition.run (step false) (start fun _ => 100)
      (eventsOf "did:ixo:a" [.fetchBalance, .readHeldAmount 0,
        .writeBalance 0, .fetchBalance, .readHeldAmount 0, .limit 100,
        .writeBalance 0, .limit 100])).map
      (fun s => ((s "did:ixo:a").charged, (s "did:ixo:a").granted)) =
      some (200, 100) := by
    decide +kernel
  rcases Option.map_eq_some_iff.mp hcharged with ⟨s, hrun, hcounts⟩
  have hle := (hclaim false _ _ s hrun "did:ixo:a").2.2.2
  rcases Prod.mk.inj hcounts with ⟨htwice, hgranted⟩
  omega

end CreditsStore

end QiForge
