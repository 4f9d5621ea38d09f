import QiForge.ClaimProcessingRuns

/-!
# Every credit settled once

A command of a tick lowers the work the ticks have left, so every tick ends
when its split does, and the settlement of the credits of every user in every
run.
-/

namespace QiForge

/-- More than the commands of one amount, its attempts included. -/
def amountWork : ℕ := 32

/-- The work of a phase; a listed amount may be split into as many claims as
it has credits. -/
def TickPhase.work (amount : ℤ) : TickPhase → ℕ
  | .listed => amountWork * (amount.toNat + 1)
  | .begin => 31
  | .setPendingClaim => 30
  | .getPendingClaim _ => 30
  | .updatePendingClaim _ _ => 29
  | .invoke _ => 28
  | .task _ progress attempts => 2 + 5 * progress.tasksLeft + (3 - attempts)
  | .clearPendingClaim _ => 2
  | .takeOut _ => 1

def ClaimTick.work (t : ClaimTick) : ℕ :=
  amountWork * t.amounts.tail.length + t.phase.work t.amount

namespace UserClaims

variable {cfg : ClaimProcessingConfig} {did : String} {u u' : UserClaims}
  {t t' : ClaimTick} {progress : WorkflowProgress}

/-- The work the ticks of the user have left. -/
def work (u : UserClaims) : ℕ := (u.ticks.map ClaimTick.work).sum

/-- Whatever becomes of a command, it was one of the tick's. -/
structure LowersWork (u : UserClaims) (t : ClaimTick)
    (command : TickCommand) : Prop where
  ticks : command.effect.ticks = u.ticks
  retry : ∀ t' ∈ command.retry, t'.work < t.work
  success : ∀ u' t', command.success = some (u', t') →
    u'.ticks = u.ticks ∧ ∀ next ∈ t', next.work < t.work

theorem LowersWork.redis {next : Option ClaimTick} {after : UserClaims}
    (hticks : after.ticks = u.ticks)
    (hnext : ∀ t' ∈ next, t'.work < t.work) :
    u.LowersWork t (after.redisCommand next) := by
  refine ⟨hticks, nofun, ?_⟩
  intro u' t' hsuccess
  obtain ⟨rfl, rfl⟩ := Prod.mk.inj (Option.some.inj hsuccess)
  exact ⟨hticks, hnext⟩

theorem LowersWork.toPhase {after : UserClaims} {phase : TickPhase}
    (hticks : after.ticks = u.ticks)
    (hlt : phase.work t.amount < t.phase.work t.amount) :
    u.LowersWork t (after.redisCommand (some (t.toPhase phase))) := by
  apply LowersWork.redis hticks
  intro t' ht'
  cases ht'
  exact Nat.add_lt_add_left hlt _

theorem LowersWork.task {effect : UserClaims} {threadId : String}
    {before progress : WorkflowProgress} {attempts : ℕ}
    (hphase : t.phase = .task threadId before attempts)
    (hticks : effect.ticks = u.ticks)
    (hleft : progress.tasksLeft < before.tasksLeft) :
    u.LowersWork t ⟨effect, some (effect.finishTask t threadId progress),
      t.retry threadId before attempts⟩ := by
  refine ⟨hticks, ?_, ?_⟩
  · intro t' ht'
    rcases Option.ite_none_right_eq_some.mp ht' with ⟨hattempts, hsome⟩
    cases hsome
    unfold ClaimTick.work ClaimTick.toPhase
    rw [hphase]
    dsimp only [TickPhase.work]
    omega
  · intro u' next hsuccess
    have hfinish := Option.some.inj hsuccess
    cases progress with
    | sent cid =>
        obtain ⟨rfl, rfl⟩ := Prod.mk.inj hfinish
        refine ⟨hticks, ?_⟩
        intro t' ht'
        cases ht'
        unfold ClaimTick.work ClaimTick.toPhase
        rw [hphase]
        dsimp only [TickPhase.work]
        omega
    | begun | intentSubmitted | saved | submitted =>
        obtain ⟨rfl, rfl⟩ := Prod.mk.inj hfinish
        refine ⟨hticks, ?_⟩
        intro t' ht'
        cases ht'
        unfold ClaimTick.work ClaimTick.toPhase
        rw [hphase]
        dsimp only [TickPhase.work] at hleft ⊢
        omega

theorem next_work {cid : String} (hphase : t.phase = .takeOut cid) :
    ∀ t' ∈ t.next, t'.work < t.work := by
  intro t' ht'
  unfold ClaimTick.next at ht'
  split at ht'
  · cases ht'
  · rename_i htail
    cases ht'
    cases hamounts : t.amounts.tail with
    | nil => exact absurd hamounts htail
    | cons amount rest =>
        unfold ClaimTick.work
        rw [hphase, hamounts]
        dsimp only [TickPhase.work, List.tail_cons, List.length_cons]
        unfold amountWork
        omega

theorem evaluate_work {subscription : Option ClaimSubscription}
    {pricingList : List OraclePrice} {command : TickCommand}
    (hcommand : u.command cfg did t (.evaluate subscription pricingList) =
      some command) : u.LowersWork t command := by
  rcases Option.ite_none_right_eq_some.mp hcommand with ⟨hphase, hmap⟩
  rcases Option.map_eq_some_iff.mp hmap with ⟨evaluation, heval, rfl⟩
  cases evaluation with
  | skip => exact .redis rfl nofun
  | error => exact .redis rfl nofun
  | full =>
      apply LowersWork.toPhase rfl
      rw [hphase]
      dsimp only [TickPhase.work]
      unfold amountWork
      omega
  | split splits =>
      rcases evaluateUser_split heval with ⟨hsum, hpos, -⟩
      have hlength : (splits.length : ℤ) ≤ t.amount := by
        have hcard := List.card_nsmul_le_sum splits 1
          fun chunk hchunk => hpos chunk hchunk
        rw [hsum] at hcard
        simpa using hcard
      apply LowersWork.redis rfl
      intro t' ht'
      cases ht'
      unfold ClaimTick.work
      rw [hphase]
      dsimp only [TickPhase.work]
      unfold amountWork
      have htail := splits.length_tail
      omega

theorem redis_work {command : TickCommand} (hcommand : u.redis t =
    some command) : u.LowersWork t command := by
  cases hphase : t.phase with
  | begin =>
      rw [redis, hphase] at hcommand
      dsimp only at hcommand
      split at hcommand
      · cases hcommand
        exact .redis rfl (by simp)
      · split at hcommand
        · cases hcommand
          exact .toPhase rfl (by simp [hphase, TickPhase.work])
        · split at hcommand <;>
            · cases hcommand
              exact .toPhase rfl (by simp [hphase, TickPhase.work])
  | getPendingClaim claimId =>
      rw [redis, hphase] at hcommand
      dsimp only at hcommand
      split at hcommand <;>
        · cases hcommand
          exact .toPhase rfl (by simp [hphase, TickPhase.work])
  | updatePendingClaim claimId pending =>
      rw [redis, hphase] at hcommand
      cases hcommand
      exact .toPhase rfl (by simp [hphase, TickPhase.work])
  | clearPendingClaim cid =>
      rw [redis, hphase] at hcommand
      cases hcommand
      exact .toPhase rfl (by simp [hphase, TickPhase.work])
  | takeOut cid =>
      have hnext := next_work hphase
      rw [redis, hphase] at hcommand
      cases hcommand
      exact .redis rfl hnext
  | listed | setPendingClaim | invoke | task =>
      rw [redis, hphase] at hcommand
      cases hcommand

theorem tasksLeft_le (progress : WorkflowProgress) :
    progress.tasksLeft ≤ 4 := by
  cases progress <;> simp [WorkflowProgress.tasksLeft]

theorem command_work {event : TickEvent} {command : TickCommand}
    (hcommand : u.command cfg did t event = some command) :
    u.LowersWork t command := by
  cases event with
  | evaluate subscription pricingList => exact evaluate_work hcommand
  | redis => exact redis_work hcommand
  | createPendingClaim batchStartTime =>
      rcases Option.ite_none_right_eq_some.mp hcommand with ⟨hphase, hsome⟩
      cases hsome
      exact .toPhase rfl (by simp [hphase, TickPhase.work])
  | invoke =>
      rw [UserClaims.command] at hcommand
      split at hcommand
      · rename_i claimId hphase
        dsimp only at hcommand
        split at hcommand
        · cases hcommand
          exact .toPhase rfl (by simp [hphase, TickPhase.work])
        · cases hcommand
          have hleft := tasksLeft_le (u.threads (t.workflowThread did claimId))
          apply LowersWork.toPhase rfl
          rw [hphase]
          dsimp only [TickPhase.work]
          omega
      · cases hcommand
  | submitIntent =>
      rw [UserClaims.command] at hcommand
      split at hcommand
      · rename_i threadId attempts hphase
        cases hcommand
        refine .task hphase ?_ (by decide)
        split <;> rfl
      · cases hcommand
  | saveToMatrix cid =>
      rw [UserClaims.command] at hcommand
      split at hcommand
      · rename_i threadId attempts hphase
        cases hcommand
        exact .task hphase rfl (Nat.lt_succ_self 2)
      · cases hcommand
  | submitToChain =>
      rw [UserClaims.command] at hcommand
      split at hcommand
      · rename_i threadId cid attempts hphase
        have haccepted : u.LowersWork t ⟨u.accept cid t.amount,
            some ((u.accept cid t.amount).finishTask t threadId
              (.submitted cid)), t.retry threadId (.saved cid) attempts⟩ :=
          .task hphase rfl (Nat.lt_succ_self 1)
        split at hcommand
        · cases hcommand
          refine ⟨rfl, haccepted.retry, ?_⟩
          intro after next hsuccess
          dsimp only at hsuccess
          cases hsuccess
        · cases hcommand
          exact haccepted
      · cases hcommand
  | sendToSubsApi =>
      rw [UserClaims.command] at hcommand
      split at hcommand
      · rename_i threadId cid attempts hphase
        cases hcommand
        exact .task hphase rfl (Nat.lt_succ_self 0)
      · cases hcommand

theorem work_pos (t : ClaimTick) : 0 < t.work := by
  unfold ClaimTick.work
  cases t.phase <;> simp [TickPhase.work, amountWork]

theorem setTick_work {index : ℕ} {next : Option ClaimTick}
    (hget : u.ticks[index]? = some t)
    (hnext : ∀ t' ∈ next, t'.work < t.work) :
    (u.setTick index next).work < u.work := by
  rcases List.getElem?_eq_some_iff.mp hget with ⟨hlt, hat⟩
  have hsplit : u.ticks = u.ticks.take index ++ t ::
      u.ticks.drop (index + 1) := by
    rw [← hat, List.getElem_cons_drop, List.take_append_drop]
  have hwork : u.work = ((u.ticks.take index).map ClaimTick.work).sum +
      (t.work + ((u.ticks.drop (index + 1)).map ClaimTick.work).sum) := by
    apply (congrArg (fun ticks => (ticks.map ClaimTick.work).sum) hsplit).trans
    rw [List.map_append, List.sum_append, List.map_cons, List.sum_cons]
  rw [hwork]
  unfold setTick work
  cases next with
  | none =>
      have hpos := work_pos t
      rw [List.eraseIdx_eq_take_drop_succ, List.map_append, List.sum_append]
      omega
  | some t' =>
      have hlower := hnext t' rfl
      dsimp only
      rw [List.set_eq_take_append_cons_drop, if_pos hlt, List.map_append,
        List.sum_append, List.map_cons, List.sum_cons]
      omega

/-- Every command of a tick lowers the work left. -/
theorem tick_work {index : ℕ} {event : TickEvent} {outcome : CommandOutcome}
    (hstep : u.step cfg did (.tick index event outcome) = some u') :
    u'.work < u.work := by
  rcases Option.bind_eq_some_iff.mp hstep with ⟨t, hget, hbind⟩
  rcases Option.bind_eq_some_iff.mp hbind with ⟨command, hcommand, hsettle⟩
  have hlowers := command_work hcommand
  cases outcome with
  | ok =>
      rcases Option.map_eq_some_iff.mp hsettle with
        ⟨⟨after, next⟩, hsuccess, rfl⟩
      rcases hlowers.success after next hsuccess with ⟨hticks, hnext⟩
      have hafter := setTick_work (u := after) (by rwa [hticks]) hnext
      have hsame : after.work = u.work := congrArg
        (fun ticks => (ticks.map ClaimTick.work).sum) hticks
      rwa [hsame] at hafter
  | failed tookEffect retried =>
      cases hsettle
      have hretry : ∀ t' ∈ if retried then command.retry else none,
          t'.work < t.work := by
        cases retried
        · exact nofun
        · exact hlowers.retry
      cases tookEffect with
      | false => exact setTick_work hget hretry
      | true =>
          have hafter := setTick_work (u := command.effect)
            (by rwa [hlowers.ticks]) hretry
          have hsame : command.effect.work = u.work := congrArg
            (fun ticks => (ticks.map ClaimTick.work).sum) hlowers.ticks
          rwa [hsame] at hafter

/-- A listed user is evaluated when every ceiling is positive. -/
theorem evaluate_isSome {subscription : Option ClaimSubscription}
    {pricingList : List OraclePrice} (hphase : t.phase = .listed)
    (hceilings : ∀ item ∈ pricingList, item.denom = cfg.denom →
      ∀ ceiling ∈ parseDecimal item.amount, 0 < ceiling) :
    (u.command cfg did t (.evaluate subscription pricingList)).isSome := by
  have heval : (evaluateUser cfg t.amount.toNat t.amount subscription
      pricingList).isSome := by
    unfold evaluateUser
    split
    · rfl
    split
    · rfl
    split
    · rfl
    split
    · rfl
    split
    · rfl
    rename_i maxAllowedClaimAmount hfind
    split
    · rfl
    rcases Option.map_eq_some_iff.mp hfind with ⟨item, hitem, rfl⟩
    rw [Option.isSome_map]
    apply calculateSplits_isSome (Int.self_le_toNat _)
    intro ceiling hceiling
    have hdenom := List.find?_some hitem
    exact .inr (hceilings item (List.mem_of_find?_eq_some hitem)
      (of_decide_eq_true hdenom) ceiling hceiling)
  rw [UserClaims.command, if_pos hphase, Option.isSome_map]
  exact heval

instance : Decidable (u.Resumes t progress) := by
  unfold Resumes
  infer_instance

instance : Decidable (u.InvokeResumes did t) := by
  unfold InvokeResumes
  cases t.phase <;> infer_instance

instance : Decidable (u.DropsListed t) := by
  unfold DropsListed
  cases t.phase <;> cases t.split <;> infer_instance

instance (event : SettlementEvent) : Decidable (u.Orderly did event) := by
  unfold Orderly
  split <;> infer_instance

/-- The amount of the claims whose workflow completed. -/
def completedAmount (u : UserClaims) : ℤ :=
  totalAmount (u.accepted.filter AcceptedClaim.completed)

theorem totalAmount_append (left right : List AcceptedClaim) :
    totalAmount (left ++ right) = totalAmount left + totalAmount right := by
  unfold totalAmount
  rw [List.map_append, List.sum_append]

/-- Held and completed is all that was charged, between the completion of a
claim and its taking out apart. -/
theorem Sound.held_add_completed (h : u.Sound)
    (hbetween : ∀ claim ∈ u.unsettled, claim.completed = false) :
    u.heldAmount + u.completedAmount = u.charged := by
  have hunsettled : u.unsettled.filter AcceptedClaim.completed = [] := by
    rw [List.filter_eq_nil_iff]
    intro claim hclaim
    rw [hbetween claim hclaim]
    exact Bool.false_ne_true
  have hsettled : u.settled.filter AcceptedClaim.completed = u.settled :=
    List.filter_eq_self.mpr h.settled.completed
  have hcompleted : u.completedAmount = totalAmount u.settled := by
    unfold completedAmount accepted
    rw [List.filter_append, hsettled, hunsettled, List.append_nil]
  rw [hcompleted]
  exact h.settled.held

/-- The accepted claims are of credits charged once. -/
theorem Sound.accepted_le (h : u.Sound) :
    totalAmount u.accepted ≤ u.charged := by
  have hheld := h.settled.held
  have hopen : totalAmount u.unsettled ≤ u.heldAmount := by
    rcases Nat.le_one_iff_eq_zero_or_eq_one.mp h.settled.single with
      hzero | hone
    · rw [List.length_eq_zero_iff.mp hzero]
      exact h.settled.nonneg
    · rcases List.length_eq_one_iff.mp hone with ⟨claim, hclaim⟩
      have hcovered := h.settled.covered claim
        (by rw [hclaim]; exact List.mem_cons_self)
      rw [hclaim]
      simpa [totalAmount] using hcovered
  unfold accepted
  rw [totalAmount_append]
  omega

/-- What was charged since a tick listed the user is held. -/
theorem Sound.charged_held (h : u.Sound) (ht : t ∈ u.ticks) :
    u.charged - t.chargedAtList ≤ u.heldAmount := by
  have htick := h.tick t ht
  have hheld := htick.held
  have hsum := List.sum_nonneg htick.amounts
  omega

theorem sound_start : start.Sound := by
  refine ⟨⟨rfl, le_rfl, nofun, Nat.zero_le _, nofun⟩, Nat.zero_le _, nofun⟩

end UserClaims

namespace ClaimStore

/-- At the user of the event: ticks do not overlap, attempts resume and whole
entries are dropped as listed. -/
def Orderly : ClaimStore → String × SettlementEvent → Prop :=
  Transition.AtKey UserClaims.Orderly

instance (s : ClaimStore) (event : String × SettlementEvent) :
    Decidable (s.Orderly event) :=
  inferInstanceAs (Decidable ((s event.1).Orderly event.1 event.2))

theorem run_sound {cfg : ClaimProcessingConfig}
    {events : List (String × SettlementEvent)} {s : ClaimStore}
    (hmeets : Transition.Meets (step cfg) Orderly start events)
    (hrun : Transition.run (step cfg) start events = some s) :
    ∀ did, (s did).Sound :=
  Transition.pointwise_run_preserves_of_meets
    (I := fun _ (u : UserClaims) => u.Sound)
    (fun _ _ _ _ hbefore hcond hstep => hbefore.step hcond hstep)
    hmeets (fun _ => UserClaims.sound_start) hrun

/-- Held amounts and claims in every orderly run, and the ends of ticks. -/
theorem credits_settled_once (cfg : ClaimProcessingConfig)
    (events : List (String × SettlementEvent)) (s : ClaimStore)
    (hrun : Transition.run (step cfg) start events = some s) :
    (Transition.Meets (step cfg) Orderly start events → ∀ did,
      ((∀ claim ∈ (s did).unsettled, claim.completed = false) →
        (s did).heldAmount + (s did).completedAmount = (s did).charged) ∧
      totalAmount (s did).accepted ≤ (s did).charged ∧
      ∀ t ∈ (s did).ticks,
        (s did).charged - t.chargedAtList ≤ (s did).heldAmount) ∧
    (∀ did index event outcome u',
      (s did).step cfg did (.tick index event outcome) = some u' →
        u'.work < (s did).work) ∧
    (∀ heldAmount maxAmount, SplitsEnd heldAmount maxAmount ↔
      ∀ ceiling ∈ maxAmount, heldAmount ≤ 0 ∨ 0 < ceiling) ∧
    ∀ did, ∀ t ∈ (s did).ticks, t.phase = .listed → ∀ subscription pricingList,
        (∀ item ∈ pricingList, item.denom = cfg.denom →
          ∀ ceiling ∈ parseDecimal item.amount, 0 < ceiling) →
        ((s did).command cfg did t
          (.evaluate subscription pricingList)).isSome := by
  refine ⟨?_, ?_, ?_, ?_⟩
  · intro hmeets did
    have hsound := run_sound hmeets hrun did
    exact ⟨hsound.held_add_completed, hsound.accepted_le,
      fun t ht => hsound.charged_held ht⟩
  · exact fun did index event outcome u' hstep =>
      UserClaims.tick_work hstep
  · exact fun heldAmount maxAmount => splitsEnd_iff heldAmount maxAmount
  · exact fun did t _ hphase subscription pricingList hceilings =>
      UserClaims.evaluate_isSome hphase hceilings

def testnet : ClaimProcessingConfig where
  denom := "uixo"
  minimumClaimThreshold := 1000
  generateClaimId := fun _ batchStartTime =>
    "claim_" ++ toString batchStartTime

/-- The commands of one amount up to the chain, for a new pending claim. -/
def submission (batchStartTime : ℕ) (cid : String) : List SettlementEvent :=
  [.tick 0 .redis .ok, .tick 0 (.createPendingClaim batchStartTime) .ok,
    .tick 0 .invoke .ok, .tick 0 .submitIntent .ok,
    .tick 0 (.saveToMatrix cid) .ok, .tick 0 .submitToChain .ok]

/-- The user is listed and evaluated at a ceiling of 2000. -/
def evaluation : List SettlementEvent :=
  [.list, .tick 0 (.evaluate (some ⟨some "collection", 5000⟩)
    [⟨"2000", "uixo"⟩]) .ok]

/-- The workflow ends and its amount is taken out. -/
def takingOut : List SettlementEvent :=
  [.tick 0 .sendToSubsApi .ok, .tick 0 .redis .ok, .tick 0 .redis .ok]

def eventsOf (did : String) (events : List SettlementEvent) :
    List (String × SettlementEvent) :=
  events.map fun event => (did, event)

/-- A claim whose last task failed is finished by the next tick. -/
def resumedRun : List (String × SettlementEvent) :=
  eventsOf "did:ixo:a" (.limit 5000 1500 :: evaluation ++
    submission 1 "cid1" ++ [.tick 0 .sendToSubsApi (.failed true false)] ++
    evaluation ++ [.tick 0 .redis .ok, .tick 0 .invoke .ok] ++ takingOut)

theorem credits_settled_once_resumed :
    ∃ s, Transition.run (step testnet) start resumedRun = some s ∧
      totalAmount (s "did:ixo:a").accepted ≤ (s "did:ixo:a").charged := by
  cases hrun : Transition.run (step testnet) start resumedRun with
  | none =>
      have hruns : (Transition.run (step testnet) start
          resumedRun).isSome = true := by
        decide +kernel
      simp [hrun] at hruns
  | some s =>
      have hmeets : Transition.Meets (step testnet) Orderly start
          resumedRun := by
        decide +kernel
      have hsettled := credits_settled_once testnet _ s hrun
      exact ⟨s, rfl, (hsettled.1 hmeets "did:ixo:a").2.1⟩

/-- The second of two claims is accepted, its last task fails, and the next
tick, with nothing left to split, claims the amount on another thread. -/
def resplitRun : List (String × SettlementEvent) :=
  eventsOf "did:ixo:a" (.limit 5000 3000 :: evaluation ++
    submission 1 "cid1" ++ takingOut ++ submission 2 "cid2" ++
    [.tick 0 .sendToSubsApi (.failed true false)] ++ evaluation ++
    [.tick 0 .redis .ok, .tick 0 .invoke .ok, .tick 0 .submitIntent .ok,
      .tick 0 (.saveToMatrix "cid3") .ok, .tick 0 .submitToChain .ok])

/-- A charge while a claim is processed goes with the held entry. -/
def droppedRun : List (String × SettlementEvent) :=
  eventsOf "did:ixo:a" (.limit 5000 1500 :: evaluation ++
    submission 1 "cid1" ++ [.limit 3500 100] ++ takingOut)

theorem credits_settled_twice : (¬ ∀ (cfg : ClaimProcessingConfig)
        (events : List (String × SettlementEvent)) (s : ClaimStore),
      Transition.run (step cfg) start events = some s →
        ∀ did, totalAmount (s did).accepted ≤ (s did).charged) ∧
    (¬ ∀ (cfg : ClaimProcessingConfig)
        (events : List (String × SettlementEvent)) (s : ClaimStore),
      Transition.run (step cfg) start events = some s →
        ∀ did, (∀ claim ∈ (s did).unsettled, claim.completed = false) →
          (s did).heldAmount + (s did).completedAmount = (s did).charged) ∧
    ¬ ∀ heldAmount maxAmount, SplitsEnd heldAmount maxAmount := by
  refine ⟨?_, ?_, ?_⟩
  · intro hclaim
    have htotals : (Transition.run (step testnet) start resplitRun).map
        (fun s => (totalAmount (s "did:ixo:a").accepted,
          (s "did:ixo:a").charged)) = some (4000, 3000) := by
      decide +kernel
    rcases Option.map_eq_some_iff.mp htotals with ⟨s, hrun, hpair⟩
    rcases Prod.mk.inj hpair with ⟨haccepted, hcharged⟩
    have hle := hclaim testnet _ s hrun "did:ixo:a"
    omega
  · intro hclaim
    have htotals : (Transition.run (step testnet) start droppedRun).map
        (fun s => ((s "did:ixo:a").unsettled, (s "did:ixo:a").heldAmount,
          (s "did:ixo:a").completedAmount, (s "did:ixo:a").charged)) =
        some ([], 0, 1500, 1600) := by
      decide +kernel
    rcases Option.map_eq_some_iff.mp htotals with ⟨s, hrun, hpair⟩
    rcases Prod.mk.inj hpair with ⟨hunsettled, hrest⟩
    rcases Prod.mk.inj hrest with ⟨hheld, hrest⟩
    rcases Prod.mk.inj hrest with ⟨hcompleted, hcharged⟩
    have heq := hclaim testnet _ s hrun "did:ixo:a"
      (by rw [hunsettled]; exact nofun)
    omega
  · intro hclaim
    have hends := (splitsEnd_iff 1000 (some 0)).mp (hclaim 1000 (some 0)) 0 rfl
    omega

end ClaimStore

end QiForge
