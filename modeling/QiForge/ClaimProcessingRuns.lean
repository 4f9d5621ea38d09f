import QiForge.ClaimProcessing

/-!
# What a tick settles

The splits of a held amount, what one command of a tick leaves true of the
user, and the run rule over it: when ticks do not overlap, an attempt resumes
the claim that is left, and a whole entry is dropped only as it was listed,
every credit is settled at most once.
-/

namespace QiForge

section Splits

variable {maxAmount : ℤ}

/-- A chunk that takes nothing off is taken forever. -/
theorem calculateSplitsLoop_eq_none (hmax : maxAmount ≤ 0) :
    ∀ (fuel : ℕ) (remaining : ℤ), 0 < remaining →
      calculateSplitsLoop maxAmount fuel remaining = none
  | 0, remaining, hpos => if_pos hpos
  | fuel + 1, remaining, hpos => by
      have hchunk : min remaining maxAmount ≤ 0 :=
        (min_le_right _ _).trans hmax
      have hrest : calculateSplitsLoop maxAmount fuel
          (remaining - min remaining maxAmount) = none :=
        calculateSplitsLoop_eq_none hmax fuel _ (by omega)
      unfold calculateSplitsLoop
      rw [if_pos hpos]
      dsimp only
      rw [hrest]
      rfl

theorem calculateSplitsLoop_isSome (hmax : 0 < maxAmount) :
    ∀ (fuel : ℕ) (remaining : ℤ), remaining ≤ fuel →
      (calculateSplitsLoop maxAmount fuel remaining).isSome
  | 0, remaining, hle => by
      have hnot : ¬ 0 < remaining := by omega
      simp [calculateSplitsLoop, hnot]
  | fuel + 1, remaining, hle => by
      unfold calculateSplitsLoop
      by_cases hpos : 0 < remaining
      · rw [if_pos hpos]
        rw [Option.isSome_map]
        apply calculateSplitsLoop_isSome hmax fuel
        have hchunk : 1 ≤ min remaining maxAmount := le_min hpos hmax
        push_cast at hle
        omega
      · rw [if_neg hpos]
        rfl

/-- The chunks add up, and each of them is something. -/
theorem calculateSplitsLoop_sum :
    ∀ {fuel : ℕ} {remaining : ℤ} {splits : List ℤ}, 0 ≤ remaining →
      calculateSplitsLoop maxAmount fuel remaining = some splits →
        splits.sum = remaining ∧ ∀ chunk ∈ splits, 0 < chunk
  | 0, remaining, splits, hnonneg, hsplits => by
      rcases Option.ite_none_left_eq_some.mp hsplits with ⟨hnot, hsome⟩
      cases hsome
      have hzero : remaining = 0 := by omega
      simp [hzero]
  | fuel + 1, remaining, splits, hnonneg, hsplits => by
      by_cases hpos : 0 < remaining
      · have hmax : 0 < maxAmount := by
          by_contra hnot
          rw [calculateSplitsLoop_eq_none (not_lt.mp hnot) _ _ hpos]
            at hsplits
          cases hsplits
        unfold calculateSplitsLoop at hsplits
        rw [if_pos hpos] at hsplits
        rcases Option.map_eq_some_iff.mp hsplits with ⟨rest, hrest, rfl⟩
        have hchunk : 0 < min remaining maxAmount := lt_min hpos hmax
        have hle : min remaining maxAmount ≤ remaining := min_le_left _ _
        rcases calculateSplitsLoop_sum (by omega) hrest with ⟨hsum, hall⟩
        constructor
        · rw [List.sum_cons, hsum]
          omega
        · intro chunk hmem
          rcases List.mem_cons.mp hmem with rfl | hmem
          · exact hchunk
          · exact hall chunk hmem
      · unfold calculateSplitsLoop at hsplits
        rw [if_neg hpos] at hsplits
        cases hsplits
        have hzero : remaining = 0 := by omega
        simp [hzero]

/-- The split ends, with enough turns of its loop. -/
def SplitsEnd (heldAmount : ℤ) (maxAmount : Option ℤ) : Prop :=
  ∃ fuel, (calculateSplits fuel heldAmount maxAmount).isSome

theorem calculateSplits_isSome {heldAmount : ℤ} {maxAmount : Option ℤ}
    {fuel : ℕ} (hfuel : heldAmount ≤ fuel)
    (hmax : ∀ ceiling ∈ maxAmount, heldAmount ≤ 0 ∨ 0 < ceiling) :
    (calculateSplits fuel heldAmount maxAmount).isSome := by
  cases maxAmount with
  | none =>
      unfold calculateSplits
      dsimp only
      split <;> rfl
  | some ceiling =>
      unfold calculateSplits
      dsimp only
      split
      · rfl
      · rw [Option.isSome_map]
        rcases hmax ceiling rfl with hle | hpos
        · cases fuel <;> simp [calculateSplitsLoop, not_lt.mpr hle]
        · exact calculateSplitsLoop_isSome hpos fuel heldAmount hfuel

/-- The split of a held amount ends unless the ceiling is a number and not
positive. -/
theorem splitsEnd_iff (heldAmount : ℤ) (maxAmount : Option ℤ) :
    SplitsEnd heldAmount maxAmount ↔
      ∀ ceiling ∈ maxAmount, heldAmount ≤ 0 ∨ 0 < ceiling := by
  constructor
  · intro hends ceiling hceiling
    obtain rfl := hceiling
    rcases hends with ⟨fuel, hsome⟩
    by_contra hnot
    rw [not_or, not_le, not_lt] at hnot
    have hnone : calculateSplits fuel heldAmount (some ceiling) = none := by
      unfold calculateSplits
      dsimp only
      rw [if_neg (by omega),
        calculateSplitsLoop_eq_none hnot.2 fuel heldAmount hnot.1]
      rfl
    rw [hnone] at hsome
    cases hsome
  · intro hmax
    exact ⟨heldAmount.toNat, calculateSplits_isSome (Int.self_le_toNat _)
      hmax⟩

end Splits

def totalAmount (claims : List AcceptedClaim) : ℤ :=
  (claims.map AcceptedClaim.amount).sum

namespace UserClaims

variable {cfg : ClaimProcessingConfig} {did : String} {u u' : UserClaims}
  {t t' : ClaimTick} {event : SettlementEvent}

/-- The workflow goes on with the accepted claim that is left, if there is
one, at its amount, and with no claim that was taken out. -/
def Resumes (u : UserClaims) (t : ClaimTick)
    (progress : WorkflowProgress) : Prop :=
  (∀ claim ∈ u.unsettled,
      progress.cid? = some claim.cid ∧ claim.amount = t.amount) ∧
    ∀ cid ∈ progress.submitted?, ∃ claim ∈ u.unsettled, claim.cid = cid

def InvokeResumes (did : String) (u : UserClaims) (t : ClaimTick) : Prop :=
  match t.phase with
  | .invoke claimId =>
      u.Resumes t (u.threads (t.workflowThread did claimId))
  | _ => True

/-- A whole entry is dropped as it was listed. -/
def DropsListed (u : UserClaims) (t : ClaimTick) : Prop :=
  match t.phase, t.split with
  | .takeOut _, none => u.heldAmount = t.amount
  | _, _ => True

/-- Ticks do not overlap at a user, an attempt resumes the claim that is left,
and a whole entry is dropped as it was listed. -/
def Orderly (did : String) (u : UserClaims) : SettlementEvent → Prop
  | .list => u.ticks = []
  | .tick index .invoke _ => ∀ t ∈ u.ticks[index]?, u.InvokeResumes did t
  | .tick index .redis _ => ∀ t ∈ u.ticks[index]?, u.DropsListed t
  | _ => True

def Working (u : UserClaims) (t : ClaimTick) : Prop :=
  match t.phase with
  | .listed => t.split = none
  | .task _ progress _ => u.Resumes t progress
  | .clearPendingClaim cid => u.unsettled = [⟨cid, t.amount, true⟩]
  | .takeOut cid => u.unsettled = [⟨cid, t.amount, true⟩]
  | _ => True

structure TickSound (u : UserClaims) (t : ClaimTick) : Prop where
  amounts : ∀ amount ∈ t.amounts, 0 ≤ amount
  nonempty : t.amounts ≠ []
  held : t.amounts.sum + (u.charged - t.chargedAtList) = u.heldAmount
  charged : t.chargedAtList ≤ u.charged
  whole : t.split = none → t.amounts = [t.amount]
  working : u.Working t

structure Settled (u : UserClaims) : Prop where
  held : u.heldAmount + totalAmount u.settled = u.charged
  nonneg : 0 ≤ u.heldAmount
  completed : ∀ claim ∈ u.settled, claim.completed = true
  single : u.unsettled.length ≤ 1
  covered : ∀ claim ∈ u.unsettled, claim.amount ≤ u.heldAmount

structure Sound (u : UserClaims) : Prop where
  settled : u.Settled
  single : u.ticks.length ≤ 1
  tick : ∀ t ∈ u.ticks, u.TickSound t

/-- What a command leaves true, whatever becomes of it. -/
structure CommandSound (u : UserClaims) (command : TickCommand) : Prop where
  ticks : command.effect.ticks = u.ticks
  settled : command.effect.Settled
  retry : ∀ t ∈ command.retry, u.TickSound t ∧ command.effect.TickSound t
  success : ∀ u' t, command.success = some (u', t) →
    u'.ticks = u.ticks ∧ u'.Settled ∧ ∀ t' ∈ t, u'.TickSound t'

theorem Settled.withTicks (h : u.Settled) (ticks : List ClaimTick) :
    Settled { u with ticks := ticks } :=
  { h with }

theorem TickSound.withTicks (h : u.TickSound t) (ticks : List ClaimTick) :
    TickSound { u with ticks := ticks } t :=
  { h with }

/-- A user with one tick, and what becomes of it. -/
theorem Sound.setTick {next : Option ClaimTick} (hticks : u.ticks = [t])
    (hsettled : u.Settled) (hnext : ∀ t' ∈ next, u.TickSound t') :
    (u.setTick 0 next).Sound := by
  unfold UserClaims.setTick
  rw [hticks]
  cases next with
  | none => exact ⟨hsettled.withTicks _, Nat.zero_le _, nofun⟩
  | some t' =>
      refine ⟨hsettled.withTicks _, le_rfl, ?_⟩
      intro other hother
      rw [List.mem_singleton.mp hother]
      exact (hnext t' rfl).withTicks _

variable {command : TickCommand}

theorem Sound.settle {outcome : CommandOutcome}
    (hticks : u.ticks = [t]) (h : u.Settled)
    (hcommand : u.CommandSound command)
    (hsettle : u.settle 0 command outcome = some u') : u'.Sound := by
  cases outcome with
  | ok =>
      rcases Option.map_eq_some_iff.mp hsettle with
        ⟨⟨after, next⟩, hsuccess, rfl⟩
      rcases hcommand.success after next hsuccess with
        ⟨hafter, hsettled, hnext⟩
      exact setTick (hafter.trans hticks) hsettled hnext
  | failed tookEffect retried =>
      cases hsettle
      have hretry : ∀ t' ∈ if retried then command.retry else none,
          t' ∈ command.retry := by
        cases retried
        · exact nofun
        · exact fun _ hmem => hmem
      cases tookEffect with
      | false =>
          exact setTick hticks h fun t' ht' =>
            (hcommand.retry t' (hretry t' ht')).1
      | true =>
          exact setTick (hcommand.ticks.trans hticks) hcommand.settled
            fun t' ht' => (hcommand.retry t' (hretry t' ht')).2

/-- A Redis command that leaves the credits and claims alone. -/
theorem CommandSound.redis {next : Option ClaimTick}
    {pending : Option PendingClaim} (h : u.Settled)
    (hnext : ∀ t' ∈ next, u.TickSound t') :
    u.CommandSound (redisCommand { u with pendingClaim := pending } next) := by
  have hsettled : Settled { u with pendingClaim := pending } := { h with }
  refine ⟨rfl, hsettled, nofun, ?_⟩
  intro after t' hsuccess
  obtain ⟨rfl, rfl⟩ := Prod.mk.inj (Option.some.inj hsuccess)
  refine ⟨rfl, hsettled, ?_⟩
  intro t'' ht''
  have hsound := hnext t'' ht''
  exact { hsound with }

theorem TickSound.toPhase {phase : TickPhase} (h : u.TickSound t)
    (hworking : u.Working (t.toPhase phase)) :
    u.TickSound (t.toPhase phase) :=
  { h with working := hworking }

theorem mem_amounts (h : u.TickSound t) : t.amount ∈ t.amounts := by
  unfold ClaimTick.amount
  cases hamounts : t.amounts with
  | nil => exact absurd hamounts h.nonempty
  | cons amount rest => exact List.mem_cons_self

/-- What the tick still claims is held. -/
theorem TickSound.amount_le (h : u.TickSound t) : t.amount ≤ u.heldAmount := by
  have hsum : t.amount ≤ t.amounts.sum :=
    List.single_le_sum h.amounts t.amount (mem_amounts h)
  have hheld := h.held
  have hcharged := h.charged
  omega

theorem evaluateUser_split {fuel : ℕ} {heldAmount : ℤ}
    {subscription : Option ClaimSubscription} {pricingList : List OraclePrice}
    {splits : List ℤ}
    (hsplit : evaluateUser cfg fuel heldAmount subscription pricingList =
      some (.split splits)) :
    splits.sum = heldAmount ∧ (∀ chunk ∈ splits, 0 < chunk) ∧
      splits ≠ [] := by
  unfold evaluateUser at hsplit
  split at hsplit
  · cases hsplit
  have hnonneg : 0 ≤ heldAmount := (Int.natCast_nonneg _).trans (not_lt.mp ‹_›)
  split at hsplit
  · cases hsplit
  split at hsplit
  · cases hsplit
  split at hsplit
  · cases hsplit
  split at hsplit
  · cases hsplit
  split at hsplit
  · cases hsplit
  rcases Option.map_eq_some_iff.mp hsplit with ⟨chunks, hchunks, hbranch⟩
  split at hbranch
  · rename_i hlength
    obtain rfl := UserEvaluation.split.inj hbranch
    unfold calculateSplits at hchunks
    split at hchunks
    · split at hchunks <;>
        · cases hchunks
          simp at hlength
    · split at hchunks
      · cases hchunks
        simp at hlength
      · rcases Option.map_eq_some_iff.mp hchunks with ⟨list, hlist, rfl⟩
        have hid : (list.map some).filterMap id = list := by
          simp [List.filterMap_map]
        rw [hid]
        rcases calculateSplitsLoop_sum hnonneg hlist with ⟨hsum, hpos⟩
        refine ⟨hsum, hpos, ?_⟩
        intro hnil
        rw [hnil] at hlength
        simp at hlength
  · cases hbranch

theorem evaluate_sound {subscription : Option ClaimSubscription}
    {pricingList : List OraclePrice}
    (h : u.Settled) (ht : u.TickSound t)
    (hcommand : u.command cfg did t (.evaluate subscription pricingList) =
      some command) : u.CommandSound command := by
  rcases Option.ite_none_right_eq_some.mp hcommand with ⟨hphase, hmap⟩
  rcases Option.map_eq_some_iff.mp hmap with ⟨evaluation, heval, rfl⟩
  have hlisted : t.split = none := by
    have hworking := ht.working
    unfold Working at hworking
    rw [hphase] at hworking
    exact hworking
  have hwhole := ht.whole hlisted
  cases evaluation with
  | skip => exact .redis h nofun
  | error => exact .redis h nofun
  | full =>
      apply CommandSound.redis h
      intro t' ht'
      cases ht'
      exact ht.toPhase trivial
  | split splits =>
      rcases evaluateUser_split heval with ⟨hsum, hpos, hne⟩
      apply CommandSound.redis h
      intro t' ht'
      cases ht'
      have hheld := ht.held
      rw [hwhole, List.sum_singleton] at hheld
      refine ⟨fun chunk hchunk => (hpos chunk hchunk).le, hne, ?_,
        ht.charged, nofun, trivial⟩
      rw [hsum]
      exact hheld

/-- The amount after the current one, when that one was taken out. -/
theorem next_sound {u' : UserClaims} (ht : u.TickSound t)
    (hsplit : t.split.isSome ∨ t.amounts.tail = [])
    (hheld : u'.heldAmount = u.heldAmount - t.amount)
    (hcharged : u'.charged = u.charged) :
    ∀ t' ∈ t.next, u'.TickSound t' := by
  intro t' ht'
  unfold ClaimTick.next at ht'
  cases hamounts : t.amounts with
  | nil => exact absurd hamounts ht.nonempty
  | cons amount rest =>
      rw [hamounts] at ht' hsplit
      cases rest with
      | nil => cases ht'
      | cons second rest =>
          cases ht'
          have hindexed : t.split.isSome := by
            rcases hsplit with hindexed | hnil
            · exact hindexed
            · cases hnil
          have hcurrent : t.amount = amount := by
            unfold ClaimTick.amount
            rw [hamounts]
            rfl
          have hsum := ht.held
          rw [hamounts, List.sum_cons, ← hcurrent] at hsum
          refine ⟨?_, List.cons_ne_nil _ _, ?_, ?_, ?_, trivial⟩
          · intro other hother
            apply ht.amounts
            rw [hamounts]
            exact List.mem_cons_of_mem _ hother
          · dsimp only [List.tail_cons]
            omega
          · dsimp only
            rw [hcharged]
            exact ht.charged
          · intro hnone
            rw [Option.map_eq_none_iff] at hnone
            rw [hnone] at hindexed
            cases hindexed

theorem takeOut_sound {cid : String} (h : u.Settled) (ht : u.TickSound t)
    (hphase : t.phase = .takeOut cid) (hdrops : u.DropsListed t) :
    u.CommandSound ((u.takeOut t cid).redisCommand t.next) := by
  have hopen : u.unsettled = [⟨cid, t.amount, true⟩] := by
    have hworking := ht.working
    unfold Working at hworking
    rw [hphase] at hworking
    exact hworking
  have hheld : (u.takeOut t cid).heldAmount = u.heldAmount - t.amount := by
    unfold takeOut
    cases hsplit : t.split with
    | some index => rfl
    | none =>
        unfold DropsListed at hdrops
        rw [hphase, hsplit] at hdrops
        simp [hdrops]
  have hunsettled : (u.takeOut t cid).unsettled = [] := by
    simp [takeOut, hopen]
  have hsettledList : (u.takeOut t cid).settled =
      u.settled ++ [⟨cid, t.amount, true⟩] := by
    simp [takeOut, hopen]
  have hle := ht.amount_le
  have hsettled : (u.takeOut t cid).Settled := by
    constructor
    · have htotal := h.held
      rw [hheld, hsettledList]
      simp only [totalAmount, List.map_append, List.sum_append,
        List.map_cons, List.map_nil, List.sum_singleton] at htotal ⊢
      change _ = u.charged
      omega
    · rw [hheld]
      omega
    · intro claim hclaim
      rw [hsettledList] at hclaim
      rcases List.mem_append.mp hclaim with hold | hnew
      · exact h.completed claim hold
      · rw [List.mem_singleton.mp hnew]
    · rw [hunsettled]
      exact Nat.zero_le _
    · rw [hunsettled]
      exact nofun
  refine ⟨rfl, hsettled, nofun, ?_⟩
  intro after next hsuccess
  obtain ⟨rfl, rfl⟩ := Prod.mk.inj (Option.some.inj hsuccess)
  refine ⟨rfl, hsettled, next_sound ht ?_ hheld rfl⟩
  cases hsplit : t.split with
  | some index => exact .inl rfl
  | none =>
      rw [ht.whole hsplit]
      exact .inr rfl

theorem redis_sound (h : u.Settled)
    (ht : u.TickSound t) (hdrops : u.DropsListed t)
    (hcommand : u.redis t = some command) : u.CommandSound command := by
  have hphases : ∀ {phase : TickPhase}, u.Working (t.toPhase phase) →
      ∀ t' ∈ some (t.toPhase phase), u.TickSound t' := by
    intro phase hworking t' ht'
    cases ht'
    exact ht.toPhase hworking
  cases hphase : t.phase with
  | begin =>
      rw [redis, hphase] at hcommand
      dsimp only at hcommand
      split at hcommand
      · cases hcommand
        exact .redis h nofun
      · split at hcommand
        · cases hcommand
          exact .redis h (hphases trivial)
        · split at hcommand <;>
            · cases hcommand
              exact .redis h (hphases trivial)
  | getPendingClaim claimId =>
      rw [redis, hphase] at hcommand
      dsimp only at hcommand
      split at hcommand <;>
        · cases hcommand
          exact .redis h (hphases trivial)
  | updatePendingClaim claimId pending =>
      rw [redis, hphase] at hcommand
      cases hcommand
      exact .redis h (hphases trivial)
  | clearPendingClaim cid =>
      have hworking := ht.working
      unfold Working at hworking
      rw [hphase] at hworking
      rw [redis, hphase] at hcommand
      cases hcommand
      exact .redis h (hphases hworking)
  | takeOut cid =>
      have hsound := takeOut_sound h ht hphase hdrops
      rw [redis, hphase] at hcommand
      cases hcommand
      exact hsound
  | listed =>
      rw [redis, hphase] at hcommand
      cases hcommand
  | setPendingClaim =>
      rw [redis, hphase] at hcommand
      cases hcommand
  | invoke claimId =>
      rw [redis, hphase] at hcommand
      cases hcommand
  | task threadId progress attempts =>
      rw [redis, hphase] at hcommand
      cases hcommand

variable {progress : WorkflowProgress}

theorem Resumes.unsettled_eq {cid : String}
    (hresumes : u.Resumes t progress) (h : u.Settled)
    (hcid : progress.submitted? = some cid) :
    ∃ completed, u.unsettled = [⟨cid, t.amount, completed⟩] := by
  rcases hresumes.2 cid hcid with ⟨claim, hclaim, rfl⟩
  have hamount := (hresumes.1 claim hclaim).2
  have hone : u.unsettled = [claim] := by
    rcases List.length_eq_one_iff.mp
      (le_antisymm h.single (List.length_pos_of_mem hclaim)) with
      ⟨other, hother⟩
    rw [hother] at hclaim ⊢
    rw [List.mem_singleton.mp hclaim]
  exact ⟨claim.completed, by rw [hone, ← hamount]⟩

theorem Resumes.unsettled_nil
    (hresumes : u.Resumes t progress) (hcid : progress.cid? = none) :
    u.unsettled = [] := by
  rw [List.eq_nil_iff_forall_not_mem]
  intro claim hclaim
  have hsome := (hresumes.1 claim hclaim).1
  rw [hcid] at hsome
  cases hsome

theorem resumes_nil (hnil : u.unsettled = [])
    (hcid : progress.submitted? = none) : u.Resumes t progress := by
  constructor
  · rw [hnil]
    exact nofun
  · rw [hcid]
    exact nofun

/-- The workflow of the claim that is left returns. -/
theorem complete_sound {cid : String} {completed : Bool} (h : u.Settled)
    (ht : u.TickSound t) (hopen : u.unsettled = [⟨cid, t.amount, completed⟩]) :
    (u.complete cid).Settled ∧
      (u.complete cid).TickSound (t.toPhase (.clearPendingClaim cid)) := by
  have hcomplete : (u.complete cid).unsettled = [⟨cid, t.amount, true⟩] := by
    simp [complete, hopen]
  constructor
  · refine ⟨h.held, h.nonneg, h.completed, ?_, ?_⟩
    · rw [hcomplete]
      exact le_rfl
    · rw [hcomplete]
      intro claim hclaim
      rw [List.mem_singleton.mp hclaim]
      exact ht.amount_le
  · exact { ht with working := hcomplete }

theorem Settled.withThreads (h : u.Settled)
    (threads : String → WorkflowProgress) :
    Settled { u with threads := threads } :=
  { h with }

theorem TickSound.withThreads (h : u.TickSound t)
    (threads : String → WorkflowProgress) :
    TickSound { u with threads := threads } t :=
  { h with }

theorem finishTask_sound (threadId : String)
    (h : u.Settled) (ht : u.TickSound t) (hresumes : u.Resumes t progress) :
    (u.finishTask t threadId progress).1.ticks = u.ticks ∧
      (u.finishTask t threadId progress).1.Settled ∧
      ∀ t' ∈ (u.finishTask t threadId progress).2,
        (u.finishTask t threadId progress).1.TickSound t' := by
  cases progress with
  | sent cid =>
      rcases hresumes.unsettled_eq h rfl with ⟨completed, hopen⟩
      rcases complete_sound (h.withThreads (Function.update u.threads
        threadId (.sent cid))) (ht.withThreads _) hopen with
        ⟨hsettled, htick⟩
      refine ⟨rfl, hsettled, ?_⟩
      intro t' ht'
      cases ht'
      exact htick
  | begun | intentSubmitted | saved | submitted =>
      refine ⟨rfl, h.withThreads _, ?_⟩
      intro t' ht'
      cases ht'
      exact (ht.withThreads _).toPhase hresumes

/-- A task that finishes with `progress`, or is tried again. -/
theorem task_sound {effect : UserClaims} {threadId : String}
    {before progress : WorkflowProgress} {attempts : ℕ}
    (hphase : t.phase = .task threadId before attempts)
    (ht : u.TickSound t) (hticks : effect.ticks = u.ticks)
    (hsettled : effect.Settled) (heffect : effect.TickSound t)
    (hresumes : effect.Resumes t progress) :
    u.CommandSound ⟨effect, some (effect.finishTask t threadId progress),
      t.retry threadId before attempts⟩ := by
  refine ⟨hticks, hsettled, ?_, ?_⟩
  · intro t' ht'
    rcases Option.ite_none_right_eq_some.mp ht' with ⟨-, hsome⟩
    cases hsome
    have hworking := ht.working
    have hafter := heffect.working
    unfold Working at hworking hafter
    rw [hphase] at hworking hafter
    exact ⟨ht.toPhase hworking, heffect.toPhase hafter⟩
  · intro after next hsuccess
    have hfinish := Option.some.inj hsuccess
    rcases finishTask_sound threadId hsettled heffect hresumes with
      ⟨hsame, hafter, hnext⟩
    rw [hfinish] at hsame hafter hnext
    exact ⟨hsame.trans hticks, hafter, hnext⟩

theorem TickSound.resumes {threadId : String}
    {attempts : ℕ} (ht : u.TickSound t)
    (hphase : t.phase = .task threadId progress attempts) :
    u.Resumes t progress := by
  have hworking := ht.working
  unfold Working at hworking
  rw [hphase] at hworking
  exact hworking

/-- The chain accepts a claim when none is left. -/
theorem accept_sound {threadId cid : String} {attempts : ℕ}
    (h : u.Settled) (ht : u.TickSound t)
    (hphase : t.phase = .task threadId (.saved cid) attempts)
    (hnil : u.unsettled = []) :
    (u.accept cid t.amount).Settled ∧ (u.accept cid t.amount).TickSound t ∧
      (u.accept cid t.amount).Resumes t (.submitted cid) := by
  have hopen : (u.accept cid t.amount).unsettled =
      [⟨cid, t.amount, false⟩] := by
    simp [accept, hnil]
  have hleft : ∀ claim ∈ (u.accept cid t.amount).unsettled,
      some cid = some claim.cid ∧ claim.amount = t.amount := by
    intro claim hclaim
    rw [hopen] at hclaim
    rw [List.mem_singleton.mp hclaim]
    exact ⟨rfl, rfl⟩
  refine ⟨⟨h.held, h.nonneg, h.completed, ?_, ?_⟩,
    ⟨ht.amounts, ht.nonempty, ht.held, ht.charged, ht.whole, ?_⟩, hleft, ?_⟩
  · rw [hopen]
    exact le_rfl
  · intro claim hclaim
    rw [(hleft claim hclaim).2]
    exact ht.amount_le
  · unfold Working
    rw [hphase]
    exact ⟨hleft, nofun⟩
  · intro other hother
    cases hother
    rw [hopen]
    exact ⟨_, List.mem_cons_self, rfl⟩

theorem invoke_sound (h : u.Settled)
    (ht : u.TickSound t) (hresumes : u.InvokeResumes did t)
    (hcommand : u.command cfg did t .invoke = some command) :
    u.CommandSound command := by
  cases hphase : t.phase with
  | invoke claimId =>
      unfold InvokeResumes at hresumes
      rw [hphase] at hresumes
      dsimp only at hresumes
      rw [UserClaims.command, hphase] at hcommand
      dsimp only at hcommand
      split at hcommand
      · rename_i cid hsent
        rw [hsent] at hresumes
        rcases hresumes.unsettled_eq h rfl with ⟨completed, hopen⟩
        cases hcommand
        rcases complete_sound h ht hopen with ⟨hsettled, htick⟩
        refine ⟨rfl, hsettled, nofun, ?_⟩
        intro after next hsuccess
        obtain ⟨rfl, rfl⟩ := Prod.mk.inj (Option.some.inj hsuccess)
        refine ⟨rfl, hsettled, ?_⟩
        intro t' ht'
        cases ht'
        exact htick
      · cases hcommand
        apply CommandSound.redis h
        intro t' ht'
        cases ht'
        exact ht.toPhase hresumes
  | listed | begin | setPendingClaim | getPendingClaim
  | updatePendingClaim | task | clearPendingClaim | takeOut =>
      rw [UserClaims.command, hphase] at hcommand
      cases hcommand

theorem submitToChain_sound (h : u.Settled) (ht : u.TickSound t)
    (hcommand : u.command cfg did t .submitToChain = some command) :
    u.CommandSound command := by
  rw [UserClaims.command] at hcommand
  split at hcommand
  · rename_i threadId cid attempts hphase
    have hresumes := ht.resumes hphase
    split at hcommand
    · cases hcommand
      refine ⟨rfl, h, ?_, ?_⟩
      · intro t' ht'
        rcases Option.ite_none_right_eq_some.mp ht' with ⟨-, hsome⟩
        cases hsome
        exact ⟨ht.toPhase hresumes, ht.toPhase hresumes⟩
      · intro after next hsuccess
        dsimp only at hsuccess
        cases hsuccess
    · rename_i hfresh
      have hnil : u.unsettled = [] := by
        rw [List.eq_nil_iff_forall_not_mem]
        intro claim hclaim
        apply hfresh
        rw [Option.some.inj (hresumes.1 claim hclaim).1]
        exact List.mem_map_of_mem (List.mem_append_right _ hclaim)
      cases hcommand
      rcases accept_sound h ht hphase hnil with ⟨hsettled, htick, hafter⟩
      exact task_sound hphase ht rfl hsettled htick hafter
  · cases hcommand

theorem command_sound {index : ℕ} {event : TickEvent}
    {outcome : CommandOutcome} (h : u.Settled)
    (ht : u.TickSound t) (hget : u.ticks[index]? = some t)
    (horderly : u.Orderly did (.tick index event outcome))
    (hcommand : u.command cfg did t event = some command) :
    u.CommandSound command := by
  cases event with
  | evaluate subscription pricingList => exact evaluate_sound h ht hcommand
  | redis => exact redis_sound h ht (horderly t hget) hcommand
  | createPendingClaim batchStartTime =>
      rcases Option.ite_none_right_eq_some.mp hcommand with ⟨-, hsome⟩
      cases hsome
      apply CommandSound.redis h
      intro t' ht'
      cases ht'
      exact ht.toPhase trivial
  | invoke => exact invoke_sound h ht (horderly t hget) hcommand
  | submitIntent =>
      rw [UserClaims.command] at hcommand
      split at hcommand
      · rename_i threadId attempts hphase
        have hnil := (ht.resumes hphase).unsettled_nil rfl
        cases hcommand
        by_cases hintent : u.intent.isSome
        · simp only [hintent, if_true]
          exact task_sound hphase ht rfl h ht (resumes_nil hnil rfl)
        · simp only [hintent]
          exact task_sound hphase ht rfl { h with } { ht with }
            (resumes_nil hnil rfl)
      · cases hcommand
  | saveToMatrix cid =>
      rw [UserClaims.command] at hcommand
      split at hcommand
      · rename_i threadId attempts hphase
        have hnil := (ht.resumes hphase).unsettled_nil rfl
        cases hcommand
        exact task_sound hphase ht rfl h ht (resumes_nil hnil rfl)
      · cases hcommand
  | submitToChain => exact submitToChain_sound h ht hcommand
  | sendToSubsApi =>
      rw [UserClaims.command] at hcommand
      split at hcommand
      · rename_i threadId cid attempts hphase
        cases hcommand
        have hresumes := ht.resumes hphase
        have hsent : u.Resumes t (.sent cid) := ⟨hresumes.1, hresumes.2⟩
        exact task_sound hphase ht rfl h ht hsent
      · cases hcommand

theorem limitTokensScript_held (balance heldAmount : ℤ) {credits : ℤ}
    (hcredits : 0 ≤ credits) :
    heldAmount ≤ (limitTokensScript balance heldAmount credits).2.2 := by
  unfold limitTokensScript
  dsimp only
  split
  · exact le_rfl
  · dsimp only
    omega

/-- A charge raises what is held and what was charged alike. -/
theorem Sound.charge {amount : ℤ} (h : u.Sound) (hamount : 0 ≤ amount) :
    Sound { u with
      heldAmount := u.heldAmount + amount
      charged := u.charged + amount } := by
  have hheld := h.settled.held
  have hnonneg := h.settled.nonneg
  refine ⟨⟨?_, ?_, h.settled.completed, h.settled.single, ?_⟩, h.single, ?_⟩
  · dsimp only
    omega
  · dsimp only
    omega
  · intro claim hclaim
    have hcovered := h.settled.covered claim hclaim
    dsimp only
    omega
  · intro t ht
    have htick := h.tick t ht
    have hsum := htick.held
    have hcharged := htick.charged
    refine ⟨htick.amounts, htick.nonempty, ?_, ?_, htick.whole, htick.working⟩
    · dsimp only
      omega
    · dsimp only
      omega

theorem Sound.step (h : u.Sound) (horderly : u.Orderly did event)
    (hstep : u.step cfg did event = some u') : u'.Sound := by
  cases event with
  | limit balance credits =>
      rcases Option.ite_none_right_eq_some.mp hstep with ⟨hcredits, hsome⟩
      cases hsome
      have hle := limitTokensScript_held balance u.heldAmount hcredits
      have hcharge := h.charge (sub_nonneg.mpr hle)
      rw [add_sub_cancel] at hcharge
      exact hcharge
  | lapse =>
      cases hstep
      have hsettled := h.settled
      refine ⟨{ hsettled with }, h.single, ?_⟩
      intro t ht
      have htick := h.tick t ht
      exact { htick with }
  | list =>
      rcases Option.ite_none_right_eq_some.mp hstep with ⟨hthreshold, hsome⟩
      cases hsome
      have hnone : u.ticks = [] := horderly
      have hnonneg := h.settled.nonneg
      rw [hnone, List.nil_append]
      refine ⟨h.settled.withTicks _, le_rfl, ?_⟩
      intro t ht
      rw [List.mem_singleton.mp ht]
      refine ⟨?_, List.cons_ne_nil _ _, ?_, le_rfl, fun _ => rfl, rfl⟩
      · intro amount hamount
        rw [List.mem_singleton.mp hamount]
        exact hnonneg
      · simp
  | tick index event outcome =>
      rcases Option.bind_eq_some_iff.mp hstep with ⟨t, hget, hbind⟩
      rcases Option.bind_eq_some_iff.mp hbind with
        ⟨command, hcommand, hsettle⟩
      have hone : u.ticks = [t] ∧ index = 0 := by
        have hmem := List.mem_of_getElem? hget
        rcases List.length_eq_one_iff.mp
          (le_antisymm h.single (List.length_pos_of_mem hmem)) with
          ⟨other, hother⟩
        rw [hother] at hmem hget
        have hlt := (List.getElem?_eq_some_iff.mp hget).1
        rw [List.length_singleton] at hlt
        rw [hother, List.mem_singleton.mp hmem]
        exact ⟨rfl, by omega⟩
      obtain ⟨hticks, rfl⟩ := hone
      have ht := h.tick t (List.mem_of_getElem? hget)
      exact Sound.settle hticks h.settled
        (command_sound h.settled ht hget horderly hcommand) hsettle

end UserClaims

end QiForge
