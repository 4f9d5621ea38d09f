import QiForge.ActionProposalLifecycle

/-!
# The verification schedule of an action card

What a move does to the three columns of the schedule, whatever the lookups
answer: a lookup is claimed, a not-found answer puts it off, a new hash starts
it afresh, a block ends it.
-/

namespace QiForge

namespace ProposalRow

/-- The card waits for its recorded transaction. -/
def Tracked (row : ProposalRow) : Prop :=
  row.status = .unknown ∧ row.transactionHash.isSome = true

instance (row : ProposalRow) : Decidable row.Tracked :=
  inferInstanceAs (Decidable (_ ∧ _))

def Blocked (row : ProposalRow) : Prop := ∃ claimedAt hash blockedAt,
    row.lifecycle = .unknown claimedAt hash (some blockedAt)

/-- An ending or an outcome. -/
def Left (row : ProposalRow) : Prop :=
  (∃ status endedAt, row.lifecycle = .ended status endedAt) ∨
    ∃ claimedAt transaction, row.lifecycle = .verified claimedAt transaction

/-- The schedule stays, and the card waits for nothing new. -/
structure Quiet (row row' : ProposalRow) : Prop where
  after : row'.verifyAfter = row.verifyAfter
  attempts : row'.verifyAttempts = row.verifyAttempts
  recordedAt : row'.hashRecordedAt = row.hashRecordedAt
  tracked : row'.Tracked → row'.lifecycle = row.lifecycle ∧
    row'.status = row.status ∧ row'.transactionHash = row.transactionHash
  left : row.Left → row'.Left
  blocked : row.Blocked → row'.Blocked ∨ row'.Left
  unblocked : row'.Blocked → row.Blocked

theorem Quiet.refl (row : ProposalRow) : Quiet row row :=
  ⟨rfl, rfl, rfl, fun _ => ⟨rfl, rfl, rfl⟩, fun h => h, .inl, fun h => h⟩

/-- What one event does to the schedule of a card. -/
inductive VerifyMove (now : ℕ) (event : ProposalEvent) (row : ProposalRow) :
    ProposalRow → Prop where
  | quiet (row' : ProposalRow) (h : Quiet row row') :
      VerifyMove now event row row'
  | lookedUp (hdue : row.verifyAfter ≤ now) :
      VerifyMove now event row (row.lookedUp now)
  | deferred (hash : String) (hevent : event = .answer row.id hash .notFound)
      (hstatus : row.status = .unknown)
      (hhash : row.transactionHash = some (normalizeHash hash))
      (hgrace : now < row.hashRecordedAt + verifyNotFoundGraceMs) :
      VerifyMove now event row (row.deferred now)
  | recorded (row' : ProposalRow) (hash : String)
      (hevent : event = .transition row.id (.reconcile (some hash)))
      (hnew : row.transactionHash ≠ some (normalizeHash hash))
      (hhash : row'.transactionHash = some (normalizeHash hash))
      (hlife : ∃ claimedAt, row'.lifecycle =
        .unknown claimedAt (some (normalizeHash hash)) none)
      (hafter : row'.verifyAfter = now + verifyFirstDelayMs)
      (hattempts : row'.verifyAttempts = 0)
      (hrecordedAt : row'.hashRecordedAt = now)
      (hnotBlocked : ¬ row.Blocked) :
      VerifyMove now event row row'
  | blocked (row' : ProposalRow) (hblocked : row'.Blocked)
      (hbefore : row.Tracked)
      (hhash : row'.transactionHash = row.transactionHash)
      (hafter : row'.verifyAfter = row.verifyAfter)
      (hattempts : row'.verifyAttempts = verifyMaxAttempts)
      (hrecordedAt : row'.hashRecordedAt = row.hashRecordedAt) :
      VerifyMove now event row row'

variable {row row' : ProposalRow} {now : ℕ} {event : ProposalEvent}
  {proves : String → String → TransactionProof → Prop}

theorem Quiet.untracked (hafter : row'.verifyAfter = row.verifyAfter)
    (hattempts : row'.verifyAttempts = row.verifyAttempts)
    (hrecordedAt : row'.hashRecordedAt = row.hashRecordedAt)
    (htracked : ¬ row'.Tracked) (hleft : row.Left → row'.Left)
    (hblocked : row.Blocked → row'.Blocked ∨ row'.Left)
    (hunblocked : ¬ row'.Blocked) : Quiet row row' :=
  ⟨hafter, hattempts, hrecordedAt, fun h => absurd h htracked, hleft,
    hblocked, fun h => absurd h hunblocked⟩

theorem not_left_prepared (h : row.lifecycle = .prepared) : ¬ row.Left := by
  rintro (⟨status, endedAt, hlife⟩ | ⟨claimedAt, transaction, hlife⟩)
  · rw [h] at hlife
    cases hlife
  · rw [h] at hlife
    cases hlife

theorem not_blocked_prepared (h : row.lifecycle = .prepared) :
    ¬ row.Blocked := by
  rintro ⟨claimedAt, hash, blockedAt, hlife⟩
  rw [h] at hlife
  cases hlife

namespace Open

variable {claimedAt : ℕ} {current : Option String}

theorem not_left (h : row.Open claimedAt current) : ¬ row.Left := by
  rintro (⟨status, endedAt, hlife⟩ | ⟨at', transaction, hlife⟩)
  · rcases h with ⟨hopen, -⟩ | hopen
    · rw [hopen] at hlife
      cases hlife
    · rw [hopen] at hlife
      cases hlife
  · rcases h with ⟨hopen, -⟩ | hopen
    · rw [hopen] at hlife
      cases hlife
    · rw [hopen] at hlife
      cases hlife

theorem not_blocked (h : row.Open claimedAt current) : ¬ row.Blocked := by
  rintro ⟨at', hash, blockedAt, hlife⟩
  rcases h with ⟨hopen, -⟩ | hopen
  · rw [hopen] at hlife
    cases hlife
  · rw [hopen] at hlife
    cases hlife

end Open

/-- A card is ended: its lookups are over. -/
theorem quiet_ended (row : ProposalRow) (status : EndedStatus)
    (hash : Option String) (now : ℕ) :
    Quiet row (row.write (.ended status now) hash) := by
  refine .untracked rfl rfl rfl ?_ (fun _ => .inl ⟨status, now, rfl⟩)
    (fun _ => .inr (.inl ⟨status, now, rfl⟩)) ?_
  · rintro ⟨hstatus, -⟩
    cases status <;> cases hstatus
  · rintro ⟨_, _, _, hlife⟩
    cases hlife

theorem quiet_verified (row : ProposalRow) (claimedAt : ℕ)
    (transaction : VerifiedActionTransaction) (hash : Option String) :
    Quiet row (row.write (.verified claimedAt transaction) hash) := by
  refine .untracked rfl rfl rfl ?_ (fun _ => .inr ⟨claimedAt, transaction,
    rfl⟩) (fun _ => .inr (.inr ⟨claimedAt, transaction, rfl⟩)) ?_
  · rintro ⟨hstatus, -⟩
    have hcode : (if transaction.code = 0 then ActionStatus.succeeded
        else .failed) = .unknown := hstatus
    split at hcode <;> cases hcode
  · rintro ⟨_, _, _, hlife⟩
    cases hlife

theorem quiet_claimed (hprepared : row.lifecycle = .prepared) :
    Quiet row (row.write (.claimed now) none) := by
  refine .untracked rfl rfl rfl ?_ (fun h => absurd h
    (not_left_prepared hprepared)) (fun h => absurd h
      (not_blocked_prepared hprepared)) ?_
  · rintro ⟨hstatus, -⟩
    cases hstatus
  · rintro ⟨_, _, _, hlife⟩
    cases hlife

/-- The reference a card already has is written again. -/
theorem quiet_rewritten {claimedAt : ℕ} {current : Option String}
    (hsound : row.Sound proves) (hopen : row.Open claimedAt current) :
    Quiet row (row.write (.unknown claimedAt current none) current) := by
  refine ⟨rfl, rfl, rfl, ?_, fun h => absurd h hopen.not_left,
    fun h => absurd h hopen.not_blocked, ?_⟩
  · rintro ⟨-, hhash⟩
    rcases hopen with ⟨hlife, rfl⟩ | hlife
    · cases hhash
    · refine ⟨hlife.symm, ?_, (Open.column (.inr hlife) hsound).symm⟩
      rw [hsound.status, hlife]
      rfl
  · rintro ⟨_, _, _, hlife⟩
    cases hlife

end ProposalRow

open ProposalRow

/-- A move, as the schedule sees it. -/
theorem CardMove.verifyMove (h : row.Sound proves)
    (hmove : CardMove proves now event row row') :
    row.VerifyMove now event row' := by
  cases hmove with
  | same => exact .quiet _ (.refl row)
  | lookedUp hdue => exact .lookedUp hdue
  | deferred hash hevent hstatus hhash hgrace =>
      exact .deferred hash hevent hstatus hhash hgrace
  | claimed hprepared _ _ =>
      have hquiet : Quiet row (row.write (.claimed now) none) :=
        quiet_claimed hprepared
      exact .quiet _ { hquiet with }
  | ended status _ _ =>
      have hquiet := quiet_ended row status none now
      exact .quiet _ { hquiet with }
  | reopened endedAt claimedAt hash hrevoked hclosed hevent =>
      refine .recorded _ hash hevent ?_ rfl ⟨claimedAt, rfl⟩ rfl rfl rfl ?_
      · rw [(h.closed hclosed).1]
        simp
      · rintro ⟨at', current, blockedAt, hlife⟩
        rw [hrevoked] at hlife
        cases hlife
  | recorded claimedAt current hash hopen _ hnew hevent =>
      refine .recorded _ hash hevent ?_ rfl ⟨claimedAt, rfl⟩ rfl rfl rfl
        hopen.not_blocked
      rw [hopen.column h]
      exact hnew
  | kept claimedAt current hopen =>
      exact .quiet _ (quiet_rewritten h hopen)
  | rejected hash _ _ =>
      have hquiet := Quiet.refl row
      exact .quiet _ { hquiet with }
  | blocked claimedAt hash hopen _ =>
      have hcolumn := Open.column (.inr hopen) h
      refine .blocked _ ⟨claimedAt, some hash, now, rfl⟩ ⟨?_, ?_⟩
        hcolumn.symm rfl rfl rfl
      · rw [h.status, hopen]
        rfl
      · rw [hcolumn]
        rfl
  | verified claimedAt blockedAt hash height code _ _ _ =>
      exact .quiet _ (quiet_verified row claimedAt _ _)
  | revoked claimedAt blockedAt hash _ =>
      have hquiet := quiet_ended row .revoked hash now
      exact .quiet _ { hquiet with }
  | closed claimedAt _ _ =>
      have hquiet := quiet_ended row .revoked none now
      exact .quiet _ { hquiet with }

end QiForge
