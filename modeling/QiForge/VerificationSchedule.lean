import QiForge.ActionVerification

/-!
# How often one recorded hash is looked up

The weight of a card: the attempts that are left, and while the grace of its
hash runs the lookups in flight, which may give an attempt back, and those
that can still start.  No event raises it while the hash stays, and a change
of the schedule of a card that is still looked up lowers it.
-/

namespace QiForge

namespace ProposalRow

/-- What `dueVerifications` and `nextVerificationAt` select. -/
def Scheduled (row : ProposalRow) : Prop :=
  row.Tracked ∧ row.verifyAttempts < verifyMaxAttempts

def inFlight (row : ProposalRow) (lookups : List (String × String)) : ℕ :=
  lookups.countP fun lookup => decide (lookup.1 = row.id ∧
    row.transactionHash = some (normalizeHash lookup.2))

/-- The lookups that can still start inside the grace. -/
def graceLookups (row : ProposalRow) (clock : ℕ) : ℕ :=
  (row.hashRecordedAt + verifyNotFoundGraceMs -
      min row.verifyAfter (clock + verifyFirstDelayMs) +
    (verifyFirstDelayMs - 1)) / verifyFirstDelayMs

def deferrals (row : ProposalRow) (s : ActionProposalStore) : ℕ :=
  if s.clock < row.hashRecordedAt + verifyNotFoundGraceMs then
    row.inFlight s.lookups + row.graceLookups s.clock
  else 0

def weight (row : ProposalRow) (s : ActionProposalStore) : ℕ :=
  2 * (verifyMaxAttempts - row.verifyAttempts) + 3 * row.deferrals s

/-- A card that was due when it was asked for may be late when it is looked
at. -/
def late (row : ProposalRow) (clock : ℕ) : ℕ :=
  if row.verifyAfter ≤ clock ∧ row.verifyAttempts < verifyMaxAttempts then 0
  else 1

/-- No event raises the weight, and only one that leaves the schedule keeps
it. -/
def Spends (row row' : ProposalRow) (s s' : ActionProposalStore) : Prop :=
  row'.weight s' ≤ row.weight s ∧ row'.late s'.clock ≤ row.late s.clock ∧
      (row.Scheduled → row'.verifyAfter = row.verifyAfter ∧
        row'.verifyAttempts = row.verifyAttempts) ∨
    row'.weight s' + 2 ≤ row.weight s ∨ row'.weight s' + 1 ≤ row.weight s ∧
        row'.late s'.clock ≤ row.late s.clock

variable {row row' : ProposalRow} {s s' : ActionProposalStore} {now : ℕ}

theorem le_backoff (attempts : ℕ) : verifyRetryBaseMs ≤
      backoff verifyRetryBaseMs verifyRetryMaxMs attempts := by
  apply le_min
  · exact Nat.le_mul_of_pos_right _ (Nat.two_pow_pos attempts)
  · decide

/-- A card that is late already cannot get later. -/
theorem late_le {clock clock' : ℕ} (hlate : ¬ (row.verifyAfter ≤ clock ∧
    row.verifyAttempts < verifyMaxAttempts)) :
    row'.late clock' ≤ row.late clock := by
  unfold late
  rw [if_neg hlate]
  split <;> decide

/-- Time passes. -/
theorem late_mono {clock : ℕ} (hlater : clock ≤ now)
    (hafter : row'.verifyAfter = row.verifyAfter)
    (hattempts : row'.verifyAttempts = row.verifyAttempts) :
    row'.late now ≤ row.late clock := by
  unfold late
  rw [hafter, hattempts]
  split_ifs with hdue hbefore
  · exact Nat.le_refl _
  · exact Nat.zero_le _
  · exact absurd ⟨by omega, by tauto⟩ hdue
  · exact Nat.le_refl _

theorem graceLookups_mono {clock : ℕ} (hlater : clock ≤ now)
    (hafter : row'.verifyAfter = row.verifyAfter)
    (hrecordedAt : row'.hashRecordedAt = row.hashRecordedAt) :
    row'.graceLookups now ≤ row.graceLookups clock := by
  simp only [graceLookups, hafter, hrecordedAt, verifyNotFoundGraceMs,
    verifyFirstDelayMs]
  omega

/-- The next lookup inside the grace is a first delay away. -/
theorem graceLookups_lt {clock : ℕ} (hlater : clock ≤ now)
    (hdue : row.verifyAfter ≤ now)
    (hgrace : now < row.hashRecordedAt + verifyNotFoundGraceMs)
    (hafter : now + verifyFirstDelayMs ≤ row'.verifyAfter)
    (hrecordedAt : row'.hashRecordedAt = row.hashRecordedAt) :
    row'.graceLookups now + 1 ≤ row.graceLookups clock := by
  simp only [graceLookups, hrecordedAt, verifyNotFoundGraceMs,
    verifyFirstDelayMs] at *
  omega

theorem graceLookups_deferred {clock : ℕ} (hlater : clock ≤ now)
    (hafter : row'.verifyAfter = now + verifyFirstDelayMs)
    (hrecordedAt : row'.hashRecordedAt = row.hashRecordedAt) :
    row'.graceLookups now ≤ row.graceLookups clock := by
  have hmin : min row.verifyAfter (clock + verifyFirstDelayMs) ≤
      now + verifyFirstDelayMs :=
    (min_le_right _ _).trans (Nat.add_le_add_right hlater _)
  unfold graceLookups
  rw [hrecordedAt, hafter, min_self]
  apply Nat.div_le_div_right
  apply Nat.add_le_add_right
  exact Nat.sub_le_sub_left hmin _

/-- A lookup that gives nothing back leaves the rest as it was. -/
theorem deferrals_mono (hlater : s.clock ≤ s'.clock)
    (hflight : row'.inFlight s'.lookups ≤ row.inFlight s.lookups)
    (hafter : row'.verifyAfter = row.verifyAfter)
    (hrecordedAt : row'.hashRecordedAt = row.hashRecordedAt) :
    row'.deferrals s' ≤ row.deferrals s := by
  have hgrace := graceLookups_mono hlater hafter hrecordedAt
  unfold deferrals
  rw [hrecordedAt]
  split_ifs <;> omega

/-- A lookup that starts inside the grace is one of those that could. -/
theorem deferrals_lookedUp (hlater : s.clock ≤ s'.clock)
    (hflight : row'.inFlight s'.lookups ≤ row.inFlight s.lookups + 1)
    (hdue : row.verifyAfter ≤ s'.clock)
    (hafter : s'.clock + verifyFirstDelayMs ≤ row'.verifyAfter)
    (hrecordedAt : row'.hashRecordedAt = row.hashRecordedAt) :
    row'.deferrals s' ≤ row.deferrals s := by
  unfold deferrals
  rw [hrecordedAt]
  split_ifs with hopen hbefore
  · have hgrace := graceLookups_lt hlater hdue hopen hafter hrecordedAt
    omega
  · omega
  · exact Nat.zero_le _
  · exact Nat.le_refl _

theorem deferrals_deferred (hlater : s.clock ≤ s'.clock)
    (hflight : row'.inFlight s'.lookups + 1 ≤ row.inFlight s.lookups)
    (hafter : row'.verifyAfter = s'.clock + verifyFirstDelayMs)
    (hrecordedAt : row'.hashRecordedAt = row.hashRecordedAt)
    (hgrace : s'.clock < row.hashRecordedAt + verifyNotFoundGraceMs) :
    row'.deferrals s' + 1 ≤ row.deferrals s ∧ (row.verifyAfter ≤ s.clock →
        row'.deferrals s' + 2 ≤ row.deferrals s) := by
  have hmono := graceLookups_deferred hlater hafter hrecordedAt
  have hopen : s.clock < row.hashRecordedAt + verifyNotFoundGraceMs :=
    hlater.trans_lt hgrace
  unfold deferrals
  rw [hrecordedAt, if_pos hgrace, if_pos hopen]
  refine ⟨by omega, fun hdue => ?_⟩
  have hlt := graceLookups_lt hlater (hdue.trans hlater) hgrace hafter.ge
    hrecordedAt
  omega

end ProposalRow

namespace ActionProposalStore

open ProposalRow

variable {proves : String → String → TransactionProof → Prop} {now : ℕ}
  {event : ProposalEvent} {s s' : ActionProposalStore} {row row' : ProposalRow}

/-- The row a row of the next state was. -/
theorem Turned.move (h : Turned proves now event s s') (hsound : s.Sound proves)
    (hrow : row ∈ s.rows) (hrow' : row' ∈ s'.rows)
    (hserial : row'.serial = row.serial) :
    CardMove proves now event row row' := by
  rcases h.moves row' hrow' with ⟨old, hold, hmove⟩ | ⟨hnew, -⟩
  · obtain rfl : old = row := List.inj_on_of_nodup_map hsound.serials hold
      hrow (hmove.identity.1.symm.trans hserial)
    exact hmove
  · exact absurd (hsound.numbered row hrow) (by omega)

theorem inFlight_congr (hid : row'.id = row.id)
    (hhash : row'.transactionHash = row.transactionHash)
    (lookups : List (String × String)) :
    row'.inFlight lookups = row.inFlight lookups := by
  unfold inFlight
  rw [hid, hhash]

/-- At most one lookup starts. -/
theorem LookupMove.inFlight_le (h : LookupMove now event s s')
    (hid : row'.id = row.id)
    (hhash : row'.transactionHash = row.transactionHash) :
    row'.inFlight s'.lookups ≤ row.inFlight s.lookups + 1 := by
  rw [inFlight_congr hid hhash]
  cases h with
  | same hlookups => rw [hlookups]; omega
  | started id hash hlookups =>
      rw [hlookups]
      unfold inFlight
      rw [List.countP_append]
      exact Nat.add_le_add_left List.countP_le_length _
  | answered id hash answer hevent hheld hlookups =>
      rw [hlookups]
      exact (List.erase_sublist.countP_le).trans (Nat.le_succ _)

/-- None starts for a card whose cooldown stays. -/
theorem LookupMove.inFlight_mono (h : LookupMove now event s s')
    (hsound : s.Sound proves) (hrow : row ∈ s.rows) (hrow' : row' ∈ s'.rows)
    (hid : row'.id = row.id)
    (hhash : row'.transactionHash = row.transactionHash)
    (hafter : row'.verifyAfter = row.verifyAfter) :
    row'.inFlight s'.lookups ≤ row.inFlight s.lookups := by
  rw [inFlight_congr hid hhash]
  cases h with
  | same hlookups => rw [hlookups]
  | started id hash hlookups hevent hrows =>
      by_cases hown : row.id = id
      · rcases hrows row' hrow' (hid.trans hown) with
          ⟨old, hold, hdue, rfl⟩
        obtain rfl : old = row :=
          List.inj_on_of_nodup_map hsound.ids hold hrow hid
        have hback := le_backoff old.verifyAttempts
        simp only [lookedUp, verifyRetryBaseMs] at hafter hback
        omega
      · rw [hlookups]
        unfold inFlight
        rw [List.countP_append, List.countP_singleton, if_neg]
        · exact Nat.le_refl _
        · simp [Ne.symm hown]
  | answered id hash answer hevent hheld hlookups =>
      rw [hlookups]
      exact List.erase_sublist.countP_le

theorem LookupMove.inFlight_deferred (h : LookupMove now event s s')
    {hash : String} (hevent : event = .answer row.id hash .notFound)
    (hid : row'.id = row.id)
    (hhash : row'.transactionHash = row.transactionHash)
    (hown : row.transactionHash = some (normalizeHash hash)) :
    row'.inFlight s'.lookups + 1 ≤ row.inFlight s.lookups := by
  rw [inFlight_congr hid hhash]
  cases h with
  | same hlookups hother => exact absurd hevent (hother _ _ _)
  | started id hash hlookups hstarted =>
      rcases hstarted with ⟨lifecycle, heq⟩
      rw [hevent] at heq
      cases heq
  | answered id hash' answer hanswer hheld hlookups =>
      rw [hevent] at hanswer
      cases hanswer
      have hcounts : (decide (row.id = row.id ∧
          row.transactionHash = some (normalizeHash hash))) = true :=
        decide_eq_true ⟨rfl, hown⟩
      have hpos : 0 < row.inFlight s.lookups :=
        List.countP_pos_iff.mpr ⟨(row.id, hash), hheld, hcounts⟩
      rw [hlookups]
      unfold inFlight at hpos ⊢
      rw [List.countP_erase, if_pos ⟨hheld, hcounts⟩]
      omega

/-- One event on a card that keeps its hash. -/
theorem Turned.spends (h : Turned proves now event s s') (hsound : s.Sound proves)
    (hrow : row ∈ s.rows) (hrow' : row' ∈ s'.rows)
    (hserial : row'.serial = row.serial) (htracked : row'.Tracked)
    (hhash : row'.transactionHash = row.transactionHash) :
    row.Tracked ∧ row.Spends row' s s' := by
  have hmove := h.move hsound hrow hrow' hserial
  have hid : row'.id = row.id := hmove.ident
  have hlater : s.clock ≤ s'.clock := h.clock.symm ▸ h.later
  cases hmove.verifyMove (hsound.rows row hrow) with
  | quiet _ hquiet =>
      rcases hquiet.tracked htracked with ⟨-, hstatus, -⟩
      have hflight := h.lookups.inFlight_mono hsound hrow hrow' hid hhash
        hquiet.after
      have hdefer := deferrals_mono hlater hflight hquiet.after
        hquiet.recordedAt
      refine ⟨⟨hstatus ▸ htracked.1, hhash ▸ htracked.2⟩, .inl ⟨?_,
        late_mono hlater hquiet.after hquiet.attempts,
        fun _ => ⟨hquiet.after, hquiet.attempts⟩⟩⟩
      unfold weight
      rw [hquiet.attempts]
      omega
  | lookedUp hdue =>
      have hflight := h.lookups.inFlight_le hid hhash
      have hback := le_backoff row.verifyAttempts
      have hdefer := deferrals_lookedUp hlater hflight
        (hdue.trans h.clock.ge) (by
          rw [h.clock]
          exact Nat.add_le_add_left hback now) rfl
      refine ⟨htracked, ?_⟩
      by_cases hleft : row.verifyAttempts < verifyMaxAttempts
      · refine .inr (.inl ?_)
        simp only [weight]
        simp only [ProposalRow.lookedUp] at hdefer ⊢
        omega
      · refine .inl ⟨?_, ?_, fun hscheduled => absurd hscheduled.2 hleft⟩
        · simp only [weight]
          simp only [ProposalRow.lookedUp] at hdefer ⊢
          omega
        · exact late_le fun hdue => hleft hdue.2
  | deferred hash hevent hstatus hown hgrace =>
      have hflight := h.lookups.inFlight_deferred hevent hid hhash hown
      have hdefer := deferrals_deferred hlater hflight
        (by rw [h.clock]; rfl) rfl (by rw [h.clock]; exact hgrace)
      refine ⟨htracked, .inr ?_⟩
      by_cases hdue : row.verifyAfter ≤ s.clock
      · have htwo := hdefer.2 hdue
        refine .inl ?_
        simp only [weight]
        simp only [ProposalRow.deferred] at htwo ⊢
        omega
      · refine .inr ⟨?_, ?_⟩
        · have hone := hdefer.1
          simp only [weight]
          simp only [ProposalRow.deferred] at hone ⊢
          omega
        · exact late_le fun hboth => hdue hboth.1
  | recorded _ hash hevent hnew hrecorded =>
      exact absurd (hhash.symm.trans hrecorded) hnew
  | blocked _ hblocked hbefore _ hafter hattempts hrecordedAt =>
      have hflight := h.lookups.inFlight_mono hsound hrow hrow' hid hhash
        hafter
      have hdefer := deferrals_mono hlater hflight hafter hrecordedAt
      refine ⟨hbefore, ?_⟩
      by_cases hleft : row.verifyAttempts < verifyMaxAttempts
      · refine .inr (.inl ?_)
        unfold weight
        rw [hattempts]
        omega
      · refine .inl ⟨?_, ?_, fun hscheduled => absurd hscheduled.2 hleft⟩
        · unfold weight
          rw [hattempts]
          omega
        · exact late_le fun hdue => hleft hdue.2

end ActionProposalStore

end QiForge
