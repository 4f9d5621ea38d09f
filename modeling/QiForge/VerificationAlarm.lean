import QiForge.VerificationSchedule

/-!
# The owner object's alarm over the card store

The alarm asks for the cards that are due, calls `refreshActionProposal` for
each of them, and asks again after the last.  Between its steps anything else
may happen to the store, and a lookup may answer anything.
-/

namespace QiForge

def ActionLifecycle.executionBlockedAt : ActionLifecycle → Option ℕ
  | unknown _ _ blockedAt => blockedAt
  | _ => none

namespace ActionProposalStore

/-- When the alarm should next look a recorded transaction up, if ever. -/
def nextVerificationAt (s : ActionProposalStore) : Option ℕ :=
  ((s.rows.filter fun row => decide (row.status = .unknown ∧
      row.transactionHash.isSome ∧
      row.verifyAttempts < verifyMaxAttempts)).map
    ProposalRow.verifyAfter).min?

end ActionProposalStore

/-- `looks` is a history: the cards the alarm called `refreshActionProposal`
for, by their numbers in the store. -/
structure AlarmState where
  store : ActionProposalStore
  asked : List ReadProposal
  looks : List ℕ

inductive AlarmEvent where
  | store (event : ProposalEvent)
  | ask (limit : ℕ)
  | look (proposal : ReadProposal)
deriving DecidableEq, Repr

/-- A verifier of which a lookup may take any answer. -/
def freely : ProposalEvent → String → String → Option TransactionProof
  | .answer _ _ (.proof proof) => fun _ _ => some proof
  | _ => fun _ _ => none

/-- The store's event an alarm event is. -/
def AlarmEvent.event : AlarmEvent → ProposalEvent
  | .store event => event
  | .ask limit => .dueVerifications limit
  | .look proposal => .refresh proposal

namespace AlarmState

variable (digestActionProposal : ActionProposalSubject → String)

def start : AlarmState where
  store := .empty
  asked := []
  looks := []

/-- What the alarm has left to look at. -/
def askedAfter (s : AlarmState) (now : ℕ) : AlarmEvent → List ReadProposal
  | .store _ => s.asked
  | .ask limit => (s.store.dueVerifications now limit).map fun row =>
      ⟨row.subject.id, row.lifecycle⟩
  | .look proposal => s.asked.erase proposal

def looksAfter (s : AlarmState) : AlarmEvent → List ℕ
  | .look proposal =>
      s.looks ++ ((s.store.get proposal.id).map ProposalRow.serial).toList
  | _ => s.looks

/-- The alarm asks when it has looked at all it asked for. -/
def Ready (s : AlarmState) : AlarmEvent → Prop
  | .store _ => True
  | .ask _ => s.asked = []
  | .look proposal => proposal ∈ s.asked

instance (s : AlarmState) : (event : AlarmEvent) → Decidable (s.Ready event)
  | .store _ => .isTrue trivial
  | .ask _ => inferInstanceAs (Decidable (_ = _))
  | .look _ => inferInstanceAs (Decidable (_ ∈ _))

def step (s : AlarmState) (at' : ℕ × AlarmEvent) : Option AlarmState :=
  if s.Ready at'.2 then
    (s.store.step digestActionProposal (freely at'.2.event)
      (at'.1, at'.2.event)).map fun store =>
        { store := store
          asked := s.askedAfter at'.1 at'.2
          looks := s.looksAfter at'.2 }
  else none

end AlarmState

namespace ProposalRow

theorem blocked_iff {row : ProposalRow} :
    row.Blocked ↔ row.lifecycle.executionBlockedAt.isSome = true := by
  unfold Blocked
  cases row.lifecycle with
  | unknown claimedAt hash blockedAt =>
      cases blockedAt with
      | none => simp [ActionLifecycle.executionBlockedAt]
      | some blockedAt => simp [ActionLifecycle.executionBlockedAt]
  | _ => simp [ActionLifecycle.executionBlockedAt]

instance (row : ProposalRow) : Decidable row.Blocked :=
  decidable_of_iff _ blocked_iff.symm

/-- A not-found answer that `deferNotFound` applies to the card. -/
def Defers (row : ProposalRow) (now : ℕ) : AlarmEvent → Prop
  | .store (.answer id hash .notFound) =>
      id = row.id ∧ row.status = .unknown ∧
        row.transactionHash = some (normalizeHash hash) ∧
        now < row.hashRecordedAt + verifyNotFoundGraceMs
  | _ => False

instance (row : ProposalRow) (now : ℕ) (event : AlarmEvent) :
    Decidable (row.Defers now event) := by
  unfold Defers
  split <;> infer_instance

end ProposalRow

namespace AlarmState

variable (digestActionProposal : ActionProposalSubject → String)

/-- No hash is recorded anew for the card. -/
def SameHash (serial : ℕ) (s : AlarmState) (at' : ℕ × AlarmEvent) : Prop :=
  ∀ s' ∈ s.step digestActionProposal at', ∀ row ∈ s.store.rows,
    ∀ row' ∈ s'.store.rows, row.serial = serial → row'.serial = serial →
      row'.Tracked → row'.transactionHash = row.transactionHash

def NotDeferred (serial : ℕ) (s : AlarmState) (at' : ℕ × AlarmEvent) :
    Prop :=
  ∀ row ∈ s.store.rows, row.serial = serial → ¬ row.Defers at'.1 at'.2

/-- No lookup is answered not found for a card that was blocked since. -/
def NotOvertaken (s : AlarmState) (at' : ℕ × AlarmEvent) : Prop :=
  ∀ row ∈ s.store.rows, row.Blocked → ¬ row.Defers at'.1 at'.2

instance (serial : ℕ) (s : AlarmState) (at' : ℕ × AlarmEvent) :
    Decidable (SameHash digestActionProposal serial s at') :=
  inferInstanceAs (Decidable (∀ s' ∈ s.step digestActionProposal at', _))

instance (serial : ℕ) (s : AlarmState) (at' : ℕ × AlarmEvent) :
    Decidable (NotDeferred serial s at') :=
  inferInstanceAs (Decidable (∀ row ∈ s.store.rows, _))

instance (s : AlarmState) (at' : ℕ × AlarmEvent) :
    Decidable (NotOvertaken s at') :=
  inferInstanceAs (Decidable (∀ row ∈ s.store.rows, _))

end AlarmState

namespace ActionProposalStore

variable {proves : String → String → TransactionProof → Prop}
  {now limit : ℕ} {s s' : ActionProposalStore} {row : ProposalRow}

theorem mem_dueVerifications (hdue : row ∈ s.dueVerifications now limit) :
    row ∈ s.rows ∧ row.Scheduled ∧ row.verifyAfter ≤ now := by
  have hsorted := List.mem_of_mem_take hdue
  rw [List.mem_insertionSort, List.mem_filter, decide_eq_true_eq] at hsorted
  rcases hsorted with ⟨hrow, hstatus, hhash, hafter, hattempts⟩
  exact ⟨hrow, ⟨⟨hstatus, hhash⟩, hattempts⟩, hafter⟩

/-- The alarm's next time does not depend on a card that is not scheduled. -/
theorem nextVerificationAt_without (s : ActionProposalStore) (serial : ℕ)
    (hnot : ∀ row ∈ s.rows, row.serial = serial → ¬ row.Scheduled) :
    nextVerificationAt { s with
        rows := s.rows.filter fun row => decide (row.serial ≠ serial) } =
      s.nextVerificationAt := by
  unfold nextVerificationAt
  congr 2
  rw [List.filter_filter]
  apply List.filter_congr
  intro row hrow
  by_cases hserial : row.serial = serial
  · have hunscheduled := hnot row hrow hserial
    simp only [hserial, ne_eq, not_true_eq_false, decide_false, Bool.and_false]
    symm
    rw [decide_eq_false_iff_not]
    rintro ⟨hstatus, hhash, hattempts⟩
    exact hunscheduled ⟨⟨hstatus, hhash⟩, hattempts⟩
  · simp [hserial]

theorem rows_noteAll (ids : List String) (s : ActionProposalStore) :
    (ids.foldl noteRead s).rows = s.rows := by
  induction ids generalizing s with
  | nil => rfl
  | cons id ids ih =>
      rw [List.foldl_cons, ih]
      unfold noteRead
      split <;> rfl

/-- A row that waits for a transaction and is not blocked. -/
theorem Sound.lifecycle_tracked (h : s.Sound proves) (hrow : row ∈ s.rows)
    (htracked : row.Tracked) (hnotBlocked : ¬ row.Blocked) :
    ∃ claimedAt hash, row.lifecycle = .unknown claimedAt (some hash) none ∧
      row.transactionHash = some hash := by
  have hsound := h.rows row hrow
  rcases htracked with ⟨hstatus, hsome⟩
  obtain ⟨hash, hhash⟩ := Option.isSome_iff_exists.mp hsome
  have hlife := hsound.status.symm.trans hstatus
  rcases hsound.column hash hhash with hcolumn | hrevoked
  · cases hcase : row.lifecycle with
    | unknown claimedAt current blockedAt =>
        rw [hcase] at hcolumn
        cases blockedAt with
        | none =>
            obtain rfl : current = some hash := hcolumn
            exact ⟨claimedAt, hash, rfl, hhash⟩
        | some blockedAt =>
            exact absurd ⟨claimedAt, current, blockedAt, hcase⟩ hnotBlocked
    | verified claimedAt transaction =>
        rw [hcase] at hlife
        simp only [ActionLifecycle.status] at hlife
        split at hlife <;> cases hlife
    | _ =>
        rw [hcase] at hcolumn
        cases hcolumn
  · rw [hrevoked] at hstatus
    cases hstatus

end ActionProposalStore

namespace AlarmState

open ActionProposalStore ProposalRow

variable {digestActionProposal : ActionProposalSubject → String}
  {s s' : AlarmState} {at' : ℕ × AlarmEvent} {row row' : ProposalRow}
  {serial : ℕ}

/-- What holds of every state of the alarm. -/
structure Tidy (s : AlarmState) : Prop where
  sound : s.store.Sound fun _ _ _ => True
  asked : (s.asked.map ReadProposal.id).Nodup

/-- The attempts of a blocked card are spent. -/
def Spent (s : AlarmState) : Prop := ∀ row ∈ s.store.rows, row.Blocked →
    verifyMaxAttempts ≤ row.verifyAttempts

theorem step_eq_some (hstep : s.step digestActionProposal at' = some s') :
    s.Ready at'.2 ∧ s.store.step digestActionProposal (freely at'.2.event)
        (at'.1, at'.2.event) = some s'.store ∧
      s'.asked = s.askedAfter at'.1 at'.2 ∧
      s'.looks = s.looksAfter at'.2 := by
  rcases Option.ite_none_right_eq_some.mp hstep with ⟨hready, hmap⟩
  rcases Option.map_eq_some_iff.mp hmap with ⟨store, hstore, rfl⟩
  exact ⟨hready, hstore, rfl, rfl⟩

theorem Tidy.turned (h : s.Tidy)
    (hstep : s.step digestActionProposal at' = some s') :
    Turned (fun _ _ _ => True) at'.1 at'.2.event s.store s'.store :=
  h.sound.step (fun _ _ _ _ => trivial) (step_eq_some hstep).2.1

theorem Tidy.step (h : s.Tidy)
    (hstep : s.step digestActionProposal at' = some s') : s'.Tidy := by
  refine ⟨(h.turned hstep).sound, ?_⟩
  rw [(step_eq_some hstep).2.2.1]
  rcases at' with ⟨now, event⟩
  cases event with
  | store event => exact h.asked
  | look proposal => exact h.asked.sublist (List.erase_sublist.map _)
  | ask limit =>
      have hids : ((s.store.dueVerifications now limit).map
          ProposalRow.id).Nodup := by
        unfold dueVerifications
        apply List.Nodup.sublist ((List.take_sublist _ _).map _)
        apply ((List.perm_insertionSort _ _).map _).nodup_iff.mpr
        exact h.sound.ids.sublist (List.filter_sublist.map _)
      have hsame : (s.askedAfter now (.ask limit)).map ReadProposal.id =
          (s.store.dueVerifications now limit).map ProposalRow.id := by
        simp only [askedAfter, List.map_map]
        rfl
      rw [hsame]
      exact hids

theorem tidy_start : start.Tidy := ⟨sound_empty, List.nodup_nil⟩

/-- The slip is the only way out. -/
theorem Spent.step (h : s.Spent) (htidy : s.Tidy)
    (hovertaken : s.NotOvertaken at')
    (hstep : s.step digestActionProposal at' = some s') : s'.Spent := by
  intro row' hrow' hblocked
  have hturned := htidy.turned hstep
  rcases hturned.moves row' hrow' with ⟨row, hrow, hmove⟩ | ⟨-, hprepared⟩
  swap
  · exact absurd hblocked (not_blocked_prepared hprepared)
  cases hmove.verifyMove (htidy.sound.rows row hrow) with
  | quiet _ hquiet =>
      rw [hquiet.attempts]
      exact h row hrow (hquiet.unblocked hblocked)
  | lookedUp hdue => exact (h row hrow hblocked).trans (Nat.le_succ _)
  | deferred hash hevent hstatus hhash hgrace =>
      rcases at' with ⟨now, event⟩
      cases event with
      | store event =>
          obtain rfl : event = .answer row.id hash .notFound := hevent
          exact absurd ⟨rfl, hstatus, hhash, hgrace⟩
            (hovertaken row hrow hblocked)
      | ask limit => cases hevent
      | look proposal => cases hevent
  | recorded _ hash hevent hnew hhash hlife =>
      rcases hlife with ⟨claimedAt, hlife⟩
      rw [blocked_iff, hlife] at hblocked
      cases hblocked
  | blocked _ _ _ _ _ hattempts => exact hattempts.ge

/-- A card the alarm may look at waits for its transaction. -/
def Asked (s : AlarmState) : Prop := ∀ proposal ∈ s.asked, ∃ claimedAt hash,
    proposal.lifecycle = .unknown claimedAt (some hash) none

theorem Asked.step (h : s.Asked) (htidy : s.Tidy) (hspent : s.Spent)
    (hstep : s.step digestActionProposal at' = some s') : s'.Asked := by
  intro proposal hproposal
  rw [(step_eq_some hstep).2.2.1] at hproposal
  rcases at' with ⟨now, event⟩
  cases event with
  | store event => exact h proposal hproposal
  | look looked => exact h proposal (List.erase_subset hproposal)
  | ask limit =>
      rcases List.mem_map.mp hproposal with ⟨row, hdue, rfl⟩
      rcases mem_dueVerifications hdue with ⟨hrow, hscheduled, -⟩
      have hnotBlocked : ¬ row.Blocked := fun hblocked =>
        absurd (hspent row hrow hblocked) hscheduled.2.not_ge
      rcases htidy.sound.lifecycle_tracked hrow hscheduled.1 hnotBlocked
        with ⟨claimedAt, hash, hlife, -⟩
      exact ⟨claimedAt, hash, hlife⟩

/-- What holds of every state of a run that meets `NotOvertaken`. -/
structure Orderly (s : AlarmState) : Prop where
  tidy : s.Tidy
  spent : s.Spent
  asked : s.Asked

theorem Orderly.step (h : s.Orderly) (hovertaken : s.NotOvertaken at')
    (hstep : s.step digestActionProposal at' = some s') : s'.Orderly :=
  ⟨h.tidy.step hstep, h.spent.step h.tidy hovertaken hstep,
    h.asked.step h.tidy h.spent hstep⟩

theorem orderly_start : start.Orderly :=
  ⟨tidy_start, fun _ hrow => absurd hrow List.not_mem_nil,
    fun _ hproposal => absurd hproposal List.not_mem_nil⟩

theorem Orderly.run {es : List (ℕ × AlarmEvent)} (h : s.Orderly)
    (hmeets : Transition.Meets (AlarmState.step digestActionProposal)
      NotOvertaken s es)
    (hrun : Transition.run (AlarmState.step digestActionProposal) s es =
      some s') : s'.Orderly :=
  Transition.run_preserves_of_meets
    (fun _ _ _ hs hcond hstep => hs.step hcond hstep) hmeets h hrun

/-- A card of the next state was a card of this one. -/
theorem Tidy.earlier (h : s.Tidy) (hnumbered : serial < s.store.inserted)
    (hstep : s.step digestActionProposal at' = some s')
    (hrow' : row' ∈ s'.store.rows) (hserial : row'.serial = serial) :
    ∃ row ∈ s.store.rows, row.serial = serial := by
  rcases (h.turned hstep).moves row' hrow' with ⟨row, hrow, hmove⟩ | ⟨hnew, -⟩
  · exact ⟨row, hrow, hmove.identity.1.symm.trans hserial⟩
  · omega

/-- What every step preserves of a card, every run preserves. -/
theorem card_run {I : AlarmState → Prop} {P : AlarmState → ProposalRow → Prop}
    {cond : AlarmState → ℕ × AlarmEvent → Prop}
    (htidy : ∀ s, I s → s.Tidy)
    (hinv : ∀ s s' at', I s → cond s at' →
      s.step digestActionProposal at' = some s' → I s')
    (hcard : ∀ s s' at' row row', I s → cond s at' →
      s.step digestActionProposal at' = some s' → row ∈ s.store.rows →
      row' ∈ s'.store.rows → row.serial = serial → row'.serial = serial →
      P s row → P s' row')
    {es : List (ℕ × AlarmEvent)} (hI : I s)
    (hnumbered : serial < s.store.inserted)
    (hP : ∀ row ∈ s.store.rows, row.serial = serial → P s row)
    (hmeets : Transition.Meets (AlarmState.step digestActionProposal) cond s
      es)
    (hrun : Transition.run (AlarmState.step digestActionProposal) s es =
      some s') :
    ∀ row' ∈ s'.store.rows, row'.serial = serial → P s' row' := by
  suffices hall : I s' ∧ serial < s'.store.inserted ∧
      ∀ row' ∈ s'.store.rows, row'.serial = serial → P s' row' from
    hall.2.2
  refine Transition.run_preserves_of_meets
    (I := fun t => I t ∧ serial < t.store.inserted ∧
      ∀ row ∈ t.store.rows, row.serial = serial → P t row)
    ?_ hmeets ⟨hI, hnumbered, hP⟩ hrun
  rintro t t' at' ⟨ht, hbelow, hrows⟩ hcond hstep
  refine ⟨hinv t t' at' ht hcond hstep, hbelow.trans_le
    ((htidy t ht).turned hstep).inserted, ?_⟩
  intro row' hrow' hserial'
  rcases (htidy t ht).earlier hbelow hstep hrow' hserial' with
    ⟨row, hrow, hserial⟩
  exact hcard t t' at' row row' ht hcond hstep hrow hrow' hserial hserial'
    (hrows row hrow hserial)

/-- A hash that is recorded anew is not the same. -/
theorem SameHash.not_recorded {hash : String} {P : Prop}
    {proves : String → String → TransactionProof → Prop}
    (hsame : SameHash digestActionProposal serial s at')
    (hstep : s.step digestActionProposal at' = some s')
    (hrow : row ∈ s.store.rows) (hrow' : row' ∈ s'.store.rows)
    (hserial : row.serial = serial) (hserial' : row'.serial = serial)
    (hsound : row'.Sound proves)
    (hnew : row.transactionHash ≠ some (normalizeHash hash))
    (hhash : row'.transactionHash = some (normalizeHash hash))
    (hlife : ∃ claimedAt, row'.lifecycle =
      .unknown claimedAt (some (normalizeHash hash)) none) : P := by
  rcases hlife with ⟨claimedAt, hlife⟩
  have hstatus : row'.status = .unknown := by
    rw [hsound.status, hlife]
    rfl
  have hsome : row'.transactionHash.isSome = true := by
    rw [hhash]
    rfl
  have heq := hsame s' hstep row hrow row' hrow' hserial hserial'
    ⟨hstatus, hsome⟩
  exact absurd (heq.symm.trans hhash) hnew

/-- A card that is over stays over while no hash is recorded anew. -/
theorem Tidy.over_step (h : s.Tidy)
    (hsame : SameHash digestActionProposal serial s at')
    (hstep : s.step digestActionProposal at' = some s')
    (hrow : row ∈ s.store.rows) (hrow' : row' ∈ s'.store.rows)
    (hserial : row.serial = serial) (hserial' : row'.serial = serial)
    (hover : row.Blocked ∨ row.Left) : row'.Blocked ∨ row'.Left := by
  have hmove := (h.turned hstep).move h.sound hrow hrow'
    (hserial'.trans hserial.symm)
  cases hmove.verifyMove (h.sound.rows row hrow) with
  | quiet _ hquiet =>
      rcases hover with hblocked | hleft
      · exact hquiet.blocked hblocked
      · exact .inr (hquiet.left hleft)
  | lookedUp _ => exact hover
  | deferred _ _ _ _ _ => exact hover
  | blocked _ hblocked => exact .inl hblocked
  | recorded _ hash _ hnew hhash hlife =>
      exact hsame.not_recorded hstep hrow hrow' hserial hserial'
        ((h.turned hstep).sound.rows row' hrow') hnew
        hhash hlife

theorem Orderly.unscheduled (h : s.Orderly) (hrow : row ∈ s.store.rows)
    (hover : row.Blocked ∨ row.Left) : ¬ row.Scheduled := by
  rintro ⟨⟨hstatus, -⟩, hattempts⟩
  rcases hover with hblocked | hleft
  · exact absurd (h.spent row hrow hblocked) hattempts.not_ge
  · rw [(h.tidy.sound.rows row hrow).status] at hstatus
    rcases hleft with ⟨status, endedAt, hlife⟩ | ⟨at', transaction, hlife⟩
    · rw [hlife] at hstatus
      cases status <;> cases hstatus
    · rw [hlife] at hstatus
      simp only [ActionLifecycle.status] at hstatus
      split at hstatus <;> cases hstatus

/-- The cooldown of a card ends no earlier. -/
theorem Tidy.after_step (h : s.Tidy) {limit : ℕ}
    (hsame : SameHash digestActionProposal serial s at')
    (hnotDeferred : s.NotDeferred serial at')
    (hstep : s.step digestActionProposal at' = some s')
    (hrow : row ∈ s.store.rows) (hrow' : row' ∈ s'.store.rows)
    (hserial : row.serial = serial) (hserial' : row'.serial = serial)
    (hafter : limit ≤ row.verifyAfter) : limit ≤ row'.verifyAfter := by
  have hmove := (h.turned hstep).move h.sound hrow hrow'
    (hserial'.trans hserial.symm)
  cases hmove.verifyMove (h.sound.rows row hrow) with
  | quiet _ hquiet => rw [hquiet.after]; exact hafter
  | lookedUp hdue =>
      exact hafter.trans (hdue.trans (Nat.le_add_right _ _))
  | blocked _ _ _ _ hsameAfter => rw [hsameAfter]; exact hafter
  | deferred hash hevent hstatus hhash hgrace =>
      rcases at' with ⟨now, event⟩
      cases event with
      | store event =>
          obtain rfl : event = .answer row.id hash .notFound := hevent
          exact absurd ⟨rfl, hstatus, hhash, hgrace⟩
            (hnotDeferred row hrow hserial)
      | ask limit => cases hevent
      | look proposal => cases hevent
  | recorded _ hash _ hnew hhash hlife =>
      exact hsame.not_recorded hstep hrow hrow' hserial hserial'
        ((h.turned hstep).sound.rows row' hrow') hnew
        hhash hlife

end AlarmState

/-- The events that call `claimVerification` for the card. -/
def ProposalEvent.Calls (id : String) : ProposalEvent → Prop
  | .claimVerification id' => id' = id
  | .refresh proposal => proposal.id = id ∧ ∃ claimedAt hash,
      proposal.lifecycle = .unknown claimedAt (some hash) none
  | _ => False

namespace ActionProposalStore

variable {proves : String → String → TransactionProof → Prop}
  {digestActionProposal : ActionProposalSubject → String}
  {verifier : String → String → Option TransactionProof}
  {now : ℕ} {event : ProposalEvent} {s s' : ActionProposalStore}
  {id : String} {row row' : ProposalRow}

/-- A successful call takes the lookup of every row of the id. -/
theorem rows_of_calls (hcalls : event.Calls id)
    (hgranted : (s.claimVerification now id).1 = true)
    (hstep : s.step digestActionProposal verifier (now, event) = some s') :
    s'.rows = KeyedRows.update ProposalRow.id id
      (ProposalRow.lookedUp · now) s.rows := by
  rcases Option.ite_none_left_eq_some.mp hstep with ⟨-, hevent⟩
  have hclaim : ({ s with clock := now } : ActionProposalStore).claimVerification
        now id =
      (true, ({ s with clock := now } : ActionProposalStore).updateRow id
        (ProposalRow.lookedUp · now)) := by
    rcases s.claimVerification_cases now id with ⟨hclaim, -⟩ | ⟨-, due, hdue⟩
    · rw [hclaim] at hgranted
      cases hgranted
    · rcases claimVerification_cases { s with clock := now } now id with
        ⟨-, hnot⟩ | ⟨hclaim, -⟩
      · exact absurd hdue.2.2 (hnot due hdue.1 hdue.2.1).not_ge
      · exact hclaim
  cases event with
  | claimVerification id' =>
      obtain rfl : id' = id := hcalls
      cases hevent
      rw [hclaim]
      rfl
  | refresh proposal =>
      rcases hcalls with ⟨rfl, claimedAt, hash, hlife⟩
      rcases Option.ite_none_right_eq_some.mp hevent with ⟨-, hsome⟩
      cases hsome
      unfold ActionProposalStore.refreshActionProposal
      rw [hlife]
      rw [hclaim]
      rfl
  | _ => exact hcalls.elim

theorem Sound.lookedUp_of_calls (h : s.Sound proves) (hcalls : event.Calls row.id)
    (hgranted : (s.claimVerification now row.id).1 = true)
    (hstep : s.step digestActionProposal verifier (now, event) = some s')
    (hrow : row ∈ s.rows) (hrow' : row' ∈ s'.rows)
    (hserial : row'.serial = row.serial) :
    row' = row.lookedUp now ∧ row.verifyAfter ≤ now := by
  rw [rows_of_calls hcalls hgranted hstep] at hrow'
  rcases KeyedRows.mem_update hrow' with
    ⟨old, hold, ⟨hid, rfl⟩ | ⟨hid, rfl⟩⟩
  · obtain rfl : old = row := List.inj_on_of_nodup_map h.ids hold hrow hid
    refine ⟨rfl, ?_⟩
    rcases s.claimVerification_cases now old.id with
      ⟨hclaim, -⟩ | ⟨-, due, hdue, hdueId, hafter⟩
    · rw [hclaim] at hgranted
      cases hgranted
    · obtain rfl : due = old := List.inj_on_of_nodup_map h.ids hdue hrow hdueId
      exact hafter
  · obtain rfl : row' = row :=
      List.inj_on_of_nodup_map h.serials hold hrow hserial
    exact absurd rfl hid

theorem claimVerification_granted (hrow : row ∈ s.rows)
    (hdue : row.verifyAfter ≤ now) :
    (s.claimVerification now row.id).1 = true := by
  rcases s.claimVerification_cases now row.id with ⟨-, hnot⟩ | ⟨hclaim, -⟩
  · exact absurd hdue (hnot row hrow rfl).not_ge
  · rw [hclaim]

end ActionProposalStore

end QiForge
