import QiForge.VerificationBound

/-!
# The verification schedule stops

An execution goes on for ever; while a card is scheduled the alarm keeps
firing, and time goes on.  The rest of a card becomes constant, so its
schedule does, and then every time the alarm fires a card that is ahead of it
leaves, until it is asked for itself.
-/

namespace QiForge

structure AlarmExecution
    (digestActionProposal : ActionProposalSubject → String) where
  states : ℕ → AlarmState
  events : ℕ → ℕ × AlarmEvent
  first : states 0 = .start
  steps : ∀ n, (states n).step digestActionProposal (events n) =
    some (states (n + 1))

namespace ActionProposalStore

open ProposalRow

variable {now limit : ℕ} {s : ActionProposalStore} {row : ProposalRow}

instance : Std.Total fun a b : ProposalRow =>
    a.verifyAfter < b.verifyAfter ∨
      a.verifyAfter = b.verifyAfter ∧ a.subject.id ≤ b.subject.id where
  total := by
    intro a b
    rcases lt_trichotomy a.verifyAfter b.verifyAfter with h | h | h
    · exact .inl (.inl h)
    · rcases String.le_total a.subject.id b.subject.id with hid | hid
      · exact .inl (.inr ⟨h, hid⟩)
      · exact .inr (.inr ⟨h.symm, hid⟩)
    · exact .inr (.inl h)

instance : IsTrans ProposalRow fun a b =>
    a.verifyAfter < b.verifyAfter ∨
      a.verifyAfter = b.verifyAfter ∧ a.subject.id ≤ b.subject.id where
  trans := by
    rintro a b c (hab | ⟨hab, hid⟩) (hbc | ⟨hbc, hid'⟩)
    · exact .inl (hab.trans hbc)
    · exact .inl (hbc ▸ hab)
    · exact .inl (hab ▸ hbc)
    · exact .inr ⟨hab.trans hbc, String.le_trans hid hid'⟩

theorem take_insertionSort_head {α : Type*} {before : α → α → Prop}
    [DecidableRel before] [Std.Total before] [IsTrans α before]
    {l : List α} {a : α} (hmem : a ∈ l) (hlimit : 0 < limit) :
    ∃ first ∈ (l.insertionSort before).take limit,
      first = a ∨ before first a := by
  have hsorted := List.pairwise_insertionSort before l
  have hmem' := (List.mem_insertionSort before).mpr hmem
  cases hcase : l.insertionSort before with
  | nil =>
      rw [hcase] at hmem'
      cases hmem'
  | cons first rest =>
      rw [hcase] at hsorted hmem'
      obtain ⟨limit, rfl⟩ := Nat.exists_eq_succ_of_ne_zero hlimit.ne'
      refine ⟨first, by simp, ?_⟩
      rcases List.mem_cons.mp hmem' with rfl | hrest
      · exact .inl rfl
      · exact .inr (List.rel_of_pairwise_cons hsorted hrest)

theorem nextVerificationAt_of_scheduled (hrow : row ∈ s.rows)
    (hscheduled : row.Scheduled) : s.nextVerificationAt ≠ none := by
  intro hnone
  unfold nextVerificationAt at hnone
  rw [List.min?_eq_none_iff, List.map_eq_nil_iff, List.filter_eq_nil_iff]
    at hnone
  exact hnone row hrow (decide_eq_true
    ⟨hscheduled.1.1, hscheduled.1.2, hscheduled.2⟩)

/-- The first card the alarm asks for is due no later than another. -/
theorem dueVerifications_head (hrow : row ∈ s.rows)
    (hscheduled : row.Scheduled) (hdue : row.verifyAfter ≤ now)
    (hlimit : 0 < limit) :
    ∃ first ∈ s.dueVerifications now limit,
      first.verifyAfter ≤ row.verifyAfter := by
  have hmem : row ∈ s.rows.filter fun row => decide (row.status = .unknown ∧
      row.transactionHash.isSome ∧ row.verifyAfter ≤ now ∧
      row.verifyAttempts < verifyMaxAttempts) :=
    List.mem_filter.mpr ⟨hrow, decide_eq_true
      ⟨hscheduled.1.1, hscheduled.1.2, hdue, hscheduled.2⟩⟩
  have hhead : ∃ first ∈ s.dueVerifications now limit,
      first = row ∨ (first.verifyAfter < row.verifyAfter ∨
        first.verifyAfter = row.verifyAfter ∧
          first.subject.id ≤ row.subject.id) :=
    take_insertionSort_head hmem hlimit
  rcases hhead with ⟨first, hfirst, rfl | hbefore⟩
  · exact ⟨first, hfirst, Nat.le_refl _⟩
  · refine ⟨first, hfirst, ?_⟩
    rcases hbefore with hlt | ⟨heq, -⟩
    · exact hlt.le
    · exact heq.le

end ActionProposalStore

namespace AlarmState

open ActionProposalStore ProposalRow

variable {digestActionProposal : ActionProposalSubject → String}
  {s s' : AlarmState} {at' : ℕ × AlarmEvent} {row row' : ProposalRow}
  {serial : ℕ}

/-- A card the alarm begins to wait for is due. -/
theorem Tidy.waits_new (h : s.Tidy)
    (hstep : s.step digestActionProposal at' = some s')
    (hrow : row ∈ s.store.rows) (hrow' : row' ∈ s'.store.rows)
    (hserial : row'.serial = row.serial) (hwaits : s'.Waits row') :
    s.Waits row ∨ row'.late s'.store.clock = 0 := by
  have hid := h.ident hstep hrow hrow' hserial
  unfold Waits at hwaits ⊢
  rw [hid, (step_eq_some hstep).2.2.1] at hwaits
  rcases at' with ⟨now, event⟩
  cases event with
  | store event => exact .inl hwaits
  | look proposal => exact .inl ((List.erase_sublist.map _).subset hwaits)
  | ask limit =>
      rcases rows_ask hstep with ⟨hrows, hclock⟩
      rcases List.mem_map.mp hwaits with ⟨proposal, hproposal, hask⟩
      rcases List.mem_map.mp hproposal with ⟨due, hdue, rfl⟩
      rcases mem_dueVerifications hdue with ⟨hmem, hscheduled, hafter⟩
      obtain rfl : due = row' := List.inj_on_of_nodup_map h.sound.ids hmem
        (hrows ▸ hrow') (hask.trans hid.symm)
      refine .inr ?_
      unfold late
      rw [hclock, if_pos ⟨hafter, hscheduled.2⟩]

/-- A step that leaves the rest of a card leaves its schedule. -/
theorem Tidy.schedule_kept (h : s.Tidy)
    (hsame : SameHash digestActionProposal serial s at')
    (hstep : s.step digestActionProposal at' = some s')
    (hrow : row ∈ s.store.rows) (hrow' : row' ∈ s'.store.rows)
    (hserial : row.serial = serial) (hserial' : row'.serial = serial)
    (htracked : row'.Tracked) (hscheduled : row.Scheduled)
    (hrest : s'.restOf row' = s.restOf row) :
    row'.Scheduled ∧ row'.verifyAfter = row.verifyAfter := by
  rcases h.spends hsame hstep hrow hrow' hserial hserial' htracked with
    ⟨hbefore, hspends⟩
  have hnew := h.waits_new hstep hrow hrow' (hserial'.trans hserial.symm)
  have hlate := late_le_one row' s'.store.clock
  unfold restOf at hrest
  rw [if_pos htracked, if_pos hbefore] at hrest
  rcases hspends with ⟨-, -, hkept⟩ | htwo | ⟨hone, hmono⟩
  · rcases hkept hscheduled with ⟨hafter, hattempts⟩
    exact ⟨⟨htracked, hattempts ▸ hscheduled.2⟩, hafter⟩
  · split at hrest <;> omega
  · by_cases hwaits' : s'.Waits row'
    · rw [if_pos hwaits'] at hrest
      rcases hnew hwaits' with hwaits | hzero
      · rw [if_pos hwaits] at hrest
        omega
      · omega
    · rw [if_neg hwaits'] at hrest
      omega

/-- The cards that are due when a card is, other than it. -/
def ahead (s : AlarmState) (serial limit : ℕ) : Finset (ℕ × String) :=
  ((s.store.rows.filter fun row => decide (row.status = .unknown ∧
      row.transactionHash.isSome = true ∧
      row.verifyAttempts < verifyMaxAttempts ∧ row.serial ≠ serial ∧
      row.verifyAfter ≤ limit)).map fun row =>
    (row.serial, row.id)).toFinset

theorem mem_ahead {limit : ℕ} {key : ℕ × String} :
    key ∈ s.ahead serial limit ↔ ∃ row ∈ s.store.rows,
      (row.Scheduled ∧ row.serial ≠ serial ∧ row.verifyAfter ≤ limit) ∧
        (row.serial, row.id) = key := by
  unfold ahead
  rw [List.mem_toFinset, List.mem_map]
  constructor
  · rintro ⟨row, hmem, hkey⟩
    rw [List.mem_filter, decide_eq_true_eq] at hmem
    rcases hmem with ⟨hrow, hstatus, hhash, hattempts, hserial, hafter⟩
    exact ⟨row, hrow, ⟨⟨⟨hstatus, hhash⟩, hattempts⟩, hserial, hafter⟩, hkey⟩
  · rintro ⟨row, hrow, ⟨⟨⟨hstatus, hhash⟩, hattempts⟩, hserial, hafter⟩, hkey⟩
    refine ⟨row, List.mem_filter.mpr ⟨hrow, decide_eq_true
      ⟨hstatus, hhash, hattempts, hserial, hafter⟩⟩, hkey⟩

/-- Whatever is scheduled anew is scheduled for later. -/
theorem Tidy.ahead_step (h : s.Tidy) {limit : ℕ}
    (hlimit : limit ≤ s.store.clock)
    (hstep : s.step digestActionProposal at' = some s') :
    s'.ahead serial limit ⊆ s.ahead serial limit := by
  intro key hkey
  rcases mem_ahead.mp hkey with
    ⟨row', hrow', ⟨hscheduled, hserial, hafter⟩, rfl⟩
  have hturned := h.turned hstep
  have hnow : limit ≤ at'.1 := hlimit.trans hturned.later
  rcases hturned.moves row' hrow' with ⟨row, hrow, hmove⟩ | ⟨-, hprepared⟩
  swap
  · have hstatus := (hturned.sound.rows row' hrow').status
    rw [hprepared, hscheduled.1.1] at hstatus
    cases hstatus
  have hkeys : (row.serial, row.id) = (row'.serial, row'.id) := by
    rw [hmove.identity.1, hmove.ident]
  refine mem_ahead.mpr ⟨row, hrow, ?_, hkeys⟩
  rw [hmove.identity.1] at hserial
  cases hmove.verifyMove (h.sound.rows row hrow) with
  | quiet _ hquiet =>
      rcases hquiet.tracked hscheduled.1 with ⟨-, hstatus, hhash⟩
      exact ⟨⟨⟨hstatus ▸ hscheduled.1.1, hhash ▸ hscheduled.1.2⟩,
        hquiet.attempts ▸ hscheduled.2⟩, hserial, hquiet.after ▸ hafter⟩
  | lookedUp _ =>
      have hback := le_backoff row.verifyAttempts
      simp only [lookedUp, verifyRetryBaseMs] at hafter hback
      omega
  | deferred _ _ _ _ _ =>
      simp only [deferred, verifyFirstDelayMs] at hafter
      omega
  | recorded _ _ _ _ _ _ hfresh =>
      rw [hfresh, verifyFirstDelayMs] at hafter
      omega
  | blocked _ _ _ _ _ hattempts =>
      exact absurd hscheduled.2 hattempts.ge.not_gt

end AlarmState

namespace AlarmState

open ActionProposalStore ProposalRow

variable {digestActionProposal : ActionProposalSubject → String}
  {s s' : AlarmState} {at' : ℕ × AlarmEvent} {serial : ℕ}

theorem looks_mono (hstep : s.step digestActionProposal at' = some s') :
    s.looks.count serial ≤ s'.looks.count serial := by
  rw [(step_eq_some hstep).2.2.2]
  rcases at' with ⟨now, event⟩
  cases event with
  | store event => exact Nat.le_refl _
  | ask limit => exact Nat.le_refl _
  | look proposal =>
      unfold looksAfter
      rw [List.count_append]
      exact Nat.le_add_right _ _

end AlarmState

namespace AlarmExecution

open ActionProposalStore ProposalRow AlarmState

variable {digestActionProposal : ActionProposalSubject → String}
  {x : AlarmExecution digestActionProposal}

/-- While a card is scheduled the alarm fires again, and time goes on. -/
def Fires (x : AlarmExecution digestActionProposal) : Prop :=
  ∀ n t, (x.states n).store.nextVerificationAt ≠ none →
    ∃ m, n ≤ m ∧ ∃ now limit, x.events m = (now, .ask limit) ∧ t ≤ now ∧
      0 < limit

theorem orderly (hovertaken : ∀ n, (x.states n).NotOvertaken (x.events n))
    (n : ℕ) : (x.states n).Orderly := by
  induction n with
  | zero => exact x.first ▸ orderly_start
  | succ n ih => exact ih.step (hovertaken n) (x.steps n)

theorem clock_mono (horderly : ∀ n, (x.states n).Orderly) :
    Monotone fun n => (x.states n).store.clock := by
  apply monotone_nat_of_le_succ
  intro n
  have hturned := (horderly n).tidy.turned (x.steps n)
  exact hturned.later.trans hturned.clock.ge

theorem inserted_mono (horderly : ∀ n, (x.states n).Orderly) :
    Monotone fun n => (x.states n).store.inserted := by
  apply monotone_nat_of_le_succ
  intro n
  exact ((horderly n).tidy.turned (x.steps n)).inserted

/-- What the alarm asked for it looks at before it asks again. -/
theorem looked {n m : ℕ} (hnm : n ≤ m) {proposal : ReadProposal}
    (hasked : proposal ∈ (x.states n).asked)
    (hgone : proposal ∉ (x.states m).asked) :
    ∃ j, n ≤ j ∧ j < m ∧ ∃ now, x.events j = (now, .look proposal) := by
  induction m, hnm using Nat.le_induction with
  | base => exact absurd hasked hgone
  | succ m hnm ih =>
      by_cases hstill : proposal ∈ (x.states m).asked
      · rcases step_eq_some (x.steps m) with ⟨hready, -, hafter, -⟩
        rw [hafter] at hgone
        cases hevent : x.events m with
        | mk now event =>
            rw [hevent] at hready hgone
            cases event with
            | store event => exact absurd hstill hgone
            | ask limit =>
                have hempty : (x.states m).asked = [] := hready
                rw [hempty] at hstill
                cases hstill
            | look other =>
                by_cases heq : proposal = other
                · subst heq
                  exact ⟨m, hnm, Nat.lt_succ_self m, now, hevent⟩
                · exact absurd ((List.mem_erase_of_ne heq).mpr hstill) hgone
      · rcases ih hstill with ⟨j, hnj, hjm, hlook⟩
        exact ⟨j, hnj, hjm.trans (Nat.lt_succ_self m), hlook⟩

section Card

variable {serial first : ℕ}

/-- The card exists, and no hash is recorded anew for it from now on. -/
structure Settled (x : AlarmExecution digestActionProposal)
    (serial first : ℕ) : Prop where
  orderly : ∀ n, (x.states n).Orderly
  numbered : serial < (x.states first).store.inserted
  same : ∀ n, first ≤ n →
    SameHash digestActionProposal serial (x.states n) (x.events n)

theorem Settled.below (h : x.Settled serial first) {n : ℕ} (hn : first ≤ n) :
    serial < (x.states n).store.inserted :=
  h.numbered.trans_le (inserted_mono h.orderly hn)

theorem Settled.rest_constant (h : x.Settled serial first) :
    ∃ last, first ≤ last ∧ ∀ n, last ≤ n →
      (x.states n).rest serial = (x.states last).rest serial := by
  have hanti : Antitone fun n => (x.states (first + n)).rest serial := by
    apply antitone_nat_of_succ_le
    intro n
    have hn : first ≤ first + n := Nat.le_add_right _ _
    have hstep := x.steps (first + n)
    have hle := (h.orderly _).looks_step (h.below hn) (h.same _ hn) hstep
    have hmono := @looks_mono _ _ _ _ serial hstep
    have hsucc : first + (n + 1) = first + n + 1 := rfl
    rw [hsucc]
    omega
  rcases WellFoundedLT.antitone_chain_condition hanti with ⟨n, hn⟩
  refine ⟨first + n, Nat.le_add_right _ _, fun m hm => ?_⟩
  have heq := hn (m - first) (by omega)
  rw [Nat.add_sub_cancel' (by omega)] at heq
  exact heq.symm

/-- A card that waits for its transaction has waited since. -/
theorem Settled.tracked_before (h : x.Settled serial first) {n m : ℕ}
    (hn : first ≤ n) (hnm : n ≤ m) {row : ProposalRow}
    (hrow : row ∈ (x.states m).store.rows) (hserial : row.serial = serial)
    (htracked : row.Tracked) :
    ∃ before ∈ (x.states n).store.rows, before.serial = serial ∧
      before.Tracked := by
  induction m, hnm using Nat.le_induction generalizing row with
  | base => exact ⟨row, hrow, hserial, htracked⟩
  | succ m hnm ih =>
      have hm : first ≤ m := hn.trans hnm
      have htidy := (h.orderly m).tidy
      rcases htidy.earlier (h.below hm) (x.steps m) hrow hserial with
        ⟨before, hbefore, hserialBefore⟩
      have hspends := htidy.spends (h.same m hm) (x.steps m) hbefore hrow
        hserialBefore hserial htracked
      exact ih hbefore hserialBefore hspends.1

/-- A card keeps its id. -/
theorem Settled.ident (h : x.Settled serial first) {n m : ℕ}
    (hn : first ≤ n) (hnm : n ≤ m) {row row' : ProposalRow}
    (hrow : row ∈ (x.states n).store.rows) (hserial : row.serial = serial)
    (hrow' : row' ∈ (x.states m).store.rows)
    (hserial' : row'.serial = serial) : row'.id = row.id := by
  induction m, hnm using Nat.le_induction generalizing row' with
  | base =>
      rw [List.inj_on_of_nodup_map (h.orderly n).tidy.sound.serials hrow'
        hrow (hserial'.trans hserial.symm)]
  | succ m hnm ih =>
      have htidy := (h.orderly m).tidy
      rcases htidy.earlier (h.below (hn.trans hnm)) (x.steps m) hrow'
        hserial' with ⟨before, hbefore, hserialBefore⟩
      exact (htidy.ident (x.steps m) hbefore hrow'
        (hserial'.trans hserialBefore.symm)).trans (ih hbefore hserialBefore)

/-- From some time on the schedule of a card that stays scheduled is fixed. -/
theorem Settled.schedule_constant (h : x.Settled serial first)
    (hagain : ∀ n, ∃ m, n ≤ m ∧ ∃ row ∈ (x.states m).store.rows,
      row.serial = serial ∧ row.Scheduled) :
    ∃ last after, first ≤ last ∧ (∀ n, last ≤ n →
        (x.states n).rest serial = (x.states last).rest serial) ∧
      ∀ n, last ≤ n → ∃ row ∈ (x.states n).store.rows,
        row.serial = serial ∧ row.Scheduled ∧ row.verifyAfter = after := by
  rcases h.rest_constant with ⟨last, hlast, hconst⟩
  rcases hagain last with ⟨from', hfrom, row, hrow, hserial, hscheduled⟩
  have hrest : ∀ n, from' ≤ n → (x.states n).rest serial =
      (x.states from').rest serial := fun n hn =>
    (hconst n (hfrom.trans hn)).trans (hconst from' hfrom).symm
  refine ⟨from', row.verifyAfter, hlast.trans hfrom, hrest, ?_⟩
  intro n hn
  induction n, hn using Nat.le_induction with
  | base => exact ⟨row, hrow, hserial, hscheduled, rfl⟩
  | succ n hn ih =>
      rcases ih with ⟨old, hold, holdSerial, holdScheduled, hafter⟩
      have hfirst : first ≤ n := hlast.trans (hfrom.trans hn)
      rcases hagain (n + 1) with
        ⟨m, hm, later, hlater, hlaterSerial, hlaterScheduled⟩
      rcases h.tracked_before (hfirst.trans (Nat.le_succ n)) hm hlater
        hlaterSerial hlaterScheduled.1 with
        ⟨new, hnew, hnewSerial, hnewTracked⟩
      have htidy := (h.orderly n).tidy
      have htidy' := (h.orderly (n + 1)).tidy
      have heq : (x.states (n + 1)).restOf new = (x.states n).restOf old := by
        calc (x.states (n + 1)).restOf new
            = (x.states (n + 1)).rest serial :=
              hnewSerial ▸ (htidy'.rest_eq hnew).symm
          _ = (x.states n).rest serial :=
              (hrest (n + 1) (hn.trans (Nat.le_succ n))).trans
                (hrest n hn).symm
          _ = (x.states n).restOf old := holdSerial ▸ htidy.rest_eq hold
      rcases htidy.schedule_kept (h.same n hfirst) (x.steps n) hold hnew
        holdSerial hnewSerial hnewTracked holdScheduled heq with
        ⟨hnewScheduled, hkept⟩
      exact ⟨new, hnew, hnewSerial, hnewScheduled, hkept.trans hafter⟩

/-- A card that is ahead leaves when it is looked at. -/
theorem Settled.ahead_look (h : x.Settled serial first) {n now limit : ℕ}
    {proposal : ReadProposal}
    (hlimit : limit ≤ (x.states n).store.clock)
    (hevent : x.events n = (now, .look proposal)) {key : ℕ}
    (hahead : (key, proposal.id) ∈ (x.states n).ahead serial limit) :
    (key, proposal.id) ∉ (x.states (n + 1)).ahead serial limit := by
  intro hstill
  rcases mem_ahead.mp hahead with
    ⟨row, hrow, ⟨hscheduled, -, hafter⟩, hkey⟩
  rcases mem_ahead.mp hstill with
    ⟨row', hrow', ⟨-, -, hafter'⟩, hkey'⟩
  obtain ⟨rfl, hid⟩ := Prod.mk.inj hkey
  have hserial := (Prod.mk.inj hkey').1
  have hstep := x.steps n
  rw [hevent] at hstep
  rcases step_eq_some hstep with ⟨hready, hstore, -⟩
  rcases (h.orderly n).asked proposal hready with ⟨claimedAt, hash, hlife⟩
  have hcalls : (ProposalEvent.refresh proposal).Calls row.id :=
    ⟨hid.symm, claimedAt, hash, hlife⟩
  have hlater := ((h.orderly n).tidy.turned hstep).later
  have hgranted := claimVerification_granted hrow
    (hafter.trans (hlimit.trans hlater))
  have hlooked := ((h.orderly n).tidy.sound.lookedUp_of_calls hcalls
    hgranted hstore hrow hrow' hserial).1
  have hback := le_backoff row.verifyAttempts
  rw [hlooked] at hafter'
  simp only [lookedUp, verifyRetryBaseMs] at hafter' hback
  omega

/-- A card is not scheduled for ever. -/
theorem Settled.ends (h : x.Settled serial first) (hfires : x.Fires) :
    ∃ last, ∀ n, last ≤ n → ∀ row ∈ (x.states n).store.rows,
      row.serial = serial → ¬ row.Scheduled := by
  by_contra hnever
  have hagain : ∀ n, ∃ m, n ≤ m ∧ ∃ row ∈ (x.states m).store.rows,
      row.serial = serial ∧ row.Scheduled := by
    intro n
    by_contra hnone
    exact hnever ⟨n, fun m hm row hrow hserial hscheduled =>
      hnone ⟨m, hm, row, hrow, hserial, hscheduled⟩⟩
  rcases h.schedule_constant hagain with
    ⟨last, after, hlast, hrest, hfixed⟩
  have hfire : ∀ n, last ≤ n → ∃ m, n ≤ m ∧ ∃ now limit,
      x.events m = (now, .ask limit) ∧ after ≤ now ∧ 0 < limit := by
    intro n hn
    rcases hfixed n hn with ⟨row, hrow, -, hscheduled, -⟩
    exact hfires n after (nextVerificationAt_of_scheduled hrow hscheduled)
  -- from here on the card is due
  rcases hfire last (Nat.le_refl _) with
    ⟨start', hstart, now, limit, hask, hnow, -⟩
  have hdue : ∀ n, start' + 1 ≤ n → after ≤ (x.states n).store.clock := by
    intro n hn
    have hstep := x.steps start'
    rw [hask] at hstep
    have hclock := (rows_ask hstep).2
    calc after ≤ (x.states (start' + 1)).store.clock := hclock ▸ hnow
      _ ≤ (x.states n).store.clock := clock_mono h.orderly hn
  have hanti : Antitone fun n =>
      (x.states (start' + 1 + n)).ahead serial after := by
    apply antitone_nat_of_succ_le
    intro n
    exact (h.orderly _).tidy.ahead_step
      (hdue _ (Nat.le_add_right _ _)) (x.steps _)
  rcases WellFoundedLT.antitone_chain_condition hanti with ⟨settled, hset⟩
  have hahead : ∀ n, start' + 1 + settled ≤ n →
      (x.states n).ahead serial after =
        (x.states (start' + 1 + settled)).ahead serial after := by
    intro n hn
    have heq := hset (n - (start' + 1)) (by omega)
    rw [Nat.add_sub_cancel' (by omega)] at heq
    exact heq.symm
  -- the alarm fires, and fires again
  rcases hfire (start' + 1 + settled) (by omega) with
    ⟨m, hm, now, limit, hevent, hafter, hlimit⟩
  rcases hfire (m + 1) (by omega) with ⟨m', hm', now', limit', hevent', -⟩
  rcases hfixed m (by omega) with
    ⟨row, hrow, hserial, hscheduled, hverify⟩
  rcases dueVerifications_head hrow hscheduled (hverify ▸ hafter) hlimit with
    ⟨due, hfirst, hle⟩
  rcases mem_dueVerifications hfirst with ⟨hdueRow, hdueScheduled, -⟩
  have hstep := x.steps m
  rw [hevent] at hstep
  have hasked : (⟨due.id, due.lifecycle⟩ : ReadProposal) ∈
      (x.states (m + 1)).asked := by
    rw [(step_eq_some hstep).2.2.1]
    exact List.mem_map.mpr ⟨due, hfirst, rfl⟩
  have hgone : (⟨due.id, due.lifecycle⟩ : ReadProposal) ∉
      (x.states m').asked := by
    have hready := (step_eq_some (x.steps m')).1
    rw [hevent'] at hready
    rw [show (x.states m').asked = [] from hready]
    exact List.not_mem_nil
  rcases looked hm' hasked hgone with ⟨j, hmj, -, at', hlook⟩
  by_cases hown : due.serial = serial
  · rcases hfixed j (by omega) with ⟨rowJ, hrowJ, hserialJ, -⟩
    rcases hfixed (j + 1) (by omega) with ⟨rowK, hrowK, hserialK, -⟩
    have hid := h.ident (by omega) (by omega) hdueRow hown hrowJ hserialJ
    have hstepJ := x.steps j
    have hsameJ := h.same j (by omega)
    rw [hlook] at hstepJ hsameJ
    have hless := (h.orderly j).restOf_look hsameJ hstepJ hrowJ hrowK
      hserialJ hserialK hid.symm
    rw [← (h.orderly j).tidy.rest_eq hrowJ,
      ← (h.orderly (j + 1)).tidy.rest_eq hrowK, hserialJ, hserialK,
      hrest j (by omega), hrest (j + 1) (by omega)] at hless
    omega
  · have hkey : (due.serial, due.id) ∈ (x.states j).ahead serial after := by
      rw [hahead j (by omega), ← hahead m hm]
      exact mem_ahead.mpr ⟨due, hdueRow, ⟨hdueScheduled, hown,
        hle.trans hverify.le⟩, rfl⟩
    have hleft := h.ahead_look (hdue j (by omega)) hlook hkey
    rw [hahead (j + 1) (by omega), ← hahead j (by omega)] at hleft
    exact hleft hkey

end Card

end AlarmExecution

end QiForge
