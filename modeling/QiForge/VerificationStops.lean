import QiForge.ActionProposalRuns
import QiForge.VerificationEnds

/-!
# The verification schedule stops, run by run

A card that is over is not looked up again, two lookups keep the cooldown,
one recorded hash costs finitely many lookups, and while the alarm goes on
firing every card is off the schedule in the end.
-/

namespace QiForge

namespace AlarmState

open ActionProposalStore ProposalRow

variable {digestActionProposal : ActionProposalSubject → String}
  {s s' : AlarmState} {row row' : ProposalRow}

variable {es : List (ℕ × AlarmEvent)}

theorem tidy_run
    (hrun : Transition.run (AlarmState.step digestActionProposal) start es =
      some s) : s.Tidy :=
  Transition.run_preserves (fun _ _ _ hs hstep => hs.step hstep) tidy_start
    hrun

/-- A card that is over is off the schedule for good. -/
theorem Orderly.over_run (h : s.Orderly) (hrow : row ∈ s.store.rows)
    (hover : row.Blocked ∨ row.Left)
    (hmeets : Transition.Meets (AlarmState.step digestActionProposal)
      (fun s at' => s.NotOvertaken at' ∧
        SameHash digestActionProposal row.serial s at') s es)
    (hrun : Transition.run (AlarmState.step digestActionProposal) s es =
      some s') :
    ∀ row' ∈ s'.store.rows, row'.serial = row.serial → ¬ row'.Scheduled := by
  have hovertaken := hmeets.mono fun _ _ hboth => hboth.1
  have hall := card_run
    (I := Orderly) (P := fun _ row => row.Blocked ∨ row.Left)
    (fun _ hs => hs.tidy) (fun _ _ _ hs hcond hstep => hs.step hcond.1 hstep)
    (fun _ _ _ _ _ hs hcond hstep hold hnew hserial hserial' hkept =>
      hs.tidy.over_step hcond.2 hstep hold hnew hserial hserial' hkept)
    h (h.tidy.sound.numbered row hrow)
    (fun other hother hserial => by
      rw [List.inj_on_of_nodup_map h.tidy.sound.serials hother hrow hserial]
      exact hover) hmeets hrun
  intro row' hrow' hserial
  exact (h.run hovertaken hrun).unscheduled hrow' (hall row' hrow' hserial)

theorem Tidy.cooldown {s₁ s₂ : AlarmState} {now now' : ℕ}
    {event : AlarmEvent} (h : s.Tidy) (hrow : row ∈ s.store.rows)
    (hcalls : event.event.Calls row.id)
    (hgranted : (s.store.claimVerification now row.id).1 = true)
    (hstep : s.step digestActionProposal (now, event) = some s₁)
    (hmeets : Transition.Meets (AlarmState.step digestActionProposal)
      (fun s at' => SameHash digestActionProposal row.serial s at' ∧
        s.NotDeferred row.serial at') s₁ es)
    (hrun : Transition.run (AlarmState.step digestActionProposal) s₁ es =
      some s₂)
    (hrow' : row' ∈ s₂.store.rows) (hserial : row'.serial = row.serial)
    (hgranted' : (s₂.store.claimVerification now' row'.id).1 = true) :
    now + backoff verifyRetryBaseMs verifyRetryMaxMs row.verifyAttempts ≤
      now' := by
  have htidy := h.step hstep
  have hall := card_run
    (I := Tidy) (P := fun _ later => now + backoff verifyRetryBaseMs
      verifyRetryMaxMs row.verifyAttempts ≤ later.verifyAfter)
    (fun _ hs => hs) (fun _ _ _ hs _ hstep => hs.step hstep)
    (fun _ _ _ _ _ hs hcond hstep hold hnew hserial hserial' hkept =>
      hs.after_step hcond.1 hcond.2 hstep hold hnew hserial hserial' hkept)
    htidy ((h.sound.numbered row hrow).trans_le (h.turned hstep).inserted)
    (fun first hfirst hfirstSerial => by
      rw [(h.sound.lookedUp_of_calls hcalls hgranted (step_eq_some hstep).2.1
        hrow hfirst hfirstSerial).1]
      exact Nat.le_refl _) hmeets hrun row' hrow' hserial
  have htidy₂ : s₂.Tidy := Transition.run_preserves
    (fun _ _ _ hs hstep => hs.step hstep) htidy hrun
  rcases s₂.store.claimVerification_cases now' row'.id with
    ⟨hclaim, -⟩ | ⟨-, due, hdue, hid, hafter⟩
  · rw [hclaim] at hgranted'
    cases hgranted'
  · obtain rfl : due = row' :=
      List.inj_on_of_nodup_map htidy₂.sound.ids hdue hrow' hid
    exact hall.trans hafter

end AlarmState

open ActionProposalStore ProposalRow AlarmState in
theorem verification_schedule_stops
    (digestActionProposal : ActionProposalSubject → String) :
    (∀ front back s s',
      Transition.run (AlarmState.step digestActionProposal) start front =
        some s →
      Transition.run (AlarmState.step digestActionProposal) s back = some s' →
      Transition.Meets (AlarmState.step digestActionProposal) NotOvertaken
        start (front ++ back) →
      ∀ row ∈ s.store.rows, row.Blocked ∨ row.Left →
        Transition.Meets (AlarmState.step digestActionProposal)
          (SameHash digestActionProposal row.serial) s back →
        (∀ row' ∈ s'.store.rows, row'.serial = row.serial →
          ∀ now limit, row' ∉ s'.store.dueVerifications now limit) ∧
        nextVerificationAt { s'.store with
            rows := s'.store.rows.filter fun row' =>
              decide (row'.serial ≠ row.serial) } =
          s'.store.nextVerificationAt) ∧
    (∀ front back s s₁ s₂ s₃ now now' event event',
      Transition.run (AlarmState.step digestActionProposal) start front =
        some s →
      s.step digestActionProposal (now, event) = some s₁ →
      Transition.run (AlarmState.step digestActionProposal) s₁ back = some s₂ →
      s₂.step digestActionProposal (now', event') = some s₃ →
      ∀ row ∈ s.store.rows, ∀ row' ∈ s₂.store.rows, row'.serial = row.serial →
        event.event.Calls row.id →
        (s.store.claimVerification now row.id).1 = true →
        event'.event.Calls row'.id →
        (s₂.store.claimVerification now' row'.id).1 = true →
        Transition.Meets (AlarmState.step digestActionProposal)
          (fun s at' => SameHash digestActionProposal row.serial s at' ∧
            s.NotDeferred row.serial at') s₁ back →
        now + backoff verifyRetryBaseMs verifyRetryMaxMs
          row.verifyAttempts ≤ now') ∧
    (∀ front back s s',
      Transition.run (AlarmState.step digestActionProposal) start front =
        some s →
      Transition.run (AlarmState.step digestActionProposal) s back = some s' →
      Transition.Meets (AlarmState.step digestActionProposal) NotOvertaken
        start (front ++ back) →
      ∀ row ∈ s.store.rows,
        Transition.Meets (AlarmState.step digestActionProposal)
          (SameHash digestActionProposal row.serial) s back →
        s'.looks.count row.serial ≤
          s.looks.count row.serial + s.rest row.serial) ∧
    ∀ x : AlarmExecution digestActionProposal,
      (∀ n, (x.states n).NotOvertaken (x.events n)) → x.Fires →
      ∀ first, ∀ row ∈ (x.states first).store.rows,
        (∀ n, first ≤ n → SameHash digestActionProposal row.serial
          (x.states n) (x.events n)) →
        ∃ last, ∀ n, last ≤ n → ∀ row' ∈ (x.states n).store.rows,
          row'.serial = row.serial → ¬ row'.Scheduled := by
  refine ⟨?_, ?_, ?_, ?_⟩
  · intro front back s s' hfront hback hmeets row hrow hover hsame
    have hsplit := Transition.Meets.append.mp hmeets
    have horderly := orderly_start.run hsplit.1 hfront
    have hunscheduled := horderly.over_run hrow hover
      ((hsplit.2 s hfront).and hsame) hback
    refine ⟨?_, nextVerificationAt_without _ _ hunscheduled⟩
    intro row' hrow' hserial now limit hdue
    exact hunscheduled row' hrow' hserial (mem_dueVerifications hdue).2.1
  · intro front back s s₁ s₂ s₃ now now' event event' hfront hstep hback _
      row hrow row' hrow' hserial hcalls hgranted _ hgranted' hmeets
    exact (tidy_run hfront).cooldown hrow hcalls hgranted hstep hmeets hback
      hrow' hserial hgranted'
  · intro front back s s' hfront hback hmeets row hrow hsame
    have hsplit := Transition.Meets.append.mp hmeets
    have horderly := orderly_start.run hsplit.1 hfront
    exact horderly.looks_run (horderly.tidy.sound.numbered row hrow)
      ((hsplit.2 s hfront).and hsame) hback
  · intro x hovertaken hfires first row hrow hsame
    have horderly := AlarmExecution.orderly hovertaken
    have hsettled : x.Settled row.serial first :=
      ⟨horderly, (horderly first).tidy.sound.numbered row hrow, hsame⟩
    exact hsettled.ends hfires

/-! ## A card that is answered -/

/-- The alarm looks at a card once, and the lookup proves it executed. -/
def answeredCard : List (ℕ × AlarmEvent) :=
  [(1, .store (.create (ActionProposalStore.transferCard "ap_1" "call-1")
      true)),
    (2, .store (.transition "ap_1" (.claim "ap_1"))),
    (3, .store (.transition "ap_1" (.reconcile
      (some ActionProposalStore.signedHash)))),
    (30003, .ask 2),
    (30003, .look ⟨"ap_1", .unknown 2 (some ActionProposalStore.signedHash)
      none⟩),
    (30004, .store (.answer "ap_1" ActionProposalStore.signedHash
      (.proof (.verified 7 0))))]

namespace AlarmState

def answeredEvent (n : ℕ) : ℕ × AlarmEvent :=
  answeredCard[n]?.getD (29999 + n, .ask 1)

theorem answeredEvent_late {n : ℕ} (hn : 6 ≤ n) :
    answeredEvent n = (29999 + n, .ask 1) := by
  rw [answeredEvent, List.getElem?_eq_none hn, Option.getD_none]

def answeredState : ℕ → AlarmState
  | 0 => start
  | n + 1 => ((answeredState n).step ActionProposalSubject.id
      (answeredEvent n)).getD start

/-- Where no card is due, asking only lets time go on. -/
theorem ask_of_done {s : AlarmState} {now limit : ℕ}
    (hdone : ∀ row ∈ s.store.rows, row.status ≠ .unknown)
    (hasked : s.asked = []) (hclock : s.store.clock ≤ now)
    (digestActionProposal : ActionProposalSubject → String) :
    s.step digestActionProposal (now, .ask limit) =
      some { s with store := { s.store with clock := now } } := by
  have hdue (store : ActionProposalStore) (hrows : store.rows = s.store.rows) :
      store.dueVerifications now limit = [] := by
    unfold ActionProposalStore.dueVerifications
    rw [hrows, List.filter_eq_nil_iff.mpr fun row hrow => by
      simp [hdone row hrow]]
    exact List.take_nil
  simp [step, Ready, hasked, ActionProposalStore.step, AlarmEvent.event,
    askedAfter, looksAfter, hdue, Nat.not_lt.mpr hclock]

/-- Behind the answer only the time changes. -/
structure Answered (s : AlarmState) (clock : ℕ) : Prop where
  rows : s.store.rows = (answeredState 6).store.rows
  asked : s.asked = []
  clock : s.store.clock = clock

theorem answered_done :
    ∀ row ∈ (answeredState 6).store.rows, row.status ≠ .unknown := by
  decide +kernel

theorem Answered.step {n : ℕ} (h : (answeredState (6 + n)).Answered
    (30004 + n)) :
    (answeredState (6 + n)).step ActionProposalSubject.id
        (answeredEvent (6 + n)) = some (answeredState (6 + (n + 1))) ∧
      (answeredState (6 + (n + 1))).Answered (30004 + (n + 1)) := by
  have hask := @ask_of_done _ (29999 + (6 + n)) 1 (h.rows ▸ answered_done)
    h.asked (by rw [h.clock]; omega) ActionProposalSubject.id
  rw [← answeredEvent_late (Nat.le_add_right _ _)] at hask
  rw [← Nat.add_assoc, answeredState, hask, Option.getD_some]
  exact ⟨rfl, h.rows, h.asked, by simp only; omega⟩

theorem answered_late (n : ℕ) :
    (answeredState (6 + n)).Answered (30004 + n) := by
  induction n with
  | zero => exact ⟨rfl, by decide +kernel, by decide +kernel⟩
  | succ n ih => exact ih.step.2

end AlarmState

open AlarmState in
def answered : AlarmExecution ActionProposalSubject.id where
  states := answeredState
  events := answeredEvent
  first := rfl
  steps := by
    have hfirst : ∀ n < 6, ((answeredState n).step
        ActionProposalSubject.id (answeredEvent n)).isSome := by
      decide +kernel
    intro n
    by_cases hn : n < 6
    · obtain ⟨s, hs⟩ := Option.isSome_iff_exists.mp (hfirst n hn)
      rw [answeredState, hs, Option.getD_some]
    · obtain ⟨later, rfl⟩ := Nat.exists_eq_add_of_le (Nat.le_of_not_lt hn)
      exact (answered_late later).step.1

open AlarmState in
theorem verification_schedule_stops_answered :
    (∃ row ∈ (answered.states 3).store.rows,
        row.verifyAfter ∈ (answered.states 3).store.nextVerificationAt) ∧
      ∀ row ∈ (answered.states 3).store.rows,
        ∃ last, ∀ n, last ≤ n → ∀ row' ∈ (answered.states n).store.rows,
          row'.serial = row.serial → ¬ row'.Scheduled := by
  have hovertaken (n : ℕ) :
      (answered.states n).NotOvertaken (answered.events n) := by
    have hfirst : ∀ n < 6,
        (answeredState n).NotOvertaken (answeredEvent n) := by
      decide +kernel
    by_cases hn : n < 6
    · exact hfirst n hn
    · rw [show answered.events n = _ from
        answeredEvent_late (Nat.le_of_not_lt hn)]
      exact fun _ _ _ => id
  have hfires : answered.Fires := fun n t _ =>
    ⟨n + t + 6, by omega, 29999 + (n + t + 6), 1,
      answeredEvent_late (Nat.le_add_left _ _), by omega, Nat.one_pos⟩
  have hsame (row : ProposalRow) (n : ℕ) (hn : 3 ≤ n) :
      SameHash ActionProposalSubject.id row.serial (answered.states n)
        (answered.events n) := by
    have hfirst : ∀ n < 7, 3 ≤ n → ∀ row ∈ (answeredState n).store.rows,
        row.transactionHash =
          some (normalizeHash ActionProposalStore.signedHash) := by
      decide +kernel
    have hall (n : ℕ) (hn : 3 ≤ n) : ∀ row ∈ (answeredState n).store.rows,
        row.transactionHash =
          some (normalizeHash ActionProposalStore.signedHash) := by
      by_cases hsix : n < 7
      · exact hfirst n hsix hn
      · obtain ⟨later, rfl⟩ := Nat.exists_eq_add_of_le (show 6 ≤ n by omega)
        rw [(answered_late later).rows]
        exact hfirst 6 (by decide) (by decide)
    intro s' hs' before hbefore after hafter _ _ _
    obtain rfl := Option.some.inj ((answered.steps n).symm.trans hs')
    rw [hall n hn before hbefore, hall (n + 1) (by omega) after hafter]
  exact ⟨by decide +kernel, fun row hrow =>
    (verification_schedule_stops ActionProposalSubject.id).2.2.2 answered
      hovertaken hfires 3 row hrow (hsame row)⟩

/-- Two lookups of a hash are in flight when one of them blocks its card. -/
def blockedCard : List (ℕ × AlarmEvent) :=
  [(1, .store (.create (ActionProposalStore.transferCard "ap_1" "call-1")
      true)),
    (2, .store (.transition "ap_1" (.claim "ap_1"))),
    (3, .store (.transition "ap_1" (.reconcile
      (some ActionProposalStore.signedHash)))),
    (30003, .store (.refresh ⟨"ap_1", .unknown 2
      (some ActionProposalStore.signedHash) none⟩)),
    (60003, .store (.refresh ⟨"ap_1", .unknown 2
      (some ActionProposalStore.signedHash) none⟩)),
    (60004, .store (.answer "ap_1" ActionProposalStore.signedHash
      (.proof .subjectMismatch)))]

/-- The other one is answered, and the alarm looks at the card. -/
def overtakenAnswer : List (ℕ × AlarmEvent) :=
  [(60005, .store (.answer "ap_1" ActionProposalStore.signedHash .notFound)),
    (90005, .ask 2),
    (90005, .look ⟨"ap_1", .unknown 2
      (some ActionProposalStore.signedHash) (some 60004)⟩)]

/-- A card that was unknown without a hash is closed. -/
def closedCard : List (ℕ × AlarmEvent) :=
  [(1, .store (.create (ActionProposalStore.transferCard "ap_1" "call-1")
      true)),
    (2, .store (.transition "ap_1" (.claim "ap_1"))),
    (3, .store (.transition "ap_1" (.reconcile none))),
    (3600002, .store .closeUnexecuted)]

open AlarmState ProposalRow in
/-- A blocked card is due again, and stays due when the alarm looks at it; a
closed card is due again when its hash arrives. -/
theorem blocked_and_closed_due_again :
    (∃ s ∈ Transition.run (AlarmState.step ActionProposalSubject.id) start
        blockedCard,
      ∃ s' ∈ Transition.run (AlarmState.step ActionProposalSubject.id) s
        overtakenAnswer,
      ∃ row ∈ s.store.rows, row.Blocked ∧ ∃ row' ∈ s'.store.rows,
        row'.serial = row.serial ∧
        row'.transactionHash = row.transactionHash ∧
        row' ∈ s'.store.dueVerifications 90006 2 ∧
        s'.store.nextVerificationAt = some 90005) ∧
    ∃ s ∈ Transition.run (AlarmState.step ActionProposalSubject.id) start
        closedCard,
      ∃ s' ∈ Transition.run (AlarmState.step ActionProposalSubject.id) s
        [(3600003, .store (.transition "ap_1" (.reconcile
          (some ActionProposalStore.signedHash))))],
      ∃ row ∈ s.store.rows, row.lifecycle = .ended .revoked 3600002 ∧
        ∃ row' ∈ s'.store.rows, row'.serial = row.serial ∧
        row' ∈ s'.store.dueVerifications 3630003 2 ∧
        s'.store.nextVerificationAt = some 3630003 := by
  constructor
  · decide +kernel
  · decide +kernel

end QiForge
