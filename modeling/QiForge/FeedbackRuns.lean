import QiForge.Feedback

/-!
# Feedback is filed once

One issue as long as deliveries do not overlap; a user's deliveries within the
limit in every window.  The marker names the author of the issue, itself or as
the one predecessor it keeps, along the runs whose reservations do not bury
that author; there the answers are the author's own.
-/

namespace QiForge

namespace SinkPhase

variable {phase : SinkPhase} {answer : SinkAnswer} {issueExists took : Bool}

theorem creating_of_took (h : phase.allows true answer = true) :
    ∃ attempt, phase = .creating attempt := by
  cases phase with
  | creating attempt => exact ⟨attempt, rfl⟩
  | searching attempt => cases h
  | searchingAgain create attempt => cases h

/-- A create is made only when the search found nothing. -/
theorem next_creating {attempt : ℕ}
    (h : phase.step issueExists answer = some (.next (.creating attempt))) :
    issueExists = false := by
  cases issueExists with
  | false => rfl
  | true =>
      cases phase <;> cases answer <;>
        simp [SinkPhase.step] at h <;> split at h <;> cases h

theorem existing_of_step
    (h : phase.step issueExists answer = some (.delivered .existing)) :
    issueExists = true ∧ ∃ attempt, phase = .searching attempt := by
  cases phase with
  | searching attempt =>
      cases issueExists with
      | true => exact ⟨rfl, attempt, rfl⟩
      | false =>
          cases answer <;> simp [SinkPhase.step] at h
          split at h <;> cases h
  | creating attempt =>
      cases answer <;> simp [SinkPhase.step] at h
      split at h <;> cases h
  | searchingAgain create attempt =>
      cases answer <;> simp [SinkPhase.step] at h <;> split at h <;> cases h

theorem created_of_step
    (h : phase.step issueExists answer = some (.delivered .created)) :
    (answer = .confirmed ∧ ∃ attempt, phase = .creating attempt) ∨
      (issueExists = true ∧
        ∃ create attempt, phase = .searchingAgain create attempt) := by
  cases phase with
  | searching attempt =>
      cases answer <;> simp [SinkPhase.step] at h <;> split at h <;> cases h
  | creating attempt =>
      cases answer with
      | confirmed => exact .inl ⟨rfl, attempt, rfl⟩
      | failed retryable =>
          simp only [SinkPhase.step, Option.some.injEq] at h
          split at h <;> cases h
      | _ => cases h
  | searchingAgain create attempt =>
      cases issueExists with
      | true => exact .inr ⟨rfl, create, attempt, rfl⟩
      | false =>
          cases answer <;> simp [SinkPhase.step] at h
          split at h <;> cases h

theorem not_creating_twice {attempt later : ℕ}
    (h : (SinkPhase.creating attempt).step issueExists answer =
      some (.next (.creating later))) : False := by
  cases answer <;> simp [SinkPhase.step] at h
  split at h <;> cases h

/-- The first search only follows the first search. -/
theorem next_searching {attempt : ℕ}
    (h : phase.step issueExists answer = some (.next (.searching attempt))) :
    ∃ before, phase = .searching before := by
  cases phase with
  | searching before => exact ⟨before, rfl⟩
  | creating before =>
      cases answer <;> simp [SinkPhase.step] at h
      split at h <;> cases h
  | searchingAgain create before =>
      cases answer <;> simp [SinkPhase.step] at h <;> split at h <;> cases h

/-- The second search follows a create or itself. -/
theorem next_searchingAgain {create attempt : ℕ}
    (h : phase.step issueExists answer =
      some (.next (.searchingAgain create attempt))) :
    (∃ before, phase = .creating before) ∨
      ∃ before, phase = .searchingAgain create before := by
  cases phase with
  | searching before =>
      cases answer <;> simp [SinkPhase.step] at h <;> split at h <;> cases h
  | creating before => exact .inl ⟨before, rfl⟩
  | searchingAgain first before =>
      cases answer <;> simp [SinkPhase.step] at h
      · split at h <;> cases h
      · split at h
        · obtain ⟨rfl, -⟩ : first = create ∧ before + 1 = attempt := by
            simpa using h
          exact .inr ⟨before, rfl⟩
        · cases h

end SinkPhase

namespace FeedbackState

open FeedbackMarkers

variable {s s' : FeedbackState}

section Window

/-- Deliveries started in the window that opens at `opens`. -/
def startedIn (opens : ℕ) (starts : List ℕ) : List ℕ :=
  starts.filter fun start => opens ≤ start ∧ start < opens + feedbackWindowMs

/-- The attempts kept are the deliveries that still count, and no window holds
more than the limit. -/
structure WithinLimit (s : FeedbackState) : Prop where
  counted : recent s.clock s.starts = recent s.clock s.markers.attempts
  limited : ∀ opens, (startedIn opens s.starts).length ≤ feedbackUserLimit

theorem recent_recent {now later : ℕ} (h : now ≤ later) (attempts : List ℕ) :
    recent later (recent now attempts) = recent later attempts := by
  unfold recent
  rw [List.filter_filter]
  apply List.filter_congr
  intro attempt _
  simp
  omega

theorem recent_of_counted {now : ℕ} (h : s.WithinLimit)
    (hnow : s.clock ≤ now) :
    recent now s.starts = recent now s.markers.attempts := by
  rw [← recent_recent hnow s.starts, h.counted, recent_recent hnow]

theorem limited_cons {now : ℕ} (h : s.WithinLimit) (hnow : s.clock ≤ now)
    (hroom : (recent now s.markers.attempts).length < feedbackUserLimit)
    (opens : ℕ) :
    (startedIn opens (now :: s.starts)).length ≤ feedbackUserLimit := by
  have hold := h.limited opens
  unfold startedIn at hold ⊢
  rw [List.filter_cons]
  split
  · next hin =>
      have hin : opens ≤ now ∧ now < opens + feedbackWindowMs := by
        simpa using hin
      have hsub : (startedIn opens s.starts).length ≤
          (recent now s.starts).length := by
        unfold startedIn recent
        apply List.Sublist.length_le
        apply List.monotone_filter_right
        intro start hstart
        simp only [decide_eq_true_eq] at hstart ⊢
        omega
      rw [recent_of_counted h hnow] at hsub
      unfold startedIn at hsub
      rw [List.length_cons]
      omega
  · exact hold

/-- Either way an attempt is decided, the windows stay within the limit. -/
theorem WithinLimit.attempt {now : ℕ} (h : s.WithinLimit)
    (hnow : s.clock ≤ now) (hclock : s'.clock = now)
    (hdecided : (s'.starts = s.starts ∧
        s'.markers.attempts = recent now s.markers.attempts) ∨
      (s'.starts = s.starts ∧ s'.markers.attempts = s.markers.attempts) ∨
      ((recent now s.markers.attempts).length < feedbackUserLimit ∧
        s'.starts = now :: s.starts ∧
        s'.markers.attempts = now :: recent now s.markers.attempts)) :
    s'.WithinLimit := by
  have hcounted := recent_of_counted h hnow
  rcases hdecided with ⟨hstarts, hattempts⟩ | ⟨hstarts, hattempts⟩ |
    ⟨hroom, hstarts, hattempts⟩
  · constructor
    · rw [hclock, hstarts, hattempts, recent_recent le_rfl, hcounted]
    · rw [hstarts]
      exact h.limited
  · constructor
    · rw [hclock, hstarts, hattempts, hcounted]
    · rw [hstarts]
      exact h.limited
  · constructor
    · rw [hclock, hstarts, hattempts]
      have hcons : ∀ attempts, recent now (now :: attempts) =
          now :: recent now attempts := by
        intro attempts
        simp [recent, feedbackWindowMs]
      rw [hcons, hcons, recent_recent le_rfl, hcounted]
    · rw [hstarts]
      exact limited_cons h hnow hroom

theorem claim_attempts (now : ℕ) (submissionId : String)
    (previous : Option String) (m : FeedbackMarkers) :
    ((m.claim now submissionId previous).1 = .rateLimited ∧
      (m.claim now submissionId previous).2.attempts = recent now m.attempts) ∨
    ((recent now m.attempts).length < feedbackUserLimit ∧
      (m.claim now submissionId previous).1 = .reserved now previous.isSome ∧
      (m.claim now submissionId previous).2.attempts =
        now :: recent now m.attempts) := by
  unfold claim
  split
  · exact .inl ⟨rfl, rfl⟩
  · next hroom => exact .inr ⟨not_le.mp hroom, rfl, rfl⟩

/-- A reservation either claims or answers from the marker. -/
theorem reserve_cases (now : ℕ) (submissionId : String) (m : FeedbackMarkers) :
    (∃ previous, m.reserve now submissionId =
      m.claim now submissionId previous) ∨
    ((m.reserve now submissionId).2 = m ∧
      ∀ submittedAt replaces, (m.reserve now submissionId).1 ≠
        .reserved submittedAt replaces) := by
  unfold reserve
  cases hmarker : m.marker with
  | none => exact .inl ⟨none, rfl⟩
  | some existing =>
      dsimp only
      cases existing.status with
      | delivered =>
          refine .inr ?_
          dsimp only
          split <;> simp
      | pending =>
          dsimp only
          split
          · refine .inr ?_
            split <;> simp
          · exact .inl ⟨_, rfl⟩

theorem proceed_fields (s : FeedbackState) (n now : ℕ)
    (submissionId feedback : String) (reservation : FeedbackReservation) :
    (s.proceed n now submissionId feedback reservation).markers = s.markers ∧
    (s.proceed n now submissionId feedback reservation).clock = s.clock ∧
    (s.proceed n now submissionId feedback reservation).issues = s.issues ∧
    (s.proceed n now submissionId feedback reservation).settlements =
      s.settlements ∧
    (s.proceed n now submissionId feedback reservation).sent = s.sent := by
  cases reservation <;> exact ⟨rfl, rfl, rfl, rfl, rfl⟩

/-- The state a call's reservation is made in. -/
def reserving (s : FeedbackState) (now : ℕ) (submissionId feedback : String) :
    FeedbackState :=
  { s with
    markers := (s.markers.reserve now submissionId).2
    clock := now
    sent := (submissionId, feedback) :: s.sent }

theorem step_submit {n now : ℕ} {submissionId feedback : String} :
    s.step (.submit n now submissionId feedback) = some s' ↔
      s.clock ≤ now ∧ s.deliveries.get? n = none ∧
        s' = (s.reserving now submissionId feedback).proceed n now
          submissionId feedback (s.markers.reserve now submissionId).1 := by
  rw [FeedbackState.step, Option.ite_none_left_eq_some, not_or, not_lt]
  have hnone : s.deliveries.has n = true ↔ ¬ s.deliveries.get? n = none := by
    simp [OrderedMap.has, Option.isSome_iff_ne_none]
  rw [hnone, not_not, and_assoc, Option.some_inj]
  constructor
  · rintro ⟨hclock, hnew, heq⟩
    exact ⟨hclock, hnew, heq.symm⟩
  · rintro ⟨hclock, hnew, heq⟩
    exact ⟨hclock, hnew, heq.symm⟩

theorem step_sink {n : ℕ} {took : Bool} {answer : SinkAnswer} :
    s.step (.sink n took answer) = some s' ↔
      ∃ d progress, s.deliveries.get? n = some d ∧
        d.phase.allows took answer = true ∧
        d.phase.step (!s.issues.isEmpty) answer = some progress ∧
        s' = advance
          { s with issues := if took then d.issue :: s.issues else s.issues }
          n d progress := by
  rw [FeedbackState.step, Option.bind_eq_some_iff]
  constructor
  · rintro ⟨d, hd, h⟩
    rw [Option.ite_none_right_eq_some, Option.map_eq_some_iff] at h
    rcases h with ⟨hallows, progress, hprogress, rfl⟩
    exact ⟨d, progress, hd, hallows, hprogress, rfl⟩
  · rintro ⟨d, progress, hd, hallows, hprogress, rfl⟩
    refine ⟨d, hd, ?_⟩
    rw [if_pos hallows, hprogress]
    rfl

theorem advance_fields (s : FeedbackState) (n : ℕ) (d : Delivery)
    (progress : SinkProgress) :
    (s.advance n d progress).markers = s.markers ∧
    (s.advance n d progress).clock = s.clock ∧
    (s.advance n d progress).starts = s.starts ∧
    (s.advance n d progress).issues = s.issues ∧
    (s.advance n d progress).sent = s.sent := by
  cases progress <;> exact ⟨rfl, rfl, rfl, rfl, rfl⟩

theorem WithinLimit.step (h : s.WithinLimit) {event : FeedbackEvent}
    (hstep : s.step event = some s') : s'.WithinLimit := by
  cases event with
  | submit n now submissionId feedback =>
      rcases step_submit.mp hstep with ⟨hnow, -, rfl⟩
      rcases proceed_fields (s.reserving now submissionId feedback) n now
        submissionId feedback (s.markers.reserve now submissionId).1 with
        ⟨hmarkers, hclock, -⟩
      apply h.attempt hnow hclock
      rw [hmarkers]
      rcases reserve_cases now submissionId s.markers with
        ⟨previous, hclaim⟩ | ⟨hkept, hnot⟩
      · rcases claim_attempts now submissionId previous s.markers with
          ⟨hlimited, hattempts⟩ | ⟨hroom, hreserved, hattempts⟩
        · refine .inl ⟨?_, ?_⟩
          · rw [hclaim, hlimited]
            rfl
          · exact (congrArg (fun r => r.2.attempts) hclaim).trans hattempts
        · refine .inr (.inr ⟨hroom, ?_, ?_⟩)
          · rw [hclaim, hreserved]
            rfl
          · exact (congrArg (fun r => r.2.attempts) hclaim).trans hattempts
      · refine .inr (.inl ⟨?_, congrArg attempts hkept⟩)
        cases hreserved : (s.markers.reserve now submissionId).1 with
        | reserved submittedAt replaces =>
            exact absurd hreserved (hnot submittedAt replaces)
        | _ => rfl
  | sink n took answer =>
      rcases step_sink.mp hstep with ⟨d, progress, -, -, -, rfl⟩
      rcases advance_fields
        { s with issues := if took then d.issue :: s.issues else s.issues }
        n d progress with ⟨hmarkers, hclock, hstarts, -⟩
      constructor
      · rw [hmarkers, hclock, hstarts]
        exact h.counted
      · rw [hstarts]
        exact h.limited
  | die n =>
      rw [FeedbackState.step] at hstep
      cases hstep
      exact ⟨h.counted, h.limited⟩
  | settle i lands =>
      rw [FeedbackState.step, Option.map_eq_some_iff] at hstep
      rcases hstep with ⟨settlement, -, rfl⟩
      cases lands with
      | true => exact ⟨h.counted, h.limited⟩
      | false => exact ⟨h.counted, h.limited⟩
  | elsewhere now =>
      rw [FeedbackState.step, Option.ite_none_left_eq_some, not_lt] at hstep
      rcases hstep with ⟨hnow, hstep⟩
      cases hstep
      split
      · exact h.attempt hnow rfl (.inl ⟨rfl, rfl⟩)
      · next hroom =>
          exact h.attempt hnow rfl (.inr (.inr ⟨not_le.mp hroom, rfl, rfl⟩))

end Window

section Deliveries

/-- A delivery starts only when none is running. -/
def noOverlap (s : FeedbackState) : FeedbackEvent → Bool
  | .submit _ now submissionId _ =>
      match (s.markers.reserve now submissionId).1 with
      | .reserved _ _ => s.deliveries.entries.isEmpty
      | _ => true
  | _ => true

/-- One delivery at most, which creates only while there is no issue. -/
structure Alone (s : FeedbackState) : Prop where
  one : ∀ n m d d', s.deliveries.get? n = some d →
    s.deliveries.get? m = some d' → n = m
  creating : ∀ n d attempt, s.deliveries.get? n = some d →
    d.phase = .creating attempt → s.issues = []
  issues : s.issues.length ≤ 1

theorem get?_of_isEmpty {n : ℕ} (h : s.deliveries.entries.isEmpty = true) :
    s.deliveries.get? n = none := by
  rw [OrderedMap.get?_eq_none_iff]
  unfold OrderedMap.keys
  rw [List.isEmpty_iff.mp h]
  simp

/-- The deliveries of a reservation: one more on a state without any, or the
same. -/
theorem get?_proceed {n m now : ℕ} {submissionId feedback : String}
    {reservation : FeedbackReservation} {d : Delivery}
    (h : (s.proceed n now submissionId feedback
      reservation).deliveries.get? m = some d) :
    (∃ submittedAt replaces,
      reservation = .reserved submittedAt replaces ∧ m = n ∧
        d = ⟨submissionId, feedback, submittedAt, replaces, .searching 0⟩) ∨
      s.deliveries.get? m = some d := by
  cases reservation with
  | reserved submittedAt replaces =>
      simp only [proceed, OrderedMap.get?_push] at h
      split at h
      · next hm =>
          exact .inl ⟨submittedAt, replaces, rfl, hm, (Option.some.inj h).symm⟩
      · exact .inr h
  | _ => exact .inr h

theorem get?_advance {n m : ℕ} {d d' : Delivery} {progress : SinkProgress}
    (h : (s.advance n d progress).deliveries.get? m = some d') :
    (∃ phase, progress = .next phase ∧ m = n ∧
        d' = { d with phase := phase }) ∨
      m ≠ n ∧ s.deliveries.get? m = some d' := by
  cases progress with
  | next phase =>
      simp only [advance, OrderedMap.get?_set] at h
      split at h
      · next hm => exact .inl ⟨phase, rfl, hm, (Option.some.inj h).symm⟩
      · next hm => exact .inr ⟨hm, h⟩
  | _ =>
      simp only [advance, finish, OrderedMap.get?_delete] at h
      split at h
      · cases h
      · next hm => exact .inr ⟨hm, h⟩

/-- The issues a request of the sink leaves. -/
def issuesAfter (s : FeedbackState) (d : Delivery) (took : Bool) :
    List FeedbackIssue :=
  if took then d.issue :: s.issues else s.issues

/-- A request of the only delivery: the delivery left, if any, is its own, and
the issues are those of before or its first. -/
theorem Alone.sink (h : s.Alone) {n : ℕ} {took : Bool} {answer : SinkAnswer}
    {d : Delivery} {progress : SinkProgress}
    (hd : s.deliveries.get? n = some d)
    (hallows : d.phase.allows took answer = true)
    (hstep : d.phase.step (!s.issues.isEmpty) answer = some progress)
    (hs : s' = advance { s with issues := s.issuesAfter d took } n d
      progress) :
    s'.Alone ∧
    (∀ m d', s'.deliveries.get? m = some d' → m = n ∧ ∃ phase,
      progress = .next phase ∧ d' = { d with phase := phase }) ∧
    (s'.issues = s.issues ∨ s.issues = [] ∧ s'.issues = [d.issue] ∧
        ∃ attempt, d.phase = .creating attempt) := by
  have hissues : s'.issues = s.issuesAfter d took := by
    rw [hs]
    exact (advance_fields _ n d progress).2.2.2.1
  have hleft : ∀ m d', s'.deliveries.get? m = some d' → m = n ∧ ∃ phase,
      progress = .next phase ∧ d' = { d with phase := phase } := by
    intro m d' hget
    rw [hs] at hget
    rcases get?_advance hget with ⟨phase, hnext, rfl, hd'⟩ | ⟨hm, hother⟩
    · exact ⟨rfl, phase, hnext, hd'⟩
    · exact absurd (h.one m n d' d hother hd) hm
  have hmade : s'.issues = s.issues ∨ s.issues = [] ∧ s'.issues = [d.issue] ∧
        ∃ attempt, d.phase = .creating attempt := by
    cases took with
    | false => exact .inl hissues
    | true =>
        rcases SinkPhase.creating_of_took hallows with ⟨attempt, hphase⟩
        have hnone := h.creating n d attempt hd hphase
        refine .inr ⟨hnone, ?_, attempt, hphase⟩
        rw [hissues, issuesAfter, if_pos rfl, hnone]
  refine ⟨⟨?_, ?_, ?_⟩, hleft, hmade⟩
  · intro m k d₁ d₂ hm hk
    rw [(hleft m d₁ hm).1, (hleft k d₂ hk).1]
  · intro m d' attempt hm hphase
    rcases hleft m d' hm with ⟨-, phase, rfl, rfl⟩
    dsimp only at hphase
    rw [hphase] at hstep
    have hnone := SinkPhase.next_creating hstep
    rcases hmade with hsame | ⟨-, -, before, hcreating⟩
    · rw [hsame]
      simpa using hnone
    · rw [hcreating] at hstep
      exact (SinkPhase.not_creating_twice hstep).elim
  · rcases hmade with hsame | ⟨-, hone, -⟩
    · rw [hsame]
      exact h.issues
    · rw [hone]
      simp

theorem Alone.of_le (h : s.Alone) (hissues : s'.issues = s.issues)
    (hle : ∀ n d, s'.deliveries.get? n = some d →
      s.deliveries.get? n = some d) : s'.Alone := by
  refine ⟨?_, ?_, by rw [hissues]; exact h.issues⟩
  · intro n m d d' hn hm
    exact h.one n m d d' (hle n d hn) (hle m d' hm)
  · intro n d attempt hn hphase
    rw [hissues]
    exact h.creating n d attempt (hle n d hn) hphase

theorem get?_die {n m : ℕ} {d : Delivery}
    (h : (s.deliveries.delete n).get? m = some d) :
    s.deliveries.get? m = some d := by
  rw [OrderedMap.get?_delete] at h
  split at h
  · cases h
  · exact h

theorem Alone.submit (h : s.Alone) {n now : ℕ} {submissionId feedback : String}
    (hturn : s.noOverlap (.submit n now submissionId feedback) = true)
    (hs : s' = (s.reserving now submissionId feedback).proceed n now
      submissionId feedback (s.markers.reserve now submissionId).1) :
    s'.Alone := by
  have hissues : s'.issues = s.issues := by
    rw [hs]
    exact (proceed_fields _ n now submissionId feedback _).2.2.1
  cases hreserve : (s.markers.reserve now submissionId).1 with
  | reserved submittedAt replaces =>
      rw [noOverlap, hreserve] at hturn
      have hempty : s.deliveries.entries.isEmpty = true := hturn
      have hnew : ∀ m d, s'.deliveries.get? m = some d →
          m = n ∧ d.phase = .searching 0 := by
        intro m d hget
        rw [hs] at hget
        rcases get?_proceed hget with ⟨_, _, -, rfl, rfl⟩ | hold
        · exact ⟨rfl, rfl⟩
        · have hnone := get?_of_isEmpty (n := m) hempty
          have hold : s.deliveries.get? m = some d := hold
          rw [hnone] at hold
          cases hold
      refine ⟨?_, ?_, by rw [hissues]; exact h.issues⟩
      · intro m k d d' hm hk
        rw [(hnew m d hm).1, (hnew k d' hk).1]
      · intro m d attempt hm hphase
        rw [(hnew m d hm).2] at hphase
        cases hphase
  | _ =>
      apply h.of_le hissues
      intro m d hget
      rw [hs, hreserve] at hget
      exact hget

theorem Alone.step (h : s.Alone) {event : FeedbackEvent}
    (hturn : s.noOverlap event = true) (hstep : s.step event = some s') :
    s'.Alone := by
  cases event with
  | submit n now submissionId feedback =>
      exact h.submit hturn (step_submit.mp hstep).2.2
  | sink n took answer =>
      rcases step_sink.mp hstep with ⟨d, progress, hd, hallows, hnext, hs⟩
      exact (h.sink hd hallows hnext hs).1
  | die n =>
      rw [FeedbackState.step] at hstep
      cases hstep
      exact h.of_le rfl fun m d => get?_die
  | settle i lands =>
      rw [FeedbackState.step, Option.map_eq_some_iff] at hstep
      rcases hstep with ⟨settlement, -, rfl⟩
      exact h.of_le rfl fun m d hget => hget
  | elsewhere now =>
      rw [FeedbackState.step, Option.ite_none_left_eq_some] at hstep
      obtain rfl := Option.some.inj hstep.2
      split <;> exact h.of_le rfl fun m d hget => hget

end Deliveries

section Author

/-- A reservation keeps the issue's author in the marker: the author comes
back to its own first reservation, another submission takes over the
author's or comes back to its own. -/
def keepsAuthor (marker : Option MarkerRow) (submissionId : String)
    (issue : FeedbackIssue) : Bool :=
  match marker with
  | none => issue.submissionId == submissionId
  | some row =>
      if issue.submissionId = submissionId then
        row.submissionId == submissionId && row.previousSubmissionId.isNone
      else
        row.submissionId == issue.submissionId ||
          row.submissionId == submissionId

/-- A delivery starts only when none is running and the marker still names the
author of the issue, if there is one. -/
def inTurn (s : FeedbackState) : FeedbackEvent → Bool
  | .submit _ now submissionId _ =>
      match (s.markers.reserve now submissionId).1 with
      | .reserved _ _ =>
          s.deliveries.entries.isEmpty &&
            s.issues.all (keepsAuthor s.markers.marker submissionId)
      | _ => true
  | _ => true

theorem noOverlap_of_inTurn {event : FeedbackEvent}
    (h : s.inTurn event = true) : s.noOverlap event = true := by
  cases event with
  | submit n now submissionId feedback =>
      rw [inTurn] at h
      rw [noOverlap]
      split at h
      · exact (Bool.and_eq_true_iff.mp h).1
      · rfl
  | _ => rfl

/-- The row names the author: as its own submission, or as the one it took
over. -/
def Names (row : MarkerRow) (author : String) : Prop :=
  row.submissionId = author ∨
    row.status = .pending ∧ row.previousSubmissionId = some author

structure Attributed (s : FeedbackState) : Prop where
  alone : s.Alone
  marker : ∀ issue ∈ s.issues, ∀ row, s.markers.marker = some row →
    Names row issue.submissionId
  delivered : ∀ row, s.markers.marker = some row → row.status = .delivered →
    ∃ issue ∈ s.issues, issue.submissionId = row.submissionId
  running : ∀ n d row, s.deliveries.get? n = some d → s.issues = [] →
    s.markers.marker = some row → row.submissionId = d.submissionId
  searching : ∀ n d attempt, s.deliveries.get? n = some d →
    d.phase = .searching attempt → ∀ issue ∈ s.issues,
      (d.replacesOtherSubmission = true ↔ issue.submissionId ≠ d.submissionId)
  searchingAgain : ∀ n d create attempt, s.deliveries.get? n = some d →
    d.phase = .searchingAgain create attempt → ∀ issue ∈ s.issues,
      issue.submissionId = d.submissionId
  settledDelivered : ∀ author, (author, .delivered) ∈ s.settlements →
    ∃ issue ∈ s.issues, issue.submissionId = author
  settledSuperseded : ∀ other, (other, .superseded) ∈ s.settlements →
    ∃ issue ∈ s.issues, issue.submissionId ≠ other
  answers : ∀ author submittedAt,
    (author, .submitted submittedAt) ∈ s.answers →
      ∃ issue ∈ s.issues, issue.submissionId = author
  texts : ∀ issue ∈ s.issues, (issue.submissionId, issue.feedback) ∈ s.sent
  delivering : ∀ n d, s.deliveries.get? n = some d →
    (d.submissionId, d.feedback) ∈ s.sent

theorem Attributed.empty : FeedbackState.empty.Attributed := by
  constructor
  · constructor <;> simp [FeedbackState.empty]
  all_goals simp [FeedbackState.empty]

/-- There is one issue at most, so an author of one is the author. -/
theorem Attributed.author_eq (h : s.Attributed) {issue other : FeedbackIssue}
    (hissue : issue ∈ s.issues) (hother : other ∈ s.issues) :
    issue = other := by
  have hone := h.alone.issues
  cases hissues : s.issues with
  | nil =>
      rw [hissues] at hissue
      cases hissue
  | cons first rest =>
      rw [hissues, List.length_cons] at hone
      have hrest : rest = [] := List.length_eq_zero_iff.mp (by omega)
      rw [hissues, hrest] at hissue hother
      rw [List.mem_singleton.mp hissue, List.mem_singleton.mp hother]

variable {submissionId : String}

theorem reserve_reserved {now submittedAt : ℕ}
    {replaces : Bool} {m : FeedbackMarkers}
    (h : (m.reserve now submissionId).1 = .reserved submittedAt replaces) :
    ∃ previous, replaces = previous.isSome ∧
      (m.reserve now submissionId).2.marker =
        some ⟨submissionId, previous, .pending, now, now⟩ ∧
      (m.marker = none ∧ previous = none ∨
        ∃ row, m.marker = some row ∧ row.status = .pending ∧
          previous = if row.submissionId = submissionId then
            row.previousSubmissionId else some row.submissionId) := by
  have hclaimed : ∀ previous, (m.claim now submissionId previous).1 =
      .reserved submittedAt replaces → replaces = previous.isSome ∧
        (m.claim now submissionId previous).2.marker =
          some ⟨submissionId, previous, .pending, now, now⟩ := by
    intro previous hclaim
    unfold claim at hclaim ⊢
    by_cases hroom : feedbackUserLimit ≤ (recent now m.attempts).length
    · rw [if_pos hroom] at hclaim
      cases hclaim
    · rw [if_neg hroom] at hclaim ⊢
      cases hclaim
      exact ⟨rfl, rfl⟩
  unfold reserve at h ⊢
  cases hmarker : m.marker with
  | none =>
      rw [hmarker] at h
      rcases hclaimed none h with ⟨hreplaces, hrow⟩
      exact ⟨none, hreplaces, hrow, .inl ⟨rfl, rfl⟩⟩
  | some row =>
      rw [hmarker] at h
      dsimp only at h ⊢
      cases hstatus : row.status with
      | delivered =>
          rw [hstatus] at h
          dsimp only at h
          split at h <;> cases h
      | pending =>
          rw [hstatus] at h
          dsimp only at h ⊢
          split at h
          · split at h <;> cases h
          · next hstale =>
              rw [if_neg hstale]
              rcases hclaimed _ h with ⟨hreplaces, hrow⟩
              exact ⟨_, hreplaces, hrow, .inr ⟨row, rfl, hstatus, rfl⟩⟩

/-- A reservation that is not granted leaves the marker. -/
theorem reserve_marker {now : ℕ} {m : FeedbackMarkers}
    (h : ∀ submittedAt replaces, (m.reserve now submissionId).1 ≠
      .reserved submittedAt replaces) :
    (m.reserve now submissionId).2.marker = m.marker := by
  rcases reserve_cases now submissionId m with ⟨previous, hclaim⟩ | ⟨hkept, -⟩
  · rw [hclaim] at h ⊢
    unfold claim at h ⊢
    split at h
    · next hlimited => rw [if_pos hlimited]
    · exact absurd rfl (h _ _)
  · rw [hkept]

theorem reserve_delivered {now submittedAt : ℕ} {m : FeedbackMarkers}
    (h : (m.reserve now submissionId).1 = .delivered submittedAt) :
    ∃ row, m.marker = some row ∧ row.status = .delivered ∧
      row.submissionId = submissionId := by
  have hclaim : ∀ previous, (m.claim now submissionId previous).1 ≠
      .delivered submittedAt := by
    intro previous
    unfold claim
    split <;> simp
  unfold reserve at h
  cases hmarker : m.marker with
  | none =>
      rw [hmarker] at h
      exact absurd h (hclaim none)
  | some row =>
      rw [hmarker] at h
      dsimp only at h
      cases hstatus : row.status with
      | delivered =>
          rw [hstatus] at h
          dsimp only at h
          split at h
          · next hsame => exact ⟨row, rfl, hstatus, hsame⟩
          · cases h
      | pending =>
          rw [hstatus] at h
          dsimp only at h
          split at h
          · split at h <;> cases h
          · exact absurd h (hclaim _)

/-- A row named by the reservation that replaced a row naming the author. -/
theorem names_reserved {marker : Option MarkerRow}
    {issue : FeedbackIssue} {previous : Option String} {now : ℕ}
    (hkeeps : keepsAuthor marker submissionId issue = true)
    (hnames : ∀ row, marker = some row → Names row issue.submissionId)
    (hprevious : marker = none ∧ previous = none ∨
      ∃ row, marker = some row ∧ row.status = .pending ∧
        previous = if row.submissionId = submissionId then
          row.previousSubmissionId else some row.submissionId) :
    Names ⟨submissionId, previous, .pending, now, now⟩ issue.submissionId ∧
      (previous.isSome = true ↔ issue.submissionId ≠ submissionId) := by
  rcases hprevious with ⟨rfl, rfl⟩ | ⟨row, rfl, -, rfl⟩
  · have hsame : issue.submissionId = submissionId := by
      simpa [keepsAuthor] using hkeeps
    exact ⟨.inl hsame.symm, by simp [hsame]⟩
  · by_cases hsame : issue.submissionId = submissionId
    · have hown : row.submissionId = submissionId ∧
          row.previousSubmissionId = none := by
        simpa [keepsAuthor, hsame] using hkeeps
      refine ⟨.inl hsame.symm, ?_⟩
      simp [hown.1, hown.2, hsame]
    · have hrow : row.submissionId = issue.submissionId ∨
          row.submissionId = submissionId := by
        simpa [keepsAuthor, hsame] using hkeeps
      have hprevious : (if row.submissionId = submissionId then
          row.previousSubmissionId else some row.submissionId) =
          some issue.submissionId := by
        rcases hrow with hauthor | hown
        · have hne : row.submissionId ≠ submissionId := by
            rw [hauthor]
            exact hsame
          rw [if_neg hne, hauthor]
        · rw [if_pos hown]
          rcases hnames row rfl with hauthor | ⟨-, hprevious⟩
          · exact absurd (hauthor.symm.trans hown) hsame
          · exact hprevious
      rw [hprevious]
      exact ⟨.inr ⟨rfl, rfl⟩, by simp [hsame]⟩

/-- A call whose reservation is not granted answers, and changes nothing else
that is attributed. -/
theorem Attributed.refused (h : s.Attributed) (hissues : s'.issues = s.issues)
    (hmarker : s'.markers.marker = s.markers.marker)
    (hdeliveries : s'.deliveries = s.deliveries)
    (hsettlements : s'.settlements = s.settlements)
    (hanswers : ∀ author submittedAt,
      (author, .submitted submittedAt) ∈ s'.answers →
        ∃ issue ∈ s.issues, issue.submissionId = author)
    (hsent : ∀ text ∈ s.sent, text ∈ s'.sent) : s'.Attributed := by
  constructor
  · exact h.alone.of_le hissues fun n d hget => by rwa [← hdeliveries]
  · rw [hissues, hmarker]
    exact h.marker
  · rw [hissues, hmarker]
    exact h.delivered
  · rw [hissues, hmarker, hdeliveries]
    exact h.running
  · rw [hissues, hdeliveries]
    exact h.searching
  · rw [hissues, hdeliveries]
    exact h.searchingAgain
  · rw [hissues, hsettlements]
    exact h.settledDelivered
  · rw [hissues, hsettlements]
    exact h.settledSuperseded
  · rw [hissues]
    exact hanswers
  · rw [hissues]
    exact fun issue hissue => hsent _ (h.texts issue hissue)
  · rw [hdeliveries]
    exact fun n d hget => hsent _ (h.delivering n d hget)

/-- A granted reservation, in its turn. -/
theorem Attributed.reserved (h : s.Attributed) {n now submittedAt : ℕ}
    {submissionId feedback : String} {replaces : Bool}
    (hreserved : (s.markers.reserve now submissionId).1 =
      .reserved submittedAt replaces)
    (hturn : s.inTurn (.submit n now submissionId feedback) = true)
    (hs : s' = (s.reserving now submissionId feedback).proceed n now
      submissionId feedback (s.markers.reserve now submissionId).1) :
    s'.Attributed := by
  have halone := h.alone.submit (noOverlap_of_inTurn hturn) hs
  rw [inTurn, hreserved] at hturn
  rcases Bool.and_eq_true_iff.mp hturn with ⟨hempty, hkeeps⟩
  rw [List.all_eq_true] at hkeeps
  rcases reserve_reserved hreserved with
    ⟨previous, hreplaces, hrow, hprevious⟩
  rw [hreserved] at hs
  have hmarker : s'.markers.marker =
      some ⟨submissionId, previous, .pending, now, now⟩ := by
    rw [hs]
    exact hrow
  have hdeliveries : ∀ m d, s'.deliveries.get? m = some d →
      d = ⟨submissionId, feedback, submittedAt, replaces, .searching 0⟩ := by
    intro m d hget
    rw [hs] at hget
    rcases get?_proceed hget with ⟨_, _, hsame, -, rfl⟩ | hold
    · cases hsame
      rfl
    · have hnone := get?_of_isEmpty (n := m) hempty
      have hold : s.deliveries.get? m = some d := hold
      rw [hnone] at hold
      cases hold
  have hissues : s'.issues = s.issues := by rw [hs]; rfl
  have hnames : ∀ issue ∈ s.issues,
      Names ⟨submissionId, previous, .pending, now, now⟩ issue.submissionId ∧
      (previous.isSome = true ↔ issue.submissionId ≠ submissionId) :=
    fun issue hissue => names_reserved (hkeeps issue hissue)
      (h.marker issue hissue) hprevious
  have hsent : s'.sent = (submissionId, feedback) :: s.sent := by rw [hs]; rfl
  constructor
  · exact halone
  · intro issue hissue row hget
    rw [hissues] at hissue
    rw [hmarker] at hget
    cases hget
    exact (hnames issue hissue).1
  · intro row hget hdelivered
    rw [hmarker] at hget
    cases hget
    cases hdelivered
  · intro m d row hget _ hrow
    rw [hmarker] at hrow
    cases hrow
    rw [hdeliveries m d hget]
  · intro m d attempt hget _ issue hissue
    rw [hissues] at hissue
    rw [hdeliveries m d hget, hreplaces]
    exact (hnames issue hissue).2
  · intro m d create attempt hget hphase
    rw [hdeliveries m d hget] at hphase
    cases hphase
  · rw [hs]
    exact h.settledDelivered
  · rw [hs]
    exact h.settledSuperseded
  · rw [hs]
    exact h.answers
  · rw [hissues, hsent]
    exact fun issue hissue => List.mem_cons_of_mem _ (h.texts issue hissue)
  · intro m d hget
    rw [hsent, hdeliveries m d hget]
    exact List.mem_cons_self

theorem Attributed.submit (h : s.Attributed) {n now : ℕ}
    {submissionId feedback : String}
    (hturn : s.inTurn (.submit n now submissionId feedback) = true)
    (hs : s' = (s.reserving now submissionId feedback).proceed n now
      submissionId feedback (s.markers.reserve now submissionId).1) :
    s'.Attributed := by
  have hissues : s'.issues = s.issues := by
    rw [hs]
    exact (proceed_fields _ n now submissionId feedback _).2.2.1
  have hmarkers : s'.markers = (s.markers.reserve now submissionId).2 := by
    rw [hs]
    exact (proceed_fields _ n now submissionId feedback _).1
  have hsettlements : s'.settlements = s.settlements := by
    rw [hs]
    exact (proceed_fields _ n now submissionId feedback _).2.2.2.1
  have hsent : s'.sent = (submissionId, feedback) :: s.sent := by
    rw [hs]
    exact (proceed_fields _ n now submissionId feedback _).2.2.2.2
  have hsent' : ∀ text ∈ s.sent, text ∈ s'.sent := by
    rw [hsent]
    exact fun text htext => List.mem_cons_of_mem _ htext
  cases hreserve : (s.markers.reserve now submissionId).1 with
  | reserved submittedAt replaces => exact h.reserved hreserve hturn hs
  | delivered submittedAt =>
      have hkept : s'.markers.marker = s.markers.marker := by
        rw [hmarkers]
        exact reserve_marker fun _ _ => by rw [hreserve]; simp
      rcases reserve_delivered hreserve with ⟨row, hrow, hstatus, hown⟩
      rw [hreserve] at hs
      apply h.refused hissues hkept (by rw [hs]; rfl) hsettlements _ hsent'
      intro author answeredAt hmem
      rw [hs] at hmem
      rcases List.mem_cons.mp hmem with heq | hold
      · obtain ⟨rfl, -⟩ := Prod.mk.inj heq
        rw [← hown]
        exact h.delivered row hrow hstatus
      · exact h.answers author answeredAt hold
  | _ =>
      have hkept : s'.markers.marker = s.markers.marker := by
        rw [hmarkers]
        exact reserve_marker fun _ _ => by rw [hreserve]; simp
      rw [hreserve] at hs
      apply h.refused hissues hkept (by rw [hs]; rfl) hsettlements _ hsent'
      intro author answeredAt hmem
      rw [hs] at hmem
      rcases List.mem_cons.mp hmem with heq | hold
      · cases (Prod.mk.inj heq).2
      · exact h.answers author answeredAt hold

/-- What a delivery that ends tells: its own issue, or the author it found. -/
theorem conclude_cases (d : Delivery) (delivery : Option FeedbackDelivery) :
    (delivery = none ∧ d.conclude delivery = (.released, .deliveryFailed)) ∨
    (d.replacesOtherSubmission = true ∧ delivery = some .existing ∧
      d.conclude delivery = (.superseded, .alreadySubmitted)) ∨
    ((d.replacesOtherSubmission = false ∧ delivery = some .existing ∨
        delivery = some .created) ∧
      d.conclude delivery = (.delivered, .submitted d.submittedAt)) := by
  cases delivery with
  | none => exact .inl ⟨rfl, rfl⟩
  | some delivery =>
      cases delivery <;> cases hreplaces : d.replacesOtherSubmission <;>
        simp [Delivery.conclude, hreplaces]

/-- A delivery that ends found, or made, an issue of the author it tells. -/
theorem Attributed.concluded (h : s.Attributed) {n : ℕ} {d : Delivery}
    {took : Bool} {answer : SinkAnswer} {delivery : Option FeedbackDelivery}
    {progress : SinkProgress} (hd : s.deliveries.get? n = some d)
    (hallows : d.phase.allows took answer = true)
    (hstep : d.phase.step (!s.issues.isEmpty) answer = some progress)
    (hend : progress = .failed ∧ delivery = none ∨
      ∃ found, progress = .delivered found ∧ delivery = some found) :
    ((d.conclude delivery).1 = .delivered →
      ∃ issue ∈ s.issuesAfter d took, issue.submissionId = d.submissionId) ∧
    ((d.conclude delivery).1 = .superseded → ∃ issue ∈ s.issuesAfter d took,
        issue.submissionId ≠ d.submissionId) ∧
    (∀ submittedAt, (d.conclude delivery).2 = .submitted submittedAt →
      (d.conclude delivery).1 = .delivered) := by
  have hfound : (!s.issues.isEmpty) = true → took = false →
      ∃ issue ∈ s.issuesAfter d took, issue ∈ s.issues := by
    intro hexists htook
    have hne : s.issues ≠ [] := by
      intro hnil
      rw [hnil] at hexists
      cases hexists
    rcases List.exists_mem_of_ne_nil _ hne with ⟨issue, hissue⟩
    rw [issuesAfter, htook]
    exact ⟨issue, hissue, hissue⟩
  have hexisting : delivery = some .existing → ∃ issue ∈ s.issuesAfter d took,
        (d.replacesOtherSubmission = true ↔
          issue.submissionId ≠ d.submissionId) := by
    rintro rfl
    rcases hend with ⟨-, hnone⟩ | ⟨found, rfl, hsame⟩
    · cases hnone
    · cases hsame
      rcases SinkPhase.existing_of_step hstep with ⟨hexists, attempt, hphase⟩
      have htook : took = false := by
        rw [hphase] at hallows
        simpa [SinkPhase.allows] using hallows
      rcases hfound hexists htook with ⟨issue, hafter, hissue⟩
      exact ⟨issue, hafter, h.searching n d attempt hd hphase issue hissue⟩
  have hcreated : delivery = some .created →
      ∃ issue ∈ s.issuesAfter d took, issue.submissionId = d.submissionId := by
    rintro rfl
    rcases hend with ⟨-, hnone⟩ | ⟨found, rfl, hsame⟩
    · cases hnone
    · cases hsame
      rcases SinkPhase.created_of_step hstep with
        ⟨rfl, attempt, hphase⟩ | ⟨hexists, create, attempt, hphase⟩
      · rw [hphase] at hallows
        have htook : took = true := hallows
        rw [issuesAfter, htook, if_pos rfl]
        exact ⟨d.issue, List.mem_cons_self, rfl⟩
      · have htook : took = false := by
          rw [hphase] at hallows
          simpa [SinkPhase.allows] using hallows
        rcases hfound hexists htook with ⟨issue, hafter, hissue⟩
        exact ⟨issue, hafter,
          h.searchingAgain n d create attempt hd hphase issue hissue⟩
  rcases conclude_cases d delivery with ⟨-, heq⟩ |
    ⟨hreplaces, hdelivery, heq⟩ | ⟨hown, heq⟩
  · rw [heq]
    exact ⟨nofun, nofun, nofun⟩
  · rw [heq]
    rcases hexisting hdelivery with ⟨issue, hissue, hiff⟩
    exact ⟨nofun, fun _ => ⟨issue, hissue, hiff.mp hreplaces⟩, nofun⟩
  · rw [heq]
    refine ⟨fun _ => ?_, nofun, fun _ _ => rfl⟩
    rcases hown with ⟨hreplaces, hdelivery⟩ | hdelivery
    · rcases hexisting hdelivery with ⟨issue, hissue, hiff⟩
      refine ⟨issue, hissue, ?_⟩
      by_contra hne
      rw [hiff.mpr hne] at hreplaces
      cases hreplaces
    · exact hcreated hdelivery

/-- The settlements and answers after a request of the sink: those of before,
and of a delivery that ended its own. -/
theorem advance_told (s : FeedbackState) (n : ℕ) (d : Delivery)
    (progress : SinkProgress) :
    ((s.advance n d progress).settlements = s.settlements ∧
        (s.advance n d progress).answers = s.answers) ∨
      ∃ delivery, (progress = .failed ∧ delivery = none ∨
          ∃ found, progress = .delivered found ∧ delivery = some found) ∧
        (s.advance n d progress).settlements =
          (d.submissionId, (d.conclude delivery).1) :: s.settlements ∧
        (s.advance n d progress).answers =
          (d.submissionId, (d.conclude delivery).2) :: s.answers := by
  cases progress with
  | next phase => exact .inl ⟨rfl, rfl⟩
  | delivered found => exact .inr ⟨some found, .inr ⟨found, rfl, rfl⟩, rfl, rfl⟩
  | failed => exact .inr ⟨none, .inl ⟨rfl, rfl⟩, rfl, rfl⟩

theorem Attributed.sink (h : s.Attributed) {n : ℕ} {took : Bool}
    {answer : SinkAnswer} {d : Delivery} {progress : SinkProgress}
    (hd : s.deliveries.get? n = some d)
    (hallows : d.phase.allows took answer = true)
    (hstep : d.phase.step (!s.issues.isEmpty) answer = some progress)
    (hs : s' = advance { s with issues := s.issuesAfter d took } n d
      progress) : s'.Attributed := by
  rcases h.alone.sink hd hallows hstep hs with ⟨halone, hleft, hmade⟩
  rcases advance_fields { s with issues := s.issuesAfter d took } n d
    progress with ⟨hmarkers, -, -, hissues, hsent⟩
  rw [← hs] at hmarkers hissues hsent
  have hkept : ∀ issue ∈ s.issues, issue ∈ s'.issues := by
    intro issue hissue
    rcases hmade with hsame | ⟨hnone, -⟩
    · rwa [hsame]
    · rw [hnone] at hissue
      cases hissue
  have hold : ∀ author, (∃ issue ∈ s.issues, issue.submissionId = author) →
      ∃ issue ∈ s'.issues, issue.submissionId = author := by
    rintro author ⟨issue, hissue, hauthor⟩
    exact ⟨issue, hkept issue hissue, hauthor⟩
  have htold := advance_told { s with issues := s.issuesAfter d took } n d
    progress
  rw [← hs] at htold
  constructor
  · exact halone
  · intro issue hissue row hrow
    rw [hmarkers] at hrow
    rcases hmade with hsame | ⟨hnone, hone, -⟩
    · rw [hsame] at hissue
      exact h.marker issue hissue row hrow
    · rw [hone] at hissue
      rw [List.mem_singleton.mp hissue]
      exact .inl (h.running n d row hd hnone hrow)
  · intro row hrow hstatus
    rw [hmarkers] at hrow
    exact hold _ (h.delivered row hrow hstatus)
  · intro m d' row hget hnone hrow
    rcases hleft m d' hget with ⟨-, phase, -, rfl⟩
    rw [hmarkers] at hrow
    apply h.running n d row hd _ hrow
    rcases hmade with hsame | ⟨hempty, -⟩
    · rw [← hsame, hnone]
    · exact hempty
  · intro m d' attempt hget hphase issue hissue
    rcases hleft m d' hget with ⟨-, phase, rfl, rfl⟩
    dsimp only at hphase
    rw [hphase] at hstep
    rcases SinkPhase.next_searching hstep with ⟨before, hbefore⟩
    rcases hmade with hsame | ⟨-, -, attempt', hcreating⟩
    · rw [hsame] at hissue
      exact h.searching n d before hd hbefore issue hissue
    · rw [hbefore] at hcreating
      cases hcreating
  · intro m d' create attempt hget hphase issue hissue
    rcases hleft m d' hget with ⟨-, phase, rfl, rfl⟩
    dsimp only at hphase
    rw [hphase] at hstep
    rcases hmade with hsame | ⟨-, hone, -⟩
    · rw [hsame] at hissue
      rcases SinkPhase.next_searchingAgain hstep with
        ⟨before, hbefore⟩ | ⟨before, hbefore⟩
      · rw [h.alone.creating n d before hd hbefore] at hissue
        cases hissue
      · exact h.searchingAgain n d create before hd hbefore issue hissue
    · rw [hone] at hissue
      rw [List.mem_singleton.mp hissue]
      rfl
  · intro author hmem
    rcases htold with ⟨hsettlements, -⟩ | ⟨delivery, hend, hsettlements, -⟩
    · rw [hsettlements] at hmem
      exact hold _ (h.settledDelivered author hmem)
    · rw [hsettlements] at hmem
      rcases List.mem_cons.mp hmem with heq | hmem
      · obtain ⟨rfl, hdelivered⟩ := Prod.mk.inj heq
        rw [hissues]
        exact (h.concluded hd hallows hstep hend).1 hdelivered.symm
      · exact hold _ (h.settledDelivered author hmem)
  · intro other hmem
    have hlater : (∃ issue ∈ s.issues, issue.submissionId ≠ other) →
        ∃ issue ∈ s'.issues, issue.submissionId ≠ other := by
      rintro ⟨issue, hissue, hne⟩
      exact ⟨issue, hkept issue hissue, hne⟩
    rcases htold with ⟨hsettlements, -⟩ | ⟨delivery, hend, hsettlements, -⟩
    · rw [hsettlements] at hmem
      exact hlater (h.settledSuperseded other hmem)
    · rw [hsettlements] at hmem
      rcases List.mem_cons.mp hmem with heq | hmem
      · obtain ⟨rfl, hsuperseded⟩ := Prod.mk.inj heq
        rw [hissues]
        exact (h.concluded hd hallows hstep hend).2.1 hsuperseded.symm
      · exact hlater (h.settledSuperseded other hmem)
  · intro author submittedAt hmem
    rcases htold with ⟨-, hanswers⟩ | ⟨delivery, hend, -, hanswers⟩
    · rw [hanswers] at hmem
      exact hold _ (h.answers author submittedAt hmem)
    · rw [hanswers] at hmem
      rcases List.mem_cons.mp hmem with heq | hmem
      · obtain ⟨rfl, hsubmitted⟩ := Prod.mk.inj heq
        rw [hissues]
        have hconcluded := h.concluded hd hallows hstep hend
        exact hconcluded.1 (hconcluded.2.2 submittedAt hsubmitted.symm)
      · exact hold _ (h.answers author submittedAt hmem)
  · intro issue hissue
    rw [hsent]
    rcases hmade with hsame | ⟨-, hone, -⟩
    · rw [hsame] at hissue
      exact h.texts issue hissue
    · rw [hone] at hissue
      rw [List.mem_singleton.mp hissue]
      exact h.delivering n d hd
  · intro m d' hget
    rcases hleft m d' hget with ⟨-, phase, -, rfl⟩
    rw [hsent]
    exact h.delivering n d hd

/-- The row a settlement leaves names the author still. -/
theorem Attributed.settled_row (h : s.Attributed)
    {outcome : FeedbackSettlement} {row row' : MarkerRow}
    (hmem : (submissionId, outcome) ∈ s.settlements)
    (hrow : s.markers.marker = some row)
    (hsettled : settleRow submissionId outcome row = some row') :
    (∀ issue ∈ s.issues, Names row' issue.submissionId) ∧
      (row'.status = .delivered →
        ∃ issue ∈ s.issues, issue.submissionId = row'.submissionId) ∧
      (s.issues = [] → row'.submissionId = row.submissionId) := by
  have hsame : row = row' →
      (∀ issue ∈ s.issues, Names row' issue.submissionId) ∧
        (row'.status = .delivered →
          ∃ issue ∈ s.issues, issue.submissionId = row'.submissionId) ∧
        (s.issues = [] → row'.submissionId = row.submissionId) := by
    rintro rfl
    exact ⟨fun issue hissue => h.marker issue hissue row hrow,
      h.delivered row hrow, fun _ => rfl⟩
  unfold settleRow at hsettled
  split at hsettled
  · next hown =>
      cases outcome with
      | delivered =>
          cases hsettled
          rcases h.settledDelivered submissionId hmem with
            ⟨issue, hissue, hauthor⟩
          refine ⟨fun other hother => .inl ?_, fun _ => ⟨issue, hissue, ?_⟩,
            fun _ => rfl⟩
          · rw [h.author_eq hother hissue, hauthor]
            exact hown
          · rw [hauthor]
            exact hown.symm
      | superseded =>
          cases hsettled
          rcases h.settledSuperseded submissionId hmem with
            ⟨issue, hissue, hother⟩
          have hauthor : row.previousSubmissionId.getD row.submissionId =
              issue.submissionId := by
            rcases h.marker issue hissue row hrow with heq | ⟨-, heq⟩
            · exact absurd (heq.symm.trans hown) hother
            · rw [heq]
              rfl
          refine ⟨fun found hfound => .inl ?_, fun _ => ⟨issue, hissue, ?_⟩,
            fun hnone => ?_⟩
          · rw [h.author_eq hfound hissue]
            exact hauthor
          · exact hauthor.symm
          · rw [hnone] at hissue
            cases hissue
      | released =>
          dsimp only at hsettled
          split at hsettled
          · cases hsettled
          · exact hsame (Option.some.inj hsettled)
  · exact hsame (Option.some.inj hsettled)

theorem Attributed.settle (h : s.Attributed) {i : ℕ} {lands : Bool}
    (hstep : s.step (.settle i lands) = some s') : s'.Attributed := by
  rw [FeedbackState.step, Option.map_eq_some_iff] at hstep
  rcases hstep with ⟨⟨submissionId, outcome⟩, hfound, rfl⟩
  have hmem : (submissionId, outcome) ∈ s.settlements :=
    List.mem_of_getElem? hfound
  have hrow : ∀ row', (if lands then s.markers.settle submissionId outcome
      else s.markers).marker = some row' → ∃ row, s.markers.marker = some row ∧
        (∀ issue ∈ s.issues, Names row' issue.submissionId) ∧
        (row'.status = .delivered →
          ∃ issue ∈ s.issues, issue.submissionId = row'.submissionId) ∧
        (s.issues = [] → row'.submissionId = row.submissionId) := by
    intro row' hrow'
    cases lands with
    | false =>
        exact ⟨row', hrow', fun issue hissue => h.marker issue hissue row' hrow',
          h.delivered row' hrow', fun _ => rfl⟩
    | true =>
        rcases Option.bind_eq_some_iff.mp hrow' with ⟨row, hrow, hsettled⟩
        exact ⟨row, hrow, h.settled_row hmem hrow hsettled⟩
  constructor
  · exact h.alone.of_le rfl fun n d hget => hget
  · intro issue hissue row' hrow'
    rcases hrow row' hrow' with ⟨row, -, hnames, -⟩
    exact hnames issue hissue
  · intro row' hrow'
    rcases hrow row' hrow' with ⟨row, -, -, hdelivered, -⟩
    exact hdelivered
  · intro n d row' hget hnone hrow'
    rcases hrow row' hrow' with ⟨row, hold, -, -, hsame⟩
    rw [hsame hnone]
    exact h.running n d row hget hnone hold
  · exact h.searching
  · exact h.searchingAgain
  · intro author hauthor
    exact h.settledDelivered author (List.mem_of_mem_eraseIdx hauthor)
  · intro other hother
    exact h.settledSuperseded other (List.mem_of_mem_eraseIdx hother)
  · exact h.answers
  · exact h.texts
  · exact h.delivering

theorem Attributed.step (h : s.Attributed) {event : FeedbackEvent}
    (hturn : s.inTurn event = true) (hstep : s.step event = some s') :
    s'.Attributed := by
  cases event with
  | submit n now submissionId feedback =>
      exact h.submit hturn (step_submit.mp hstep).2.2
  | sink n took answer =>
      rcases step_sink.mp hstep with ⟨d, progress, hd, hallows, hnext, hs⟩
      exact h.sink hd hallows hnext hs
  | settle i lands => exact h.settle hstep
  | die n =>
      rw [FeedbackState.step] at hstep
      cases hstep
      refine { h with
          alone := ?_
          running := ?_
          searching := ?_
          searchingAgain := ?_
          delivering := ?_ }
      · exact h.alone.of_le rfl fun m d => get?_die
      · exact fun m d row hget => h.running m d row (get?_die hget)
      · exact fun m d attempt hget => h.searching m d attempt (get?_die hget)
      · exact fun m d create attempt hget =>
          h.searchingAgain m d create attempt (get?_die hget)
      · exact fun m d hget => h.delivering m d (get?_die hget)
  | elsewhere now =>
      rw [FeedbackState.step, Option.ite_none_left_eq_some] at hstep
      obtain rfl := Option.some.inj hstep.2
      split
      · exact h.refused rfl rfl rfl rfl h.answers fun _ hmem => hmem
      · exact h.refused rfl rfl rfl rfl h.answers fun _ hmem => hmem

end Author

/-- Only the author of the one issue was told it was submitted, and is told so
again once no reservation is pending. -/
structure AuthorToldOnly (s : FeedbackState) : Prop where
  answers : ∀ author submittedAt,
    (author, .submitted submittedAt) ∈ s.answers →
      ∃ issue, s.issues = [issue] ∧ issue.submissionId = author ∧
        (author, issue.feedback) ∈ s.sent
  retries : ∀ issue ∈ s.issues,
    (∀ row, s.markers.marker = some row → row.status = .delivered) →
      ∀ n now feedback, s.clock ≤ now → s.deliveries.get? n = none →
        (s.markers.reserve now issue.submissionId).1 ≠ .rateLimited →
          ∃ rest ∈ [[], [FeedbackEvent.sink n false .answered]],
            ∃ s' submittedAt, Transition.run step s
                (.submit n now issue.submissionId feedback :: rest) = some s' ∧
              s'.answers.head? =
                some (issue.submissionId, .submitted submittedAt)

/-- The author's retry, when no reservation is pending. -/
theorem Attributed.retries (h : s.Attributed) {issue : FeedbackIssue}
    (hissue : issue ∈ s.issues)
    (hpending : ∀ row, s.markers.marker = some row →
      row.status = .delivered) {n now : ℕ} (feedback : String)
    (hnow : s.clock ≤ now) (hn : s.deliveries.get? n = none)
    (hroom : (s.markers.reserve now issue.submissionId).1 ≠ .rateLimited) :
    ∃ rest ∈ [[], [FeedbackEvent.sink n false .answered]], ∃ s' submittedAt,
        Transition.run FeedbackState.step s
          (.submit n now issue.submissionId feedback :: rest) = some s' ∧
        s'.answers.head? =
          some (issue.submissionId, .submitted submittedAt) := by
  have hsubmit := (step_submit (n := n) (s := s)).mpr
    ⟨hnow, hn, (rfl : (s.reserving now issue.submissionId feedback).proceed n
      now issue.submissionId feedback
        (s.markers.reserve now issue.submissionId).1 = _)⟩
  cases hmarker : s.markers.marker with
  | some row =>
      have hstatus := hpending row hmarker
      have hown : row.submissionId = issue.submissionId := by
        rcases h.marker issue hissue row hmarker with hauthor | ⟨hnot, -⟩
        · exact hauthor
        · rw [hstatus] at hnot
          cases hnot
      have hreserve : (s.markers.reserve now issue.submissionId).1 =
          .delivered row.submittedAt := by
        simp [FeedbackMarkers.reserve, hmarker, hstatus, hown]
      rw [hreserve] at hsubmit
      have hrun := Transition.run_cons_eq_some.mpr
        ⟨_, hsubmit, Transition.run_nil _⟩
      refine ⟨[], by simp, _, row.submittedAt, hrun, ?_⟩
      rfl
  | none =>
      have hreserve : (s.markers.reserve now issue.submissionId).1 =
          .reserved now false := by
        have hclaim : s.markers.reserve now issue.submissionId =
            s.markers.claim now issue.submissionId none := by
          simp [FeedbackMarkers.reserve, hmarker]
        rw [hclaim] at hroom ⊢
        rcases claim_attempts now issue.submissionId none s.markers with
          ⟨hlimited, -⟩ | ⟨-, hreserved, -⟩
        · exact absurd hlimited hroom
        · exact hreserved
      rw [hreserve] at hsubmit
      have hexists : s.issues.isEmpty = false := by
        cases hissues : s.issues with
        | nil =>
            rw [hissues] at hissue
            cases hissue
        | cons _ _ => rfl
      have hsearch : ((s.reserving now issue.submissionId feedback).proceed n
          now issue.submissionId feedback (.reserved now false)).step
            (.sink n false .answered) = some _ :=
        step_sink.mpr
          ⟨⟨issue.submissionId, feedback, now, false, .searching 0⟩,
            .delivered .existing, by simp [proceed], rfl,
            by simp [SinkPhase.step, proceed, reserving, hexists], rfl⟩
      have hrun := Transition.run_cons_eq_some.mpr
        ⟨_, hsubmit, Transition.run_cons_eq_some.mpr
          ⟨_, hsearch, Transition.run_nil _⟩⟩
      refine ⟨[.sink n false .answered], by simp, _, now, hrun, ?_⟩
      rfl

theorem Attributed.authorToldOnly (h : s.Attributed) : s.AuthorToldOnly := by
  constructor
  · intro author submittedAt hmem
    rcases h.answers author submittedAt hmem with ⟨issue, hissue, hauthor⟩
    refine ⟨issue, ?_, hauthor, hauthor ▸ h.texts issue hissue⟩
    have hone := h.alone.issues
    cases hissues : s.issues with
    | nil =>
        rw [hissues] at hissue
        cases hissue
    | cons first rest =>
        rw [hissues, List.length_cons] at hone
        have hrest : rest = [] := List.length_eq_zero_iff.mp (by omega)
        rw [hissues, hrest] at hissue
        rw [hrest, List.mem_singleton.mp hissue]
  · intro issue hissue hpending n now feedback hnow hn hroom
    exact h.retries hissue hpending feedback hnow hn hroom

/-- One issue as long as deliveries do not overlap; deliveries within the
limit in every window; and only the author told, where reservations keep the
author. -/
theorem filed_once (events : List FeedbackEvent) (s : FeedbackState)
    (hrun : Transition.run step empty events = some s) :
    (Transition.Meets step (fun s e => s.noOverlap e = true) empty events →
      s.issues.length ≤ 1) ∧
    (∀ opens, (startedIn opens s.starts).length ≤ feedbackUserLimit) ∧
    (Transition.Meets step (fun s e => s.inTurn e = true) empty events →
      s.AuthorToldOnly) := by
  refine ⟨fun halone => ?_, ?_, fun hturn => ?_⟩
  · have hinit : empty.Alone := Attributed.empty.alone
    exact (Transition.run_preserves_of_meets
      (fun s s' e hs hturn hstep => Alone.step hs hturn hstep) halone hinit
      hrun).issues
  · have hinit : empty.WithinLimit := by
      constructor
      · rfl
      · intro opens
        simp [startedIn, empty]
    exact (Transition.run_preserves (I := WithinLimit)
      (fun s s' e hs hstep => WithinLimit.step hs hstep) hinit hrun).limited
  · exact (Transition.run_preserves_of_meets
      (fun s s' e hs hturn hstep => Attributed.step hs hturn hstep) hturn
      Attributed.empty hrun).authorToldOnly

/-- A delivery that makes the issue and dies, taken over by another submission
that finds the issue, and the author's retry. -/
def takenOverOnce : List FeedbackEvent := [.submit 0 0 "first" "text",
    .sink 0 false .answered, .sink 0 true .confirmed, .settle 0 false,
    .submit 1 120000 "second" "other", .sink 1 false .answered,
    .settle 0 true,
    .submit 2 120001 "first" "text"]

theorem filed_once_takenOver :
    ∃ s, Transition.run step empty takenOverOnce = some s ∧
      s.issues.length ≤ 1 ∧ s.AuthorToldOnly := by
  have halone : Transition.Meets step (fun s e => s.noOverlap e = true) empty
      takenOverOnce := by
    decide +kernel
  have hturn : Transition.Meets step (fun s e => s.inTurn e = true) empty
      takenOverOnce := by
    decide +kernel
  cases hrun : Transition.run step empty takenOverOnce with
  | none =>
      have hruns : (Transition.run step empty takenOverOnce).isSome =
          true := by
        decide +kernel
      simp [hrun] at hruns
  | some s =>
      have hfiled := filed_once takenOverOnce s hrun
      exact ⟨s, rfl, hfiled.1 halone, hfiled.2.2 hturn⟩

/-- A chain of two dead deliveries: the marker forgets the first, whose issue
it is, and the second is told it was submitted. -/
def takenOverTwice : List FeedbackEvent := [.submit 0 0 "first" "text",
    .sink 0 false .answered, .sink 0 true .confirmed, .settle 0 false,
    .submit 1 120000 "second" "other", .die 1,
    .submit 2 240000 "third" "more", .sink 2 false .answered, .settle 0 true,
    .submit 3 240001 "second" "other"]

theorem told_of_another_issue :
    ¬ ∀ (events : List FeedbackEvent) (s : FeedbackState),
      Transition.Meets step (fun s e => s.noOverlap e = true) empty events →
      Transition.run step empty events = some s → s.AuthorToldOnly := by
  intro hall
  have halone : Transition.Meets step (fun s e => s.noOverlap e = true) empty
      takenOverTwice := by
    decide +kernel
  have hreaches : ((Transition.run step empty takenOverTwice).map fun s =>
      (s.answers.head?, s.issues.map FeedbackIssue.submissionId)) =
        some (some ("second", .submitted 240000), ["first"]) := by
    decide +kernel
  rcases Option.map_eq_some_iff.mp hreaches with ⟨s, hrun, hfound⟩
  obtain ⟨hanswer, hissues⟩ := Prod.mk.inj hfound
  have hmem : ("second", FeedbackAnswer.submitted 240000) ∈ s.answers :=
    List.mem_of_mem_head? (by rw [hanswer]; rfl)
  rcases (hall takenOverTwice s halone hrun).answers "second" 240000 hmem with
    ⟨issue, hone, hauthor, -⟩
  rw [hone] at hissues
  simp [hauthor] at hissues

end FeedbackState

end QiForge
