import QiForge.TopicJournal

/-!
# The step journal in every run

Each method keeps the two copies together, and the runs inherit it.
-/

namespace QiForge

section Cards

open TopicProposalStore

variable {Effect : Type} {permits : List TopicPermit}
  {card card' : TopicCard Effect} {record : TopicStepRecord} {now : ℕ}

/-- A card that was just created. -/
theorem TopicCard.Sound.created {subject : TopicProposalSubject}
    {serial : ℕ} (digest : String) (receiptState : ReceiptState)
    (hpermits : ∀ permit ∈ permits, permit.serial ≠ serial) :
    ({ serial := serial
       subject := subject
       digest := digest
       lifecycle := ⟨.prepared, none, none, none,
         subject.action.steps.map fun step => ⟨step, .pending⟩, none⟩
       status := .prepared
       receiptState := receiptState
       verifyAfter := 0
       verifyAttempts := 0
       createdAt := subject.createdAt
       journal := subject.action.steps.map fun step =>
         ⟨step, .pending, none, none, none, none, none, none, none⟩ } :
      TopicCard Effect).Sound permits := by
  constructor
  · rfl
  · simp [Function.comp_def]
  · rw [List.forall₂_map_left_iff, List.forall₂_map_right_iff]
    apply List.forall₂_same.mpr
    intro step _
    constructor
    · rfl
    · rfl
    · exact ⟨rfl, rfl⟩
  · constructor
    · nofun
    · intro hcompleted
      rcases List.exists_mem_of_ne_nil _ subject.action.steps_ne_nil with
        ⟨step, hstep⟩
      rcases hcompleted ⟨step, .pending⟩ (List.mem_map_of_mem hstep) with
        ⟨receipt, hstate, -⟩
      cases hstate
  · nofun
  · intro row hrow _
    rcases List.mem_map.mp hrow with ⟨step, -, rfl⟩
    rfl
  · intro permit hpermit hserial
    exact absurd hserial (hpermits permit hpermit)

variable {step : TopicStepId}

/-- A pending step that becomes started. -/
theorem TopicCard.Sound.started (h : card.Sound permits)
    (hrecord : record ∈ card.lifecycle.steps)
    (hstep : record.step = step) (hpending : record.state = .pending) (effect : Effect) (digest : String)
    (executor : TopicExecutor) :
    (writeLifecycle (updateStep card step fun row =>
      { row with
        status := .started
        expected := some effect
        expectedDigest := some digest
        executor := some executor
        startedAt := some now })
      { card.lifecycle with
        status := .unknown
        steps := setStep card.lifecycle.steps step (.started now digest
          executor.matrixUserId executor.homeserver) }).Sound permits := by
  subst hstep
  have hpendingRow : ∀ other ∈ card.lifecycle.steps, ∀ row ∈ card.journal,
      other.Agrees row → other.step = record.step →
        row.receipt = none ∧ row.status = .pending := by
    intro other hother row hrow hagree hstep
    obtain rfl := h.record_eq hother hrecord hstep
    have hstate := hagree.status
    rw [hpending] at hstate
    have hreceipt := hagree.receipt
    rw [hpending] at hreceipt
    exact ⟨hreceipt, hstate.1⟩
  constructor
  · rfl
  · exact (TopicCard.Sound.setStep_steps _ _ _).trans h.steps
  · apply h.agree_setStep
    intro other hother row hrow hagree hstep
    constructor
    · exact hstep.symm.trans hagree.step
    · exact (hpendingRow other hother row hrow hagree hstep).1
    · exact ⟨rfl, rfl, executor.deviceId, rfl⟩
  · constructor
    · nofun
    · intro hcompleted
      rcases hcompleted _ (TopicCard.Sound.mem_setStep _
        (List.mem_map_of_mem hrecord)) with ⟨receipt, hstate, -⟩
      cases hstate
  · nofun
  · intro row hrow hstatus'
    rcases KeyedRows.mem_update hrow with
      ⟨before, hbefore, ⟨-, rfl⟩ | ⟨-, rfl⟩⟩
    · cases hstatus'
    · exact h.unreferenced row hbefore hstatus'
  · intro permit hpermit hserial row hrow hstep
    rcases KeyedRows.mem_update hrow with
      ⟨before, hbefore, ⟨hkey, rfl⟩ | ⟨-, rfl⟩⟩
    · rcases h.permitted permit hpermit hserial before hbefore hstep with
        ⟨-, -, hstarted⟩
      rcases forall₂_partner h.agree hbefore with ⟨other, hother, hagree⟩
      exact absurd (hpendingRow other hother before hbefore hagree
        (hagree.step.trans hkey)).2 hstarted
    · exact h.permitted permit hpermit hserial row hbefore hstep

/-- A started step whose references change. -/
theorem TopicCard.Sound.reference (h : card.Sound permits)
    (reference : Option TopicReference)
    (rejected : TopicStepRow Effect → Option TopicReference)
    (hstarted : ∀ row ∈ card.journal, row.step = step →
      row.status ≠ .pending) :
    (updateStep card step fun row =>
      { row with
        reference := reference
        referenceRejected := rejected row }).Sound permits := by
  refine { h with agree := ?_, unreferenced := ?_, permitted := ?_ }
  · change List.Forall₂ _ card.lifecycle.steps _
    unfold updateStep KeyedRows.update
    rw [List.forall₂_map_right_iff]
    apply forall₂_imp_mem h.agree
    intro record hrecord row hrow hagree
    split
    · exact { hagree with }
    · exact hagree
  · intro row hrow hpending
    rcases KeyedRows.mem_update hrow with
      ⟨before, hbefore, ⟨hkey, rfl⟩ | ⟨-, rfl⟩⟩
    · exact absurd hpending (hstarted before hbefore hkey)
    · exact h.unreferenced row hbefore hpending
  · intro permit hpermit hserial row hrow hstep
    rcases KeyedRows.mem_update hrow with
      ⟨before, hbefore, ⟨-, rfl⟩ | ⟨-, rfl⟩⟩
    · exact h.permitted permit hpermit hserial before hbefore hstep
    · exact h.permitted permit hpermit hserial row hbefore hstep

/-- Only the receipt's state and the schedule change. -/
theorem TopicCard.Sound.bookkeeping (h : card.Sound permits)
    (receiptState : ReceiptState) (verifyAfter verifyAttempts : ℕ) :
    ({ card with
        receiptState := receiptState
        verifyAfter := verifyAfter
        verifyAttempts := verifyAttempts } :
      TopicCard Effect).Sound permits := by
  have hsame := h.relabel rfl (.inl rfl) receiptState verifyAfter
    verifyAttempts
  rw [← h.status] at hsame
  exact hsame

/-- A started step that becomes verified. -/
theorem TopicCard.Sound.verified (h : card.Sound permits)
    (hrecord : record ∈ card.lifecycle.steps)
    {receipt : VerifiedTopicEffect} {lifecycle : TopicLifecycle}
    (hverified : verifiedLifecycle card.subject.action card.lifecycle
      record.step receipt = .ok lifecycle) :
    (writeLifecycle (updateStep card record.step fun row =>
      { row with
        status := .verified
        receipt := some receipt }) lifecycle).Sound permits := by
  rcases verifiedLifecycle_eq_ok h.steps (List.mem_map_of_mem hrecord)
    hverified with ⟨hsteps, hsucceeded, hfailed⟩
  constructor
  · rfl
  · change lifecycle.steps.map _ = _
    rw [hsteps, TopicCard.Sound.setStep_steps]
    exact h.steps
  · change List.Forall₂ _ lifecycle.steps _
    rw [hsteps]
    apply h.agree_setStep
    intro other hother row hrow hagree hstep
    constructor
    · exact hstep.symm.trans hagree.step
    · rfl
    · rfl
  · exact hsucceeded
  · exact hfailed
  · intro row hrow hpending
    rcases KeyedRows.mem_update hrow with
      ⟨before, hbefore, ⟨-, rfl⟩ | ⟨-, rfl⟩⟩
    · cases hpending
    · exact h.unreferenced row hbefore hpending
  · intro permit hpermit hserial row hrow hstep
    rcases KeyedRows.mem_update hrow with
      ⟨before, hbefore, ⟨-, rfl⟩ | ⟨-, rfl⟩⟩
    · rcases h.permitted permit hpermit hserial before hbefore hstep with
        ⟨hdigest, hexecutor, -⟩
      exact ⟨hdigest, hexecutor, nofun⟩
    · exact h.permitted permit hpermit hserial row hbefore hstep

/-- The row of a step is the only one. -/
theorem TopicCard.Sound.stepRow_eq (h : card.Sound permits)
    {row other : TopicStepRow Effect} (hget : stepRow card step = some row)
    (hother : other ∈ card.journal) (hstep : other.step = step) :
    other = row :=
  h.row_eq hother (KeyedRows.get_eq_some hget).1
    (hstep.trans (KeyedRows.get_eq_some hget).2.symm)

/-- A card whose steps stay as they are is later. -/
theorem TopicCard.Later.of_steps (hserial : card'.serial = card.serial)
    (hsubject : card'.subject = card.subject)
    (hdigest : card'.digest = card.digest)
    (hsteps : card'.lifecycle.steps = card.lifecycle.steps) :
    card.Later card' := by
  constructor
  · exact hserial
  · exact hsubject
  · exact hdigest
  · intro step receipt hmem
    rw [hsteps]
    exact hmem

/-- A card whose unverified step is written is later. -/
theorem TopicCard.Later.of_setStep (h : card.Sound permits)
    (hrecord : record ∈ card.lifecycle.steps)
    (hstep : record.step = step)
    (hopen : record.state.isVerified = false) {state : TopicStepState}
    (hserial : card'.serial = card.serial)
    (hsubject : card'.subject = card.subject)
    (hdigest : card'.digest = card.digest)
    (hsteps : card'.lifecycle.steps =
      setStep card.lifecycle.steps step state) :
    card.Later card' := by
  constructor
  · exact hserial
  · exact hsubject
  · exact hdigest
  · intro other receipt hmem
    rw [hsteps]
    apply TopicCard.Sound.mem_setStep_of_ne hmem
    intro hother
    obtain rfl := h.record_eq hmem hrecord (hother.trans hstep.symm)
    cases hopen

end Cards

namespace TopicProposalStore

variable {Effect : Type} {s s' : TopicProposalStore Effect}
  {card : TopicCard Effect} {now : ℕ} {event : TopicEvent Effect}
  {id : String} {input : BeginTopicStep} {record : TopicStepRecord}

/-- What `begin` has checked before it gives a permit. -/
theorem checkBegin_eq_ok (hcheck : s.checkBegin now card input = .ok record) :
    (card.lifecycle.status = .claimed ∨ card.lifecycle.status = .unknown) ∧
      card.lifecycle.claimedAt.isSome = true ∧
      card.lifecycle.executionBlockedAt = none ∧
      record ∈ card.lifecycle.steps ∧ record.step = input.step ∧
      ∀ earlier ∈ card.lifecycle.steps.takeWhile fun record =>
        !decide (record.step = input.step), earlier.state.isVerified = true := by
  unfold checkBegin at hcheck
  cases hclaimed : card.lifecycle.claimedAt with
  | none =>
      simp only [hclaimed] at hcheck
      split_ifs at hcheck
  | some claimedAt =>
      cases hget : KeyedRows.get TopicStepRecord.step input.step
          card.lifecycle.steps with
      | none =>
          simp only [hclaimed, hget] at hcheck
          split_ifs at hcheck
      | some found =>
          simp only [hclaimed, hget] at hcheck
          split_ifs at hcheck with hdigest hopen hblocked hexpired hwindow
            hidentity hpredecessors hgrant
          all_goals
            have hmem := KeyedRows.get_eq_some hget
            have hverified := List.all_eq_true.mp hpredecessors
            have hblock : card.lifecycle.executionBlockedAt = none := by
              simpa using hblocked
          · split at hcheck
            next => cases hcheck
            next =>
              cases hcheck
              exact ⟨hopen, rfl, hblock, hmem.1, hmem.2, hverified⟩
          · cases hcheck
            exact ⟨hopen, rfl, hblock, hmem.1, hmem.2, hverified⟩

/-- Giving one permit to a card whose row carries its effect and executor. -/
theorem Advance.permit (h : s.Advance now event s') {card' : TopicCard Effect}
    {effect : Effect} (hevent : event = .begin id input effect)
    (hget : s.get id = some card)
    (hcheck : s.checkBegin now card input = .ok record)
    (hcard : card' ∈ s'.cards) (hpermits : s'.permits = s.permits)
    (hserial : card'.serial = card.serial) {row : TopicStepRow Effect}
    (hrow : row ∈ card'.journal) (hstep : row.step = input.step)
    {expectedDigest : String}
    (hdigest : row.expectedDigest = some expectedDigest)
    (hexecutor : row.executor = some input.executor)
    (hstarted : row.status ≠ .pending)
    (hpermitted : s.Permitted
      ⟨card.serial, input.step, expectedDigest, input.executor⟩) :
    s.Advance now event (s'.permit card input expectedDigest) := by
  have hearlier : ∀ other ∈ s'.permits, other.serial = card.serial →
      other.step = input.step → other.expectedDigest = expectedDigest ∧
        other.executor = input.executor := by
    intro other hother hsame hstep'
    rcases (h.sound.cards card' hcard).permitted other hother
      (hsame.trans hserial.symm) row hrow (hstep.trans hstep'.symm) with
      ⟨hdigest', hexecutor', -⟩
    constructor
    · exact Option.some.inj (hdigest'.symm.trans hdigest)
    · exact Option.some.inj (hexecutor'.symm.trans hexecutor)
  constructor
  · refine { h.sound with
        permitsNumbered := ?_
        onePermit := ?_
        cards := ?_ }
    · intro other hother
      rcases List.mem_append.mp hother with hold | hnew
      · exact h.sound.permitsNumbered other hold
      · rw [List.mem_singleton.mp hnew, ← hserial]
        exact h.sound.numbered card' hcard
    · intro first hfirst second hsecond hsame hstep'
      rcases List.mem_append.mp hfirst with hold | hnew
      · rcases List.mem_append.mp hsecond with hold' | hnew'
        · exact h.sound.onePermit first hold second hold' hsame hstep'
        · obtain rfl := List.mem_singleton.mp hnew'
          exact hearlier first hold hsame hstep'
      · obtain rfl := List.mem_singleton.mp hnew
        rcases List.mem_append.mp hsecond with hold' | hnew'
        · rcases hearlier second hold' hsame.symm hstep'.symm with
            ⟨hdigest', hexecutor'⟩
          exact ⟨hdigest'.symm, hexecutor'.symm⟩
        · obtain rfl := List.mem_singleton.mp hnew'
          exact ⟨rfl, rfl⟩
    · intro other hother
      rcases h.sound.cards other hother with ⟨hstatus, hsteps, hagree,
        hsucceeded, hfailed, hunreferenced, hpermits'⟩
      constructor
      · exact hstatus
      · exact hsteps
      · exact hagree
      · exact hsucceeded
      · exact hfailed
      · exact hunreferenced
      · intro given hgiven hsame found hfound hstep'
        rcases List.mem_append.mp hgiven with hold | hnew
        · exact hpermits' given hold hsame found hfound hstep'
        · obtain rfl := List.mem_singleton.mp hnew
          obtain rfl : other = card' := List.inj_on_of_nodup_map
            h.sound.serials hother hcard (hsame.symm.trans hserial.symm)
          have hsame := (h.sound.cards other hother).row_eq hfound hrow
            (hstep'.trans hstep.symm)
          rw [hsame]
          exact ⟨hdigest, hexecutor, hstarted⟩
  · exact h.inserted
  · exact h.later
  · exact .inr ⟨_, congrArg (· ++ _) hpermits, hpermitted, id, input, effect,
      card, record, hevent, hget, hcheck, _, _, rfl⟩

variable {digestTopicProposal : TopicProposalSubject → String}
  {digestTopicEffect : Effect → String}

theorem mem_updateCard_of_get {change : TopicCard Effect → TopicCard Effect}
    (hget : s.get id = some card) :
    change card ∈ (s.updateCard id change).cards :=
  List.mem_map.mpr ⟨card, (get_eq_some hget).1, if_pos (get_eq_some hget).2⟩

theorem updateCard_of_none {change : TopicCard Effect → TopicCard Effect}
    (hget : s.get id = none) : s.updateCard id change = s := by
  have hsame : KeyedRows.update TopicCard.id id change s.cards = s.cards :=
    KeyedRows.update_of_get_none hget
  unfold updateCard
  rw [hsame]

theorem Sound.create (h : s.Sound) {subject : TopicProposalSubject}
    {origin : Bool}
    (hcreate : s.create digestTopicProposal now subject origin = .ok s') :
    s.Advance now event s' := by
  unfold TopicProposalStore.create at hcreate
  rcases except_ite_eq_ok hcreate with ⟨-, hinput⟩
  split at hinput
  next prior hget =>
    rcases except_ite_eq_ok hinput with ⟨-, hok⟩
    cases hok
    exact h.refl
  next hinvocation =>
    rcases except_ite_eq_ok hinput with ⟨-, hunexpired⟩
    rcases except_ite_eq_ok hunexpired with ⟨hid, hok⟩
    cases hok
    have hnone : s.get subject.id = none := by simpa using hid
    constructor
    · constructor
      · exact KeyedRows.nodup_append h.ids (KeyedRows.get_eq_none hnone)
      · exact KeyedRows.nodup_append h.invocations
          (KeyedRows.get_eq_none hinvocation)
      · apply KeyedRows.nodup_append h.serials
        intro hmem
        rcases List.mem_map.mp hmem with ⟨other, hother, hserial⟩
        exact absurd hserial (h.numbered other hother).ne
      · intro other hother
        rcases List.mem_append.mp hother with hold | hnew
        · exact (h.numbered other hold).trans (Nat.lt_succ_self _)
        · rw [List.mem_singleton.mp hnew]
          exact Nat.lt_succ_self _
      · intro permit hpermit
        exact (h.permitsNumbered permit hpermit).trans (Nat.lt_succ_self _)
      · exact h.onePermit
      · intro other hother
        rcases List.mem_append.mp hother with hold | hnew
        · exact h.cards other hold
        · rw [List.mem_singleton.mp hnew]
          apply TopicCard.Sound.created
          intro permit hpermit
          exact (h.permitsNumbered permit hpermit).ne
    · exact Nat.le_succ _
    · intro other hother
      rcases List.mem_append.mp hother with hold | hnew
      · exact .inl ⟨other, hold, .refl other, refers_journal rfl⟩
      · obtain rfl := List.mem_singleton.mp hnew
        refine .inr ⟨Nat.le_refl _, ?_⟩
        intro row hrow
        rcases List.mem_map.mp hrow with ⟨step, -, rfl⟩
        exact ⟨rfl, fun hopen => absurd rfl hopen, nofun⟩
    · exact .inl rfl

theorem Sound.transition (h : s.Sound) {kind : TopicTransition}
    {digest : String}
    (htransition : s.transition now id kind digest = .ok s') :
    s.Advance now event s' := by
  unfold TopicProposalStore.transition at htransition
  split at htransition
  next =>
    cases htransition
    exact h.refl
  next card hget =>
    rcases except_ite_eq_ok htransition with ⟨-, hdigest⟩
    rcases except_ite_eq_ok hdigest with ⟨hconsumed, hunexpired⟩
    rcases except_ite_eq_ok hunexpired with ⟨-, hwrite⟩
    rcases except_map_eq_ok hwrite with ⟨lifecycle, hparse, rfl⟩
    obtain rfl := parse_eq_ok hparse
    have hcard := h.cards card (get_eq_some hget).1
    have hopen : card.lifecycle.status ≠ .succeeded := by
      intro hsucceeded
      apply hconsumed
      rw [hsucceeded]
      simp
    apply h.updateCard hget
    · apply hcard.relabel
      · cases kind <;> rfl
      · cases kind <;> exact .inr ⟨hopen, nofun, nofun⟩
    · exact .of_steps rfl rfl rfl (by cases kind <;> rfl)
    · exact refers_journal rfl

theorem Sound.recordReference (h : s.Sound) {reference : TopicReference}
    (hevent : event = .recordReference id reference)
    (hrecord : s.recordReference now id reference = .ok s') :
    s.Advance now event s' := by
  unfold TopicProposalStore.recordReference at hrecord
  split at hrecord
  next => cases hrecord
  next card hget =>
    split at hrecord
    next => cases hrecord
    next row hrow =>
      rcases except_ite_eq_ok hrecord with ⟨hstarted, hreference⟩
      rcases get_eq_some hget with ⟨hmem, hid⟩
      have hcard := h.cards card hmem
      split at hreference
      next stored hstored =>
        rcases except_ite_eq_ok hreference with ⟨-, hok⟩
        cases hok
        exact h.refl
      next hnone =>
        rcases except_ite_eq_ok hreference with ⟨hallowed, hok⟩
        cases hok
        apply h.updateCard hget
        · have hopen : ∀ other ∈ card.journal, other.step = reference.step →
              other.status ≠ .pending := by
            intro other hother hstep hpending
            rw [hcard.stepRow_eq hrow hother hstep] at hpending
            exact hstarted (.inl hpending)
          exact (hcard.reference (some reference)
            TopicStepRow.referenceRejected hopen).bookkeeping
              card.receiptState now 0
        · exact TopicCard.Later.of_steps rfl rfl rfl rfl
        · refine refers_updateStep rfl fun other hother hstep => ?_
          obtain rfl := hcard.stepRow_eq hrow hother hstep
          refine ⟨.recorded reference (hid ▸ hevent) hstep.symm
            (fun hpending => hstarted (.inl hpending)) hnone hallowed rfl,
              fun hheld => ⟨hheld.expected, fun recorded hrecorded => ?_⟩⟩
          cases hrecorded
          exact hstep.symm

theorem Sound.rejectReference (h : s.Sound) {reference : TopicReference}
    (hevent : event = .rejectReference id reference) :
    s.Advance now event (s.rejectReference id reference) := by
  unfold TopicProposalStore.rejectReference
  split
  next => exact h.refl
  next card hget =>
    split
    next => exact h.refl
    next row hrow =>
      split_ifs with hstarted
      · rcases get_eq_some hget with ⟨hmem, hid⟩
        have hcard := h.cards card hmem
        apply h.updateCard hget
        · apply hcard.reference
          intro other hother hstep hpending
          rw [hcard.stepRow_eq hrow hother hstep, hstarted.1] at hpending
          cases hpending
        · exact .of_steps rfl rfl rfl rfl
        · refine refers_updateStep rfl fun other hother hstep => ?_
          obtain rfl := hcard.stepRow_eq hrow hother hstep
          exact ⟨.rejected reference (hid ▸ hevent) hstep.symm hstarted.1
            hstarted.2 rfl, fun hheld => ⟨hheld.expected, nofun⟩⟩
      · exact h.refl

theorem Sound.blockExecution (h : s.Sound)
    (hblock : s.blockExecution now id = .ok s') : s.Advance now event s' := by
  unfold TopicProposalStore.blockExecution at hblock
  split at hblock
  next =>
    cases hblock
    exact h.refl
  next card hget =>
    have hcard := h.cards card (get_eq_some hget).1
    dsimp only at hblock
    split_ifs at hblock with hblocked
    · cases hblock
      apply h.updateCard hget
      · exact hcard.bookkeeping card.receiptState card.verifyAfter
          verifyMaxAttempts
      · exact .of_steps rfl rfl rfl rfl
      · exact refers_journal rfl
    · rcases except_map_eq_ok hblock with ⟨lifecycle, hparse, rfl⟩
      obtain rfl := parse_eq_ok hparse
      unfold TopicProposalStore.updateCard
      rw [KeyedRows.update_update]
      · apply h.updateCard hget
        · apply hcard.relabel
          · rfl
          · exact .inl rfl
        · exact .of_steps rfl rfl rfl rfl
        · exact refers_journal rfl
      · exact fun _ => rfl

theorem Sound.claimVerification (h : s.Sound) (id : String) :
    s.Advance now event (s.claimVerification now id).2 := by
  unfold TopicProposalStore.claimVerification
  split
  next => exact h.refl
  next =>
    cases hget : s.get id with
    | none =>
        rw [updateCard_of_none hget]
        exact h.refl
    | some card =>
        have hcard := h.cards card (get_eq_some hget).1
        apply h.updateCard hget
        · exact hcard.bookkeeping card.receiptState _ _
        · exact .of_steps rfl rfl rfl rfl
        · exact refers_journal rfl

theorem Sound.receiptState (h : s.Sound) (id : String)
    (state : ReceiptState → ReceiptState) :
    s.Advance now event (s.updateCard id fun card =>
      { card with receiptState := state card.receiptState }) := by
  cases hget : s.get id with
  | none =>
      rw [updateCard_of_none hget]
      exact h.refl
  | some card =>
      have hcard := h.cards card (get_eq_some hget).1
      apply h.updateCard hget
      · exact hcard.bookkeeping _ card.verifyAfter card.verifyAttempts
      · exact .of_steps rfl rfl rfl rfl
      · exact refers_journal rfl

theorem Sound.verifyStep (h : s.Sound) {step : TopicStepId}
    {receipt : VerifiedTopicEffect}
    (hverify : s.verifyStep id step receipt = .ok s') : s.Advance now event s' := by
  unfold TopicProposalStore.verifyStep at hverify
  split at hverify
  next => cases hverify
  next card hget =>
    split at hverify
    next => cases hverify
    next record hrecord =>
      rcases KeyedRows.get_eq_some hrecord with ⟨hmem, rfl⟩
      split at hverify
      next => cases hverify
      next stored hstored =>
        rcases except_ite_eq_ok hverify with ⟨-, hok⟩
        cases hok
        exact h.refl
      next startedAt digest user homeserver hstarted =>
        rcases except_map_eq_ok hverify with ⟨lifecycle, hlifecycle, rfl⟩
        have hcard := h.cards card (get_eq_some hget).1
        apply h.updateCard hget
        · exact (hcard.verified hmem hlifecycle).bookkeeping _
            card.verifyAfter card.verifyAttempts
        · have hopen : record.state.isVerified = false := by
            rw [hstarted]
            rfl
          have hsteps := (verifiedLifecycle_eq_ok hcard.steps
            (List.mem_map_of_mem hmem) hlifecycle).1
          exact .of_setStep hcard hmem rfl hopen rfl rfl rfl hsteps
        · -- a step that is verified was started
          refine refers_updateStep rfl fun row hrow hstep =>
            ⟨.same rfl rfl fun _ => nofun, fun hheld => ⟨fun _ => ?_,
              hheld.step⟩⟩
          rcases forall₂_partner hcard.agree hrow with
            ⟨partner, hpartner, hagree⟩
          obtain rfl : partner = record :=
            hcard.record_eq hpartner hmem (hagree.step.trans hstep)
          have hstatus := hagree.status
          rw [hstarted] at hstatus
          apply hheld.expected
          rw [hstatus.1]
          nofun

theorem Sound.prune (h : s.Sound) (ids : List String) :
    s.Advance now event (s.prune ids) := by
  have hsub := List.filter_sublist (p := fun card : TopicCard Effect =>
    !decide (card.subject.id ∈ ids)) (l := s.cards)
  constructor
  · constructor
    · exact h.ids.sublist (hsub.map TopicCard.id)
    · exact h.invocations.sublist (hsub.map fun card =>
        card.subject.invocationId)
    · exact h.serials.sublist (hsub.map TopicCard.serial)
    · exact fun card hcard => h.numbered card (hsub.subset hcard)
    · exact h.permitsNumbered
    · exact h.onePermit
    · exact fun card hcard => h.cards card (hsub.subset hcard)
  · exact Nat.le_refl _
  · exact fun card hcard => .inl ⟨card, hsub.subset hcard,
      .refl card, refers_journal rfl⟩
  · exact .inl rfl

theorem Sound.begin (h : s.Sound) {effect : Effect}
    (hevent : event = .begin id input effect)
    (hbegin : s.begin digestTopicEffect now id input effect = .ok s') :
    s.Advance now event s' := by
  unfold TopicProposalStore.begin at hbegin
  dsimp only at hbegin
  split at hbegin
  next =>
    cases hbegin
    exact h.refl
  next card hget =>
    have hmem := (get_eq_some hget).1
    have hcard := h.cards card hmem
    split at hbegin
    next => cases hbegin
    next record hcheck =>
      rcases checkBegin_eq_ok hcheck with
        ⟨hopen, hclaim, hblocked, hrecord, hstep, hearlier⟩
      split_ifs at hbegin with hagain hpending
      · split at hbegin
        next =>
          cases hbegin
          exact h.refl
        next row hrow =>
          rcases KeyedRows.get_eq_some hrow with ⟨hjournal, hkey⟩
          split_ifs at hbegin with hsame
          · cases hbegin
            rcases hsame with ⟨hstarted, href, -, hdigest, hexecutor⟩
            have hunverified : row.status ≠ .verified := by
              rw [hstarted]
              nofun
            apply h.refl.permit hevent hget hcheck hmem rfl rfl hjournal hkey
              hdigest hexecutor
            · rw [hstarted]
              nofun
            · exact ⟨card, hmem, rfl, hopen, hclaim, hblocked, hearlier, row,
                hjournal, hkey, href, hunverified⟩
          · cases hbegin
            exact h.refl
      · rcases except_map_eq_ok hbegin with ⟨lifecycle, hparse, rfl⟩
        obtain rfl := parse_eq_ok hparse
        cases hrow : stepRow card input.step with
        | none => simp [hrow] at hpending
        | some row =>
            have hwaiting : row.status = .pending := by
              simpa [hrow] using hpending
            rcases KeyedRows.get_eq_some hrow with ⟨hjournal, hkey⟩
            have hunverified : row.status ≠ .verified := by
              rw [hwaiting]
              nofun
            have hfirst : record.state = .pending := not_not.mp hagain
            have hopenRecord : record.state.isVerified = false := by
              rw [hfirst]
              rfl
            apply Advance.permit
            case h =>
              apply h.updateCard hget
              · exact hcard.started hrecord hstep hfirst effect _ _
              · exact .of_setStep hcard hrecord hstep hopenRecord rfl rfl rfl
                  rfl
              · exact refers_updateStep rfl fun row _ _ =>
                  ⟨.same rfl rfl fun _ => nofun,
                    fun hheld => ⟨fun _ => rfl, hheld.step⟩⟩
            case hevent => exact hevent
            case hget => exact hget
            case hcheck => exact hcheck
            case hcard => exact mem_updateCard_of_get hget
            case hrow =>
              exact List.mem_map.mpr ⟨row, hjournal, if_pos hkey⟩
            case hstep => exact hkey
            case hpermitted =>
              exact ⟨card, hmem, rfl, hopen, hclaim, hblocked, hearlier, row,
                hjournal, hkey, hcard.unreferenced row hjournal hwaiting,
                hunverified⟩
            case hstarted => nofun
            all_goals rfl

theorem Sound.leave (h : s.Sound)
    {result : Except String (TopicProposalStore Effect)}
    (hadvance : ∀ s', result = .ok s' → s.Advance now event s') :
    s.Advance now event (s.leave result) := by
  cases result with
  | error error => exact h.refl
  | ok s' => exact hadvance s' rfl

theorem Sound.step (h : s.Sound) (hstep : s.step digestTopicProposal
    digestTopicEffect (now, event) = some s') : s.Advance now event s' := by
  unfold TopicProposalStore.step at hstep
  rcases Option.ite_none_left_eq_some.mp hstep with ⟨-, hevent⟩
  have hclock : ({ s with clock := now } : TopicProposalStore Effect).Sound :=
    { h with }
  have hadvance :
      ({ s with clock := now } : TopicProposalStore Effect).Advance now
        event s' := by
    cases event with
    | create subject origin =>
        cases hevent
        exact hclock.leave fun _ => hclock.create
    | transition id kind digest =>
        cases hevent
        exact hclock.leave fun _ => hclock.transition
    | begin id input effect =>
        cases hevent
        exact hclock.leave fun _ => hclock.begin rfl
    | claimVerification id =>
        cases hevent
        exact hclock.claimVerification id
    | recordReference id reference =>
        cases hevent
        exact hclock.leave fun _ => hclock.recordReference rfl
    | rejectReference id reference =>
        cases hevent
        exact hclock.rejectReference rfl
    | blockExecution id =>
        cases hevent
        exact hclock.leave fun _ => hclock.blockExecution
    | verifyStep id step receipt =>
        cases hevent
        exact hclock.leave fun _ => hclock.verifyStep
    | prune ids =>
        rcases Option.ite_none_right_eq_some.mp hevent with ⟨-, hsome⟩
        cases hsome
        exact hclock.prune ids
    | receiptState id delivered =>
        cases hevent
        exact hclock.receiptState id fun state =>
          if state = .pending then
            if delivered then .delivered else .abandoned
          else state
  exact { hadvance with }

theorem Sound.later_run (h : s.Sound) {events : List (ℕ × TopicEvent Effect)}
    (hrun : Transition.run (TopicProposalStore.step digestTopicProposal
      digestTopicEffect) s events = some s') :
    s'.Sound ∧ s.inserted ≤ s'.inserted ∧ ∀ card' ∈ s'.cards,
      (∃ card ∈ s.cards, card.Later card') ∨ s.inserted ≤ card'.serial := by
  induction events generalizing s with
  | nil =>
      cases hrun
      exact ⟨h, Nat.le_refl _, fun card hcard => .inl ⟨card, hcard,
        .refl card⟩⟩
  | cons event events ih =>
      rcases Transition.run_cons_eq_some.mp hrun with ⟨mid, hstep, hrest⟩
      have hadvance := h.step hstep
      rcases ih hadvance.sound hrest with ⟨hsound, hinserted, hlater⟩
      refine ⟨hsound, hadvance.inserted.trans hinserted, ?_⟩
      intro card' hcard'
      rcases hlater card' hcard' with ⟨between, hbetween, hsecond⟩ | hnew
      · rcases hadvance.later between hbetween with
          ⟨card, hcard, hfirst, -⟩ | ⟨hnew, -⟩
        · exact .inl ⟨card, hcard, hfirst.trans hsecond⟩
        · rw [hsecond.serial]
          exact .inr hnew
      · exact .inr (hadvance.inserted.trans hnew)

theorem sound_empty : (empty : TopicProposalStore Effect).Sound := by
  constructor <;> simp [empty]

/-- What the journal keeps in every state. -/
structure JournalKept (s : TopicProposalStore Effect) : Prop where
  agree : ∀ card ∈ s.cards, List.Forall₂ TopicStepRecord.Agrees
    card.lifecycle.steps card.journal
  onePermit : ∀ permit ∈ s.permits, ∀ other ∈ s.permits,
    permit.serial = other.serial → permit.step = other.step →
      permit.expectedDigest = other.expectedDigest ∧
        permit.executor = other.executor
  status : ∀ card ∈ s.cards, card.status = card.lifecycle.status
  succeeded : ∀ card ∈ s.cards, card.lifecycle.status = .succeeded ↔
    card.subject.action.Completed card.lifecycle.steps
  failed : ∀ card ∈ s.cards, card.lifecycle.status = .failed →
    GrantFailed card.lifecycle.steps

theorem Sound.journalKept (h : s.Sound) : s.JournalKept := by
  constructor
  · exact fun card hcard => (h.cards card hcard).agree
  · exact h.onePermit
  · exact fun card hcard => (h.cards card hcard).status
  · exact fun card hcard => (h.cards card hcard).succeeded
  · exact fun card hcard => (h.cards card hcard).failed

/-- The step journal of the topic cards. -/
theorem topic_step_journal
    (digestTopicProposal : TopicProposalSubject → String)
    (digestTopicEffect : Effect → String)
    (events : List (ℕ × TopicEvent Effect)) (s : TopicProposalStore Effect)
    (hrun : Transition.run (step digestTopicProposal digestTopicEffect)
      empty events = some s) :
    s.JournalKept ∧ (∀ event s',
        s.step digestTopicProposal digestTopicEffect event = some s' →
          s'.permits = s.permits ∨
            ∃ permit, s'.permits = s.permits ++ [permit] ∧
              s.Permitted permit) ∧
      ∀ more s', Transition.run (step digestTopicProposal digestTopicEffect)
          s more = some s' →
        ∀ card ∈ s.cards, ∀ card' ∈ s'.cards, card'.serial = card.serial →
          ∀ step receipt, ⟨step, .verified receipt⟩ ∈ card.lifecycle.steps →
            ⟨step, .verified receipt⟩ ∈ card'.lifecycle.steps := by
  have hsound : s.Sound := (sound_empty.later_run hrun).1
  refine ⟨hsound.journalKept, ?_, ?_⟩
  · intro event s' hstep
    rcases (hsound.step hstep).permits with
      hsame | ⟨permit, hgiven, hpermitted, -⟩
    · exact .inl hsame
    · exact .inr ⟨permit, hgiven, hpermitted⟩
  · intro more s' hmore card hcard card' hcard' hserial step receipt hmem
    rcases (hsound.later_run hmore).2.2 card' hcard' with
      ⟨before, hbefore, hlater⟩ | hnew
    · obtain rfl : before = card := List.inj_on_of_nodup_map hsound.serials
        hbefore hcard (hlater.serial.symm.trans hserial)
      exact hlater.verified step receipt hmem
    · rw [hserial] at hnew
      exact absurd (hsound.numbered card hcard) (not_lt.mpr hnew)

def accessCard (id invocationId : String) : TopicProposalSubject where
  id := id
  invocationId := invocationId
  action := .grantTopicAccess "admin" [⟨"member", "reader"⟩]
  ownerMatrixUserId := "@owner"
  ownerHomeserver := "home"
  values := id
  createdAt := 1
  expiresAt := 100

def phone : TopicExecutor := ⟨"@owner", "home", some "phone"⟩
def tablet : TopicExecutor := ⟨"@owner", "home", some "tablet"⟩

/-- A grant is permitted again after its reference was rejected, not to another
device and not next to another grant, and fails on the chain after the owner
revoked its card. -/
def rejectedReference : List (ℕ × TopicEvent String) :=
  [(1, .create (accessCard "tp_1" "call-1") true),
    (1, .create (accessCard "tp_2" "call-2") true),
    (2, .transition "tp_1" .claim "tp_1"),
    (2, .transition "tp_2" .claim "tp_2"),
    (3, .begin "tp_1" ⟨"tp_1", .grant, phone⟩ "grant"),
    (4, .begin "tp_2" ⟨"tp_2", .grant, phone⟩ "grant"),
    (5, .recordReference "tp_1" (.chain "hash")),
    (6, .begin "tp_1" ⟨"tp_1", .grant, phone⟩ "grant"),
    (7, .rejectReference "tp_1" (.chain "hash")),
    (8, .begin "tp_1" ⟨"tp_1", .grant, tablet⟩ "grant"),
    (9, .begin "tp_1" ⟨"tp_1", .grant, phone⟩ "grant"),
    (10, .recordReference "tp_1" (.chain "other")),
    (11, .transition "tp_1" .revoke "tp_1"),
    (12, .verifyStep "tp_1" .grant (.chain "chain" "other" 5 1 "digest" 12))]

theorem topic_step_journal_rejectedReference :
    ∃ s, Transition.run (step TopicProposalSubject.id fun effect : String =>
        effect) empty rejectedReference = some s ∧ s.JournalKept := by
  cases hrun : Transition.run (step TopicProposalSubject.id
      fun effect : String => effect) empty rejectedReference with
  | none =>
      have hruns : (Transition.run (step TopicProposalSubject.id
          fun effect : String => effect) empty rejectedReference).isSome =
            true := by
        decide +kernel
      simp [hrun] at hruns
  | some s =>
      exact ⟨s, rfl, (topic_step_journal TopicProposalSubject.id
        (fun effect => effect) rejectedReference s hrun).1⟩

/-- Its permits and the cards at its end. -/
example : (Transition.run (step TopicProposalSubject.id fun effect : String =>
        effect) empty rejectedReference).map
      (fun s => (s.permits.map TopicPermit.serial,
        s.cards.map fun card => (card.id, card.status))) =
      some ([0, 0], [("tp_1", .failed), ("tp_2", .claimed)]) := by
  decide +kernel

end TopicProposalStore

end QiForge
