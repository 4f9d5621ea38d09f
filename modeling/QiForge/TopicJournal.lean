import QiForge.TopicReferences
import QiForge.Transition

/-!
# The two copies of a topic card's steps agree

A card is sound when its step records and its journal rows tell the same, when
its status is the one its steps earn, and when its rows explain every permit
that was given for it.  Each method keeps that, and a permit is added only to
a card that allows it.
-/

namespace QiForge

/-- What a record and a row of one step have in common. -/
structure TopicStepRecord.Agrees {Effect : Type} (record : TopicStepRecord)
    (row : TopicStepRow Effect) : Prop where
  step : record.step = row.step
  receipt : row.receipt = record.state.receipt
  status : match record.state with
    | .pending => row.status = .pending ∧ row.expectedDigest = none
    | .started _ expectedDigest matrixUserId homeserver =>
        row.status = .started ∧ row.expectedDigest = some expectedDigest ∧
          ∃ deviceId, row.executor = some ⟨matrixUserId, homeserver, deviceId⟩
    | .verified _ => row.status = .verified

/-- A receipt that counts as the success of a step of the action. -/
def TopicAction.Succeeds : TopicAction → VerifiedTopicEffect → Prop
  | createTopic _ _, .matrix _ _ _ => True
  | grantTopicAccess _ _, .chain _ _ _ code _ _ => code = 0
  | _, _ => False

/-- All steps are verified with a successful receipt. -/
def TopicAction.Completed (action : TopicAction)
    (steps : List TopicStepRecord) : Prop :=
  ∀ record ∈ steps, ∃ receipt, record.state = .verified receipt ∧
    action.Succeeds receipt

/-- The one step is verified as a grant that failed. -/
def GrantFailed (steps : List TopicStepRecord) : Prop :=
  ∃ chainId hash height code messageDigest verifiedAt, code ≠ 0 ∧
    steps = [⟨.grant, .verified
      (.chain chainId hash height code messageDigest verifiedAt)⟩]

namespace TopicCard

variable {Effect : Type}

structure Sound (permits : List TopicPermit) (card : TopicCard Effect) :
    Prop where
  status : card.status = card.lifecycle.status
  steps : card.lifecycle.steps.map TopicStepRecord.step =
    card.subject.action.steps
  agree : List.Forall₂ TopicStepRecord.Agrees card.lifecycle.steps card.journal
  succeeded : card.lifecycle.status = .succeeded ↔
    card.subject.action.Completed card.lifecycle.steps
  failed : card.lifecycle.status = .failed → GrantFailed card.lifecycle.steps
  unreferenced : ∀ row ∈ card.journal, row.status = .pending →
    row.reference = none
  permitted : ∀ permit ∈ permits, permit.serial = card.serial →
    ∀ row ∈ card.journal, row.step = permit.step →
      row.expectedDigest = some permit.expectedDigest ∧
        row.executor = some permit.executor ∧ row.status ≠ .pending

/-- A card later in a run: what was verified stays. -/
structure Later (card card' : TopicCard Effect) : Prop where
  serial : card'.serial = card.serial
  subject : card'.subject = card.subject
  digest : card'.digest = card.digest
  verified : ∀ step receipt, ⟨step, .verified receipt⟩ ∈
    card.lifecycle.steps → ⟨step, .verified receipt⟩ ∈ card'.lifecycle.steps

theorem Later.refl (card : TopicCard Effect) : Later card card :=
  ⟨rfl, rfl, rfl, fun _ _ h => h⟩

theorem Later.trans {card mid card' : TopicCard Effect}
    (hleft : Later card mid) (hright : Later mid card') :
    Later card card' := by
  constructor
  · exact hright.serial.trans hleft.serial
  · exact hright.subject.trans hleft.subject
  · exact hright.digest.trans hleft.digest
  · intro step receipt hmem
    exact hright.verified step receipt (hleft.verified step receipt hmem)

end TopicCard

section Steps

variable {Effect : Type} {permits : List TopicPermit} {card : TopicCard Effect}

theorem TopicAction.steps_nodup (action : TopicAction) :
    action.steps.Nodup := by
  cases action <;> simp [steps]

theorem TopicAction.steps_ne_nil (action : TopicAction) :
    action.steps ≠ [] := by
  cases action <;> exact nofun

theorem forall₂_imp_mem {α β : Type*} {R S : α → β → Prop} {left : List α}
    {right : List β} (h : List.Forall₂ R left right)
    (himp : ∀ a ∈ left, ∀ b ∈ right, R a b → S a b) :
    List.Forall₂ S left right := by
  induction h with
  | nil => exact .nil
  | cons hhead htail ih =>
      constructor
      · exact himp _ List.mem_cons_self _ List.mem_cons_self hhead
      · apply ih
        intro a ha b hb
        exact himp a (List.mem_cons_of_mem _ ha) b (List.mem_cons_of_mem _ hb)

theorem forall₂_partner {α β : Type*} {R : α → β → Prop} {left : List α}
    {right : List β} (h : List.Forall₂ R left right) {b : β}
    (hb : b ∈ right) : ∃ a ∈ left, R a b := by
  induction h with
  | nil => cases hb
  | cons hhead _ ih =>
      rcases List.mem_cons.mp hb with rfl | hrest
      · exact ⟨_, List.mem_cons_self, hhead⟩
      · rcases ih hrest with ⟨a, ha, hab⟩
        exact ⟨a, List.mem_cons_of_mem _ ha, hab⟩

namespace TopicCard.Sound

theorem nodup (h : card.Sound permits) :
    (card.lifecycle.steps.map TopicStepRecord.step).Nodup := by
  rw [h.steps]
  exact card.subject.action.steps_nodup

/-- A step has one record. -/
theorem record_eq (h : card.Sound permits) {record other : TopicStepRecord}
    (hrecord : record ∈ card.lifecycle.steps)
    (hother : other ∈ card.lifecycle.steps) (hstep : record.step = other.step) :
    record = other :=
  List.inj_on_of_nodup_map h.nodup hrecord hother hstep

/-- Changing only what the step's records and rows do not tell. -/
theorem relabel (h : card.Sound permits) {lifecycle : TopicLifecycle}
    (hsteps : lifecycle.steps = card.lifecycle.steps)
    (hstatus : lifecycle.status = card.lifecycle.status ∨
      card.lifecycle.status ≠ .succeeded ∧ lifecycle.status ≠ .succeeded ∧
        lifecycle.status ≠ .failed) (receiptState : ReceiptState)
    (verifyAfter verifyAttempts : ℕ) :
    ({ card with
        lifecycle := lifecycle
        status := lifecycle.status
        receiptState := receiptState
        verifyAfter := verifyAfter
        verifyAttempts := verifyAttempts } :
      TopicCard Effect).Sound permits := by
  constructor
  · rfl
  · rw [hsteps]
    exact h.steps
  · rw [hsteps]
    exact h.agree
  · change lifecycle.status = .succeeded ↔
      card.subject.action.Completed lifecycle.steps
    rw [hsteps, ← h.succeeded]
    rcases hstatus with hsame | ⟨hold, hnew, -⟩
    · rw [hsame]
    · exact ⟨fun hsucceeded => absurd hsucceeded hnew,
        fun hsucceeded => absurd hsucceeded hold⟩
  · intro hfailed
    rcases hstatus with hsame | ⟨-, -, hnew⟩
    · rw [hsteps]
      exact h.failed (hsame ▸ hfailed)
    · exact absurd hfailed hnew
  · exact h.unreferenced
  · exact h.permitted

theorem journal_steps (h : card.Sound permits) :
    card.journal.map TopicStepRow.step =
      card.lifecycle.steps.map TopicStepRecord.step := by
  have hagree := h.agree
  generalize card.lifecycle.steps = records at hagree ⊢
  generalize card.journal = rows at hagree ⊢
  induction hagree with
  | nil => rfl
  | cons hhead _ ih =>
      rw [List.map_cons, List.map_cons, hhead.step, ih]

theorem row_eq (h : card.Sound permits) {row other : TopicStepRow Effect}
    (hrow : row ∈ card.journal) (hother : other ∈ card.journal)
    (hstep : row.step = other.step) : row = other := by
  have hnodup : (card.journal.map TopicStepRow.step).Nodup := by
    rw [h.journal_steps]
    exact h.nodup
  exact List.inj_on_of_nodup_map hnodup hrow hother hstep

/-- Writing one step to both copies. -/
theorem agree_setStep (h : card.Sound permits) {step : TopicStepId}
    {state : TopicStepState}
    {change : TopicStepRow Effect → TopicStepRow Effect}
    (hrow : ∀ record ∈ card.lifecycle.steps, ∀ row ∈ card.journal,
      record.Agrees row → record.step = step →
        TopicStepRecord.Agrees ⟨step, state⟩ (change row)) :
    List.Forall₂ TopicStepRecord.Agrees
      (TopicProposalStore.setStep card.lifecycle.steps step state)
      (KeyedRows.update TopicStepRow.step step change card.journal) := by
  unfold TopicProposalStore.setStep KeyedRows.update
  rw [List.forall₂_map_left_iff, List.forall₂_map_right_iff]
  apply forall₂_imp_mem h.agree
  intro record hrecord row hrow' hagree
  by_cases hstep : record.step = step
  · rw [if_pos hstep, if_pos (hagree.step.symm.trans hstep)]
    exact hrow record hrecord row hrow' hagree hstep
  · rw [if_neg hstep, if_neg fun heq => hstep (hagree.step.trans heq)]
    exact hagree

theorem setStep_steps (steps : List TopicStepRecord) (step : TopicStepId)
    (state : TopicStepState) :
    (TopicProposalStore.setStep steps step state).map TopicStepRecord.step =
      steps.map TopicStepRecord.step := by
  apply KeyedRows.map_update
  intro record _ hstep
  exact hstep.symm

theorem mem_setStep {steps : List TopicStepRecord} {step : TopicStepId}
    (state : TopicStepState)
    (hstep : step ∈ steps.map TopicStepRecord.step) :
    ⟨step, state⟩ ∈ TopicProposalStore.setStep steps step state := by
  rcases List.mem_map.mp hstep with ⟨record, hrecord, rfl⟩
  exact List.mem_map.mpr ⟨record, hrecord, if_pos rfl⟩

theorem mem_setStep_of_ne {steps : List TopicStepRecord}
    {step : TopicStepId} {state : TopicStepState}
    {record : TopicStepRecord} (hrecord : record ∈ steps)
    (hne : record.step ≠ step) :
    record ∈ TopicProposalStore.setStep steps step state :=
  List.mem_map.mpr ⟨record, hrecord, if_neg hne⟩

end TopicCard.Sound

end Steps

namespace TopicProposalStore

variable {Effect : Type}

structure Sound (s : TopicProposalStore Effect) : Prop where
  ids : (s.cards.map TopicCard.id).Nodup
  invocations : (s.cards.map fun card => card.subject.invocationId).Nodup
  serials : (s.cards.map TopicCard.serial).Nodup
  numbered : ∀ card ∈ s.cards, card.serial < s.inserted
  permitsNumbered : ∀ permit ∈ s.permits, permit.serial < s.inserted
  onePermit : ∀ permit ∈ s.permits, ∀ other ∈ s.permits,
    permit.serial = other.serial → permit.step = other.step →
      permit.expectedDigest = other.expectedDigest ∧
        permit.executor = other.executor
  cards : ∀ card ∈ s.cards, card.Sound s.permits

/-- What a card must be for a permit to be given. -/
def Permitted (s : TopicProposalStore Effect) (permit : TopicPermit) : Prop :=
  ∃ card ∈ s.cards, card.serial = permit.serial ∧
    (card.lifecycle.status = .claimed ∨ card.lifecycle.status = .unknown) ∧
    card.lifecycle.claimedAt.isSome = true ∧
    card.lifecycle.executionBlockedAt = none ∧
    (∀ record ∈ card.lifecycle.steps.takeWhile fun record =>
      !decide (record.step = permit.step), record.state.isVerified = true) ∧
    ∃ row ∈ card.journal, row.step = permit.step ∧ row.reference = none ∧
      row.status ≠ .verified

/-- What a method does to the store. -/
structure Advance (now : ℕ) (event : TopicEvent Effect)
    (s s' : TopicProposalStore Effect) : Prop where
  sound : s'.Sound
  inserted : s.inserted ≤ s'.inserted
  later : ∀ card' ∈ s'.cards,
    (∃ card ∈ s.cards, card.Later card' ∧ card.Refers event card') ∨
      s.inserted ≤ card'.serial ∧ card'.Unreferred
  permits : s'.permits = s.permits ∨
    ∃ permit, s'.permits = s.permits ++ [permit] ∧ s.Permitted permit ∧
      s.Begins now event permit

variable {s s' : TopicProposalStore Effect} {now : ℕ}
  {event : TopicEvent Effect} {id : String} {card : TopicCard Effect}
  {change : TopicCard Effect → TopicCard Effect}

theorem Sound.refl (h : s.Sound) : s.Advance now event s :=
  ⟨h, Nat.le_refl _, fun card hcard =>
    .inl ⟨card, hcard, .refl card, refers_journal rfl⟩, .inl rfl⟩

theorem get_eq_some (hget : s.get id = some card) :
    card ∈ s.cards ∧ card.id = id :=
  KeyedRows.get_eq_some hget

/-- Changing the one card with an id. -/
theorem Sound.updateCard (h : s.Sound) (hget : s.get id = some card)
    (hsound : (change card).Sound s.permits)
    (hlater : card.Later (change card))
    (hrefers : card.Refers event (change card)) :
    s.Advance now event (s.updateCard id change) := by
  have honly : ∀ other ∈ s.cards, other.id = id → other = card :=
    fun other hother hid => KeyedRows.eq_of_get h.ids hget hother hid
  have hsame : ∀ {β : Type} (f : TopicCard Effect → β),
      f (change card) = f card →
      (s.updateCard id change).cards.map f = s.cards.map f := by
    intro β f heq
    apply KeyedRows.map_update
    intro other hother hid
    rw [honly other hother hid]
    exact heq
  constructor
  · constructor
    · rw [hsame TopicCard.id (congrArg TopicProposalSubject.id hlater.subject)]
      exact h.ids
    · rw [hsame (fun card => card.subject.invocationId)
        (congrArg TopicProposalSubject.invocationId hlater.subject)]
      exact h.invocations
    · rw [hsame TopicCard.serial hlater.serial]
      exact h.serials
    · intro card' hcard'
      rcases KeyedRows.mem_update hcard' with
        ⟨other, hother, ⟨hid, rfl⟩ | ⟨-, rfl⟩⟩
      · rw [honly other hother hid, hlater.serial]
        exact h.numbered card (get_eq_some hget).1
      · exact h.numbered card' hother
    · exact h.permitsNumbered
    · exact h.onePermit
    · intro card' hcard'
      rcases KeyedRows.mem_update hcard' with
        ⟨other, hother, ⟨hid, rfl⟩ | ⟨-, rfl⟩⟩
      · rw [honly other hother hid]
        exact hsound
      · exact h.cards card' hother
  · exact Nat.le_refl _
  · intro card' hcard'
    rcases KeyedRows.mem_update hcard' with
      ⟨other, hother, ⟨hid, rfl⟩ | ⟨-, rfl⟩⟩
    · rw [honly other hother hid]
      exact .inl ⟨card, (get_eq_some hget).1, hlater, hrefers⟩
    · exact .inl ⟨card', hother, .refl card', refers_journal rfl⟩
  · exact .inl rfl

theorem parse_eq_ok {lifecycle parsed : TopicLifecycle}
    (hparse : lifecycle.parse = .ok parsed) : parsed = lifecycle := by
  unfold TopicLifecycle.parse at hparse
  split_ifs at hparse
  exact (Except.ok.inj hparse).symm

theorem stepEvent_eq_some {steps : List TopicStepRecord}
    (hnodup : (steps.map TopicStepRecord.step).Nodup)
    {record : TopicStepRecord} (hrecord : record ∈ steps) {event : String}
    (hevent : stepEvent steps record.step = some event) :
    ∃ content verifiedAt,
      record.state = .verified (.matrix event content verifiedAt) := by
  unfold stepEvent at hevent
  rcases Option.bind_eq_some_iff.mp hevent with ⟨found, hget, hbind⟩
  have hfound := (KeyedRows.get_eq_some hget).2
  have hsame := KeyedRows.eq_of_get hnodup hget hrecord rfl
  subst hsame
  rcases Option.bind_eq_some_iff.mp hbind with ⟨receipt, hreceipt, hid⟩
  cases hstate : record.state with
  | pending =>
      rw [hstate] at hreceipt
      cases hreceipt
  | started startedAt digest user homeserver =>
      rw [hstate] at hreceipt
      cases hreceipt
  | verified stored =>
      rw [hstate] at hreceipt
      obtain rfl := Option.some.inj hreceipt
      cases stored with
      | matrix eventId content verifiedAt =>
          obtain rfl := Option.some.inj hid
          exact ⟨content, verifiedAt, rfl⟩
      | chain chainId hash height code messageDigest verifiedAt => cases hid

/-- What a verified step makes of a card that creates a topic. -/
theorem finalReceipt_createTopic {roomId topicId : String}
    {steps : List TopicStepRecord} {receipt : VerifiedTopicEffect}
    {final : Option TopicActionReceipt}
    (hsteps : steps.map TopicStepRecord.step =
      (TopicAction.createTopic roomId topicId).steps)
    (hfinal : finalReceipt (.createTopic roomId topicId) steps receipt =
      .ok final) :
    (final = none ∧
        ¬ (TopicAction.createTopic roomId topicId).Completed steps) ∨
      (∃ done, final = some done ∧ isFailure done = false) ∧
        (TopicAction.createTopic roomId topicId).Completed steps := by
  have hnodup : (steps.map TopicStepRecord.step).Nodup := by
    rw [hsteps]
    exact TopicAction.steps_nodup _
  unfold finalReceipt at hfinal
  dsimp only at hfinal
  split_ifs at hfinal with hall
  · split at hfinal
    next root body operation snapshot hroot hbody hoperation hsnapshot =>
      cases hfinal
      refine .inr ⟨⟨_, rfl, rfl⟩, ?_⟩
      intro record hrecord
      have hmem : record.step ∈
          (TopicAction.createTopic roomId topicId).steps := by
        rw [← hsteps]
        exact List.mem_map_of_mem hrecord
      have hevent : ∃ event, stepEvent steps record.step = some event := by
        simp only [TopicAction.steps, List.mem_cons, List.not_mem_nil,
          or_false] at hmem
        rcases hmem with heq | heq | heq | heq
        · exact ⟨root, heq ▸ hroot⟩
        · exact ⟨body, heq ▸ hbody⟩
        · exact ⟨operation, heq ▸ hoperation⟩
        · exact ⟨snapshot, heq ▸ hsnapshot⟩
      rcases hevent with ⟨event, hevent⟩
      rcases stepEvent_eq_some hnodup hrecord hevent with
        ⟨content, verifiedAt, hstate⟩
      exact ⟨_, hstate, trivial⟩
    next => cases hfinal
  · cases hfinal
    refine .inl ⟨rfl, fun hcompleted => hall ?_⟩
    apply List.all_eq_true.mpr
    intro record hrecord
    rcases hcompleted record hrecord with ⟨stored, hstate, -⟩
    rw [hstate]
    rfl

/-- The status a verified step gives its card is the one its steps earn. -/
theorem verifiedLifecycle_eq_ok {action : TopicAction}
    {lifecycle lifecycle' : TopicLifecycle} {step : TopicStepId}
    {receipt : VerifiedTopicEffect}
    (hsteps : lifecycle.steps.map TopicStepRecord.step = action.steps)
    (hstep : step ∈ lifecycle.steps.map TopicStepRecord.step)
    (hverified : verifiedLifecycle action lifecycle step receipt =
      .ok lifecycle') :
    lifecycle'.steps = setStep lifecycle.steps step (.verified receipt) ∧
      (lifecycle'.status = .succeeded ↔ action.Completed lifecycle'.steps) ∧
      (lifecycle'.status = .failed → GrantFailed lifecycle'.steps) := by
  have hset := (TopicCard.Sound.setStep_steps lifecycle.steps step
    (.verified receipt)).trans hsteps
  have hopen : ∀ status : ActionStatus, status = (if
      lifecycle.executionBlockedAt.isSome = true then ActionStatus.revoked
      else .unknown) → status ≠ .succeeded ∧ status ≠ .failed := by
    rintro status rfl
    split <;> exact ⟨nofun, nofun⟩
  unfold verifiedLifecycle at hverified
  dsimp only at hverified
  cases hfinal : finalReceipt action
      (setStep lifecycle.steps step (.verified receipt)) receipt with
  | error error =>
      rw [hfinal] at hverified
      cases hverified
  | ok final =>
      rw [hfinal] at hverified
      cases action with
      | createTopic roomId topicId =>
          rcases finalReceipt_createTopic hset hfinal with
            ⟨rfl, hincomplete⟩ | ⟨⟨done, rfl, hsuccess⟩, hcompleted⟩
          · obtain rfl := parse_eq_ok hverified
            have hstatus := hopen _ rfl
            exact ⟨rfl, ⟨fun heq => absurd heq hstatus.1,
              fun hcomp => absurd hcomp hincomplete⟩,
              fun heq => absurd heq hstatus.2⟩
          · obtain rfl := parse_eq_ok hverified
            rw [hsuccess]
            exact ⟨rfl, ⟨fun _ => hcompleted, fun _ => rfl⟩, nofun⟩
      | grantTopicAccess admin grants =>
          have hgrant : step = .grant := by
            rw [hsteps] at hstep
            exact List.mem_singleton.mp hstep
          have hlist : setStep lifecycle.steps step (.verified receipt) =
              [⟨.grant, .verified receipt⟩] := by
            subst hgrant
            cases hrecords : lifecycle.steps with
            | nil =>
                rw [hrecords] at hsteps
                cases hsteps
            | cons record rest =>
                rw [hrecords] at hsteps
                have hhead : record.step = .grant := (List.cons.inj hsteps).1
                have hrest : rest = [] :=
                  List.map_eq_nil_iff.mp (List.cons.inj hsteps).2
                subst hrest
                simp [setStep, KeyedRows.update, hhead]
          have hsingle : (TopicAction.grantTopicAccess admin grants).Completed
              [⟨.grant, .verified receipt⟩] ↔
                (TopicAction.grantTopicAccess admin grants).Succeeds
                  receipt := by
            simp [TopicAction.Completed]
          rw [hlist] at hverified hfinal ⊢
          cases receipt with
          | matrix eventId content verifiedAt =>
              cases hfinal
              obtain rfl := parse_eq_ok hverified
              have hstatus := hopen _ rfl
              exact ⟨rfl, ⟨fun heq => absurd heq hstatus.1,
                fun hcomp => absurd (hsingle.mp hcomp) id⟩,
                fun heq => absurd heq hstatus.2⟩
          | chain chainId hash height code messageDigest verifiedAt =>
              by_cases hcode : code = 0
              · have hgranted : final = some (.topicAccessGranted hash chainId
                    height verifiedAt) := by
                  rw [finalReceipt, if_pos hcode] at hfinal
                  exact (Except.ok.inj hfinal).symm
                subst hgranted
                obtain rfl := parse_eq_ok hverified
                exact ⟨rfl, ⟨fun _ => hsingle.mpr hcode, fun _ => rfl⟩, nofun⟩
              · have hrefused : final = some (.topicAccessFailed hash chainId
                    height code verifiedAt) := by
                  rw [finalReceipt, if_neg hcode] at hfinal
                  exact (Except.ok.inj hfinal).symm
                subst hrefused
                obtain rfl := parse_eq_ok hverified
                exact ⟨rfl, ⟨nofun, fun hcomp =>
                  absurd (hsingle.mp hcomp) hcode⟩, fun _ => ⟨chainId, hash,
                  height, code, messageDigest, verifiedAt, hcode, rfl⟩⟩

end TopicProposalStore

end QiForge
