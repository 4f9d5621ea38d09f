import QiForge.TopicJournalRuns

/-!
# Recorded and rejected references over whole runs

Beside the store stands the history of the references that were set aside; a
row remembers the last of its step only.  The laws of the references and of
the grant lock hold in every state exactly when no older one is offered again
to a step without a reference.
-/

namespace QiForge

variable {Effect : Type}

/-- `rejected` is a history: a card's number in the store and a reference. -/
structure TopicHistory (Effect : Type) where
  store : TopicProposalStore Effect
  rejected : List (ℕ × TopicReference)

namespace TopicProposalStore

/-- The reference an event sets aside. -/
def setAside (s : TopicProposalStore Effect) :
    TopicEvent Effect → List (ℕ × TopicReference)
  | .rejectReference id reference =>
      match s.get id with
      | none => []
      | some card =>
          match stepRow card reference.step with
          | none => []
          | some row =>
              if row.status = .started ∧ row.reference = some reference then
                [(card.serial, reference)]
              else []
  | _ => []

end TopicProposalStore

namespace TopicHistory

open TopicProposalStore

variable (digestTopicProposal : TopicProposalSubject → String)
  (digestTopicEffect : Effect → String)

def start : TopicHistory Effect where
  store := empty
  rejected := []

def step (s : TopicHistory Effect) (at' : ℕ × TopicEvent Effect) :
    Option (TopicHistory Effect) :=
  (s.store.step digestTopicProposal digestTopicEffect at').map fun store =>
    { store := store
      rejected := s.rejected ++ s.store.setAside at'.2 }

/-- Where a step has no reference, one that was rejected for it is offered
again only when it is the one the row remembers. -/
def Remembered (s : TopicHistory Effect) (at' : ℕ × TopicEvent Effect) :
    Prop :=
  ∀ id reference, at'.2 = .recordReference id reference →
    s.store.clock ≤ at'.1 → ∀ card, s.store.get id = some card →
      ∀ row, stepRow card reference.step = some row →
        row.reference = none → (card.serial, reference) ∈ s.rejected →
          row.referenceRejected = some reference

structure ReferencesKept (s : TopicHistory Effect) : Prop where
  one : ∀ card ∈ s.store.cards, (card.journal.map TopicStepRow.step).Nodup
  neverAgain : ∀ card ∈ s.store.cards, ∀ row ∈ card.journal,
    ∀ reference, row.reference = some reference →
      (card.serial, reference) ∉ s.rejected
  replaced : ∀ at' s',
    s.step digestTopicProposal digestTopicEffect at' = some s' →
    ∀ card ∈ s.store.cards, ∀ card' ∈ s'.store.cards,
      card'.serial = card.serial →
      ∀ row ∈ card.journal, ∀ row' ∈ card'.journal, row'.step = row.step →
        ∀ reference, row.reference = some reference →
          row'.reference = some reference ∨
            at'.2 = .rejectReference card.id reference ∧ row'.reference = none
  locked : ∀ at' s' permit,
    s.step digestTopicProposal digestTopicEffect at' = some s' →
    s'.store.permits = s.store.permits ++ [permit] → permit.step = .grant →
    ∃ card ∈ s.store.cards, card.serial = permit.serial ∧
      ∃ admin grants, card.subject.action = .grantTopicAccess admin grants ∧
        ∀ other ∈ s.store.cards, other.serial ≠ card.serial →
        ∀ otherGrants,
          other.subject.action = .grantTopicAccess admin otherGrants →
          (∃ grant ∈ otherGrants, grant ∈ grants) →
          ∀ row ∈ other.journal, row.step = .grant → row.status = .started →
            (row.reference.isSome = true →
              verifyMaxAttempts ≤ other.verifyAttempts) ∧
            (row.reference = none → ∀ claimedAt,
              other.lifecycle.claimedAt = some claimedAt →
                claimedAt + topicExecutionWindowMs ≤ at'.1)

end TopicHistory

namespace TopicProposalStore

variable {s s' : TopicProposalStore Effect} {card : TopicCard Effect}
  {now : ℕ} {id : String} {input : BeginTopicStep}
  {record : TopicStepRecord}
  {digestTopicProposal : TopicProposalSubject → String}
  {digestTopicEffect : Effect → String}

/-- The lock is one of the checks. -/
theorem concurrentGrant_of_checkBegin
    (hcheck : s.checkBegin now card input = .ok record)
    (hgrant : input.step = .grant) : s.concurrentGrant now card = none := by
  unfold checkBegin at hcheck
  cases hclaimed : card.lifecycle.claimedAt with
  | none =>
      simp only [hclaimed] at hcheck
      split_ifs at hcheck
  | some claimedAt =>
      cases hget : KeyedRows.get TopicStepRecord.step input.step
          card.lifecycle.steps with
      | none =>
          simp only [hclaimed, hget] at hcheck
          split_ifs at hcheck
      | some found =>
          simp only [hclaimed, hget, if_pos hgrant] at hcheck
          split_ifs at hcheck
          split at hcheck
          next => cases hcheck
          next hnone => exact hnone

theorem holdsGrant_eq_false {other : TopicCard Effect}
    (hholds : holdsGrant now other = false) {row : TopicStepRow Effect}
    (hrow : stepRow other .grant = some row) (hstarted : row.status = .started) :
    (row.reference.isSome = true → verifyMaxAttempts ≤ other.verifyAttempts) ∧
      (row.reference = none → ∀ claimedAt,
        other.lifecycle.claimedAt = some claimedAt →
          claimedAt + topicExecutionWindowMs ≤ now) := by
  unfold holdsGrant at hholds
  rw [hrow, Option.any_some, hstarted,
    decide_eq_true (rfl : TopicStepStatus.started = .started),
    Bool.true_and] at hholds
  constructor
  · intro hsome
    rw [if_pos hsome, decide_eq_false_iff_not, not_lt] at hholds
    exact hholds
  · intro hnone claimedAt hclaimed
    rw [hnone, if_neg (by simp), hclaimed, Option.any_some,
      decide_eq_false_iff_not, not_lt] at hholds
    exact hholds

/-- No card with one of the same grants is in progress. -/
theorem concurrentGrant_eq_none
    (hnone : s.concurrentGrant now card = none) {admin : String}
    {grants otherGrants : List TopicGrant}
    (haction : card.subject.action = .grantTopicAccess admin grants)
    {other : TopicCard Effect} (hother : other ∈ s.cards)
    (hid : other.id ≠ card.id)
    (hotherAction : other.subject.action = .grantTopicAccess admin otherGrants)
    (hshared : ∃ grant ∈ otherGrants, grant ∈ grants) :
    holdsGrant now other = false := by
  unfold concurrentGrant at hnone
  rw [haction] at hnone
  have hskipped := List.find?_eq_none.mp hnone other hother
  rcases hshared with ⟨grant, hgrant, hin⟩
  have hany : otherGrants.any (fun grant => decide (grant ∈ grants)) =
      true := List.any_eq_true.mpr ⟨grant, hgrant, decide_eq_true hin⟩
  rw [hotherAction] at hskipped
  dsimp only at hskipped
  rw [hany, decide_eq_false (show other.subject.id ≠ card.subject.id from
    hid)] at hskipped
  simpa using hskipped

/-- What an event sets aside is gone after it. -/
theorem Sound.setAside_cleared (h : s.Sound) {event : TopicEvent Effect}
    (hstep : s.step digestTopicProposal digestTopicEffect (now, event) =
      some s') {entry : ℕ × TopicReference}
    (hentry : entry ∈ s.setAside event) :
    ∃ card ∈ s.cards, card.serial = entry.1 ∧
      (∃ row ∈ card.journal, row.step = entry.2.step ∧ row.status = .started) ∧
      ∀ card' ∈ s'.cards, card'.serial = entry.1 →
        ∀ row' ∈ card'.journal, row'.step = entry.2.step →
          row'.reference = none := by
  cases event with
  | rejectReference id reference =>
      unfold setAside at hentry
      rcases Option.ite_none_left_eq_some.mp hstep with ⟨-, hevent⟩
      have heq := Option.some.inj hevent
      cases hget : s.get id with
      | none =>
          simp only [hget] at hentry
          cases hentry
      | some card =>
          cases hrow : stepRow card reference.step with
          | none =>
              simp only [hget, hrow] at hentry
              cases hentry
          | some row =>
              simp only [hget, hrow] at hentry
              split_ifs at hentry with hrecorded
              · obtain rfl := List.mem_singleton.mp hentry
                have hmem := (get_eq_some hget).1
                rcases KeyedRows.get_eq_some hrow with ⟨hjournal, hkey⟩
                refine ⟨card, hmem, rfl,
                  ⟨row, hjournal, hkey, hrecorded.1⟩, ?_⟩
                intro card' hcard' hserial row' hrow' hstep'
                have hget' : ({ s with clock := now } :
                    TopicProposalStore Effect).get id = some card := hget
                rw [← heq] at hcard'
                dsimp only at hcard'
                unfold TopicProposalStore.rejectReference at hcard'
                simp only [hget', hrow, if_pos hrecorded] at hcard'
                rcases KeyedRows.mem_update hcard' with
                  ⟨other, hother, ⟨hid, rfl⟩ | ⟨hid, rfl⟩⟩
                · rcases KeyedRows.mem_update hrow' with
                    ⟨old, -, ⟨-, rfl⟩ | ⟨hne, rfl⟩⟩
                  · rfl
                  · exact absurd hstep' hne
                · obtain rfl : card' = card :=
                    List.inj_on_of_nodup_map h.serials hother hmem hserial
                  exact absurd (get_eq_some hget).2 hid
              · cases hentry
  | _ => cases hentry

end TopicProposalStore

namespace TopicHistory

open TopicProposalStore

variable {digestTopicProposal : TopicProposalSubject → String}
  {digestTopicEffect : Effect → String} {s s' : TopicHistory Effect}
  {at' : ℕ × TopicEvent Effect}

/-- What holds of every state in which no rejected reference came back. -/
structure Sound (s : TopicHistory Effect) : Prop where
  store : s.store.Sound
  held : ∀ card ∈ s.store.cards, ∀ row ∈ card.journal, row.Held
  below : ∀ entry ∈ s.rejected, entry.1 < s.store.inserted
  started : ∀ entry ∈ s.rejected, ∀ card ∈ s.store.cards,
    card.serial = entry.1 → ∀ row ∈ card.journal,
      row.step = entry.2.step → row.status ≠ .pending
  neverAgain : ∀ card ∈ s.store.cards, ∀ row ∈ card.journal,
    ∀ reference, row.reference = some reference →
      (card.serial, reference) ∉ s.rejected

theorem sound_start : (start : TopicHistory Effect).Sound :=
  ⟨sound_empty, fun _ hcard => absurd hcard List.not_mem_nil,
    fun _ hentry => absurd hentry List.not_mem_nil,
    fun _ hentry => absurd hentry List.not_mem_nil,
    fun _ hcard => absurd hcard List.not_mem_nil⟩

theorem step_eq_some
    (hstep : s.step digestTopicProposal digestTopicEffect at' = some s') :
    s.store.step digestTopicProposal digestTopicEffect at' = some s'.store ∧
      s'.rejected = s.rejected ++ s.store.setAside at'.2 := by
  rcases Option.map_eq_some_iff.mp hstep with ⟨store, hstore, rfl⟩
  exact ⟨hstore, rfl⟩

theorem Sound.step (h : s.Sound) (hremembered : s.Remembered at')
    (hstep : s.step digestTopicProposal digestTopicEffect at' = some s') :
    s'.Sound := by
  rcases step_eq_some hstep with ⟨hstore, hrejected⟩
  rcases at' with ⟨now, event⟩
  have hadvance := h.store.step hstore
  have hlater : s.store.clock ≤ now :=
    not_lt.mp (Option.ite_none_left_eq_some.mp hstore).1
  have hheld : ∀ card' ∈ s'.store.cards, ∀ row' ∈ card'.journal,
      row'.Held := by
    intro card' hcard' row' hrow'
    rcases hadvance.later card' hcard' with
      ⟨card, hcard, -, hmove⟩ | ⟨-, hnew⟩
    · exact hmove.held (h.held card hcard) row' hrow'
    · exact (hnew row' hrow').2
  refine ⟨hadvance.sound, hheld, ?_, ?_, ?_⟩
  · intro entry hentry
    rw [hrejected] at hentry
    rcases List.mem_append.mp hentry with hold | hnew
    · exact (h.below entry hold).trans_le hadvance.inserted
    · rcases h.store.setAside_cleared hstore hnew with
        ⟨card, hcard, hserial, -⟩
      rw [← hserial]
      exact (h.store.numbered card hcard).trans_le hadvance.inserted
  · intro entry hentry card' hcard' hserial row' hrow' hstep'
    rw [hrejected] at hentry
    have hbelow : entry.1 < s.store.inserted := by
      rcases List.mem_append.mp hentry with hold | hnew
      · exact h.below entry hold
      · rcases h.store.setAside_cleared hstore hnew with
          ⟨card, hcard, heq, -⟩
        rw [← heq]
        exact h.store.numbered card hcard
    rcases hadvance.later card' hcard' with
      ⟨card, hcard, hlaterCard, hmove⟩ | ⟨hnumber, -⟩
    swap
    · omega
    rcases forall₂_partner hmove.rows hrow' with ⟨row, hrow, hrowMove⟩
    have hserialCard : card.serial = entry.1 :=
      hlaterCard.serial.symm.trans hserial
    have hstepRow : row.step = entry.2.step := hrowMove.step.symm.trans hstep'
    apply hrowMove.opened
    rcases List.mem_append.mp hentry with hold | hnew
    · exact h.started entry hold card hcard hserialCard row hrow hstepRow
    · rcases h.store.setAside_cleared hstore hnew with
        ⟨other, hother, heq, ⟨first, hfirst, hfirstStep, hstarted⟩, -⟩
      obtain rfl : other = card := List.inj_on_of_nodup_map h.store.serials
        hother hcard (heq.trans hserialCard.symm)
      rw [(h.store.cards other hother).row_eq hrow hfirst
        (hstepRow.trans hfirstStep.symm), hstarted]
      nofun
  · intro card' hcard' row' hrow' reference hreference hentry
    have hstepRow' := (hheld card' hcard' row' hrow').step reference hreference
    rw [hrejected] at hentry
    rcases List.mem_append.mp hentry with hold | hnew
    · rcases hadvance.later card' hcard' with
        ⟨card, hcard, hlaterCard, hmove⟩ | ⟨-, hunreferred⟩
      swap
      · rw [(hunreferred row' hrow').1] at hreference
        cases hreference
      rw [hlaterCard.serial] at hold
      rcases forall₂_partner hmove.rows hrow' with ⟨row, hrow, hrowMove⟩
      cases hrowMove with
      | same hstep' hsame =>
          exact h.neverAgain card hcard row hrow reference
            (hsame.symm.trans hreference) hold
      | recorded recorded hevent hstep' hstarted hnone hallowed heq =>
          rw [heq] at hreference
          obtain rfl := Option.some.inj hreference
          have hget := KeyedRows.get_of_mem h.store.ids hcard
          have hfound : stepRow card recorded.step = some row := by
            rw [hstep']
            exact KeyedRows.get_of_mem ((h.store.cards card
              hcard).journal_steps ▸ (h.store.cards card hcard).nodup) hrow
          exact hallowed (hremembered card.id recorded hevent hlater card
            hget row hfound hnone hold)
      | rejected _ _ _ _ _ heq =>
          rw [heq] at hreference
          cases hreference
    · rcases h.store.setAside_cleared hstore hnew with
        ⟨-, -, -, -, hcleared⟩
      rw [hcleared card' hcard' rfl row' hrow' hstepRow'.symm] at hreference
      cases hreference

/-- A recorded reference goes only when it is rejected. -/
theorem Sound.replaced (h : s.Sound)
    (hstep : s.step digestTopicProposal digestTopicEffect at' = some s')
    {card card' : TopicCard Effect} (hcard : card ∈ s.store.cards)
    (hcard' : card' ∈ s'.store.cards) (hserial : card'.serial = card.serial)
    {row row' : TopicStepRow Effect} (hrow : row ∈ card.journal)
    (hrow' : row' ∈ card'.journal) (hstepRow : row'.step = row.step)
    {reference : TopicReference} (hreference : row.reference = some reference) :
    row'.reference = some reference ∨
      at'.2 = .rejectReference card.id reference ∧ row'.reference = none := by
  rcases step_eq_some hstep with ⟨hstore, -⟩
  rcases (h.store.step hstore).later card' hcard' with
    ⟨other, hother, hlater, hmove⟩ | ⟨hnumber, -⟩
  swap
  · have hbelow := h.store.numbered card hcard
    omega
  obtain rfl : other = card := List.inj_on_of_nodup_map h.store.serials hother
    hcard (hlater.serial.symm.trans hserial)
  rcases forall₂_partner hmove.rows hrow' with ⟨old, hold, hrowMove⟩
  obtain rfl : old = row := (h.store.cards other hother).row_eq hold hrow
    (hrowMove.step.symm.trans hstepRow)
  cases hrowMove with
  | same _ hsame => exact .inl (hsame.trans hreference)
  | recorded recorded _ _ _ hnone =>
      rw [hreference] at hnone
      cases hnone
  | rejected rejected hevent _ _ hrecorded heq =>
      obtain rfl : rejected = reference :=
        Option.some.inj (hrecorded.symm.trans hreference)
      exact .inr ⟨hevent, by rw [heq]⟩

theorem Sound.referencesKept (h : s.Sound) :
    s.ReferencesKept digestTopicProposal digestTopicEffect := by
  constructor
  case one =>
    exact fun card hcard => (h.store.cards card hcard).journal_steps ▸
      (h.store.cards card hcard).nodup
  case neverAgain => exact h.neverAgain
  case replaced =>
    intro at' s' hstep card hcard card' hcard' hserial row hrow row' hrow'
      hstepRow reference hreference
    exact h.replaced hstep hcard hcard' hserial hrow hrow' hstepRow hreference
  case locked =>
    -- a grant is permitted when no other one is in progress
    intro at' s' permit hstep hpermits hgrant
    rcases step_eq_some hstep with ⟨hstore, -⟩
    rcases (h.store.step hstore).permits with
      hsame | ⟨given, hgiven, -, id, input, effect, card, record, -, hget, hcheck,
        expectedDigest, executor, rfl⟩
    · have hlength := congrArg List.length (hsame.symm.trans hpermits)
      simp at hlength
    have hpermit : permit =
        ⟨card.serial, input.step, expectedDigest, executor⟩ := by
      have heq := hpermits.symm.trans hgiven
      exact List.singleton_inj.mp (List.append_cancel_left heq)
    subst hpermit
    have hmem := (get_eq_some hget).1
    have hcard := h.store.cards card hmem
    rcases checkBegin_eq_ok hcheck with ⟨-, -, -, hrecord, hrecordStep, -⟩
    have hlock := concurrentGrant_of_checkBegin hcheck hgrant
    have hgrantStep : TopicStepId.grant ∈ card.subject.action.steps := by
      rw [← hcard.steps, ← hgrant, ← hrecordStep]
      exact List.mem_map_of_mem hrecord
    cases haction : card.subject.action with
    | createTopic roomId topicId =>
        rw [haction] at hgrantStep
        simp [TopicAction.steps] at hgrantStep
    | grantTopicAccess admin grants =>
        refine ⟨card, hmem, rfl, admin, grants, haction, ?_⟩
        intro other hother hserial otherGrants hotherAction hshared row hrow
          hrowStep hstarted
        have hid : other.id ≠ card.id := fun hid => hserial (congrArg
          TopicCard.serial (KeyedRows.eq_of_get h.store.ids hget
            hother (hid.trans (get_eq_some hget).2)))
        have hotherSound := h.store.cards other hother
        have hfound : stepRow other .grant = some row := by
          rw [← hrowStep]
          exact KeyedRows.get_of_mem
            (hotherSound.journal_steps ▸ hotherSound.nodup) hrow
        exact holdsGrant_eq_false (concurrentGrant_eq_none hlock haction hother
          hid hotherAction hshared) hfound hstarted

/-- An older rejected reference is recorded once more. -/
theorem Sound.recorded_again (h : s.Sound) (hnot : ¬ s.Remembered at') :
    ∃ s', s.step digestTopicProposal digestTopicEffect at' = some s' ∧
      ¬ s'.ReferencesKept digestTopicProposal digestTopicEffect := by
  unfold Remembered at hnot
  push Not at hnot
  rcases hnot with ⟨id, reference, hevent, hlater, card, hget, row, hrow,
    hnone, hrejected, hforgotten⟩
  rcases at' with ⟨now, event⟩
  obtain rfl : event = .recordReference id reference := hevent
  have hmem := (get_eq_some hget).1
  rcases KeyedRows.get_eq_some hrow with ⟨hjournal, hkey⟩
  have hstarted : row.status ≠ .pending :=
    h.started _ hrejected card hmem rfl row hjournal hkey
  have hexpected := (h.held card hmem row hjournal).expected hstarted
  have hget' : ({ s.store with clock := now } :
      TopicProposalStore Effect).get id = some card := hget
  have hrecord : ({ s.store with clock := now } :
      TopicProposalStore Effect).recordReference now id reference =
        .ok (({ s.store with clock := now } :
          TopicProposalStore Effect).updateCard id fun card =>
            { updateStep card reference.step fun row =>
                { row with reference := some reference } with
              verifyAfter := now
              verifyAttempts := 0 }) := by
    unfold TopicProposalStore.recordReference
    rw [hget']
    dsimp only
    rw [hrow]
    dsimp only
    rw [if_neg, hnone]
    · dsimp only
      rw [if_neg hforgotten]
    · rintro (hpending | hmissing)
      · exact hstarted hpending
      · rw [Option.isNone_iff_eq_none.mp hmissing] at hexpected
        cases hexpected
  have hstore : ∃ store, s.store.step digestTopicProposal digestTopicEffect
        (now, .recordReference id reference) = some store ∧
      store.cards = KeyedRows.update TopicCard.id id (fun card =>
        { updateStep card reference.step fun row =>
            { row with reference := some reference } with
          verifyAfter := now
          verifyAttempts := 0 }) s.store.cards := by
    unfold TopicProposalStore.step
    rw [if_neg (not_lt.mpr hlater)]
    dsimp only
    rw [hrecord]
    exact ⟨_, rfl, rfl⟩
  rcases hstore with ⟨store, hstore, hcards⟩
  refine ⟨⟨store, s.rejected ++ s.store.setAside _⟩,
    Option.map_eq_some_iff.mpr ⟨store, hstore, rfl⟩, fun hkept => ?_⟩
  have hrecorded : { updateStep card reference.step fun row =>
        { row with reference := some reference } with
      verifyAfter := now
      verifyAttempts := 0 } ∈ store.cards := by
    rw [hcards]
    exact List.mem_map.mpr ⟨card, hmem, if_pos (get_eq_some hget).2⟩
  exact hkept.neverAgain _ hrecorded { row with reference := some reference }
    (List.mem_map.mpr ⟨row, hjournal, if_pos hkey⟩) reference rfl
    (List.mem_append_left _ hrejected)

/-- The laws of the references and of the grant lock. -/
theorem topic_references (digestTopicProposal : TopicProposalSubject → String)
    (digestTopicEffect : Effect → String)
    (events : List (ℕ × TopicEvent Effect)) :
    (∀ front back s, events = front ++ back →
      Transition.run (step digestTopicProposal digestTopicEffect) start
        front = some s →
      s.ReferencesKept digestTopicProposal digestTopicEffect) ↔
    Transition.Meets (step digestTopicProposal digestTopicEffect) Remembered
      start events :=
  Transition.forall_states_iff_meets
    (fun _ _ _ hs hcond hstep => hs.step hcond hstep)
    (fun _ hs => hs.referencesKept)
    (fun _ _ hs hnot => hs.recorded_again hnot) sound_start

/-- Two references of one step are rejected in turn, and the first of them is
recorded again. -/
def rejectedTwice : List (ℕ × TopicEvent String) :=
  [(1, .create (accessCard "tp_1" "call-1") true),
    (2, .transition "tp_1" .claim "tp_1"),
    (3, .begin "tp_1" ⟨"tp_1", .grant, phone⟩ "grant"),
    (4, .recordReference "tp_1" (.chain "first")),
    (5, .rejectReference "tp_1" (.chain "first")),
    (6, .recordReference "tp_1" (.chain "second")),
    (7, .rejectReference "tp_1" (.chain "second")),
    (8, .recordReference "tp_1" (.chain "first"))]

theorem topic_references_rejectedTwice :
    ∃ s ∈ Transition.run (step TopicProposalSubject.id fun effect : String =>
        effect) start rejectedTwice,
      ∃ card ∈ s.store.cards, ∃ row ∈ card.journal,
        row.reference = some (.chain "first") ∧
        (card.serial, .chain "first") ∈ s.rejected := by
  decide +kernel

end TopicHistory

end QiForge
