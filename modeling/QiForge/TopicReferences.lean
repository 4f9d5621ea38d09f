import QiForge.TopicProposals

/-!
# The references of a topic card's steps

What a method does to the two reference columns of a step: one is recorded
where there is none, one is set aside where it is recorded, and nothing else
touches them.
-/

namespace QiForge

variable {Effect : Type}

/-- What a journal row keeps beside its columns' values. -/
structure TopicStepRow.Held (row : TopicStepRow Effect) : Prop where
  expected : row.status ≠ .pending → row.expected.isSome = true
  step : ∀ reference, row.reference = some reference →
    reference.step = row.step

/-- What an event does to the references of one step. -/
inductive TopicStepRow.Refers (event : TopicEvent Effect) (id : String)
    (row row' : TopicStepRow Effect) : Prop where
  | same (hstep : row'.step = row.step)
      (hreference : row'.reference = row.reference)
      (hopen : row.status ≠ .pending → row'.status ≠ .pending) :
      Refers event id row row'
  | recorded (reference : TopicReference)
      (hevent : event = .recordReference id reference)
      (hstep : reference.step = row.step) (hstarted : row.status ≠ .pending)
      (hnone : row.reference = none)
      (hallowed : row.referenceRejected ≠ some reference)
      (heq : row' = { row with reference := some reference }) :
      Refers event id row row'
  | rejected (reference : TopicReference)
      (hevent : event = .rejectReference id reference)
      (hstep : reference.step = row.step) (hstarted : row.status = .started)
      (hrecorded : row.reference = some reference)
      (heq : row' = { row with
        reference := none
        referenceRejected := some reference }) :
      Refers event id row row'

namespace TopicStepRow.Refers

variable {event : TopicEvent Effect} {id : String}
  {row row' : TopicStepRow Effect}

theorem step (h : Refers event id row row') : row'.step = row.step := by
  cases h with
  | same hstep => exact hstep
  | recorded _ _ _ _ _ _ heq => rw [heq]
  | rejected _ _ _ _ _ heq => rw [heq]

theorem opened (h : Refers event id row row') (hopen : row.status ≠ .pending) :
    row'.status ≠ .pending := by
  cases h with
  | same _ _ hkept => exact hkept hopen
  | recorded _ _ _ _ _ _ heq =>
      rw [heq]
      exact hopen
  | rejected _ _ _ _ _ heq =>
      rw [heq]
      exact hopen

end TopicStepRow.Refers

/-- The journal of a card, row by row. -/
structure TopicCard.Refers (event : TopicEvent Effect)
    (card card' : TopicCard Effect) : Prop where
  rows : List.Forall₂ (TopicStepRow.Refers event card.id) card.journal
    card'.journal
  held : (∀ row ∈ card.journal, row.Held) → ∀ row ∈ card'.journal, row.Held

/-- A card that has no references yet. -/
def TopicCard.Unreferred (card : TopicCard Effect) : Prop :=
  ∀ row ∈ card.journal, row.reference = none ∧ row.Held

namespace TopicProposalStore

/-- An event gives a permit only after the checks of `begin`. -/
def Begins (now : ℕ) (event : TopicEvent Effect)
    (s : TopicProposalStore Effect) (permit : TopicPermit) : Prop :=
  ∃ id input effect card record, event = .begin id input effect ∧
    s.get id = some card ∧ s.checkBegin now card input = .ok record ∧
      ∃ expectedDigest executor,
        permit = ⟨card.serial, input.step, expectedDigest, executor⟩

variable {event : TopicEvent Effect} {card card' : TopicCard Effect}

theorem refers_journal (hjournal : card'.journal = card.journal) :
    card.Refers event card' := by
  refine ⟨?_, ?_⟩
  · rw [hjournal]
    exact List.forall₂_same.mpr fun row _ => .same rfl rfl fun h => h
  · rw [hjournal]
    exact fun h => h

/-- Changing one step of a card. -/
theorem refers_updateStep {step : TopicStepId}
    {change : TopicStepRow Effect → TopicStepRow Effect}
    (hjournal : card'.journal = (updateStep card step change).journal)
    (hrow : ∀ row ∈ card.journal, row.step = step →
      row.Refers event card.id (change row) ∧
        (row.Held → (change row).Held)) : card.Refers event card' := by
  refine ⟨?_, ?_⟩
  · rw [hjournal]
    unfold updateStep KeyedRows.update
    rw [List.forall₂_map_right_iff, List.forall₂_same]
    intro row hmem
    by_cases hstep : row.step = step
    · rw [if_pos hstep]
      exact (hrow row hmem hstep).1
    · rw [if_neg hstep]
      exact .same rfl rfl fun h => h
  · intro hheld row' hrow'
    rw [hjournal] at hrow'
    rcases KeyedRows.mem_update hrow' with
      ⟨row, hmem, ⟨hstep, rfl⟩ | ⟨-, rfl⟩⟩
    · exact (hrow row hmem hstep).2 (hheld row hmem)
    · exact hheld row' hmem

end TopicProposalStore

end QiForge
