import QiForge.VerificationAlarm

/-!
# The alarm looks at a hash finitely often

The rest of a card bounds how often the alarm may still call
`refreshActionProposal` for it: its weight, and one more when what the alarm
asked for is late or gone.
-/

namespace QiForge

namespace AlarmState

open ActionProposalStore ProposalRow

/-- The alarm has still to look at the card. -/
def Waits (s : AlarmState) (row : ProposalRow) : Prop :=
  row.id ∈ s.asked.map ReadProposal.id

instance (s : AlarmState) (row : ProposalRow) : Decidable (s.Waits row) :=
  inferInstanceAs (Decidable (_ ∈ _))

def restOf (s : AlarmState) (row : ProposalRow) : ℕ :=
  if row.Tracked then
    row.weight s.store + if s.Waits row then row.late s.store.clock else 0
  else if s.Waits row then 1
  else 0

def rest (s : AlarmState) (serial : ℕ) : ℕ :=
  ((KeyedRows.get ProposalRow.serial serial s.store.rows).map s.restOf).getD 0

variable {digestActionProposal : ActionProposalSubject → String}
  {s s' : AlarmState} {at' : ℕ × AlarmEvent} {row row' : ProposalRow}
  {serial : ℕ}

theorem Tidy.get_serial (h : s.Tidy) (hrow : row ∈ s.store.rows) :
    KeyedRows.get ProposalRow.serial row.serial s.store.rows = some row :=
  KeyedRows.get_of_mem h.sound.serials hrow

theorem Tidy.rest_eq (h : s.Tidy) (hrow : row ∈ s.store.rows) :
    s.rest row.serial = s.restOf row := by
  unfold rest
  rw [h.get_serial hrow]
  rfl

theorem rest_absent (h : ∀ row ∈ s.store.rows, row.serial ≠ serial) :
    s.rest serial = 0 := by
  unfold rest
  cases hget : KeyedRows.get ProposalRow.serial serial s.store.rows with
  | none => rfl
  | some row =>
      rcases KeyedRows.get_eq_some hget with ⟨hrow, hserial⟩
      exact absurd hserial (h row hrow)

theorem late_le_one (row : ProposalRow) (clock : ℕ) : row.late clock ≤ 1 := by
  unfold late
  split <;> decide

/-- A card that is not late has an attempt left. -/
theorem weight_of_not_late {store : ActionProposalStore} {clock : ℕ}
    (hlate : row.late clock = 0) : 2 ≤ row.weight store := by
  unfold late at hlate
  split at hlate
  next hdue =>
    unfold weight
    omega
  next => cases hlate

theorem restOf_pos (h : s.Waits row) : 1 ≤ s.restOf row := by
  unfold restOf
  rw [if_pos h]
  split
  · by_cases hlate : row.late s.store.clock = 0
    · have hweight := @weight_of_not_late row s.store _ hlate
      omega
    · omega
  · exact Nat.le_refl 1

theorem restOf_late_le (hspends : row.Spends row' s.store s'.store) :
    row'.weight s'.store + row'.late s'.store.clock ≤
      row.weight s.store + row.late s.store.clock := by
  have hlate := late_le_one row' s'.store.clock
  rcases hspends with ⟨hweight, hmono, -⟩ | htwo | ⟨hone, hmono⟩ <;> omega

theorem weight_le (hspends : row.Spends row' s.store s'.store) :
    row'.weight s'.store ≤ row.weight s.store := by
  rcases hspends with ⟨hweight, -⟩ | htwo | ⟨hone, -⟩ <;> omega

/-- A step after which the alarm waits for no card it did not wait for. -/
theorem restOf_le (hwaits : s'.Waits row' ↔ s.Waits row)
    (hspends : row'.Tracked → row.Tracked ∧ row.Spends row' s.store s'.store) :
    s'.restOf row' ≤ s.restOf row := by
  by_cases htracked : row'.Tracked
  · rcases hspends htracked with ⟨hbefore, hspends⟩
    unfold restOf
    rw [if_pos htracked, if_pos hbefore]
    by_cases hwait : s.Waits row
    · rw [if_pos hwait, if_pos (hwaits.mpr hwait)]
      exact restOf_late_le hspends
    · rw [if_neg hwait, if_neg (mt hwaits.mp hwait)]
      exact weight_le hspends
  · by_cases hwait : s.Waits row
    · have hpos := restOf_pos hwait
      unfold restOf at hpos ⊢
      rw [if_neg htracked, if_pos (hwaits.mpr hwait)]
      exact hpos
    · unfold restOf
      rw [if_neg htracked, if_neg (mt hwaits.mp hwait)]
      exact Nat.zero_le _

theorem Tidy.spends (h : s.Tidy)
    (hsame : SameHash digestActionProposal serial s at')
    (hstep : s.step digestActionProposal at' = some s')
    (hrow : row ∈ s.store.rows) (hrow' : row' ∈ s'.store.rows)
    (hserial : row.serial = serial) (hserial' : row'.serial = serial)
    (htracked : row'.Tracked) :
    row.Tracked ∧ row.Spends row' s.store s'.store :=
  (h.turned hstep).spends h.sound hrow hrow'
    (hserial'.trans hserial.symm) htracked
    (hsame s' hstep row hrow row' hrow' hserial hserial' htracked)

theorem Tidy.ident (h : s.Tidy)
    (hstep : s.step digestActionProposal at' = some s')
    (hrow : row ∈ s.store.rows) (hrow' : row' ∈ s'.store.rows)
    (hserial : row'.serial = row.serial) : row'.id = row.id :=
  ((h.turned hstep).move h.sound hrow hrow' hserial).ident

/-- Asking leaves the cards. -/
theorem rows_ask {now limit : ℕ}
    (hstep : s.step digestActionProposal (now, .ask limit) = some s') :
    s'.store.rows = s.store.rows ∧ s'.store.clock = now := by
  have hstore := (step_eq_some hstep).2.1
  rcases Option.ite_none_left_eq_some.mp hstore with ⟨-, hevent⟩
  have heq := Option.some.inj hevent
  rw [← heq]
  refine ⟨rows_noteAll _ _, ?_⟩
  have hclock : ∀ (ids : List String) (t : ActionProposalStore),
      (ids.foldl noteRead t).clock = t.clock := by
    intro ids
    induction ids with
    | nil => exact fun t => rfl
    | cons id ids ih =>
        intro t
        rw [List.foldl_cons, ih]
        unfold noteRead
        split <;> rfl
  exact hclock _ _

/-- What the alarm asks for is due. -/
theorem Tidy.restOf_ask (h : s.Tidy) {now limit : ℕ}
    (hsame : SameHash digestActionProposal serial s (now, .ask limit))
    (hstep : s.step digestActionProposal (now, .ask limit) = some s')
    (hrow : row ∈ s.store.rows) (hrow' : row' ∈ s'.store.rows)
    (hserial : row.serial = serial) (hserial' : row'.serial = serial) :
    s'.restOf row' ≤ s.restOf row := by
  rcases rows_ask hstep with ⟨hrows, hclock⟩
  rw [hrows] at hrow'
  obtain rfl : row' = row := List.inj_on_of_nodup_map h.sound.serials hrow'
    hrow (hserial'.trans hserial.symm)
  by_cases hwaits : s'.Waits row'
  · have hasked := (step_eq_some hstep).2.2.1
    unfold Waits at hwaits
    rw [hasked] at hwaits
    rcases List.mem_map.mp hwaits with ⟨proposal, hproposal, hid⟩
    rcases List.mem_map.mp hproposal with ⟨due, hdue, rfl⟩
    rcases mem_dueVerifications hdue with ⟨hmem, hscheduled, hafter⟩
    obtain rfl : due = row' :=
      List.inj_on_of_nodup_map h.sound.ids hmem hrow hid
    have hspends := (h.spends hsame hstep hrow (hrows ▸ hrow) hserial hserial'
      hscheduled.1).2
    have hlate : due.late s'.store.clock = 0 := by
      unfold late
      rw [hclock, if_pos ⟨hafter, hscheduled.2⟩]
    have hweight := weight_le hspends
    unfold restOf
    rw [if_pos hscheduled.1, if_pos hscheduled.1, hlate]
    split <;> omega
  · have hbefore : ¬ s.Waits row' := by
      have hready : s.asked = [] := (step_eq_some hstep).1
      unfold Waits
      rw [hready]
      exact List.not_mem_nil
    exact restOf_le ⟨fun h => absurd h hwaits, fun h => absurd h hbefore⟩
      fun htracked => h.spends hsame hstep hrow (hrows ▸ hrow) hserial
        hserial' htracked

/-- The alarm looks at the card. -/
theorem Orderly.restOf_look (h : s.Orderly) {now : ℕ} {proposal : ReadProposal}
    (hsame : SameHash digestActionProposal serial s (now, .look proposal))
    (hstep : s.step digestActionProposal (now, .look proposal) = some s')
    (hrow : row ∈ s.store.rows) (hrow' : row' ∈ s'.store.rows)
    (hserial : row.serial = serial) (hserial' : row'.serial = serial)
    (hid : proposal.id = row.id) : s'.restOf row' + 1 ≤ s.restOf row := by
  rcases step_eq_some hstep with ⟨hready, hstore, hasked, -⟩
  have hproposal : proposal ∈ s.asked := hready
  have hwaits : s.Waits row := List.mem_map.mpr ⟨proposal, hproposal, hid⟩
  have hdone : ¬ s'.Waits row' := by
    have hrowId := h.tidy.ident hstep hrow hrow' (hserial'.trans hserial.symm)
    unfold Waits
    rw [hasked, hrowId, ← hid]
    exact KeyedRows.key_not_mem_erase h.tidy.asked hproposal
  by_cases htracked : row'.Tracked
  · rcases h.tidy.spends hsame hstep hrow hrow' hserial hserial' htracked
      with ⟨hbefore, hspends⟩
    unfold restOf
    rw [if_pos htracked, if_pos hbefore, if_neg hdone, if_pos hwaits]
    rcases hspends with ⟨hweight, -, hkept⟩ | htwo | ⟨hone, -⟩
    · by_cases hlate : row.late s.store.clock = 0
      · -- a card that is due is claimed
        unfold late at hlate
        split at hlate
        next hdue =>
          rcases h.asked proposal hproposal with ⟨claimedAt, hash, hlife⟩
          have hcalls : (ProposalEvent.refresh proposal).Calls row.id :=
            ⟨hid, claimedAt, hash, hlife⟩
          have hgranted := claimVerification_granted hrow
            (hdue.1.trans (h.tidy.turned hstep).later)
          have hlooked := (h.tidy.sound.lookedUp_of_calls hcalls hgranted
            hstore hrow hrow' (hserial'.trans hserial.symm)).1
          have hattempts := (hkept ⟨hbefore, hdue.2⟩).2
          rw [hlooked] at hattempts
          exact absurd hattempts (Nat.succ_ne_self _)
        next => cases hlate
      · omega
    · omega
    · omega
  · have hpos := restOf_pos hwaits
    have hzero : s'.restOf row' = 0 := by
      unfold restOf
      rw [if_neg htracked, if_neg hdone]
    omega

theorem Tidy.rest_le (h : s.Tidy)
    (hstep : s.step digestActionProposal at' = some s')
    (hnumbered : serial < s.store.inserted)
    (hrows : ∀ row ∈ s.store.rows, ∀ row' ∈ s'.store.rows,
      row.serial = serial → row'.serial = serial →
      s'.restOf row' ≤ s.restOf row) : s'.rest serial ≤ s.rest serial := by
  by_cases hpresent : ∃ row' ∈ s'.store.rows, row'.serial = serial
  · rcases hpresent with ⟨row', hrow', hserial'⟩
    rcases h.earlier hnumbered hstep hrow' hserial' with
      ⟨row, hrow, hserial⟩
    have hle := hrows row hrow row' hrow' hserial hserial'
    calc s'.rest serial = s'.restOf row' :=
        hserial' ▸ (h.step hstep).rest_eq hrow'
      _ ≤ s.restOf row := hle
      _ = s.rest serial := hserial ▸ (h.rest_eq hrow).symm
  · rw [rest_absent fun row' hrow' hserial' =>
      hpresent ⟨row', hrow', hserial'⟩]
    exact Nat.zero_le _

/-- A look at another card. -/
theorem Tidy.restOf_other (h : s.Tidy) {now : ℕ} {proposal : ReadProposal}
    (hsame : SameHash digestActionProposal serial s (now, .look proposal))
    (hstep : s.step digestActionProposal (now, .look proposal) = some s')
    (hrow : row ∈ s.store.rows) (hrow' : row' ∈ s'.store.rows)
    (hserial : row.serial = serial) (hserial' : row'.serial = serial)
    (hother : proposal.id ≠ row.id) : s'.restOf row' ≤ s.restOf row := by
  have hid := h.ident hstep hrow hrow' (hserial'.trans hserial.symm)
  apply restOf_le
  · unfold Waits
    rw [hid, (step_eq_some hstep).2.2.1]
    constructor
    · intro hmem
      exact (List.erase_sublist.map _).subset hmem
    · intro hmem
      rcases List.mem_map.mp hmem with ⟨waiting, hwaiting, heq⟩
      have hne : waiting ≠ proposal := fun heq' => hother (heq' ▸ heq)
      exact List.mem_map.mpr
        ⟨waiting, (List.mem_erase_of_ne hne).mpr hwaiting, heq⟩
  · exact fun htracked => h.spends hsame hstep hrow hrow' hserial hserial'
      htracked

/-- Each look at the card lowers the rest, and nothing raises it. -/
theorem Orderly.looks_step (h : s.Orderly)
    (hnumbered : serial < s.store.inserted)
    (hsame : SameHash digestActionProposal serial s at')
    (hstep : s.step digestActionProposal at' = some s') :
    s'.looks.count serial + s'.rest serial ≤
      s.looks.count serial + s.rest serial := by
  have hlooks := (step_eq_some hstep).2.2.2
  rcases at' with ⟨now, event⟩
  cases event with
  | store event =>
      rw [show s'.looks = s.looks from hlooks]
      apply Nat.add_le_add_left
      apply h.tidy.rest_le hstep hnumbered
      intro row hrow row' hrow' hserial hserial'
      have hid := h.tidy.ident hstep hrow hrow' (hserial'.trans hserial.symm)
      apply restOf_le
      · unfold Waits
        rw [hid, (step_eq_some hstep).2.2.1]
        rfl
      · exact fun htracked => h.tidy.spends hsame hstep hrow hrow' hserial
          hserial' htracked
  | ask limit =>
      rw [show s'.looks = s.looks from hlooks]
      apply Nat.add_le_add_left
      apply h.tidy.rest_le hstep hnumbered
      intro row hrow row' hrow' hserial hserial'
      exact h.tidy.restOf_ask hsame hstep hrow hrow' hserial hserial'
  | look proposal =>
      have hother : (∀ row ∈ s.store.rows, row.serial = serial →
          proposal.id ≠ row.id) → s'.rest serial ≤ s.rest serial := by
        intro hne
        apply h.tidy.rest_le hstep hnumbered
        intro row hrow row' hrow' hserial hserial'
        exact h.tidy.restOf_other hsame hstep hrow hrow' hserial hserial'
          (hne row hrow hserial)
      rw [hlooks]
      unfold looksAfter
      rw [List.count_append]
      cases hget : s.store.get proposal.id with
      | none =>
          have hle := hother fun row hrow _ hid =>
            KeyedRows.get_eq_none hget (List.mem_map.mpr ⟨row, hrow, hid.symm⟩)
          simpa using hle
      | some found =>
          rcases get_eq_some hget with ⟨hfound, hid⟩
          by_cases hserial : found.serial = serial
          · have hone : [found.serial].count serial = 1 := by
              rw [hserial, List.count_singleton_self]
            have hless : s'.rest serial + 1 ≤ s.rest serial := by
              rw [← hserial, h.tidy.rest_eq hfound]
              by_cases hpresent : ∃ row' ∈ s'.store.rows,
                  row'.serial = found.serial
              · rcases hpresent with ⟨row', hrow', hserial'⟩
                have hlook := h.restOf_look hsame hstep hfound hrow' hserial
                  (hserial'.trans hserial) hid.symm
                rw [← hserial', (h.tidy.step hstep).rest_eq hrow']
                exact hlook
              · rw [rest_absent fun row' hrow' hserial' =>
                  hpresent ⟨row', hrow', hserial'⟩]
                have hready : proposal ∈ s.asked := (step_eq_some hstep).1
                exact restOf_pos (List.mem_map.mpr
                  ⟨proposal, hready, hid.symm⟩)
            simp only [Option.map_some, Option.toList_some, hone]
            omega
          · have hzero : [found.serial].count serial = 0 :=
              List.count_eq_zero_of_not_mem (by simpa using Ne.symm hserial)
            have hle := hother fun row hrow hrowSerial hrowId => hserial (by
              rw [← hrowSerial, h.tidy.sound.get_unique hget hrow
                hrowId.symm])
            simp only [Option.map_some, Option.toList_some, hzero]
            omega

/-- The alarm looks at a card only finitely often while no hash is recorded
anew for it. -/
theorem Orderly.looks_run (h : s.Orderly)
    (hnumbered : serial < s.store.inserted) {es : List (ℕ × AlarmEvent)}
    (hmeets : Transition.Meets (AlarmState.step digestActionProposal)
      (fun s at' => s.NotOvertaken at' ∧
        SameHash digestActionProposal serial s at') s es)
    (hrun : Transition.run (AlarmState.step digestActionProposal) s es =
      some s') :
    s'.looks.count serial ≤ s.looks.count serial + s.rest serial := by
  suffices hall : s'.Orderly ∧ serial < s'.store.inserted ∧
      s'.looks.count serial + s'.rest serial ≤
        s.looks.count serial + s.rest serial by
    exact (Nat.le_add_right _ _).trans hall.2.2
  refine Transition.run_preserves_of_meets
    (I := fun t => t.Orderly ∧ serial < t.store.inserted ∧
      t.looks.count serial + t.rest serial ≤
        s.looks.count serial + s.rest serial)
    ?_ hmeets ⟨h, hnumbered, Nat.le_refl _⟩ hrun
  rintro t t' at' ⟨ht, hbelow, hle⟩ ⟨hovertaken, hsame⟩ hstep
  exact ⟨ht.step hovertaken hstep,
    hbelow.trans_le (ht.tidy.turned hstep).inserted,
    (ht.looks_step hbelow hsame hstep).trans hle⟩

end AlarmState

end QiForge
