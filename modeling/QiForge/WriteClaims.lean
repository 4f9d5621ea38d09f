import QiForge.Transition

/-!
# The ledger of write claims

`claimWrite` and `releaseWrite` of the run store, one SQL statement a step,
for any number of runs of one user.  Beside the row of a fingerprint a slot
remembers who was answered `claimed` and has not released it since (`holds`),
and who of them neither released it nor lost it after being over or warned
(`owns`).  A reset drops the calls in progress.
-/

namespace QiForge

inductive RunStatus where
  | queued
  | running
  | recovering
  | finished
  | aborted
  | interrupted
  | failed
deriving DecidableEq, Repr

def RunStatus.isActive : RunStatus → Bool
  | .queued | .running | .recovering => true
  | .finished | .aborted | .interrupted | .failed => false

inductive ClaimState where
  | pending
  | warned
deriving DecidableEq, Repr

structure WriteClaimRecord where
  toolName : String
  runId : String
  sessionId : String
  startedAt : ℕ
  state : ClaimState
deriving DecidableEq, Repr

structure ClaimInput where
  fingerprint : String
  toolName : String
  runId : String
  sessionId : String
deriving DecidableEq, Repr

inductive WriteClaim where
  | claimed
  | blocked (toolName : String) (since : ℕ)
deriving DecidableEq, Repr

/-- The statement a call of `claimWrite` runs next, or its answer. -/
inductive ClaimPhase where
  | reading
  | takingOver
  | warning (existing : WriteClaimRecord)
  | answered (claim : WriteClaim)
deriving DecidableEq, Repr

structure ClaimCall where
  input : ClaimInput
  phase : ClaimPhase
deriving DecidableEq, Repr

structure ClaimSlot where
  row : Option WriteClaimRecord
  holds : String → Bool
  owns : String → Bool

structure ClaimLedger where
  slots : String → ClaimSlot
  runs : String → Option RunStatus
  calls : ℕ → Option ClaimCall

inductive ClaimEvent where
  | create (runId : String) (status : RunStatus)
  | setStatus (runId : String) (status : RunStatus)
  | insert (call : ℕ) (input : ClaimInput) (now : ℕ)
  | read (call : ℕ)
  | takeOver (call now : ℕ)
  | warn (call : ℕ)
  | release (fingerprint runId : String)
  | reset
deriving DecidableEq, Repr

def ClaimInput.toRecord (input : ClaimInput) (now : ℕ) : WriteClaimRecord :=
  ⟨input.toolName, input.runId, input.sessionId, now, .pending⟩

namespace ClaimSlot

def empty : ClaimSlot := ⟨none, fun _ => false, fun _ => false⟩

/-- `runId` is answered `claimed`. -/
def grant (s : ClaimSlot) (runId : String) : ClaimSlot := { s with
    holds := Function.update s.holds runId true
    owns := Function.update s.owns runId true }

/-- The row passes to `row`; its owner may lose it when over or warned. -/
def pass (s : ClaimSlot) (active : String → Bool)
    (old row : WriteClaimRecord) : ClaimSlot :=
  { s with
    row := some row
    owns :=
      if old.runId ≠ row.runId ∧
          (active old.runId = false ∨ old.state = .warned) then
        Function.update s.owns old.runId false
      else s.owns }

def insert (s : ClaimSlot) (row : WriteClaimRecord) : ClaimSlot :=
  ({ s with row := some row } : ClaimSlot).grant row.runId

/-- The unconditional update: without a row it changes nothing. -/
def takeOver (s : ClaimSlot) (active : String → Bool) (input : ClaimInput)
    (now : ℕ) : ClaimSlot :=
  match s.row with
  | none => s.grant input.runId
  | some old =>
      (s.pass active old { old with
        runId := input.runId
        sessionId := input.sessionId
        startedAt := now
        state := .pending }).grant input.runId

def warn (s : ClaimSlot) (active : String → Bool) (runId : String) :
    ClaimSlot :=
  match s.row with
  | none => s
  | some old =>
      if old.state = .pending ∧
          (old.runId = runId ∨ active old.runId = false) then
        s.pass active old { old with state := .warned, runId := runId }
      else s

def release (s : ClaimSlot) (runId : String) : ClaimSlot :=
  { row := s.row.filter fun row => decide (row.runId ≠ runId)
    holds := Function.update s.holds runId false
    owns := Function.update s.owns runId false }

end ClaimSlot

namespace ClaimLedger

def empty : ClaimLedger := ⟨fun _ => .empty, fun _ => none, fun _ => none⟩

def active (s : ClaimLedger) (runId : String) : Bool :=
  (s.runs runId).any RunStatus.isActive

def setSlot (s : ClaimLedger) (fingerprint : String) (slot : ClaimSlot) :
    ClaimLedger :=
  { s with slots := Function.update s.slots fingerprint slot }

def setCall (s : ClaimLedger) (call : ℕ) (input : ClaimInput)
    (phase : ClaimPhase) : ClaimLedger :=
  { s with calls := Function.update s.calls call (some ⟨input, phase⟩) }

def insert (s : ClaimLedger) (call : ℕ) (input : ClaimInput) (now : ℕ) :
    ClaimLedger :=
  let slot := s.slots input.fingerprint
  match slot.row with
  | none =>
      (s.setSlot input.fingerprint
        (slot.insert (input.toRecord now))).setCall call input
        (.answered .claimed)
  | some _ => s.setCall call input .reading

def read (s : ClaimLedger) (call : ℕ) (input : ClaimInput) : ClaimLedger :=
  let slot := s.slots input.fingerprint
  match slot.row with
  | none =>
      (s.setSlot input.fingerprint (slot.grant input.runId)).setCall call
        input (.answered .claimed)
  | some existing =>
      if existing.state = .warned ∧ existing.runId ≠ input.runId then
        s.setCall call input .takingOver
      else if existing.state = .pending then
        s.setCall call input (.warning existing)
      else
        s.setCall call input
          (.answered (.blocked existing.toolName existing.startedAt))

def takeOver (s : ClaimLedger) (call : ℕ) (input : ClaimInput) (now : ℕ) :
    ClaimLedger :=
  let slot := s.slots input.fingerprint
  (s.setSlot input.fingerprint
    (slot.takeOver s.active input now)).setCall call input
    (.answered .claimed)

def warn (s : ClaimLedger) (call : ℕ) (input : ClaimInput)
    (existing : WriteClaimRecord) : ClaimLedger :=
  let slot := s.slots input.fingerprint
  (s.setSlot input.fingerprint (slot.warn s.active input.runId)).setCall
    call input (.answered (.blocked existing.toolName existing.startedAt))

def releaseWrite (s : ClaimLedger) (fingerprint runId : String) :
    ClaimLedger :=
  s.setSlot fingerprint ((s.slots fingerprint).release runId)

/-- A run that is over stays over; a call is made by a run that exists. -/
def step (s : ClaimLedger) : ClaimEvent → Option ClaimLedger
  | .create runId status =>
      if s.runs runId = none then
        some { s with runs := Function.update s.runs runId (some status) }
      else none
  | .setStatus runId status =>
      if s.active runId then
        some { s with runs := Function.update s.runs runId (some status) }
      else none
  | .insert call input now =>
      if s.calls call = none ∧ s.runs input.runId ≠ none then
        some (s.insert call input now)
      else none
  | .read call =>
      match s.calls call with
      | some ⟨input, .reading⟩ => some (s.read call input)
      | _ => none
  | .takeOver call now =>
      match s.calls call with
      | some ⟨input, .takingOver⟩ => some (s.takeOver call input now)
      | _ => none
  | .warn call =>
      match s.calls call with
      | some ⟨input, .warning existing⟩ => some (s.warn call input existing)
      | _ => none
  | .release fingerprint runId => some (s.releaseWrite fingerprint runId)
  | .reset => some { s with calls := fun _ => none }

end ClaimLedger

/-- Write claims exclude each other: one active run holds a fingerprint, and
who owns it has its row. -/
structure ClaimsHold (s : ClaimLedger) : Prop where
  exclusive : ∀ fingerprint first second,
    s.active first = true → s.active second = true →
    (s.slots fingerprint).holds first = true →
    (s.slots fingerprint).holds second = true → first = second
  owned : ∀ fingerprint runId, (s.slots fingerprint).owns runId = true →
    ∃ row, (s.slots fingerprint).row = some row ∧ row.runId = runId

namespace ClaimLedger

/-- The read behind a failed insert finds a row; the takeover finds a row of
its own run, of a run that is over, or a warned one whose owner holds
nothing. -/
def FindsRow (s : ClaimLedger) : ClaimEvent → Prop
  | .read call =>
      ∀ c ∈ s.calls call, (s.slots c.input.fingerprint).row ≠ none
  | .takeOver call _ =>
      ∀ c ∈ s.calls call, ∃ row ∈ (s.slots c.input.fingerprint).row,
        row.runId = c.input.runId ∨ s.active row.runId = false ∨
          (row.state = .warned ∧
            (s.slots c.input.fingerprint).holds row.runId = false)
  | _ => True

instance FindsRow.decidable (s : ClaimLedger) :
    (e : ClaimEvent) → Decidable (s.FindsRow e)
  | .read call =>
      inferInstanceAs (Decidable (∀ c ∈ s.calls call,
        (s.slots c.input.fingerprint).row ≠ none))
  | .takeOver call _ =>
      inferInstanceAs (Decidable (∀ c ∈ s.calls call,
        ∃ row ∈ (s.slots c.input.fingerprint).row,
          row.runId = c.input.runId ∨ s.active row.runId = false ∨
            (row.state = .warned ∧
              (s.slots c.input.fingerprint).holds row.runId = false)))
  | .create _ _ | .setStatus _ _ | .insert _ _ _ | .warn _ |
      .release _ _ | .reset => isTrue trivial

end ClaimLedger

/-- What holds of a slot while every statement finds its row. -/
structure ClaimSlot.Kept (slot : ClaimSlot) (active created : String → Bool) :
    Prop where
  holder : ∀ r, slot.holds r = true → active r = true →
    ∃ row, slot.row = some row ∧ row.runId = r
  owner : ∀ r, slot.owns r = true → ∃ row, slot.row = some row ∧ row.runId = r
  known : ∀ r, slot.holds r = true → created r = true

namespace ClaimSlot

variable {slot : ClaimSlot} {active created : String → Bool}

theorem update_eq_true {f : String → Bool} {a r : String} {b : Bool}
    (h : Function.update f a b r = true) :
    r = a ∧ b = true ∨ r ≠ a ∧ f r = true := by
  by_cases hr : r = a
  · subst hr
    rw [Function.update_self] at h
    exact Or.inl ⟨rfl, h⟩
  · rw [Function.update_of_ne hr] at h
    exact Or.inr ⟨hr, h⟩

theorem empty_kept : empty.Kept active created := by
  constructor <;> intro r hr <;> simp [empty] at hr

theorem Kept.insert (h : slot.Kept active created)
    (hnone : slot.row = none) (row : WriteClaimRecord)
    (hcreated : created row.runId = true) :
    (slot.insert row).Kept active created := by
  have hrow : (slot.insert row).row = some row := rfl
  constructor
  · intro r hholds hactive
    rcases update_eq_true hholds with ⟨rfl, -⟩ | ⟨-, hold⟩
    · exact ⟨row, hrow, rfl⟩
    · rcases h.holder r hold hactive with ⟨old, hold, -⟩
      rw [hnone] at hold
      cases hold
  · intro r howns
    rcases update_eq_true howns with ⟨rfl, -⟩ | ⟨-, hold⟩
    · exact ⟨row, hrow, rfl⟩
    · rcases h.owner r hold with ⟨old, hold, -⟩
      rw [hnone] at hold
      cases hold
  · intro r hholds
    rcases update_eq_true hholds with ⟨rfl, -⟩ | ⟨-, hold⟩
    · exact hcreated
    · exact h.known r hold

theorem pass_owns {old row : WriteClaimRecord} {r : String}
    (howns : (slot.pass active old row).owns r = true) :
    slot.owns r = true ∧ (old.runId ≠ row.runId →
      active old.runId = false ∨ old.state = .warned → r ≠ old.runId) := by
  unfold pass at howns
  dsimp only at howns
  split_ifs at howns with hcond
  · rcases update_eq_true howns with ⟨-, hfalse⟩ | ⟨hne, hold⟩
    · cases hfalse
    · exact ⟨hold, fun _ _ => hne⟩
  · exact ⟨howns, fun hne hlost => absurd ⟨hne, hlost⟩ hcond⟩

/-- A row passes on safely when its owner is the new one, is over, or holds
nothing and was warned. -/
theorem Kept.pass (h : slot.Kept active created)
    {old row : WriteClaimRecord} (hold : slot.row = some old)
    (hsafe : old.runId = row.runId ∨ active old.runId = false ∨
      (old.state = .warned ∧ slot.holds old.runId = false)) :
    (slot.pass active old row).Kept active created := by
  have hrow : (slot.pass active old row).row = some row := rfl
  have howner : ∀ r, (∃ found, slot.row = some found ∧ found.runId = r) →
      r = old.runId := by
    rintro r ⟨found, hfound, rfl⟩
    rw [hold] at hfound
    rw [Option.some.inj hfound]
  constructor
  · intro r hholds hactive
    have hr := howner r (h.holder r hholds hactive)
    rcases hsafe with hsame | hover | ⟨-, hnot⟩
    · exact ⟨row, hrow, by rw [hr, hsame]⟩
    · rw [hr, hover] at hactive
      cases hactive
    · rw [hr] at hholds
      rw [show slot.holds old.runId = true from hholds] at hnot
      cases hnot
  · intro r howns
    rcases pass_owns howns with ⟨hbefore, hlost⟩
    have hr := howner r (h.owner r hbefore)
    by_cases hsame : old.runId = row.runId
    · exact ⟨row, hrow, by rw [hr, hsame]⟩
    · rcases hsafe with hsame' | hover | ⟨hwarned, -⟩
      · exact absurd hsame' hsame
      · exact absurd hr (hlost hsame (Or.inl hover))
      · exact absurd hr (hlost hsame (Or.inr hwarned))
  · exact h.known

theorem Kept.grant (h : slot.Kept active created) {row : WriteClaimRecord}
    (hrow : slot.row = some row) (hcreated : created row.runId = true) :
    (slot.grant row.runId).Kept active created := by
  constructor
  · intro r hholds hactive
    rcases update_eq_true hholds with ⟨rfl, -⟩ | ⟨-, hold⟩
    · exact ⟨row, hrow, rfl⟩
    · exact h.holder r hold hactive
  · intro r howns
    rcases update_eq_true howns with ⟨rfl, -⟩ | ⟨-, hold⟩
    · exact ⟨row, hrow, rfl⟩
    · exact h.owner r hold
  · intro r hholds
    rcases update_eq_true hholds with ⟨rfl, -⟩ | ⟨-, hold⟩
    · exact hcreated
    · exact h.known r hold

theorem Kept.takeOver (h : slot.Kept active created) {input : ClaimInput}
    {now : ℕ} (hcreated : created input.runId = true)
    (hfinds : ∃ row ∈ slot.row, row.runId = input.runId ∨
      active row.runId = false ∨
        (row.state = .warned ∧ slot.holds row.runId = false)) :
    (slot.takeOver active input now).Kept active created := by
  rcases hfinds with ⟨old, hold, hsafe⟩
  unfold ClaimSlot.takeOver
  rw [show slot.row = some old from hold]
  exact (h.pass hold hsafe).grant rfl hcreated

theorem Kept.warn (h : slot.Kept active created) (runId : String) :
    (slot.warn active runId).Kept active created := by
  unfold ClaimSlot.warn
  cases hrow : slot.row with
  | none => exact h
  | some old =>
      dsimp only
      split_ifs with hcond
      · apply h.pass hrow
        rcases hcond.2 with hsame | hover
        · exact Or.inl hsame
        · exact Or.inr (Or.inl hover)
      · exact h

theorem Kept.release (h : slot.Kept active created) (runId : String) :
    (slot.release runId).Kept active created := by
  have hkept : ∀ r, r ≠ runId → (∃ row, slot.row = some row ∧ row.runId = r) →
      ∃ row, (slot.release runId).row = some row ∧ row.runId = r := by
    rintro r hne ⟨row, hrow, rfl⟩
    refine ⟨row, ?_, rfl⟩
    unfold ClaimSlot.release
    rw [hrow, Option.filter_some_pos (by simpa using hne)]
  constructor
  · intro r hholds hactive
    rcases update_eq_true hholds with ⟨-, hfalse⟩ | ⟨hne, hold⟩
    · cases hfalse
    · exact hkept r hne (h.holder r hold hactive)
  · intro r howns
    rcases update_eq_true howns with ⟨-, hfalse⟩ | ⟨hne, hold⟩
    · cases hfalse
    · exact hkept r hne (h.owner r hold)
  · intro r hholds
    rcases update_eq_true hholds with ⟨-, hfalse⟩ | ⟨-, hold⟩
    · cases hfalse
    · exact h.known r hold

/-- Runs may end, and new runs may begin. -/
theorem Kept.mono {active' created' : String → Bool}
    (h : slot.Kept active created)
    (hactive : ∀ r, created r = true → active' r = true → active r = true)
    (hcreated : ∀ r, created r = true → created' r = true) :
    slot.Kept active' created' := by
  constructor
  · intro r hholds hactive'
    exact h.holder r hholds (hactive r (h.known r hholds) hactive')
  · exact h.owner
  · exact fun r hholds => hcreated r (h.known r hholds)

end ClaimSlot

namespace ClaimLedger

variable {s s' : ClaimLedger} {e : ClaimEvent}

def created (s : ClaimLedger) (runId : String) : Bool := (s.runs runId).isSome

structure Inv (s : ClaimLedger) : Prop where
  slots : ∀ fingerprint, (s.slots fingerprint).Kept s.active s.created
  callers : ∀ call c, s.calls call = some c → s.created c.input.runId = true

theorem empty_inv : empty.Inv := by
  constructor
  · intro fingerprint
    exact ClaimSlot.empty_kept
  · intro call c hc
    cases hc

theorem Inv.setSlot (h : s.Inv) {fingerprint : String} {slot : ClaimSlot}
    (hslot : slot.Kept s.active s.created) :
    (s.setSlot fingerprint slot).Inv := by
  constructor
  · intro other
    change (Function.update s.slots fingerprint slot other).Kept s.active
      s.created
    by_cases hsame : other = fingerprint
    · subst hsame
      rw [Function.update_self]
      exact hslot
    · rw [Function.update_of_ne hsame]
      exact h.slots other
  · exact h.callers

theorem Inv.setCall (h : s.Inv) (call : ℕ) {input : ClaimInput}
    (hcreated : s.created input.runId = true) (phase : ClaimPhase) :
    (s.setCall call input phase).Inv := by
  constructor
  · exact h.slots
  · intro other c hc
    change s.created c.input.runId = true
    change Function.update s.calls call (some ⟨input, phase⟩) other =
      some c at hc
    by_cases hsame : other = call
    · subst hsame
      rw [Function.update_self] at hc
      cases hc
      exact hcreated
    · rw [Function.update_of_ne hsame] at hc
      exact h.callers other c hc

theorem Inv.setRun (h : s.Inv) {runId : String} {status : RunStatus}
    (hrun : s.runs runId = none ∨ s.active runId = true) :
    Inv { s with runs := Function.update s.runs runId (some status) } := by
  have hcreated : ∀ r, s.created r = true →
      created { s with runs := Function.update s.runs runId (some status) }
        r = true := by
    intro r hr
    unfold created at hr ⊢
    dsimp only
    by_cases hsame : r = runId
    · rw [hsame, Function.update_self]
      rfl
    · rw [Function.update_of_ne hsame]
      exact hr
  constructor
  · intro fingerprint
    apply (h.slots fingerprint).mono _ hcreated
    intro r hr hactive
    by_cases hsame : r = runId
    · rcases hrun with hnone | hold
      · rw [hsame] at hr
        unfold created at hr
        rw [hnone] at hr
        cases hr
      · rw [hsame]
        exact hold
    · unfold active at hactive ⊢
      dsimp only at hactive
      rw [Function.update_of_ne hsame] at hactive
      exact hactive
  · intro call c hc
    exact hcreated _ (h.callers call c hc)

theorem step_inv (h : s.Inv) (hfinds : s.FindsRow e)
    (hstep : step s e = some s') : s'.Inv := by
  cases e with
  | create runId status =>
      rcases Option.ite_none_right_eq_some.mp hstep with ⟨hnone, hsome⟩
      cases hsome
      exact h.setRun (Or.inl hnone)
  | setStatus runId status =>
      rcases Option.ite_none_right_eq_some.mp hstep with ⟨hactive, hsome⟩
      cases hsome
      exact h.setRun (Or.inr hactive)
  | insert call input now =>
      rcases Option.ite_none_right_eq_some.mp hstep with ⟨⟨-, hrun⟩, hsome⟩
      cases hsome
      have hcreated : s.created input.runId = true :=
        Option.isSome_iff_ne_none.mpr hrun
      unfold ClaimLedger.insert
      dsimp only
      cases hrow : (s.slots input.fingerprint).row with
      | none =>
          have hslot := (h.slots input.fingerprint).insert hrow
            (input.toRecord now) hcreated
          exact (h.setSlot hslot).setCall call hcreated _
      | some row => exact h.setCall call hcreated _
  | read call =>
      dsimp only [step] at hstep
      split at hstep
      next input hcall =>
        cases hstep
        have hcreated := h.callers call _ hcall
        have hrow := hfinds _ hcall
        unfold ClaimLedger.read
        dsimp only
        cases hfound : (s.slots input.fingerprint).row with
        | none => exact absurd hfound hrow
        | some existing =>
            dsimp only
            split_ifs
            · exact h.setCall call hcreated _
            · exact h.setCall call hcreated _
            · exact h.setCall call hcreated _
      next => cases hstep
  | takeOver call now =>
      dsimp only [step] at hstep
      split at hstep
      next input hcall =>
        cases hstep
        have hcreated := h.callers call _ hcall
        have hslot := @ClaimSlot.Kept.takeOver _ _ _
          (h.slots input.fingerprint) input now hcreated (hfinds _ hcall)
        exact (h.setSlot hslot).setCall call hcreated _
      next => cases hstep
  | warn call =>
      dsimp only [step] at hstep
      split at hstep
      next input existing hcall =>
        cases hstep
        have hcreated := h.callers call _ hcall
        have hslot := (h.slots input.fingerprint).warn input.runId
        exact (h.setSlot hslot).setCall call hcreated _
      next => cases hstep
  | release fingerprint runId =>
      cases hstep
      exact h.setSlot ((h.slots fingerprint).release runId)
  | reset =>
      cases hstep
      constructor
      · exact h.slots
      · intro call c hc
        cases hc

theorem Inv.claimsHold (h : s.Inv) : ClaimsHold s := by
  constructor
  · intro fingerprint first second hfirst hsecond hholds hholds'
    rcases (h.slots fingerprint).holder first hholds hfirst with
      ⟨row, hrow, rfl⟩
    rcases (h.slots fingerprint).holder second hholds' hsecond with
      ⟨row', hrow', rfl⟩
    rw [hrow] at hrow'
    rw [Option.some.inj hrow']
  · intro fingerprint
    exact (h.slots fingerprint).owner

/-- While every read behind a failed insert finds a row and no takeover meets
the row of an active holder, write claims exclude each other. -/
theorem claims_hold (es : List ClaimEvent) (s : ClaimLedger)
    (hfinds : Transition.Meets step FindsRow empty es)
    (hrun : Transition.run step empty es = some s) : ClaimsHold s :=
  (Transition.run_preserves_of_meets
    (fun _ _ _ hinv hcond hstep => step_inv hinv hcond hstep)
    hfinds empty_inv hrun).claimsHold

def sendInput (runId : String) : ClaimInput :=
  ⟨"send", "send_message", runId, runId⟩

/-- `a` ends with its write unaccounted for, `b` is warned of it, and `c`
takes it over. -/
def warnedThenTaken : List ClaimEvent :=
  [.create "a" .running, .create "b" .running, .create "c" .running,
    .insert 0 (sendInput "a") 1, .setStatus "a" .interrupted,
    .insert 1 (sendInput "b") 2, .read 1, .warn 1,
    .insert 2 (sendInput "c") 3, .read 2, .takeOver 2 3]

theorem claims_hold_warnedThenTaken :
    ∃ s, Transition.run step empty warnedThenTaken = some s ∧
      (s.slots "send").holds "c" = true ∧ ClaimsHold s :=
  ⟨_, rfl, by decide +kernel,
    claims_hold warnedThenTaken _ (by decide +kernel) rfl⟩

/-- `a` releases its claim between the insert of `b`, which it refused, and
the read of `b`. -/
def releasedBeforeRead : List ClaimEvent :=
  [.create "a" .running, .create "b" .running, .create "c" .running,
    .insert 0 (sendInput "a") 1, .insert 1 (sendInput "b") 2,
    .release "send" "a", .read 1, .insert 2 (sendInput "c") 3]

/-- Two active runs are then answered `claimed`. -/
theorem released_before_read :
    ¬ ∀ es s, Transition.run step empty es = some s → ClaimsHold s := by
  intro h
  have hsame : "b" = "c" :=
    (h releasedBeforeRead _ rfl).exclusive "send" "b" "c"
      (by decide +kernel) (by decide +kernel) (by decide +kernel)
      (by decide +kernel)
  revert hsame
  decide

end ClaimLedger
end QiForge
