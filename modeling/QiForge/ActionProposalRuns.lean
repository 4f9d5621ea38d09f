import QiForge.ActionProposalLifecycle

/-!
# The lifecycle of an action card in every run

The moves of one step are read clause by clause, and the final statuses are
followed through whole runs.  A row is the same card as an earlier one when it
has the earlier one's number.
-/

namespace QiForge

namespace ProposalRow

/-- The proofs that the verifier gives. -/
abbrev Given (verifier : String → String → Option TransactionProof)
    (id hash : String) (proof : TransactionProof) : Prop :=
  verifier id hash = some proof

/-- The statuses no command leaves. -/
def Final (row : ProposalRow) : Prop :=
  row.status = .succeeded ∨ row.status = .failed ∨ row.status = .rejected ∨
    row.status = .superseded ∨ row.ownerRevoked = true

/-- What one event may do to a card. -/
structure Moved (verifier : String → String → Option TransactionProof)
    (now : ℕ) (event : ProposalEvent) (row row' : ProposalRow) : Prop where
  subject : row'.subject = row.subject
  digest : row'.digest = row.digest
  claimed : row.status ≠ .claimed → row'.status = .claimed →
    row.status = .prepared ∧ now < row.subject.expiresAt ∧
      event = .transition row.id (.claim row.digest) ∧
      row'.timesClaimed = row.timesClaimed + 1
  final : row.Final → row'.Final ∧ row'.lifecycle = row.lifecycle ∧
    row'.transactionHash = row.transactionHash
  reopened : row.status = .revoked → row'.status ≠ .revoked →
    row'.status = .unknown ∧ row.closedUnexecuted = true ∧
      row.ownerRevoked = false ∧ row'.transactionHash.isSome = true
  settled : row.status ≠ row'.status →
    row'.status = .succeeded ∨ row'.status = .failed →
    ∃ hash height code, row.lifecycle.transactionHash = some hash ∧
      event = .answer row.id hash (.proof (.verified height code)) ∧
      row'.lifecycle.transactionHash = some hash
  recorded : ∀ hash, row.transactionHash = some hash →
    row'.transactionHash = some hash ∨ row'.transactionHash.isSome = true ∧
        verifier row.id hash = some .memoMismatch
  blocked : ∀ claimedAt hash blockedAt,
    row.lifecycle = .unknown claimedAt hash (some blockedAt) →
      row'.lifecycle = row.lifecycle ∨
        row'.status = .revoked ∧ row'.ownerRevoked = true ∧
          row'.transactionHash = hash

variable {verifier : String → String → Option TransactionProof}
  {now : ℕ} {event : ProposalEvent} {row row' : ProposalRow}

attribute [local grind =] ProposalRow.write ProposalRow.fresh ProposalRow.id
  ProposalRow.Open ProposalRow.lookedUp ProposalRow.deferred
  ActionLifecycle.transactionHash ActionLifecycle.status Final

theorem Sound.moved (h : row.Sound (Given verifier))
    (hmove : CardMove (Given verifier) now event row row') :
    Moved verifier now event row row' := by
  have hagain := h.move hmove
  rcases h with ⟨hstatus, hhash, hcolumn, hupper, hflag, hclosed,
    hblocked, honce, hunclaimed, hswept, howner⟩
  cases hmove with
  | same => constructor <;> grind -ring -linarith
  | lookedUp hdue => constructor <;> grind -ring -linarith
  | deferred hash hevent _ hown hgrace => constructor <;> grind -ring -linarith
  | claimed hprepared hunexpired hevent => constructor <;> grind -ring -linarith
  | ended status hprepared hunexpired =>
      cases status <;> constructor <;> grind -ring -linarith
  | reopened endedAt claimedAt hash hrevoked hclose hevent => constructor <;> grind -ring -linarith
  | recorded claimedAt current hash hopen hreplaced hnew hevent => constructor <;> grind -ring -linarith
  | kept claimedAt current hopen => constructor <;> grind -ring -linarith
  | rejected hash hcolumn hproof => constructor <;> grind -ring -linarith
  | blocked claimedAt hash hopen hproof => constructor <;> grind -ring -linarith
  | verified claimedAt blockedAt hash height code hopen hproof hevent =>
      constructor <;> grind -ring -linarith
  | revoked claimedAt blockedAt hash hopen => constructor <;> grind -ring -linarith
  | closed claimedAt hopen hevent => constructor <;> grind -ring -linarith

end ProposalRow

namespace ActionProposalStore

variable {digestActionProposal : ActionProposalSubject → String}
  {verifier : String → String → Option TransactionProof}
  {now : ℕ} {event : ProposalEvent} {s s' : ActionProposalStore}

/-- What the table keeps: one card for an invocation and for a hash. -/
structure CardsKept (s : ActionProposalStore) : Prop where
  oneCard : (s.rows.map fun row => row.subject.invocationId).Nodup
  oneHash : ∀ row ∈ s.rows, ∀ other ∈ s.rows, ∀ hash,
    row.transactionHash = some hash → other.transactionHash = some hash →
      other.id = row.id
  claimedOnce : ∀ row ∈ s.rows, row.timesClaimed ≤ 1
  listed : ∀ row ∈ s.rows, ∀ hash, row.lifecycle.transactionHash = some hash →
    row.transactionHash = some hash

/-- A row of a later state is a new card or the same card, later. -/
def Later (s : ActionProposalStore) (row' : ProposalRow) : Prop :=
  (∃ row ∈ s.rows, row'.serial = row.serial ∧ row'.subject = row.subject ∧
    row'.digest = row.digest ∧
      (row.Final → row'.Final ∧ row'.lifecycle = row.lifecycle)) ∨
    s.inserted ≤ row'.serial

theorem Sound.later_run (h : s.Sound (ProposalRow.Given verifier))
    {events : List (ℕ × ProposalEvent)}
    (hrun : Transition.run (ActionProposalStore.step digestActionProposal verifier) s
      events =
      some s') :
    s'.Sound (ProposalRow.Given verifier) ∧ s.inserted ≤ s'.inserted ∧
      ∀ row' ∈ s'.rows, s.Later row' := by
  induction events generalizing s with
  | nil =>
      cases hrun
      exact ⟨h, Nat.le_refl _, fun row' hrow' => .inl ⟨row', hrow', rfl, rfl,
        rfl, fun hfinal => ⟨hfinal, rfl⟩⟩⟩
  | cons event events ih =>
      rcases Transition.run_cons_eq_some.mp hrun with ⟨mid, hstep, hrest⟩
      have hadvance := h.step (fun _ _ _ hgiven => hgiven) hstep
      rcases ih hadvance.sound hrest with ⟨hsound, hinserted, hlater⟩
      refine ⟨hsound, hadvance.inserted.trans hinserted, ?_⟩
      intro row' hrow'
      rcases hlater row' hrow' with
        ⟨before, hbefore, hserial, hsubject, hdigest, hkept⟩ | hnew
      · rcases hadvance.moves before hbefore with
          ⟨row, hrow, hmove⟩ | ⟨hnew, -⟩
        · have hmoved := (h.rows row hrow).moved hmove
          refine .inl ⟨row, hrow, hserial.trans hmove.identity.1,
            hsubject.trans hmoved.subject, hdigest.trans hmoved.digest, ?_⟩
          intro hfinal
          rcases hmoved.final hfinal with ⟨hstill, hlife, -⟩
          rcases hkept hstill with ⟨hlast, hsame⟩
          exact ⟨hlast, hsame.trans hlife⟩
        · exact .inr (hserial ▸ hnew)
      · exact .inr (hadvance.inserted.trans hnew)

/-- The lifecycle of an action card. -/
theorem action_card_lifecycle
    (digestActionProposal : ActionProposalSubject → String)
    (verifier : String → String → Option TransactionProof)
    (events : List (ℕ × ProposalEvent)) (s : ActionProposalStore)
    (hrun : Transition.run (step digestActionProposal verifier) empty events =
      some s) :
    s.CardsKept ∧ (∀ now event s',
        s.step digestActionProposal verifier (now, event) = some s' →
        ∀ row' ∈ s'.rows, (∃ row ∈ s.rows, row'.serial = row.serial ∧
            ProposalRow.Moved verifier now event row row') ∨
          (∀ row ∈ s.rows, row.serial ≠ row'.serial) ∧
            row'.lifecycle = .prepared) ∧
      ∀ more s', Transition.run (step digestActionProposal verifier) s more =
          some s' →
        ∀ row ∈ s.rows, ∀ row' ∈ s'.rows, row'.serial = row.serial →
          row'.subject = row.subject ∧ row'.digest = row.digest ∧
            (row.Final → row'.lifecycle = row.lifecycle) := by
  have hsound : s.Sound (ProposalRow.Given verifier) :=
    (sound_empty.later_run hrun).1
  refine ⟨?_, ?_, ?_⟩
  · constructor
    · exact hsound.invocations
    · exact hsound.hashes
    · exact fun row hrow => (hsound.rows row hrow).claimedOnce
    · exact fun row hrow => (hsound.rows row hrow).hash
  · intro now event s' hstep row' hrow'
    rcases (hsound.step (fun _ _ _ hgiven => hgiven) hstep).moves row' hrow' with
      ⟨row, hrow, hmove⟩ | ⟨hnew, hprepared⟩
    · exact .inl ⟨row, hrow, hmove.identity.1,
        (hsound.rows row hrow).moved hmove⟩
    · refine .inr ⟨?_, hprepared⟩
      intro row hrow
      exact ((hsound.numbered row hrow).trans_le hnew).ne
  · intro more s' hmore row hrow row' hrow' hserial
    rcases (hsound.later_run hmore).2.2 row' hrow' with
      ⟨before, hbefore, hsame, hsubject, hdigest, hkept⟩ | hnew
    · have heq : before = row := List.inj_on_of_nodup_map hsound.serials
        hbefore hrow (hsame.symm.trans hserial)
      subst heq
      exact ⟨hsubject, hdigest, fun hfinal => (hkept hfinal).2⟩
    · rw [hserial] at hnew
      exact absurd (hsound.numbered row hrow) (not_lt.mpr hnew)

def transferCard (id invocationId : String) : ActionProposalSubject where
  id := id
  title := "Transfer"
  sessionId := "session"
  runId := "run"
  invocationId := invocationId
  action := "transfer"
  memo := id
  evidenceRefs := ["message"]
  createdAt := 1
  expiresAt := 100

def signedHash : String := String.ofList (List.replicate 64 'A')

/-- A card is closed when its window passes, gets its hash after all, and is
verified; a second card of the owner may not record the hash. -/
def lateHash : List (ℕ × ProposalEvent) :=
  [(1, .create (transferCard "ap_1" "call-1") true),
    (1, .create (transferCard "ap_2" "call-2") true),
    (2, .transition "ap_1" (.claim "ap_1")),
    (3, .transition "ap_2" (.claim "ap_2")),
    (4, .transition "ap_1" (.claim "ap_1")),
    (3600002, .closeUnexecuted),
    (3600002, .transition "ap_1" (.reconcile (some signedHash))),
    (3600002, .transition "ap_2" (.reconcile (some signedHash))),
    (3630002, .refresh ⟨"ap_1", .unknown 2 (some signedHash) none⟩),
    (3630003, .answer "ap_1" signedHash (.proof (.verified 7 0))),
    (3630004, .transition "ap_1" (.revoke "ap_1"))]

theorem action_card_lifecycle_lateHash :
    ∃ s, Transition.run (step ActionProposalSubject.id fun _ _ =>
        some (.verified 7 0)) empty lateHash = some s ∧ s.CardsKept := by
  cases hrun : Transition.run (step ActionProposalSubject.id fun _ _ =>
      some (.verified 7 0)) empty lateHash with
  | none =>
      have hruns : (Transition.run (step ActionProposalSubject.id fun _ _ =>
          some (.verified 7 0)) empty lateHash).isSome = true := by
        decide +kernel
      simp [hrun] at hruns
  | some s =>
      exact ⟨s, rfl, (action_card_lifecycle ActionProposalSubject.id
        (fun _ _ => some (.verified 7 0)) lateHash s hrun).1⟩

/-- The cards at its end. -/
example : (Transition.run (step ActionProposalSubject.id fun _ _ =>
        some (.verified 7 0)) empty lateHash).map
      (fun s => s.rows.map fun row => (row.id, row.status)) =
      some [("ap_1", .succeeded), ("ap_2", .claimed)] := by
  decide +kernel

end ActionProposalStore

end QiForge
