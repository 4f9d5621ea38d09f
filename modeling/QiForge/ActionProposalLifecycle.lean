import QiForge.ActionProposals
import QiForge.Transition

/-!
# What can happen to an action card

`CardMove` lists every change a method makes to one card.  Each method moves
the cards it touches by one of them, and from the moves follow what the rows
keep in every run and which statuses are final.
-/

namespace QiForge

theorem toUpper_toUpper (c : Char) : c.toUpper.toUpper = c.toUpper := by
  have hlower : ¬ ('a'.val ≤ c.toUpper.val ∧ c.toUpper.val ≤ 'z'.val) := by
    rw [Char.toUpper.eq_def]
    split <;> grind [UInt32.toNat_add, Char.toNat_val]
  rw [Char.toUpper.eq_def c.toUpper, dif_neg hlower]

@[simp] theorem normalizeHash_normalizeHash (hash : String) :
    normalizeHash (normalizeHash hash) = normalizeHash hash := by
  unfold normalizeHash
  rw [String.toList_ofList, List.map_map]
  congr 1
  apply List.map_congr_left
  intro c _
  exact toUpper_toUpper c

namespace ProposalRow

/-- What `writeLifecycle` does to the row. -/
def write (row : ProposalRow) (lifecycle : ActionLifecycle)
    (hash : Option String) : ProposalRow :=
  { row with
    lifecycle := lifecycle
    status := lifecycle.status
    transactionHash := hash }

/-- The row with a fresh verification schedule. -/
def fresh (row : ProposalRow) (now : ℕ) : ProposalRow := { row with
    transactionHashRejected := false
    verifyAfter := now + verifyFirstDelayMs
    verifyAttempts := 0
    hashRecordedAt := now }

def lookedUp (row : ProposalRow) (now : ℕ) : ProposalRow := { row with
    verifyAfter := now +
      backoff verifyRetryBaseMs verifyRetryMaxMs row.verifyAttempts
    verifyAttempts := row.verifyAttempts + 1 }

/-- The lookup that a not-found answer comes from gives its attempt back. -/
def deferred (row : ProposalRow) (now : ℕ) : ProposalRow := { row with
    verifyAttempts := row.verifyAttempts - 1
    verifyAfter := now + verifyFirstDelayMs }

/-- A card that is claimed, or unknown and not blocked. -/
def Open (row : ProposalRow) (claimedAt : ℕ) (current : Option String) :
    Prop :=
  row.lifecycle = .claimed claimedAt ∧ current = none ∨
    row.lifecycle = .unknown claimedAt current none

end ProposalRow

section Moves

-- what is known of the proofs that the lookups give
variable (proves : String → String → TransactionProof → Prop)

/-- One change of a card. -/
inductive CardMove (now : ℕ) (event : ProposalEvent) (row : ProposalRow) :
    ProposalRow → Prop where
  | same : CardMove now event row row
  | lookedUp (hdue : row.verifyAfter ≤ now) :
      CardMove now event row (row.lookedUp now)
  | deferred (hash : String) (hevent : event = .answer row.id hash .notFound)
      (hstatus : row.status = .unknown)
      (hhash : row.transactionHash = some (normalizeHash hash))
      (hgrace : now < row.hashRecordedAt + verifyNotFoundGraceMs) :
      CardMove now event row (row.deferred now)
  | claimed (hprepared : row.lifecycle = .prepared)
      (hunexpired : now < row.subject.expiresAt)
      (hevent : event = .transition row.id (.claim row.digest)) :
      CardMove now event row { row.write (.claimed now) none with
          timesClaimed := row.timesClaimed + 1 }
  | ended (status : EndedStatus) (hprepared : row.lifecycle = .prepared)
      (hunexpired : now < row.subject.expiresAt) :
      CardMove now event row { row.write (.ended status now) none with
          ownerRevoked := row.ownerRevoked || decide (status = .revoked) }
  | reopened (endedAt claimedAt : ℕ) (hash : String)
      (hrevoked : row.lifecycle = .ended .revoked endedAt)
      (hclosed : row.unexecutedClose = true)
      (hevent : event = .transition row.id (.reconcile (some hash))) :
      CardMove now event row
        ({ row.write (.unknown claimedAt (some (normalizeHash hash)) none)
            (some (normalizeHash hash)) with
          unexecutedClose := false }.fresh now)
  | recorded (claimedAt : ℕ) (current : Option String) (hash : String)
      (hopen : row.Open claimedAt current)
      (hreplaced : current = none ∨ row.transactionHashRejected = true)
      (hnew : current ≠ some (normalizeHash hash))
      (hevent : event = .transition row.id (.reconcile (some hash))) :
      CardMove now event row ((row.fresh now).write
          (.unknown claimedAt (some (normalizeHash hash)) none)
          (some (normalizeHash hash)))
  | kept (claimedAt : ℕ) (current : Option String)
      (hopen : row.Open claimedAt current) :
      CardMove now event row
        (row.write (.unknown claimedAt current none) current)
  | rejected (hash : String) (hhash : row.transactionHash = some hash)
      (hproof : proves row.id hash .memoMismatch) :
      CardMove now event row { row with transactionHashRejected := true }
  | blocked (claimedAt : ℕ) (hash : String)
      (hopen : row.lifecycle = .unknown claimedAt (some hash) none)
      (hproof : proves row.id hash .subjectMismatch) :
      CardMove now event row
        { row.write (.unknown claimedAt (some hash) (some now))
            (some hash) with
          transactionHashRejected := false
          verifyAttempts := verifyMaxAttempts }
  | verified (claimedAt : ℕ) (blockedAt : Option ℕ) (hash : String)
      (height code : ℕ)
      (hopen : row.lifecycle = .unknown claimedAt (some hash) blockedAt)
      (hproof : proves row.id hash (.verified height code))
      (hevent : event = .answer row.id hash (.proof (.verified height code))) :
      CardMove now event row
        (row.write (.verified claimedAt ⟨hash, height, code, now⟩) (some hash))
  | revoked (claimedAt blockedAt : ℕ) (hash : Option String)
      (hblocked : row.lifecycle = .unknown claimedAt hash (some blockedAt)) :
      CardMove now event row
        { row.write (.ended .revoked now) hash with ownerRevoked := true }
  | closed (claimedAt : ℕ)
      (hopen : row.lifecycle = .claimed claimedAt ∨
        ∃ blockedAt, row.lifecycle = .unknown claimedAt none blockedAt)
      (hevent : event = .closeUnexecuted) :
      CardMove now event row { row.write (.ended .revoked now) none with
          unexecutedClose := true
          unexecutedClaimedAt := some claimedAt
          closedUnexecuted := true }

/-- What every row keeps. -/
structure ProposalRow.Sound (row : ProposalRow) : Prop where
  status : row.status = row.lifecycle.status
  hash : ∀ hash, row.lifecycle.transactionHash = some hash →
    row.transactionHash = some hash
  column : ∀ hash, row.transactionHash = some hash →
    row.lifecycle.transactionHash = some hash ∨ row.status = .revoked
  upper : ∀ hash, row.transactionHash = some hash → normalizeHash hash = hash
  flag : row.transactionHashRejected = true → ∃ hash,
    row.transactionHash = some hash ∧ proves row.id hash .memoMismatch
  closed : row.unexecutedClose = true → row.transactionHash = none ∧
    row.closedUnexecuted = true ∧ row.ownerRevoked = false ∧
      row.status = .revoked
  blocked : ∀ claimedAt hash blockedAt,
    row.lifecycle = .unknown claimedAt hash (some blockedAt) →
      ∃ recorded, hash = some recorded ∧
        proves row.id recorded .subjectMismatch
  claimedOnce : row.timesClaimed ≤ 1
  unclaimed : row.lifecycle = .prepared → row.timesClaimed = 0 ∧
    row.transactionHash = none
  swept : row.closedUnexecuted = true → row.lifecycle ≠ .prepared
  ownerRevoked : row.ownerRevoked = true → row.status = .revoked

end Moves

section Rows

variable {proves : String → String → TransactionProof → Prop}
  {now : ℕ} {event : ProposalEvent} {row row' : ProposalRow}

theorem CardMove.identity (h : CardMove proves now event row row') :
    row'.serial = row.serial ∧ row'.subject = row.subject ∧
      row'.digest = row.digest ∧ row'.createdAt = row.createdAt := by
  cases h <;> exact ⟨rfl, rfl, rfl, rfl⟩

theorem CardMove.ident (h : CardMove proves now event row row') :
    row'.id = row.id := by
  unfold ProposalRow.id
  rw [h.identity.2.1]

attribute [local grind =] ProposalRow.write ProposalRow.fresh ProposalRow.id
  ProposalRow.Open ProposalRow.lookedUp ProposalRow.deferred
  ActionLifecycle.transactionHash ActionLifecycle.status
  normalizeHash_normalizeHash

theorem ProposalRow.Sound.move (h : row.Sound proves)
    (hmove : CardMove proves now event row row') :
    row'.Sound proves := by
  rcases h with ⟨hstatus, hhash, hcolumn, hupper, hflag, hclosed,
    hblocked, honce, hunclaimed, hswept, howner⟩
  cases hmove with
  | same => constructor <;> assumption
  | lookedUp _ => constructor <;> assumption
  | deferred _ _ _ _ _ => constructor <;> assumption
  | claimed hprepared _ _ => constructor <;> grind -ring -linarith
  | ended status hprepared _ => constructor <;> grind -ring -linarith
  | reopened endedAt claimedAt hash hrevoked _ _ => constructor <;> grind -ring -linarith
  | recorded claimedAt current hash hopen _ _ _ => constructor <;> grind -ring -linarith
  | kept claimedAt current hopen => constructor <;> grind -ring -linarith
  | rejected hash hcolumn hproof => constructor <;> grind -ring -linarith
  | blocked claimedAt hash hopen hproof => constructor <;> grind -ring -linarith
  | verified claimedAt blockedAt hash height code hopen _ _ =>
      constructor <;> grind -ring -linarith
  | revoked claimedAt blockedAt hash hopen => constructor <;> grind -ring -linarith
  | closed claimedAt hopen _ => constructor <;> grind -ring -linarith

namespace ProposalRow.Open

variable {claimedAt : ℕ} {current : Option String}

theorem hash_eq (h : row.Open claimedAt current) :
    row.lifecycle.transactionHash = current := by
  rcases h with ⟨hopen, rfl⟩ | hopen
  · rw [hopen]
    rfl
  · rw [hopen]
    rfl

theorem not_revoked (h : row.Open claimedAt current)
    (hsound : row.Sound proves) : row.status ≠ .revoked := by
  rw [hsound.status]
  rcases h with ⟨hopen, -⟩ | hopen
  · simp [hopen, ActionLifecycle.status]
  · simp [hopen, ActionLifecycle.status]

/-- The column holds the current hash, in upper case. -/
theorem column (h : row.Open claimedAt current) (hsound : row.Sound proves) :
    row.transactionHash = current := by
  cases hcolumn : row.transactionHash with
  | some hash =>
    rcases hsound.column hash hcolumn with hlife | hrevoked
    · rw [← hlife, h.hash_eq]
    · exact absurd hrevoked (h.not_revoked hsound)
  | none =>
    cases current with
    | none => rfl
    | some hash =>
      have hlife := hsound.hash hash h.hash_eq
      rw [hcolumn] at hlife
      cases hlife

end ProposalRow.Open

/-- A hash that a row holds is in upper case already. -/
theorem ProposalRow.Sound.upper_map (h : row.Sound proves)
    {current : Option String} (hcurrent : row.lifecycle.transactionHash = current) :
    current.map normalizeHash = current := by
  cases current with
  | none => rfl
  | some hash => exact congrArg some (h.upper hash (h.hash hash hcurrent))

end Rows

namespace ActionProposalStore

variable (proves : String → String → TransactionProof → Prop)

structure Sound (s : ActionProposalStore) : Prop where
  ids : (s.rows.map ProposalRow.id).Nodup
  invocations : (s.rows.map fun row => row.subject.invocationId).Nodup
  serials : (s.rows.map ProposalRow.serial).Nodup
  numbered : ∀ row ∈ s.rows, row.serial < s.inserted
  hashes : ∀ row ∈ s.rows, ∀ other ∈ s.rows, ∀ hash,
    row.transactionHash = some hash → other.transactionHash = some hash →
      other.id = row.id
  rows : ∀ row ∈ s.rows, row.Sound proves
  read : ∀ proposal ∈ s.read, ∀ hash,
    proposal.lifecycle.transactionHash = some hash → normalizeHash hash = hash
  lookups : ∀ lookup ∈ s.lookups, normalizeHash lookup.2 = lookup.2

/-- What a method does to the table: every row is an old one moved, or new. -/
structure Advance (now : ℕ) (event : ProposalEvent)
    (s s' : ActionProposalStore) : Prop where
  sound : s'.Sound proves
  clock : s'.clock = s.clock
  lookups : s'.lookups = s.lookups
  inserted : s.inserted ≤ s'.inserted
  moves : ∀ row' ∈ s'.rows, (∃ row ∈ s.rows,
    CardMove proves now event row row') ∨
      s.inserted ≤ row'.serial ∧ row'.lifecycle = .prepared

end ActionProposalStore

namespace ActionProposalStore

variable {proves : String → String → TransactionProof → Prop}
  {digestActionProposal : ActionProposalSubject → String}
  {verifier : String → String → Option TransactionProof}
  {now : ℕ} {event : ProposalEvent} {s s' : ActionProposalStore}
  {id : String} {row : ProposalRow} {change : ProposalRow → ProposalRow}

theorem Sound.refl (h : s.Sound proves) : s.Advance proves now event s :=
  ⟨h, rfl, rfl, Nat.le_refl _, fun row' hrow' => .inl ⟨row', hrow', .same⟩⟩

theorem get_eq_some (hget : s.get id = some row) :
    row ∈ s.rows ∧ row.id = id :=
  KeyedRows.get_eq_some hget

theorem Sound.get_unique (h : s.Sound proves)
    (hget : s.get id = some row) {other : ProposalRow}
    (hother : other ∈ s.rows) (hid : other.id = id) : other = row :=
  KeyedRows.eq_of_get h.ids hget hother hid

/-- Moving the card with an id. -/
theorem Sound.updateRow (h : s.Sound proves)
    (hmove : ∀ row ∈ s.rows, row.id = id →
      CardMove proves now event row (change row))
    (hone : ∀ row ∈ s.rows, row.id = id → ∀ hash,
      (change row).transactionHash = some hash → ∀ other ∈ s.rows,
        other.transactionHash = some hash → other.id = id) :
    s.Advance proves now event
      (s.updateRow id change) := by
  have hid : ∀ row ∈ s.rows, row.id = id → (change row).id = row.id :=
    fun row hrow heq => (hmove row hrow heq).ident
  constructor
  · constructor
    · exact (KeyedRows.map_update _ hid).symm ▸ h.ids
    · have hsame := KeyedRows.map_update
        (fun row : ProposalRow => row.subject.invocationId)
        fun row hrow heq => by rw [(hmove row hrow heq).identity.2.1]
      exact hsame.symm ▸ h.invocations
    · have hsame := KeyedRows.map_update ProposalRow.serial
        fun row hrow heq => (hmove row hrow heq).identity.1
      exact hsame.symm ▸ h.serials
    · intro row' hrow'
      rcases KeyedRows.mem_update hrow' with
        ⟨row, hrow, ⟨heq, rfl⟩ | ⟨-, rfl⟩⟩
      · rw [(hmove row hrow heq).identity.1]
        exact h.numbered row hrow
      · exact h.numbered row' hrow
    · intro left hleft right hright hash hlefthash hrighthash
      rcases KeyedRows.mem_update hleft with
        ⟨row, hrow, ⟨heq, rfl⟩ | ⟨hne, rfl⟩⟩
      · rw [hid row hrow heq, heq]
        rcases KeyedRows.mem_update hright with
          ⟨other, hother, ⟨heq', rfl⟩ | ⟨-, rfl⟩⟩
        · rw [hid other hother heq', heq']
        · exact hone row hrow heq hash hlefthash right hother hrighthash
      · rcases KeyedRows.mem_update hright with
          ⟨other, hother, ⟨heq', rfl⟩ | ⟨-, rfl⟩⟩
        · exact absurd (hone other hother heq' hash hrighthash left hrow
            hlefthash) hne
        · exact h.hashes left hrow right hother hash hlefthash hrighthash
    · intro row' hrow'
      rcases KeyedRows.mem_update hrow' with
        ⟨row, hrow, ⟨heq, rfl⟩ | ⟨-, rfl⟩⟩
      · exact (h.rows row hrow).move (hmove row hrow heq)
      · exact h.rows row' hrow
    · exact h.read
    · exact h.lookups
  · rfl
  · rfl
  · exact Nat.le_refl _
  · intro row' hrow'
    rcases KeyedRows.mem_update hrow' with
      ⟨row, hrow, ⟨heq, rfl⟩ | ⟨-, rfl⟩⟩
    · exact .inl ⟨row, hrow, hmove row hrow heq⟩
    · exact .inl ⟨row', hrow, .same⟩

/-- A move that keeps the hash column. -/
theorem Sound.updateRow_hash (h : s.Sound proves)
    (hmove : ∀ row ∈ s.rows, row.id = id →
      CardMove proves now event row (change row))
    (hhash : ∀ row ∈ s.rows, row.id = id →
      (change row).transactionHash = row.transactionHash) :
    s.Advance proves now event
      (s.updateRow id change) := by
  apply h.updateRow hmove
  intro row hrow heq hash hsome other hother hsame
  rw [hhash row hrow heq] at hsome
  rw [← heq]
  exact h.hashes row hrow other hother hash hsome hsame

theorem updateRow_updateRow (first second : ProposalRow → ProposalRow)
    (hid : ∀ row, (first row).id = row.id) :
    (s.updateRow id first).updateRow id second =
      s.updateRow id fun row => second (first row) := by
  unfold ActionProposalStore.updateRow
  rw [KeyedRows.update_update first second hid]

variable {lifecycle : ActionLifecycle} {retainedHash hash : Option String}

theorem writeLifecycle_eq_ok
    (hhash : (lifecycle.transactionHash.or retainedHash).map normalizeHash =
      hash)
    (hwrite : s.writeLifecycle id lifecycle retainedHash = .ok s') :
    s' = s.updateRow id (fun row => row.write lifecycle hash) ∧
      ∀ text, hash = some text → ∀ other ∈ s.rows,
        other.transactionHash = some text → other.id = id := by
  unfold writeLifecycle at hwrite
  dsimp only at hwrite
  rw [hhash] at hwrite
  split_ifs at hwrite with htaken
  refine ⟨(Except.ok.inj hwrite).symm, ?_⟩
  rintro text rfl other hother hsame
  by_contra hne
  exact htaken ⟨rfl, other, hother, hsame, hne⟩

/-- A lifecycle write after which the row may change further. -/
theorem Sound.written (h : s.Sound proves)
    (change : ProposalRow → ProposalRow)
    (hhash : (lifecycle.transactionHash.or retainedHash).map normalizeHash =
      hash)
    (hwrite : s.writeLifecycle id lifecycle retainedHash = .ok s')
    (hget : s.get id = some row)
    (hmove : CardMove proves now event row
      (change (row.write lifecycle hash)))
    (hkeep : ∀ row, (change row).transactionHash = row.transactionHash) :
    s.Advance proves now event
      (s'.updateRow id change) := by
  rcases writeLifecycle_eq_ok hhash hwrite with ⟨rfl, hone⟩
  rw [updateRow_updateRow]
  swap
  · intro row
    rfl
  apply h.updateRow
  · intro other hother hid
    rw [h.get_unique hget hother hid]
    exact hmove
  · intro other _ _ text htext holder hholder hsame
    rw [hkeep] at htext
    exact hone text htext holder hholder hsame

theorem Sound.writeLifecycle (h : s.Sound proves)
    (hhash : (lifecycle.transactionHash.or retainedHash).map normalizeHash =
      hash)
    (hwrite : s.writeLifecycle id lifecycle retainedHash = .ok s')
    (hget : s.get id = some row)
    (hmove : CardMove proves now event row (row.write lifecycle hash)) :
    s.Advance proves now event s' := by
  rcases writeLifecycle_eq_ok hhash hwrite with ⟨rfl, hone⟩
  apply h.updateRow
  · intro other hother hid
    rw [h.get_unique hget hother hid]
    exact hmove
  · intro other _ _ text htext holder hholder hsame
    exact hone text htext holder hholder hsame

theorem Advance.noteRead (h : s.Advance proves now event s') (id : String) :
    s.Advance proves now event (s'.noteRead id) := by
  unfold ActionProposalStore.noteRead
  split
  next => exact h
  next row hget =>
    have hsound := h.sound
    refine { h with sound := { hsound with read := ?_ } }
    intro proposal hproposal hash hhash
    rcases List.mem_append.mp hproposal with hold | hnew
    · exact hsound.read proposal hold hash hhash
    · obtain rfl := List.mem_singleton.mp hnew
      have hrow := hsound.rows row (get_eq_some hget).1
      exact hrow.upper hash (hrow.hash hash hhash)

theorem Sound.create (h : s.Sound proves)
    {subject : ActionProposalSubject} {receiptOrigin : Bool}
    (hcreate : s.create digestActionProposal now subject receiptOrigin =
      .ok s') :
    s.Advance proves now event s' := by
  unfold ActionProposalStore.create at hcreate
  by_cases hmemo : subject.memo ≠ subject.id
  · rw [if_pos hmemo] at hcreate
    cases hcreate
  by_cases hdates : subject.expiresAt ≤ subject.createdAt
  · rw [if_neg hmemo, if_pos hdates] at hcreate
    cases hcreate
  rw [if_neg hmemo, if_neg hdates] at hcreate
  split at hcreate
  next prior _ =>
    rcases except_ite_eq_ok hcreate with ⟨-, hok⟩
    cases hok
    exact h.refl.noteRead _
  next hinvocation =>
    rcases except_ite_eq_ok hcreate with ⟨-, hunexpired⟩
    rcases except_ite_eq_ok hunexpired with ⟨hid, hok⟩
    cases hok
    have hget : s.get subject.id = none := by simpa using hid
    constructor
    · constructor
      · exact KeyedRows.nodup_append h.ids (KeyedRows.get_eq_none hget)
      · exact KeyedRows.nodup_append h.invocations
          (KeyedRows.get_eq_none hinvocation)
      · apply KeyedRows.nodup_append h.serials
        intro hmem
        rcases List.mem_map.mp hmem with ⟨row, hrow, heq⟩
        exact absurd heq (h.numbered row hrow).ne
      · intro row hrow
        rcases List.mem_append.mp hrow with hold | hnew
        · exact (h.numbered row hold).trans (Nat.lt_succ_self _)
        · obtain rfl := List.mem_singleton.mp hnew
          exact Nat.lt_succ_self _
      · intro row hrow other hother hash hhash hsame
        rcases List.mem_append.mp hrow with hold | hnew
        · rcases List.mem_append.mp hother with hold' | hnew'
          · exact h.hashes row hold other hold' hash hhash hsame
          · obtain rfl := List.mem_singleton.mp hnew'
            cases hsame
        · obtain rfl := List.mem_singleton.mp hnew
          cases hhash
      · intro row hrow
        rcases List.mem_append.mp hrow with hold | hnew
        · exact h.rows row hold
        · obtain rfl := List.mem_singleton.mp hnew
          constructor <;> simp [ActionLifecycle.transactionHash,
            ActionLifecycle.status]
      · exact h.read
      · exact h.lookups
    · rfl
    · rfl
    · exact Nat.le_succ _
    · intro row hrow
      rcases List.mem_append.mp hrow with hold | hnew
      · exact .inl ⟨row, hold, .same⟩
      · obtain rfl := List.mem_singleton.mp hnew
        exact .inr ⟨Nat.le_refl _, rfl⟩

theorem Sound.recordReference (h : s.Sound proves)
    (hget : s.get id = some row) {claimedAt : ℕ}
    {current hash : Option String} (hopen : row.Open claimedAt current)
    (hevent : event = .transition id (.reconcile hash))
    (hrecord : s.recordReference now row claimedAt current hash = .ok s') :
    s.Advance proves now event s' := by
  rcases get_eq_some hget with ⟨hrow, hid⟩
  have hid' : row.subject.id = id := hid
  have hcurrent := (h.rows row hrow).upper_map hopen.hash_eq
  have hkept : ∀ written : Option String, written.map normalizeHash =
      current → s.writeLifecycle id (.unknown claimedAt
        (written.map normalizeHash) none) none = .ok s' →
      s.Advance proves now event s' := by
    intro written hwritten hwrite
    rw [hwritten] at hwrite
    have hhash : ((ActionLifecycle.unknown claimedAt current
        none).transactionHash.or none).map normalizeHash = current := by
      simpa [ActionLifecycle.transactionHash] using hcurrent
    exact h.writeLifecycle hhash hwrite hget (.kept claimedAt current hopen)
  have hfresh : ∀ text : String, hash = some text →
      (current = none ∨ row.transactionHashRejected = true) →
      current ≠ some (normalizeHash text) →
      (s.scheduleFresh now id).writeLifecycle id (.unknown claimedAt
        (some (normalizeHash text)) none) none = .ok s' →
      s.Advance proves now event s' := by
    intro text htext hreplaced hnew hwrite
    have hhash : ((ActionLifecycle.unknown claimedAt
        (some (normalizeHash text)) none).transactionHash.or
          none).map normalizeHash = some (normalizeHash text) := by
      simp [ActionLifecycle.transactionHash]
    rcases writeLifecycle_eq_ok hhash hwrite with ⟨rfl, hone⟩
    unfold scheduleFresh
    rw [updateRow_updateRow]
    swap
    · intro row
      rfl
    apply h.updateRow
    · intro other hother heq
      rw [h.get_unique hget hother heq]
      exact .recorded claimedAt current text hopen hreplaced hnew
        (hid ▸ htext ▸ hevent)
    · intro other _ _ recorded hrecorded holder hholder hsame
      have himage : (if holder.subject.id = id then holder.fresh now
          else holder) ∈ (s.scheduleFresh now id).rows :=
        List.mem_map_of_mem hholder
      have hsameImage : (if holder.subject.id = id then holder.fresh now
          else holder).transactionHash = some recorded := by
        rw [← hsame]
        split <;> rfl
      have hidImage := hone recorded hrecorded _ himage hsameImage
      split at hidImage <;> exact hidImage
  unfold ActionProposalStore.recordReference at hrecord
  dsimp only at hrecord
  rw [hid'] at hrecord
  rcases except_ite_eq_ok hrecord with ⟨hallowed, hwrite⟩
  cases hash with
  | none =>
      apply hkept current hcurrent
      simpa using hwrite
  | some text =>
      cases current with
      | none =>
          apply hfresh text rfl (.inl rfl) (by simp)
          simpa using hwrite
      | some recorded =>
          by_cases hsame : recorded = normalizeHash text
          · apply hkept (some text)
            · rw [hsame]
              rfl
            · simpa [hsame] using hwrite
          · apply hfresh text rfl
            · right
              simpa [hsame] using hallowed
            · exact fun heq => hsame (Option.some.inj heq)
            · simpa [hsame] using hwrite

theorem Sound.reopen (h : s.Sound proves)
    (hget : s.get id = some row) {endedAt claimedAt : ℕ} {hash : String}
    (hrevoked : row.lifecycle = .ended .revoked endedAt)
    (hclosed : row.unexecutedClose = true)
    (hevent : event = .transition id (.reconcile (some hash)))
    (hreopen : s.reopen now id claimedAt hash = .ok s') :
    s.Advance proves now event s' := by
  rw [← (get_eq_some hget).2] at hevent
  unfold ActionProposalStore.reopen at hreopen
  split at hreopen
  next => cases hreopen
  next written hwrite =>
    cases hreopen
    have hhash : ((ActionLifecycle.unknown claimedAt
        (some (normalizeHash hash)) none).transactionHash.or
          none).map normalizeHash = some (normalizeHash hash) := by
      simp [ActionLifecycle.transactionHash]
    unfold scheduleFresh
    rw [updateRow_updateRow]
    swap
    · intro row
      rfl
    exact h.written _ hhash hwrite hget
      (.reopened endedAt claimedAt hash hrevoked hclosed hevent) fun _ => rfl

theorem Sound.reconcile (h : s.Sound proves)
    (hget : s.get id = some row) {hash : Option String}
    (hevent : event = .transition id (.reconcile hash))
    (hreconcile : s.reconcile now row hash = .ok s') :
    s.Advance proves now event s' := by
  have hid : row.subject.id = id := (get_eq_some hget).2
  unfold ActionProposalStore.reconcile at hreconcile
  split at hreconcile
  next =>
    split_ifs at hreconcile
    cases hreconcile
    exact h.refl
  next endedAt hlife =>
    split at hreconcile
    next hash claimedAt hclosed _ =>
      rw [hid] at hreconcile
      exact h.reopen hget hlife hclosed hevent hreconcile
    next => cases hreconcile
  next claimedAt hlife =>
    exact h.recordReference hget (.inl ⟨hlife, rfl⟩) hevent hreconcile
  next claimedAt current hlife =>
    exact h.recordReference hget (.inr hlife) hevent hreconcile
  next =>
    split_ifs at hreconcile
    cases hreconcile
    exact h.refl
  next => cases hreconcile

theorem consume_eq_ok (hget : s.get id = some row)
    (hconsume : s.consume now row lifecycle = .ok s') :
    row.lifecycle = .prepared ∧ now < row.subject.expiresAt ∧
      s.writeLifecycle id lifecycle none = .ok s' := by
  rcases except_ite_eq_ok hconsume with ⟨hused, hunexpired⟩
  rcases except_ite_eq_ok hunexpired with ⟨hexpired, hwrite⟩
  refine ⟨not_not.mp hused, not_le.mp hexpired, ?_⟩
  rw [← (get_eq_some hget).2]
  exact hwrite

theorem Sound.finish (h : s.Sound proves)
    (hget : s.get id = some row) (status : EndedStatus)
    (hstatus : status ≠ .revoked)
    (hconsume : s.consume now row (.ended status now) = .ok s') :
    s.Advance proves now event s' := by
  rcases consume_eq_ok hget hconsume with ⟨hprepared, hunexpired, hwrite⟩
  have hmove : CardMove proves now event row
      { row.write (.ended status now) none with
        ownerRevoked := row.ownerRevoked || decide (status = .revoked) } :=
    .ended status hprepared hunexpired
  rw [decide_eq_false hstatus, Bool.or_false] at hmove
  exact h.writeLifecycle rfl hwrite hget hmove

theorem Sound.revoke (h : s.Sound proves)
    (hget : s.get id = some row) (hrevoke : s.revoke now row = .ok s') :
    s.Advance proves now event
      (s'.updateRow id fun row => { row with ownerRevoked := true }) := by
  have hid : row.subject.id = id := (get_eq_some hget).2
  unfold ActionProposalStore.revoke at hrevoke
  split at hrevoke
  next claimedAt hash blockedAt hlife =>
    rw [hid] at hrevoke
    have hrow := h.rows row (get_eq_some hget).1
    have hhash : ((ActionLifecycle.ended .revoked now).transactionHash.or
        hash).map normalizeHash = hash := by
      apply hrow.upper_map
      rw [hlife]
      rfl
    exact h.written _ hhash hrevoke hget
      (.revoked claimedAt blockedAt hash hlife) fun _ => rfl
  next =>
    rcases consume_eq_ok hget hrevoke with ⟨hprepared, hunexpired, hwrite⟩
    have hmove : CardMove proves now event row
        { row.write (.ended .revoked now) none with
          ownerRevoked := row.ownerRevoked || decide
            (EndedStatus.revoked = .revoked) } :=
      .ended .revoked hprepared hunexpired
    rw [decide_eq_true rfl, Bool.or_true] at hmove
    exact h.written _ rfl hwrite hget hmove fun _ => rfl

theorem Sound.command (h : s.Sound proves)
    (hget : s.get id = some row) {command : ProposalCommand}
    (hevent : event = .transition id command)
    (hcommand : s.command now row command = .ok s') :
    s.Advance proves now event s' := by
  have hid : row.subject.id = id := (get_eq_some hget).2
  cases command with
  | reconcile hash => exact h.reconcile hget hevent hcommand
  | claim digest =>
      rcases except_ite_eq_ok hcommand with ⟨hdigest, hmap⟩
      rcases except_map_eq_ok hmap with ⟨claimed, hconsume, rfl⟩
      rcases consume_eq_ok hget hconsume with
        ⟨hprepared, hunexpired, hwrite⟩
      have hclaim : event = .transition row.id (.claim row.digest) := by
        rw [hevent, not_not.mp hdigest]
        exact congrArg (fun id => ProposalEvent.transition id
          (.claim digest)) hid.symm
      rw [hid]
      exact h.written _ rfl hwrite hget
        (.claimed hprepared hunexpired hclaim) fun _ => rfl
  | reject digest =>
      rcases except_ite_eq_ok hcommand with ⟨-, hconsume⟩
      exact h.finish hget .rejected nofun hconsume
  | revoke digest =>
      rcases except_ite_eq_ok hcommand with ⟨-, hmap⟩
      rcases except_map_eq_ok hmap with ⟨revoked, hrevoke, rfl⟩
      rw [hid]
      exact h.revoke hget hrevoke
  | supersede digest =>
      rcases except_ite_eq_ok hcommand with ⟨-, hconsume⟩
      exact h.finish hget .superseded nofun hconsume

theorem Sound.transition (h : s.Sound proves)
    {command : ProposalCommand} (hevent : event = .transition id command) :
    s.Advance proves now event
      (s.leave (s.transition now id command)) := by
  unfold ActionProposalStore.transition
  cases hget : s.get id with
  | none => exact h.refl
  | some row =>
      dsimp only
      cases hcommand : s.command now row command with
      | error error => exact h.refl
      | ok s' => exact (h.command hget hevent hcommand).noteRead id

/-- A lookup starts, or nothing happens. -/
theorem claimVerification_cases (s : ActionProposalStore) (now : ℕ)
    (id : String) :
    (s.claimVerification now id = (false, s) ∧
        ∀ row ∈ s.rows, row.id = id → now < row.verifyAfter) ∨
      s.claimVerification now id =
          (true, s.updateRow id (ProposalRow.lookedUp · now)) ∧
        ∃ row ∈ s.rows, row.id = id ∧ row.verifyAfter ≤ now := by
  unfold ActionProposalStore.claimVerification
  split
  next hnone =>
    refine .inl ⟨rfl, fun row hrow hid => ?_⟩
    have hnot := List.find?_eq_none.mp hnone row hrow
    by_contra hdue
    exact hnot (decide_eq_true ⟨hid, not_lt.mp hdue⟩)
  next found hfound =>
    have hdue : found.subject.id = id ∧ found.verifyAfter ≤ now := by
      simpa using List.find?_some hfound
    exact .inr ⟨rfl, found, List.mem_of_find?_eq_some hfound, hdue.1, hdue.2⟩

theorem Sound.lookedUp (h : s.Sound proves) {due : ProposalRow}
    (hdue : due ∈ s.rows) (hid : due.id = id)
    (hafter : due.verifyAfter ≤ now) :
    s.Advance proves now event
      (s.updateRow id (ProposalRow.lookedUp · now)) := by
  apply h.updateRow_hash
  · intro row hrow hrowId
    obtain rfl : row = due :=
      List.inj_on_of_nodup_map h.ids hrow hdue (hrowId.trans hid.symm)
    exact .lookedUp hafter
  · exact fun _ _ _ => rfl

theorem Sound.claimVerification (h : s.Sound proves) (id : String) :
    s.Advance proves now event (s.claimVerification now id).2 := by
  rcases s.claimVerification_cases now id with
    ⟨hclaim, -⟩ | ⟨hclaim, due, hdue, hid, hafter⟩
  · rw [hclaim]
    exact h.refl
  · rw [hclaim]
    exact h.lookedUp hdue hid hafter

theorem Sound.deferNotFound (h : s.Sound proves) {hash : String}
    (hevent : event = .answer id hash .notFound) :
    s.Advance proves now event (s.deferNotFound now id hash) := by
  apply h.updateRow_hash
  · intro row _ hid
    split
    next hguard =>
      exact .deferred hash (hid ▸ hevent) hguard.1 hguard.2.1 hguard.2.2
    next => exact .same
  · intro row _ _
    split <;> rfl

theorem Sound.markTransactionRejected
    (h : s.Sound proves) {hash : String}
    (hproof : proves id hash .memoMismatch) :
    s.Advance proves now event
      (s.markTransactionRejected id hash) := by
  apply h.updateRow_hash
  · intro row _ hid
    split
    next hguard =>
      rw [← hid] at hproof
      exact .rejected hash hguard.2 hproof
    next => exact .same
  · intro row _ _
    split <;> rfl

theorem Sound.blockExecution (h : s.Sound proves)
    {hash : String} (hproof : proves id hash .subjectMismatch) :
    s.Advance proves now event
      (s.leave (s.blockExecution now id hash)) := by
  unfold ActionProposalStore.blockExecution
  cases hget : s.get id with
  | none => exact h.refl
  | some row =>
      dsimp only
      split
      next claimedAt current hlife =>
        split_ifs with hother
        · exact h.refl
        · have hcurrent : current = some hash := not_not.mp hother
          subst hcurrent
          cases hwrite : s.writeLifecycle id (.unknown claimedAt (some hash)
              (some now)) none with
          | error error => exact h.refl
          | ok written =>
              rcases get_eq_some hget with ⟨hmem, hid⟩
              have hhash : ((ActionLifecycle.unknown claimedAt (some hash)
                  (some now)).transactionHash.or none).map normalizeHash =
                    some hash := by
                apply (h.rows row hmem).upper_map
                rw [hlife]
                rfl
              rw [← hid] at hproof
              exact h.written _ hhash hwrite hget
                (.blocked claimedAt hash hlife hproof) fun _ => rfl
      next => exact h.refl

theorem Sound.recordVerified (h : s.Sound proves)
    {hash : String} {height code : ℕ}
    (hproof : proves id hash (.verified height code))
    (hevent : event = .answer id hash (.proof (.verified height code))) :
    s.Advance proves now event
      (s.leave (s.recordVerified id ⟨hash, height, code, now⟩)) := by
  unfold ActionProposalStore.recordVerified
  cases hget : s.get id with
  | none => exact h.refl
  | some row =>
      dsimp only
      split
      next claimedAt current blockedAt hlife =>
        split_ifs with hother
        · exact h.refl
        · have hcurrent : current = some hash := not_not.mp hother
          subst hcurrent
          cases hwrite : s.writeLifecycle id (.verified claimedAt
              ⟨hash, height, code, now⟩) none with
          | error error => exact h.refl
          | ok written =>
              rcases get_eq_some hget with ⟨hmem, hid⟩
              have hhash : ((ActionLifecycle.verified claimedAt
                  ⟨hash, height, code, now⟩).transactionHash.or none).map
                    normalizeHash = some hash := by
                apply (h.rows row hmem).upper_map
                rw [hlife]
                rfl
              rw [← hid] at hproof hevent
              have hadvance := h.writeLifecycle hhash hwrite hget
                (.verified claimedAt blockedAt hash height code hlife hproof
                  hevent)
              have hsound := hadvance.sound
              exact { hadvance with sound := { hsound with } }
      next => exact h.refl

theorem Sound.lookupAnswered (h : s.Sound proves)
    {hash : String} {answer : LookupAnswer}
    (hupper : normalizeHash hash = hash)
    (hproof : ∀ proof, answer = .proof proof → proves id hash proof)
    (hevent : event = .answer id hash answer) :
    s.Advance proves now event
      (s.lookupAnswered now id hash answer) := by
  cases answer with
  | notFound => exact h.deferNotFound hevent
  | unavailable => exact h.refl
  | proof proof =>
      have hanswer := hproof proof rfl
      cases proof with
      | verified height code =>
          unfold ActionProposalStore.lookupAnswered
          rw [hupper]
          exact h.recordVerified hanswer hevent
      | memoMismatch => exact h.markTransactionRejected hanswer
      | subjectMismatch => exact h.blockExecution hanswer

theorem Sound.prune (h : s.Sound proves)
    (ids : List String) :
    s.Advance proves now event (s.prune ids) := by
  have hsub : (s.prune ids).rows.Sublist s.rows := List.filter_sublist
  constructor
  · exact ⟨h.ids.sublist (hsub.map _), h.invocations.sublist (hsub.map _),
      h.serials.sublist (hsub.map _),
      fun row hrow => h.numbered row (hsub.subset hrow),
      fun row hrow other hother => h.hashes row (hsub.subset hrow) other
        (hsub.subset hother),
      fun row hrow => h.rows row (hsub.subset hrow), h.read, h.lookups⟩
  · rfl
  · rfl
  · exact Nat.le_refl _
  · exact fun row hrow => .inl ⟨row, hsub.subset hrow, .same⟩

theorem refreshActionProposal_cases (s : ActionProposalStore) (now : ℕ)
    (proposal : ReadProposal) :
    s.refreshActionProposal now proposal = s ∨
      ∃ hash, s.refreshActionProposal now proposal =
          { s.updateRow proposal.id (ProposalRow.lookedUp · now) with
            lookups := s.lookups ++ [(proposal.id, hash)] } ∧
        proposal.lifecycle.transactionHash = some hash ∧
        ∃ row ∈ s.rows, row.id = proposal.id ∧ row.verifyAfter ≤ now := by
  unfold ActionProposalStore.refreshActionProposal
  split
  next claimedAt hash hlife =>
    rcases s.claimVerification_cases now proposal.id with
      ⟨hclaim, -⟩ | ⟨hclaim, hdue⟩
    · rw [hclaim]
      exact .inl rfl
    · rw [hclaim]
      exact .inr ⟨hash, rfl, by rw [hlife]; rfl, hdue⟩
  next => exact .inl rfl

/-- A card that `closeUnexecuted` closed. -/
def ClosedBy (now : ℕ) (row row' : ProposalRow) : Prop :=
  ∃ claimedAt, (row.lifecycle = .claimed claimedAt ∨
      ∃ blockedAt, row.lifecycle = .unknown claimedAt none blockedAt) ∧
    row' = { row.write (.ended .revoked now) none with
      unexecutedClose := true
      unexecutedClaimedAt := some claimedAt
      closedUnexecuted := true }

/-- What the sweep has done so far. -/
structure Swept (proves : String → String → TransactionProof → Prop)
    (now : ℕ) (s s' : ActionProposalStore) : Prop where
  sound : s'.Sound proves
  clock : s'.clock = s.clock
  lookups : s'.lookups = s.lookups
  inserted : s'.inserted = s.inserted
  rows : ∀ row' ∈ s'.rows, ∃ row ∈ s.rows,
    row' = row ∨ ClosedBy now row row'

theorem Swept.closeRow (h : Swept proves now s s') (id : String) :
    Swept proves now s (closeRow now s' id) := by
  unfold ActionProposalStore.closeRow
  cases hget : s'.get id with
  | none => exact h
  | some row =>
      dsimp only
      split
      next claimedAt hclaimedAt hhash =>
        cases hwrite : s'.writeLifecycle id (.ended .revoked now) none with
        | error error => exact h
        | ok written =>
            have hopen : row.lifecycle = .claimed claimedAt ∨
                ∃ blockedAt, row.lifecycle =
                  .unknown claimedAt none blockedAt := by
              cases hlife : row.lifecycle with
              | claimed at' =>
                  rw [hlife] at hclaimedAt
                  cases hclaimedAt
                  exact .inl rfl
              | unknown at' hash blockedAt =>
                  rw [hlife] at hclaimedAt hhash
                  cases hclaimedAt
                  obtain rfl : hash = none := hhash
                  exact .inr ⟨blockedAt, rfl⟩
              | prepared =>
                  rw [hlife] at hclaimedAt
                  cases hclaimedAt
              | ended status endedAt =>
                  rw [hlife] at hclaimedAt
                  cases hclaimedAt
              | verified at' transaction =>
                  rw [hlife] at hhash
                  cases hhash
            rcases writeLifecycle_eq_ok rfl hwrite with ⟨rfl, -⟩
            have hadvance : s'.Advance proves now .closeUnexecuted _ :=
              h.sound.written (fun row => { row with
                unexecutedClose := true
                unexecutedClaimedAt := some claimedAt
                closedUnexecuted := true }) rfl hwrite hget
              (.closed claimedAt hopen rfl) fun _ => rfl
            refine ⟨hadvance.sound, h.clock, h.lookups, h.inserted, ?_⟩
            intro row' hrow'
            dsimp only at hrow'
            rw [updateRow_updateRow] at hrow'
            swap
            · intro row
              rfl
            rcases KeyedRows.mem_update hrow' with
              ⟨old, hold, ⟨hid, rfl⟩ | ⟨-, rfl⟩⟩
            · rw [h.sound.get_unique hget hold hid]
              rcases h.rows row (get_eq_some hget).1 with
                ⟨before, hbefore, rfl | ⟨at', -, rfl⟩⟩
              · exact ⟨row, hbefore, .inr ⟨claimedAt, hopen, rfl⟩⟩
              · -- a closed card is not open any more
                rcases hopen with hlife | ⟨blockedAt, hlife⟩
                · cases hlife
                · cases hlife
            · exact h.rows row' hold
      next => exact h

theorem Sound.closeUnexecuted (h : s.Sound proves) :
    s.Advance proves now .closeUnexecuted (s.closeUnexecuted now) := by
  have hall : ∀ (ids : List String) (t : ActionProposalStore),
      Swept proves now s t → Swept proves now s
        (ids.foldl (ActionProposalStore.closeRow now) t) := by
    intro ids
    induction ids with
    | nil => exact fun t ht => ht
    | cons id ids ih => exact fun t ht => ih _ (ht.closeRow id)
  have hswept : Swept proves now s (s.closeUnexecuted now) := hall _ s
    ⟨h, rfl, rfl, rfl, fun row' hrow' => ⟨row', hrow', .inl rfl⟩⟩
  refine ⟨hswept.sound, hswept.clock, hswept.lookups, hswept.inserted.ge, ?_⟩
  intro row' hrow'
  rcases hswept.rows row' hrow' with ⟨row, hrow, rfl | ⟨at', hopen, rfl⟩⟩
  · exact .inl ⟨row', hrow, .same⟩
  · exact .inl ⟨row, hrow, .closed at' hopen rfl⟩

theorem Sound.noteAll (h : s.Sound proves)
    (ids : List String) :
    s.Advance proves now event
      (ids.foldl ActionProposalStore.noteRead s) := by
  have hall : ∀ (ids : List String) (t : ActionProposalStore),
      s.Advance proves now event t →
      s.Advance proves now event
        (ids.foldl ActionProposalStore.noteRead t) := by
    intro ids
    induction ids with
    | nil => exact fun t ht => ht
    | cons id ids ih => exact fun t ht => ih _ (ht.noteRead id)
  exact hall ids s h.refl

/-- What an event does to the lookups in flight. -/
inductive LookupMove (now : ℕ) (event : ProposalEvent)
    (s s' : ActionProposalStore) : Prop where
  | same (h : s'.lookups = s.lookups)
      (hevent : ∀ id hash answer, event ≠ .answer id hash answer) :
      LookupMove now event s s'
  | started (id hash : String) (h : s'.lookups = s.lookups ++ [(id, hash)])
      (hevent : ∃ lifecycle, event = .refresh ⟨id, lifecycle⟩)
      (hrows : ∀ row' ∈ s'.rows, row'.id = id → ∃ row ∈ s.rows,
        row.verifyAfter ≤ now ∧ row' = row.lookedUp now) :
      LookupMove now event s s'
  | answered (id hash : String) (answer : LookupAnswer)
      (hevent : event = .answer id hash answer)
      (hheld : (id, hash) ∈ s.lookups)
      (h : s'.lookups = s.lookups.erase (id, hash)) :
      LookupMove now event s s'

/-- `Advance`, with what the event does to the lookups and the clock. -/
structure Turned (proves : String → String → TransactionProof → Prop)
    (now : ℕ) (event : ProposalEvent) (s s' : ActionProposalStore) :
    Prop where
  sound : s'.Sound proves
  later : s.clock ≤ now
  clock : s'.clock = now
  lookups : LookupMove now event s s'
  inserted : s.inserted ≤ s'.inserted
  moves : ∀ row' ∈ s'.rows, (∃ row ∈ s.rows,
    CardMove proves now event row row') ∨
      s.inserted ≤ row'.serial ∧ row'.lifecycle = .prepared

/-- Every event. -/
theorem Sound.step (h : s.Sound proves)
    (hproves : ∀ id hash proof, verifier id hash = some proof →
      proves id hash proof)
    (hstep : s.step digestActionProposal verifier (now, event) = some s') :
    Turned proves now event s s' := by
  rcases Option.ite_none_left_eq_some.mp hstep with ⟨hlater, hevent⟩
  have hclock : ({ s with clock := now } : ActionProposalStore).Sound
      proves := { h with }
  have hplain : (∀ id hash answer, event ≠ .answer id hash answer) →
      ({ s with clock := now } : ActionProposalStore).Advance proves now
        event s' → Turned proves now event s s' :=
    fun hother hadvance => { hadvance with
      later := not_lt.mp hlater
      lookups := .same hadvance.lookups hother }
  cases event with
  | create subject receiptOrigin =>
      cases hevent
      apply hplain nofun
      cases hcreate : ({ s with clock := now } : ActionProposalStore).create
          digestActionProposal now subject receiptOrigin with
      | error error => exact hclock.refl
      | ok created => exact hclock.create hcreate
  | get id =>
      cases hevent
      exact hplain nofun (hclock.refl.noteRead id)
  | transition id command =>
      apply hplain nofun
      dsimp only at hevent
      split at hevent
      next hash =>
        split_ifs at hevent
        cases hevent
        exact hclock.transition rfl
      next =>
        cases hevent
        exact hclock.transition rfl
  | dueVerifications limit =>
      cases hevent
      exact hplain nofun (hclock.noteAll _)
  | refresh proposal =>
      rcases Option.ite_none_right_eq_some.mp hevent with ⟨hread, hsome⟩
      cases hsome
      rcases refreshActionProposal_cases { s with clock := now } now
          proposal with
        hsame | ⟨hash, hgranted, hlife, due, hdue, hid, hafter⟩
      · apply hplain nofun
        rw [hsame]
        exact hclock.refl
      · rw [hgranted]
        have hadvance : Advance proves now (.refresh proposal) _ _ :=
          hclock.lookedUp hdue hid hafter
        have hsound := hadvance.sound
        refine ⟨{ hsound with lookups := ?_ }, not_lt.mp hlater, rfl,
          .started proposal.id hash rfl ⟨proposal.lifecycle, rfl⟩ ?_,
          hadvance.inserted, hadvance.moves⟩
        · intro lookup hlookup
          rcases List.mem_append.mp hlookup with hold | hnew
          · exact h.lookups lookup hold
          · obtain rfl := List.mem_singleton.mp hnew
            exact h.read proposal hread hash hlife
        · intro row' hrow' hrowId
          rcases KeyedRows.mem_update hrow' with
            ⟨row, hrow, ⟨heq, rfl⟩ | ⟨hne, rfl⟩⟩
          · obtain rfl : row = due := List.inj_on_of_nodup_map h.ids hrow
              hdue (heq.trans hid.symm)
            exact ⟨row, hrow, hafter, rfl⟩
          · exact absurd hrowId hne
  | answer id hash answer =>
      rcases Option.ite_none_right_eq_some.mp hevent with ⟨hheld, hsome⟩
      have herased : ({ s with
          clock := now
          lookups := s.lookups.erase (id, hash) } :
            ActionProposalStore).Sound proves :=
        { h with
          lookups := fun lookup hmem => h.lookups lookup
            (List.mem_of_mem_erase hmem) }
      have hanswered : (∀ proof, answer = .proof proof →
          proves id hash proof) ∧ (({ s with
            clock := now
            lookups := s.lookups.erase (id, hash) } :
              ActionProposalStore).lookupAnswered now id hash
                answer).noteRead id = s' := by
        dsimp only at hsome
        split at hsome
        next proof =>
          rcases Option.ite_none_right_eq_some.mp hsome with ⟨hproof, hdone⟩
          refine ⟨fun other heq => ?_, Option.some.inj hdone⟩
          rw [← LookupAnswer.proof.inj heq]
          exact hproves id hash proof hproof
        next hindefinite =>
          exact ⟨fun other heq => absurd heq (hindefinite other),
            Option.some.inj hsome⟩
      rcases hanswered with ⟨hproofs, rfl⟩
      have hadvance : Advance proves now (.answer id hash answer) _ _ :=
        (herased.lookupAnswered (h.lookups (id, hash) hheld) hproofs
          rfl).noteRead id
      exact { hadvance with
        later := not_lt.mp hlater
        lookups := .answered id hash answer rfl hheld hadvance.lookups }
  | claimVerification id =>
      cases hevent
      exact hplain nofun (hclock.claimVerification id)
  | closeUnexecuted =>
      cases hevent
      exact hplain nofun hclock.closeUnexecuted
  | prune ids =>
      rcases Option.ite_none_right_eq_some.mp hevent with ⟨-, hsome⟩
      cases hsome
      exact hplain nofun (hclock.prune ids)
  | receiptMirrored id =>
      cases hevent
      exact hplain nofun { hclock.refl with sound := { hclock with } }
  | receiptAbandoned id =>
      cases hevent
      exact hplain nofun { hclock.refl with sound := { hclock with } }

theorem sound_empty : empty.Sound proves := by
  constructor <;> simp [empty]

end ActionProposalStore

end QiForge
