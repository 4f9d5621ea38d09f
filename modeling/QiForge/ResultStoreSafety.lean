import QiForge.ResultRead
import QiForge.ResultStoreRuns

/-!
# The handles of the result store

A removal deletes objects before rows, and while it runs the rows it is about
to delete are held by no session or have expired.  So what is promised can be
read, as long as no removal is given up between an object and its row; a
removal given up there leaves a row that is later revived without its object.
-/

namespace QiForge
namespace ResultStore
namespace State

variable {Id Session : Type*} {o : Options}

/-! ## Rows and their objects -/

/-- The row is that of a text, and an R2 row has its object unless it is
excused. -/
def RowBacked (o : Options) (row : ResultRow Session)
    (object : Option (List UInt8)) (excused : Prop) : Prop :=
  ∃ content, resultRow o row.sessionId content row.expiresAt = some row ∧
    (row.tier = .r2 → object = some (utf8 content) ∨ excused ∧ object = none)

variable {row : ResultRow Session} {object : Option (List UInt8)}

theorem RowBacked.imp {excused excused' : Prop}
    (h : RowBacked o row object excused) (himp : excused → excused') :
    RowBacked o row object excused' := by
  rcases h with ⟨content, hrow, hobject⟩
  refine ⟨content, hrow, fun htier => ?_⟩
  rcases hobject htier with hsome | ⟨hexcused, hnone⟩
  · exact Or.inl hsome
  · exact Or.inr ⟨himp hexcused, hnone⟩

variable {sessionId : Session} {content : List Char} {expiresAt : ℕ}

/-- The session and the expiry of a row are columns of their own. -/
theorem resultRow_with
    (hrow : resultRow o sessionId content expiresAt = some row)
    (sessionId' : Session) (expiresAt' : ℕ) :
    resultRow o sessionId' content expiresAt' =
      some { row with sessionId := sessionId', expiresAt := expiresAt' } := by
  simp only [resultRow] at hrow ⊢
  split_ifs at hrow ⊢ <;> obtain rfl := Option.some.inj hrow <;> rfl

theorem resultRow_tier
    (hrow : resultRow o sessionId content expiresAt = some row) :
    row.tier = .r2 ↔ useR2 o (utf8 content) = true := by
  simp only [resultRow] at hrow
  split_ifs at hrow with huse hlarge <;>
    obtain rfl := Option.some.inj hrow <;> simp [huse]

theorem RowBacked.expireAt {excused : Prop}
    (h : RowBacked o row object excused) (expiresAt : ℕ) :
    RowBacked o { row with expiresAt } object excused := by
  rcases h with ⟨content, hrow, hobject⟩
  exact ⟨content, resultRow_with hrow _ _, hobject⟩

theorem RowBacked.read_ok {excused : Prop} {now : ℕ}
    (h : RowBacked o row object excused) (hexcused : ¬excused)
    (hnow : now < row.expiresAt) (offset length : ℤ) :
    ∃ chunk, read o (some row) object now offset length = .ok chunk := by
  rcases h with ⟨content, hrow, hobject⟩
  simp only [read]
  rw [if_neg (by omega)]
  rcases (by cases row.tier <;> simp : row.tier = .sqlite ∨ row.tier = .r2)
    with htier | htier
  · simp [readChunk, readWindow, htier]
  have huse := (resultRow_tier hrow).mp htier
  have hsame : object = resultObject o content := by
    rw [resultObject, if_pos huse]
    rcases hobject htier with hsome | ⟨hex, -⟩
    · exact hsome
    · exact absurd hex hexcused
  rw [hsame]
  have hwhole : KeptWhole o content := by
    intro hnot
    exact absurd (huse.symm.trans hnot) (by simp)
  have hsize := resultRow_size hrow
  have hclamp : readChunk o row (resultObject o content) offset length =
      readChunk o row (resultObject o content)
        (requestedOffset row.size offset : ℕ) length := by
    have hidem : requestedOffset row.size offset =
        requestedOffset row.size (requestedOffset row.size offset : ℕ) := by
      rw [requestedOffset, requestedOffset]
      omega
    simp only [readChunk]
    rw [← hidem]
  have hle : requestedOffset row.size offset ≤ (utf8 content).length := by
    rw [requestedOffset, hsize]
    omega
  have hread : ∃ chunk front mid rest, readChunk o row (resultObject o content)
          (requestedOffset row.size offset : ℕ) length = .ok chunk ∧
        ReadsAt content _ chunk front mid rest :=
    readChunk_stored hrow hwhole rfl hle
  rcases hread with ⟨chunk, -, -, -, hread, -⟩
  exact ⟨chunk, hclamp.trans hread⟩

variable [DecidableEq Id] {s : State Id Session}

/-- Every row that has not expired at `t` is backed, but for the rows in
`ids`. -/
def Backed (o : Options) (s : State Id Session) (ids : List Id) (t : ℕ) :
    Prop :=
  ∀ id row, s.rows.get? id = some row → t < row.expiresAt →
    RowBacked o row (s.objects id) (id ∈ ids)

theorem Backed.later {ids : List Id} {t t' : ℕ} (h : s.Backed o ids t)
    (hle : t ≤ t') : s.Backed o ids t' :=
  fun id row hrow hlt => h id row hrow (by omega)

theorem Backed.widen {ids : List Id} {t : ℕ} (h : s.Backed o [] t) :
    s.Backed o ids t :=
  fun id row hrow hlt => (h id row hrow hlt).imp (by simp)

/-! ## The invariant -/

/-- What the request in progress relies on. -/
def Pending (hash : List UInt8 → Id) (o : Options) (s : State Id Session) :
    Work Id Session → Prop
  | .lookup _ _ startedAt =>
      startedAt ≤ s.now ∧ s.Backed o [] startedAt ∧
        ∀ id, (s.ledger id).expiresAt ≤ startedAt + o.ttlMs
  | .revive id _ expiresAt =>
      (∃ row, s.rows.get? id = some row ∧
        RowBacked o row (s.objects id) False) ∧
        expiresAt ≤ s.now + o.ttlMs ∧
        ∀ id, (s.ledger id).expiresAt ≤ expiresAt
  | .upload sessionId content expiresAt =>
      (∃ row, resultRow o sessionId content expiresAt = some row) ∧
        (∀ row, s.rows.get? (hash (utf8 content)) = some row →
          row.expiresAt ≤ s.now) ∧
        expiresAt ≤ s.now + o.ttlMs ∧
        ∀ id, (s.ledger id).expiresAt ≤ expiresAt
  | .insert sessionId content expiresAt =>
      (∀ row, resultRow o sessionId content expiresAt = some row →
          row.tier = .r2 →
            s.objects (hash (utf8 content)) = some (utf8 content)) ∧
        expiresAt ≤ s.now + o.ttlMs ∧
        ∀ id, (s.ledger id).expiresAt ≤ expiresAt
  | .dropReferences _ => True
  | .selectExpired _ startedAt => startedAt ≤ s.now
  | .deleteObjects removal todo kept =>
      (∀ id ∈ todo, id ∈ removal.rows.map Prod.fst) ∧
        ∀ id ∈ kept, id ∈ removal.rows.map Prod.fst
  | .deleteRows removal kept => ∀ id ∈ kept, id ∈ removal.rows.map Prod.fst

structure Sound (hash : List UInt8 → Id) (o : Options)
    (s : State Id Session) : Prop where
  backed : s.Backed o s.removing s.now
  pending : ∀ work, s.work = some work → s.Pending hash o work
  removal : ∀ id ∈ s.removing, (∀ other, (id, other) ∉ s.refs) ∨
      s.removingFor = none ∧
        ∀ row, s.rows.get? id = some row → row.expiresAt ≤ s.now
  kept : ∀ id, s.now < (s.ledger id).expiresAt →
    ∀ holder ∈ (s.ledger id).holders, (id, holder) ∈ s.refs ∧
      ∃ row, s.rows.get? id = some row ∧
        (s.ledger id).expiresAt ≤ row.expiresAt
  bound : ∀ id, (s.ledger id).expiresAt ≤ s.now + o.ttlMs
  handles : ∀ h ∈ s.handles, h.expiresAt ≤ (s.ledger h.id).expiresAt

variable {hash : List UInt8 → Id}

theorem Sound.init (now : ℕ) :
    Sound hash o (State.init now : State Id Session) where
  backed := by
    intro id row hrow
    simp [State.init] at hrow
  pending := by
    intro work hwork
    simp [State.init] at hwork
  removal := by
    intro id hid
    simp [State.init, removing] at hid
  kept := by
    intro id hlt
    simp [State.init] at hlt
  bound := by
    intro id
    exact Nat.zero_le _
  handles := by
    intro h hmem
    simp [State.init] at hmem

/-- A row being removed is promised to nobody. -/
theorem Sound.not_removing (h : Sound hash o s) {id : Id} {holder : Session}
    (hlt : s.now < (s.ledger id).expiresAt)
    (hholder : holder ∈ (s.ledger id).holders) : id ∉ s.removing := by
  intro hmem
  rcases h.kept id hlt holder hholder with ⟨href, row, hrow, hle⟩
  rcases h.removal id hmem with hnone | ⟨-, hexpired⟩
  · exact hnone holder href
  · have hrowLe := hexpired row hrow
    omega

theorem Sound.holds (h : Sound hash o s) : s.Holds o where
  objects := by
    intro id row hrow hlt htier hremoving
    rcases h.backed id row hrow hlt with ⟨content, -, hobject⟩
    rcases hobject htier with hsome | ⟨hmem, -⟩
    · rw [hsome]
      exact Option.some_ne_none _
    · exact absurd hmem hremoving
  readable := by
    intro handle hmem hlt hholders offset length
    have hle := h.handles handle hmem
    rcases List.exists_mem_of_ne_nil _ hholders with ⟨holder, hholder⟩
    have hpromised : s.now < (s.ledger handle.id).expiresAt := by omega
    rcases h.kept _ hpromised holder hholder with ⟨-, row, hrow, hrowLe⟩
    have hlive : s.now < row.expiresAt := by omega
    rw [hrow]
    exact (h.backed _ row hrow hlive).read_ok
      (h.not_removing hpromised hholder) hlive offset length
  unheld := by
    intro sessionId howner id hmem other
    rcases h.removal id hmem with hnone | ⟨hno, -⟩
    · exact hnone other
    · rw [howner] at hno
      simp at hno

/-! ## Steps that change no table -/

theorem Sound.tick (h : Sound hash o s) (ms : ℕ) :
    Sound hash o { s with now := s.now + ms } where
  backed := h.backed.later (Nat.le_add_right s.now ms)
  pending := by
    intro work hwork
    have hpending := h.pending work hwork
    cases work with
    | lookup sessionId content startedAt =>
        rcases hpending with ⟨hle, hrest⟩
        exact ⟨by dsimp only; omega, hrest⟩
    | revive id sessionId expiresAt =>
        rcases hpending with ⟨hrow, hle, hledger⟩
        exact ⟨hrow, by dsimp only; omega, hledger⟩
    | upload sessionId content expiresAt =>
        rcases hpending with ⟨hrow, hexpired, hle, hledger⟩
        refine ⟨hrow, ?_, by dsimp only; omega, hledger⟩
        intro row hget
        have hrowLe := hexpired row hget
        dsimp only
        omega
    | insert sessionId content expiresAt =>
        rcases hpending with ⟨hobject, hle, hledger⟩
        exact ⟨hobject, by dsimp only; omega, hledger⟩
    | dropReferences sessionId => trivial
    | selectExpired only startedAt =>
        exact Nat.le_add_right_of_le hpending
    | deleteObjects removal todo kept => exact hpending
    | deleteRows removal kept => exact hpending
  removal := by
    intro id hmem
    rcases h.removal id hmem with hnone | ⟨hno, hexpired⟩
    · exact Or.inl hnone
    · refine Or.inr ⟨hno, fun row hrow => ?_⟩
      exact Nat.le_add_right_of_le (hexpired row hrow)
  kept := by
    intro id hlt
    exact h.kept id (by dsimp only at hlt; omega)
  bound := by
    intro id
    have hle := h.bound id
    dsimp only
    omega
  handles := h.handles

/-- The work is forgotten, which costs nothing unless an object is lost. -/
theorem Sound.idle (h : Sound hash o s) (hlost : ¬s.Lost) :
    Sound hash o { s with work := none } where
  backed := by
    intro id row hrow hlt
    rcases h.backed id row hrow hlt with ⟨content, hstored, hobject⟩
    refine ⟨content, hstored, fun htier => Or.inl ?_⟩
    rcases hobject htier with hsome | ⟨hmem, hnone⟩
    · exact hsome
    · exact absurd ⟨id, hmem, row, hrow, hlt, htier, hnone⟩ hlost
  pending := by
    intro work hwork
    simp at hwork
  removal := by
    intro id hmem
    simp [removing] at hmem
  kept := h.kept
  bound := h.bound
  handles := h.handles

variable {work : Work Id Session}

/-- The next request; a removal may be about to start. -/
theorem Sound.goOn (h : Sound hash o s)
    (hbefore : s.removing = []) (hpending : s.Pending hash o work)
    (hremoval : ∀ id ∈ ({ s with work := some work } :
        State Id Session).removing,
      (∀ other, (id, other) ∉ s.refs) ∨ ({ s with work := some work } :
            State Id Session).removingFor = none ∧
          ∀ row, s.rows.get? id = some row → row.expiresAt ≤ s.now) :
    Sound hash o { s with work := some work } where
  backed := by
    have hbacked := h.backed
    rw [hbefore] at hbacked
    exact hbacked.widen
  pending := by
    intro work' hwork
    cases hwork
    cases work <;> exact hpending
  removal := hremoval
  kept := h.kept
  bound := h.bound
  handles := h.handles

theorem not_lost_of_removing (hremoving : s.removing = []) : ¬s.Lost := by
  rintro ⟨id, hmem, -⟩
  rw [hremoving] at hmem
  simp at hmem

/-! ## Stores -/

variable [DecidableEq Session]

/-- A commit that leaves a backed row under the id, and the other rows. -/
theorem Sound.handOut (h : Sound hash o s) (hremoving : s.removing = [])
    {id : Id}
    {rows : OrderedMap Id (ResultRow Session)}
    (hrow : ∃ row, rows.get? id = some row ∧ row.expiresAt = expiresAt ∧
      RowBacked o row (s.objects id) False)
    (hother : ∀ other, other ≠ id → rows.get? other = s.rows.get? other)
    (hle : expiresAt ≤ s.now + o.ttlMs)
    (hledger : ∀ id, (s.ledger id).expiresAt ≤ expiresAt) :
    Sound hash o (s.handOut id sessionId expiresAt rows) where
  backed := by
    intro other row hget hlt
    by_cases hid : other = id
    · subst hid
      rcases hrow with ⟨stored, hstored, -, hbacked⟩
      obtain rfl := Option.some.inj (hstored.symm.trans hget)
      exact hbacked.imp False.elim
    · have hold := h.backed other row ((hother other hid).symm.trans hget) hlt
      rw [hremoving] at hold
      exact hold.imp (by simp)
  pending := by
    intro work hwork
    simp [State.handOut] at hwork
  removal := by
    intro other hmem
    simp [State.handOut, removing] at hmem
  kept := by
    intro other hlt holder hholder
    by_cases hid : other = id
    · subst hid
      rcases hrow with ⟨row, hget, hexpires, -⟩
      refine ⟨?_, row, hget, ?_⟩
      · simp only [State.handOut, promise, Function.update_self] at hholder
        rw [State.handOut, List.mem_insert_iff]
        split_ifs at hholder with hlive
        · rcases List.mem_insert_iff.mp hholder with rfl | hbefore
          · exact Or.inl rfl
          · exact Or.inr (h.kept other hlive holder hbefore).1
        · exact Or.inl (by rw [List.mem_singleton.mp hholder])
      · simp only [State.handOut, promise, Function.update_self]
        exact hexpires.ge
    · simp only [State.handOut, promise, ne_eq, hid, not_false_eq_true,
        Function.update_of_ne] at hlt hholder ⊢
      rcases h.kept other hlt holder hholder with ⟨href, row, hget, hrowLe⟩
      exact ⟨List.mem_insert_of_mem href, row,
        (hother other hid).trans hget, hrowLe⟩
  bound := by
    intro other
    by_cases hid : other = id
    · subst hid
      simpa [State.handOut, promise] using hle
    · simpa [State.handOut, promise, hid] using h.bound other
  handles := by
    intro handle hmem
    rcases List.mem_cons.mp hmem with rfl | hbefore
    · simp [State.handOut, promise]
    · have hold := h.handles handle hbefore
      by_cases hid : handle.id = id
      · have hnew := hledger handle.id
        simp only [State.handOut, promise, hid, Function.update_self]
        omega
      · simpa [State.handOut, promise, hid] using hold

omit [DecidableEq Session] in
theorem get?_expireAt (rows : OrderedMap Id (ResultRow Session))
    (ids : List Id) (expiresAt : ℕ) (id : Id) :
    (expireAt rows ids expiresAt).get? id = (rows.get? id).map fun row =>
        if id ∈ ids then { row with expiresAt } else row :=
  OrderedMap.get?_mapValues _ rows id

omit [DecidableEq Session] in
theorem get?_upsert (rows : OrderedMap Id (ResultRow Session)) (id : Id)
    (row : ResultRow Session) (other : Id) :
    (upsert rows id row).get? other =
      if other = id then
        some { row with
            sessionId :=
              ((rows.get? id).map ResultRow.sessionId).getD row.sessionId }
      else rows.get? other := by
  rw [upsert]
  cases hold : rows.get? id with
  | none => exact OrderedMap.get?_set rows id row other
  | some old => exact OrderedMap.get?_set rows id _ other

theorem Sound.answer_lookup (h : Sound hash o s) {startedAt : ℕ}
    (hwork : s.work = some (.lookup sessionId content startedAt)) :
    Sound hash o
      (s.answered hash o (.lookup sessionId content startedAt)) := by
  have hremoving : s.removing = [] := by
    rw [removing, hwork]
  rcases h.pending _ hwork with ⟨hle, hbacked, hledger⟩
  simp only [answered]
  cases hexisting : (s.rows.get? (hash (utf8 content))).filter fun row =>
      decide (startedAt < row.expiresAt) with
  | some row =>
      rcases Option.filter_eq_some_iff.mp hexisting with ⟨hget, hlive⟩
      refine h.goOn hremoving ?_ (by simp [removing])
      have hrow := hbacked _ row hget (of_decide_eq_true hlive)
      exact ⟨⟨row, hget, hrow.imp (by simp)⟩, by omega, hledger⟩
  | none =>
      have hexpired : ∀ row, s.rows.get? (hash (utf8 content)) = some row →
          row.expiresAt ≤ s.now := by
        intro row hget
        rw [hget, Option.filter_eq_none_iff] at hexisting
        have hnot := hexisting row rfl
        simp at hnot
        omega
      cases hrow : resultRow o sessionId content (startedAt + o.ttlMs) with
      | none => exact h.idle (not_lost_of_removing hremoving)
      | some row =>
          dsimp only
          cases htier : row.tier with
          | r2 =>
              refine h.goOn hremoving ?_ (by simp [removing])
              exact ⟨⟨row, hrow⟩, hexpired, by omega, hledger⟩
          | sqlite =>
              refine h.goOn hremoving ?_ (by simp [removing])
              refine ⟨?_, by omega, hledger⟩
              intro row' hrow' htier'
              obtain rfl := Option.some.inj (hrow.symm.trans hrow')
              rw [htier] at htier'
              simp at htier'

theorem Sound.answer_revive (h : Sound hash o s) {id : Id}
    (hwork : s.work = some (.revive id sessionId expiresAt)) :
    Sound hash o (s.answered hash o (.revive id sessionId expiresAt)) := by
  have hremoving : s.removing = [] := by
    rw [removing, hwork]
  rcases h.pending _ hwork with ⟨⟨row, hget, hbacked⟩, hle, hledger⟩
  apply h.handOut hremoving _ _ hle hledger
  · refine ⟨{ row with expiresAt }, ?_, rfl, hbacked.expireAt expiresAt⟩
    rw [get?_expireAt, hget]
    simp
  · intro other hother
    rw [get?_expireAt]
    simp [hother]

omit [DecidableEq Session] in
/-- The upload overwrites the object of a row that has expired, if any. -/
theorem Sound.upload (h : Sound hash o s)
    (hwork : s.work = some (.upload sessionId content expiresAt)) :
    Sound hash o { s with
        objects := Function.update s.objects (hash (utf8 content))
            (some (utf8 content))
        work := some (.insert sessionId content expiresAt) } := by
  have hremoving : s.removing = [] := by
    rw [removing, hwork]
  rcases h.pending _ hwork with ⟨-, hexpired, hle, hledger⟩
  exact
    { backed := by
        intro id row hget hlt
        have hne : id ≠ hash (utf8 content) := by
          rintro rfl
          have hrowLe := hexpired row hget
          dsimp only at hlt
          omega
        have hold := h.backed id row hget hlt
        rw [hremoving] at hold
        dsimp only
        rw [Function.update_of_ne hne]
        exact hold.imp (by simp)
      pending := by
        intro work hnext
        cases hnext
        refine ⟨?_, hle, hledger⟩
        intro row _ _
        exact Function.update_self _ _ _
      removal := by
        intro id hmem
        simp [removing] at hmem
      kept := h.kept
      bound := h.bound
      handles := h.handles }

theorem Sound.answer_insert (h : Sound hash o s)
    (hwork : s.work = some (.insert sessionId content expiresAt)) :
    Sound hash o
      (s.answered hash o (.insert sessionId content expiresAt)) := by
  have hremoving : s.removing = [] := by
    rw [removing, hwork]
  rcases h.pending _ hwork with ⟨hobject, hle, hledger⟩
  simp only [answered]
  cases hrow : resultRow o sessionId content expiresAt with
  | none => exact h.idle (not_lost_of_removing hremoving)
  | some row =>
      apply h.handOut hremoving _ _ hle hledger
      · refine ⟨_, by rw [get?_upsert, if_pos rfl], ?_, content, ?_, ?_⟩
        · have hexpires := resultRow_expiresAt hrow
          exact hexpires
        · exact resultRow_with hrow _ _
        · intro htier
          exact Or.inl (hobject row hrow htier)
      · intro other hother
        rw [get?_upsert, if_neg hother]

/-! ## Removals -/

omit [DecidableEq Id] [DecidableEq Session] in
theorem startRemoval_cases (o : Options) (removal : Removal Id Session) :
    startRemoval o removal = none ∨ (∃ todo, startRemoval o removal =
          some (.deleteObjects removal todo []) ∧
        ∀ id ∈ todo, id ∈ removal.rows.map Prod.fst) ∨
      startRemoval o removal = some (.deleteRows removal []) := by
  simp only [startRemoval]
  split_ifs with hempty hobjects
  · exact Or.inl rfl
  · refine Or.inr (Or.inl ⟨_, rfl, ?_⟩)
    intro id hmem
    rcases List.mem_map.mp hmem with ⟨row, hrow, rfl⟩
    exact List.mem_map_of_mem (List.mem_of_mem_filter hrow)
  · exact Or.inr (Or.inr rfl)

variable {removal : Removal Id Session}

omit [DecidableEq Session] in
theorem Sound.startRemoval (h : Sound hash o s) (hidle : s.work = none)
    (hrows : ∀ id ∈ removal.rows.map Prod.fst,
      (∀ other, (id, other) ∉ s.refs) ∨ removal.owner = none ∧
          ∀ row, s.rows.get? id = some row → row.expiresAt ≤ s.now) :
    Sound hash o { s with work := startRemoval o removal } := by
  have hremoving : s.removing = [] := by
    rw [removing, hidle]
  rcases startRemoval_cases o removal with hnone | ⟨todo, hsome, htodo⟩ | hsome
  · rw [hnone]
    exact h.idle (not_lost_of_removing hremoving)
  · rw [hsome]
    exact h.goOn hremoving ⟨htodo, by simp⟩ hrows
  · rw [hsome]
    refine h.goOn hremoving ?_ hrows
    simp [Pending]

theorem Sound.answer_dropReferences (h : Sound hash o s)
    (hwork : s.work = some (.dropReferences sessionId)) :
    Sound hash o (s.answered hash o (.dropReferences sessionId)) := by
  have hremoving : s.removing = [] := by
    rw [removing, hwork]
  have hdropped : Sound hash o { s with
        refs := s.refs.filter fun ref => ref.2 ≠ sessionId
        ledger := fun id =>
          { s.ledger id with
            holders := (s.ledger id).holders.filter fun holder =>
                holder ≠ sessionId }
        work := none } :=
    { backed := by
        have hbacked := h.backed
        rw [hremoving] at hbacked
        exact hbacked
      pending := by
        intro work hnext
        simp at hnext
      removal := by
        intro id hmem
        simp [removing] at hmem
      kept := by
        intro id hlt holder hholder
        rcases List.mem_filter.mp hholder with ⟨hbefore, hne⟩
        rcases h.kept id hlt holder hbefore with ⟨href, hrow⟩
        exact ⟨List.mem_filter.mpr ⟨href, hne⟩, hrow⟩
      bound := h.bound
      handles := h.handles }
  apply hdropped.startRemoval rfl
  intro id hmem
  rcases List.mem_map.mp hmem with ⟨⟨id', tier⟩, hrow, rfl⟩
  rcases List.mem_map.mp hrow with ⟨⟨id, row⟩, hentry, hpair⟩
  obtain ⟨rfl, rfl⟩ := Prod.mk.inj hpair
  have hnone := (List.mem_filter.mp hentry).2
  simp only [Bool.and_eq_true, List.any_eq_false, decide_eq_true_eq,
    Bool.not_eq_eq_eq_not, decide_eq_false_iff_not, not_and, not_not,
    Prod.forall, Bool.not_true] at hnone
  refine Or.inl fun other href => ?_
  rcases List.mem_filter.mp href with ⟨hin, hne⟩
  exact of_decide_eq_true hne (hnone.2 id other hin rfl)

theorem Sound.answer_selectExpired (h : Sound hash o s) {only : Option Id}
    {startedAt : ℕ}
    (hwork : s.work = some (.selectExpired only startedAt)) :
    Sound hash o (s.answered hash o (.selectExpired only startedAt)) := by
  have hremoving : s.removing = [] := by
    rw [removing, hwork]
  have hstarted : startedAt ≤ s.now := h.pending _ hwork
  have hidle := h.idle (not_lost_of_removing hremoving)
  apply hidle.startRemoval rfl
  intro id hmem
  refine Or.inr ⟨rfl, fun row hget => ?_⟩
  rcases List.mem_map.mp hmem with ⟨⟨id', tier⟩, hrow, rfl⟩
  rcases List.mem_map.mp hrow with ⟨⟨id, found⟩, hentry, hpair⟩
  obtain ⟨rfl, rfl⟩ := Prod.mk.inj hpair
  rcases List.mem_filter.mp hentry with ⟨hin, hselected⟩
  have hfound : s.rows.get? id = some found :=
    OrderedMap.mem_entries_iff.mp hin
  obtain rfl := Option.some.inj (hfound.symm.trans hget)
  have hexpired := of_decide_eq_true (Bool.and_eq_true_iff.mp hselected).2
  exact hexpired.trans hstarted

omit [DecidableEq Session] in
/-- The R2 delete of a batch, whatever part of it took effect. -/
theorem Sound.batchDeleted (h : Sound hash o s)
    {todo kept kept' gone : List Id}
    (hwork : s.work = some (.deleteObjects removal todo kept))
    (hkept : ∀ id ∈ kept', id ∈ removal.rows.map Prod.fst)
    (hgone : ∀ id ∈ gone, id ∈ todo) :
    Sound hash o (s.batchDeleted removal todo kept' gone) := by
  have hremoving : s.removing = removal.rows.map Prod.fst := by
    rw [removing, hwork]
  have hfor : s.removingFor = removal.owner := by
    rw [removingFor, hwork]
  have htodo := (h.pending _ hwork).1
  have hremoving' : (s.batchDeleted removal todo kept' gone).removing =
      s.removing := by
    rw [hremoving]
    simp only [State.batchDeleted, removing]
    split_ifs <;> rfl
  have hfor' : (s.batchDeleted removal todo kept' gone).removingFor =
      s.removingFor := by
    rw [hfor]
    simp only [State.batchDeleted, removingFor]
    split_ifs <;> rfl
  exact
    { backed := by
        intro id row hget hlt
        rw [hremoving']
        rcases h.backed id row hget hlt with ⟨content, hrow, hobject⟩
        refine ⟨content, hrow, fun htier => ?_⟩
        simp only [State.batchDeleted]
        split_ifs with hin
        · exact Or.inr ⟨by rw [hremoving]; exact htodo id (hgone id hin), rfl⟩
        · exact hobject htier
      pending := by
        intro work hnext
        cases hnext
        split_ifs
        · exact hkept
        · exact ⟨fun id hmem => htodo id (List.mem_of_mem_drop hmem), hkept⟩
      removal := by
        rw [hremoving', hfor']
        exact h.removal
      kept := h.kept
      bound := h.bound
      handles := h.handles }

omit [DecidableEq Session] in
theorem Sound.deleteRows (h : Sound hash o s) {kept : List Id}
    (hwork : s.work = some (.deleteRows removal kept)) :
    Sound hash o (s.deleteRows removal kept) := by
  have hremoving : s.removing = removal.rows.map Prod.fst := by
    rw [removing, hwork]
  have hkept : ∀ id ∈ kept, id ∈ removal.rows.map Prod.fst := h.pending _ hwork
  have hget : ∀ id, (s.deleteRows removal kept).rows.get? id =
      ((s.rows.get? id).filter fun _ =>
        !(id ∈ removal.rows.map Prod.fst ∧ id ∉ kept)).map fun row =>
          if id ∈ kept then { row with expiresAt := 0 } else row := by
    intro id
    simp only [State.deleteRows]
    rw [get?_expireAt, OrderedMap.get?_filter]
  -- a row outside the removal is left as it was
  have houtside : ∀ id ∉ s.removing,
      (s.deleteRows removal kept).rows.get? id = s.rows.get? id := by
    intro id hmem
    rw [hremoving] at hmem
    have hnot : id ∉ kept := fun hin => hmem (hkept id hin)
    rw [hget]
    cases s.rows.get? id with
    | none => rfl
    | some row => simp only [Option.filter, hmem, hnot]; simp
  exact
    { backed := by
        intro id row hrow hlt
        by_cases hmem : id ∈ s.removing
        · rw [hget, Option.map_eq_some_iff] at hrow
          rcases hrow with ⟨old, hold, rfl⟩
          have hfilter := (Option.filter_eq_some_iff.mp hold).2
          rw [hremoving] at hmem
          by_cases hin : id ∈ kept
          · rw [if_pos hin] at hlt
            exact absurd hlt (Nat.not_lt_zero _)
          · simp [hin] at hfilter
            exact absurd (List.mem_map.mp hmem) (by simpa using hfilter)
        · rw [houtside id hmem] at hrow
          exact (h.backed id row hrow hlt).imp fun hin => absurd hin hmem
      pending := by
        intro work hnext
        simp [State.deleteRows] at hnext
      removal := by
        intro id hmem
        simp [State.deleteRows, removing] at hmem
      kept := by
        intro id hlt holder hholder
        have hmem : id ∉ s.removing := h.not_removing hlt hholder
        rcases h.kept id hlt holder hholder with ⟨href, hrow⟩
        rw [houtside id hmem]
        refine ⟨?_, hrow⟩
        rw [hremoving] at hmem
        have hnot : id ∉ kept := fun hin => hmem (hkept id hin)
        exact List.mem_filter.mpr ⟨href, decide_eq_true ⟨hmem, hnot⟩⟩
      bound := h.bound
      handles := h.handles }

/-! ## Steps and runs -/

theorem Sound.answered (h : Sound hash o s)
    (hwork : s.work = some work) : Sound hash o (s.answered hash o work) := by
  cases work with
  | lookup sessionId content startedAt => exact h.answer_lookup hwork
  | revive id sessionId expiresAt => exact h.answer_revive hwork
  | upload sessionId content expiresAt => exact h.upload hwork
  | insert sessionId content expiresAt => exact h.answer_insert hwork
  | dropReferences sessionId => exact h.answer_dropReferences hwork
  | selectExpired only startedAt => exact h.answer_selectExpired hwork
  | deleteObjects removal todo kept =>
      apply h.batchDeleted hwork (h.pending _ hwork).2
      exact fun id hmem => List.mem_of_mem_take hmem
  | deleteRows removal kept => exact h.deleteRows hwork

omit [DecidableEq Session] in
/-- An upload that fails may have left its object. -/
theorem Sound.upload_failed (h : Sound hash o s)
    (hwork : s.work = some (.upload sessionId content expiresAt))
    (landed : List Id) :
    Sound hash o
      (s.failed hash landed (.upload sessionId content expiresAt)) := by
  simp only [failed]
  split_ifs with hlanded
  · exact (h.upload hwork).idle (not_lost_of_removing rfl)
  · apply h.idle
    apply not_lost_of_removing
    rw [removing, hwork]

omit [DecidableEq Session] in
theorem Sound.failed (h : Sound hash o s)
    (hwork : s.work = some work) (landed : List Id)
    (hwhole : s.Whole (.error landed)) :
    Sound hash o (s.failed hash landed work) := by
  cases work with
  | upload sessionId content expiresAt => exact h.upload_failed hwork landed
  | deleteObjects removal todo kept =>
      rcases h.pending _ hwork with ⟨htodo, hkept⟩
      apply h.batchDeleted hwork
      · intro id hmem
        rcases List.mem_append.mp hmem with hbefore | hbatch
        · exact hkept id hbefore
        · exact htodo id (List.mem_of_mem_take hbatch)
      · exact fun id hmem =>
          List.mem_of_mem_take (List.mem_of_mem_filter hmem)
  | deleteRows removal kept =>
      apply h.idle
      apply hwhole
      rw [GivesUp, hwork]
      trivial
  | lookup | revive | insert | dropReferences | selectExpired =>
      apply h.idle
      apply not_lost_of_removing
      rw [removing, hwork]

omit [DecidableEq Id] [DecidableEq Session] in
theorem begin_eq_some {s' : State Id Session}
    (hbegin : s.begin work = some s') :
    s.work = none ∧ s' = { s with work := some work } := by
  rw [State.begin] at hbegin
  cases hwork : s.work with
  | none =>
      rw [hwork] at hbegin
      exact ⟨rfl, (Option.some.inj hbegin).symm⟩
  | some work =>
      rw [hwork] at hbegin
      simp at hbegin

omit [DecidableEq Session] in
theorem Sound.begin (h : Sound hash o s) {s' : State Id Session}
    (hbegin : s.begin work = some s')
    (hpending : s.removing = [] → s.Pending hash o work)
    (hremoving : ({ s with work := some work } :
      State Id Session).removing = []) : Sound hash o s' := by
  rcases begin_eq_some hbegin with ⟨hidle, rfl⟩
  have hbefore : s.removing = [] := by
    rw [removing, hidle]
  refine h.goOn hbefore (hpending hbefore) ?_
  intro id hmem
  rw [hremoving] at hmem
  simp at hmem

theorem Sound.step (h : Sound hash o s) {e : Event Id Session}
    {s' : State Id Session} (hwhole : s.Whole e)
    (hstep : s.step hash o e = some s') : Sound hash o s' := by
  cases e with
  | tick ms =>
      cases hstep
      exact h.tick ms
  | put sessionId content =>
      apply h.begin hstep _ rfl
      intro hbefore
      have hbacked := h.backed
      rw [hbefore] at hbacked
      exact ⟨le_rfl, hbacked, h.bound⟩
  | deleteForSession sessionId => exact h.begin hstep (fun _ => trivial) rfl
  | sweep => exact h.begin hstep (fun _ => le_refl s.now) rfl
  | removeExpired id => exact h.begin hstep (fun _ => le_refl s.now) rfl
  | answer =>
      rcases Option.map_eq_some_iff.mp hstep with ⟨work, hwork, rfl⟩
      exact h.answered hwork
  | error landed =>
      rcases Option.map_eq_some_iff.mp hstep with ⟨work, hwork, rfl⟩
      exact h.failed hwork landed hwhole
  | stop =>
      cases hstep
      exact h.idle (hwhole trivial)

/-- Giving up a removal that has lost an object leaves a row without it. -/
theorem not_holds_of_not_whole {e : Event Id Session} (hwhole : ¬s.Whole e) :
    ∃ s', s.step hash o e = some s' ∧ ¬s'.Holds o := by
  simp only [Whole, Classical.not_imp, not_not] at hwhole
  rcases hwhole with ⟨hgives, id, -, row, hrow, hlt, htier, hnone⟩
  refine ⟨{ s with work := none }, ?_, ?_⟩
  · cases e with
    | stop => rfl
    | error landed =>
        rw [GivesUp] at hgives
        rw [State.step]
        cases hwork : s.work with
        | none => simp [hwork] at hgives
        | some work =>
            rw [hwork] at hgives
            cases work with
            | deleteRows removal kept => rfl
            | lookup | revive | upload | insert | dropReferences
              | selectExpired | deleteObjects => exact hgives.elim
    | tick | put | deleteForSession | sweep | removeExpired | answer =>
        exact hgives.elim
  · intro hholds
    exact hholds.objects id row hrow hlt htier (by simp [removing]) hnone

/-- In a run from the start the promises hold in every state exactly when no
removal is given up between an object and its row. -/
theorem holds_iff_whole (hash : List UInt8 → Id) (o : Options) (now : ℕ)
    (events : List (Event Id Session)) :
    (∀ front back s, events = front ++ back →
        Transition.run (State.step hash o) (State.init now) front = some s →
          s.Holds o) ↔
      Transition.Meets (State.step hash o) State.Whole (State.init now)
        events :=
  Transition.forall_states_iff_meets
    (fun _ _ _ h hwhole hstep => h.step hwhole hstep)
    (fun _ h => h.holds) (fun _ _ _ hnot => not_holds_of_not_whole hnot)
    (Sound.init now)

/-! ## A removal given up -/

def smallOptions : Options where
  bucket := true
  r2MinBytes := 1
  ttlMs := 1000
  r2MinBytes_pos := by decide

/-- Session 1 stores a result and is deleted; the transaction that deletes the
row fails once the object is gone, and session 2 stores the same text. -/
def lostRun : List (Event (List UInt8) ℕ) :=
  [.put 1 ['a'], .answer, .answer, .answer, .deleteForSession 1, .answer,
    .answer, .error [], .put 2 ['a'], .answer, .answer]

/-- Session 2 holds a handle that has not expired and reads nothing. -/
def handleLost (s : State (List UInt8) ℕ) : Bool := s.handles.any fun h =>
    decide (s.now < h.expiresAt) &&
      decide ((s.ledger h.id).holders = [2]) &&
        decide
          (read smallOptions (s.rows.get? h.id) (s.objects h.id) s.now 0 4000
            = .notFound)

theorem lostRun_breaks :
    (Transition.run (State.step id smallOptions) (State.init 0)
        lostRun).any handleLost = true ∧
      ¬∀ events front back s, events = front ++ back →
        Transition.run (State.step (id : List UInt8 → List UInt8)
            smallOptions) (State.init 0 : State (List UInt8) ℕ) front =
          some s → s.Holds smallOptions := by
  have hlost : (Transition.run (State.step id smallOptions) (State.init 0)
      lostRun).any handleLost = true := by
    decide +kernel
  refine ⟨hlost, fun hall => ?_⟩
  rcases (Option.any_eq_true handleLost _).mp hlost with ⟨s, hrun, hs⟩
  have hholds := hall lostRun lostRun [] s (List.append_nil _).symm hrun
  rcases List.any_eq_true.mp hs with ⟨h, hmem, hread⟩
  simp only [Bool.and_eq_true, decide_eq_true_eq] at hread
  rcases hread with ⟨⟨hlt, hholders⟩, hread⟩
  rcases hholds.readable h hmem hlt (by simp [hholders]) 0 4000 with
    ⟨chunk, hok⟩
  rw [hread] at hok
  simp at hok

end State
end ResultStore
end QiForge
