import QiForge.Transcript

/-!
# Pages of a transcript

A thread's rows stand in the listing order (`created_at`, then `rowid`), and a
page reads them in batches from an anchor on.  What a page collects is stated
over the rows themselves: back to the `limit`th turn start (`upToTurn`), or
forward to the turn start after the `limit`th (`beforeTurn`).
-/

namespace QiForge

structure ThreadAnchor where
  createdAt : String
  rowid : ℕ
deriving DecidableEq, Repr

namespace ThreadAnchor

def before (a b : ThreadAnchor) : Prop :=
  a.createdAt < b.createdAt ∨ a.createdAt = b.createdAt ∧ a.rowid < b.rowid

instance (a b : ThreadAnchor) : Decidable (a.before b) :=
  inferInstanceAs (Decidable (a.createdAt < b.createdAt ∨
    a.createdAt = b.createdAt ∧ a.rowid < b.rowid))

theorem not_before_self (a : ThreadAnchor) : ¬ a.before a := by
  rintro (hlt | ⟨-, hlt⟩)
  · exact String.lt_irrefl _ hlt
  · exact Nat.lt_irrefl _ hlt

theorem before_asymm {a b : ThreadAnchor} (h : a.before b) : ¬ b.before a := by
  rintro (hlt | ⟨heq, hlt⟩)
  · rcases h with hlt' | ⟨heq', -⟩
    · exact String.lt_asymm hlt hlt'
    · rw [heq'] at hlt
      exact String.lt_irrefl _ hlt
  · rcases h with hlt' | ⟨-, hlt'⟩
    · rw [heq] at hlt'
      exact String.lt_irrefl _ hlt'
    · exact Nat.lt_asymm hlt hlt'

end ThreadAnchor

structure ThreadRow (J : Type) where
  message : ThreadMessage J
  anchor : ThreadAnchor
deriving DecidableEq

def ThreadRow.startsTurn {J : Type} (row : ThreadRow J) : Bool :=
  row.message.startsTurn

/-- The rows of a thread in the listing order. -/
structure Thread (J : Type) where
  rows : List (ThreadRow J)
  sorted : rows.Pairwise fun a b => a.anchor.before b.anchor
  ids : (rows.map fun row => row.message.id).Nodup

inductive PageDirection where
  | older
  | newer
deriving DecidableEq, Repr

/-- Rows read per round. -/
def transcriptRowBatch : ℕ := 80

def transcriptPageMax : ℕ := 100

namespace Thread

variable {J : Type}

def messages (thread : Thread J) : List (ThreadMessage J) :=
  thread.rows.map ThreadRow.message

def findThreadMessageAnchor (thread : Thread J) (messageId : String) :
    Option ThreadAnchor :=
  (thread.rows.find? fun row => decide (row.message.id = messageId)).map
    ThreadRow.anchor

def listThreadMessageRows (thread : Thread J) (direction : PageDirection)
    (anchor : Option ThreadAnchor) (inclusive : Bool) (limit : ℕ) :
    List (ThreadRow J) :=
  let picked := thread.rows.filter fun row =>
    match anchor with
    | none => true
    | some a =>
        (inclusive && decide (row.anchor = a)) ||
          match direction with
          | .older => decide (row.anchor.before a)
          | .newer => decide (a.before row.anchor)
  match direction with
  | .older => picked.reverse.take limit
  | .newer => picked.take limit

end Thread

structure TranscriptPage (J : Type) where
  messages : List (MessageDto J)
  prevCursor : Option String
  nextCursor : Option String
  hasOlder : Bool
  hasNewer : Bool
deriving DecidableEq

namespace Thread

variable {J : Type}

/-- The rows of a batch that go into the page; the row that fills it, and
whether the batch goes on after it. -/
def collectBatch (limit : ℕ) : ℕ → List (ThreadRow J) →
    List (ThreadRow J) × ℕ × Option (ThreadRow J × Bool)
  | turns, [] => ([], turns, none)
  | turns, row :: rest =>
      if row.startsTurn then
        if turns + 1 < limit then
          let collected := collectBatch limit (turns + 1) rest
          (row :: collected.1, collected.2)
        else ([row], turns + 1, some (row, !rest.isEmpty))
      else
        let collected := collectBatch limit turns rest
        (row :: collected.1, collected.2)

/-- The rounds of `pageOlder`: the rows newest first, and `hasOlder`. -/
def collectOlder (thread : Thread J) (limit : ℕ) :
    ℕ → Option ThreadAnchor → ℕ → List (ThreadRow J) × Bool
  | 0, _, _ => ([], false)
  | rounds + 1, cursor, turns =>
      let batch := thread.listThreadMessageRows .older cursor false
        transcriptRowBatch
      match collectBatch limit turns batch with
      | (rows, _, some (row, more)) =>
          (rows, more || !(thread.listThreadMessageRows .older
            (some row.anchor) false 1).isEmpty)
      | (rows, turns, none) =>
          if batch.length < transcriptRowBatch then (rows, false)
          else
            let older := collectOlder thread limit rounds
              (batch.getLast?.map ThreadRow.anchor) turns
            (rows ++ older.1, older.2)

/-- The rows of a batch before the turn that is one too many, and whether
there is one. -/
def freshBatch (limit : ℕ) : ℕ → List (ThreadRow J) →
    List (ThreadRow J) × ℕ × Bool
  | turns, [] => ([], turns, false)
  | turns, row :: rest =>
      if row.startsTurn then
        if turns + 1 > limit then ([], turns + 1, true)
        else
          let fresh := freshBatch limit (turns + 1) rest
          (row :: fresh.1, fresh.2)
      else
        let fresh := freshBatch limit turns rest
        (row :: fresh.1, fresh.2)

/-- The rounds of `pageNewer`: the rows oldest first, and `hasNewer`. -/
def collectNewer (thread : Thread J) (limit : ℕ) :
    ℕ → Option ThreadAnchor → ℕ → List (ThreadRow J) × Bool
  | 0, _, _ => ([], false)
  | rounds + 1, cursor, turns =>
      let batch := thread.listThreadMessageRows .newer cursor false
        transcriptRowBatch
      match freshBatch limit turns batch with
      | (rows, _, true) => (rows, true)
      | (rows, turns, false) =>
          if batch.length < transcriptRowBatch then (rows, false)
          else
            let newer := collectNewer thread limit rounds
              (batch.getLast?.map ThreadRow.anchor) turns
            (rows ++ newer.1, newer.2)

/-- The rows of a batch back to a turn start, and whether it has one. -/
def headBatch : List (ThreadRow J) → List (ThreadRow J) × Bool
  | [] => ([], false)
  | row :: rest =>
      if row.startsTurn then ([row], true)
      else (row :: (headBatch rest).1, (headBatch rest).2)

/-- The turn a cursor split, newest first, the cursor's row included. -/
def collectHead (thread : Thread J) :
    ℕ → Option ThreadAnchor → Bool → List (ThreadRow J)
  | 0, _, _ => []
  | rounds + 1, back, inclusive =>
      let batch := thread.listThreadMessageRows .older back inclusive
        transcriptRowBatch
      match headBatch batch with
      | (rows, true) => rows
      | (rows, false) =>
          if batch.length < transcriptRowBatch then rows
          else
            rows ++ collectHead thread rounds
              (batch.getLast?.map ThreadRow.anchor) false

def cursorError (cursor : String) : String :=
  "unknown transcript cursor: " ++ cursor

/-- Rounds enough to read every row. -/
def rounds (thread : Thread J) : ℕ := thread.rows.length + 1

variable (text : TranscriptText J)

def pageOf (rows : List (ThreadRow J)) : List (MessageDto J) :=
  text.toPage (rows.map ThreadRow.message)

/-- The page of turns before the anchor, or the newest one. -/
def olderPage (thread : Thread J) (anchor : Option ThreadAnchor)
    (limit : ℕ) : TranscriptPage J :=
  let collected := thread.collectOlder limit thread.rounds anchor 0
  let rows := collected.1.reverse
  { messages := pageOf text rows
    prevCursor := if collected.2 then
        rows.head?.map fun row => row.message.id
      else none
    nextCursor := rows.getLast?.map fun row => row.message.id
    hasOlder := collected.2
    hasNewer := anchor.isSome }

def pageOlder (thread : Thread J) (before : Option String) (limit : ℕ) :
    Except String (TranscriptPage J) :=
  match before with
  | none => .ok (thread.olderPage text none limit)
  | some cursor =>
      match thread.findThreadMessageAnchor cursor with
      | none => .error (cursorError cursor)
      | some anchor => .ok (thread.olderPage text (some anchor) limit)

def pageNewer (thread : Thread J) (after : String) (limit : ℕ) :
    Except String (TranscriptPage J) :=
  match thread.findThreadMessageAnchor after with
  | none => .error (cursorError after)
  | some anchor =>
      let collected := thread.collectNewer limit thread.rounds (some anchor) 0
      match collected.1 with
      | [] => .ok ⟨[], none, some after, false, false⟩
      | first :: rest =>
          let head := if first.startsTurn then []
            else thread.collectHead thread.rounds (some anchor) true
          let rows := head.reverse ++ first :: rest
          .ok
            { messages := pageOf text rows
              prevCursor := none
              nextCursor := rows.getLast?.map fun row => row.message.id
              hasOlder := false
              hasNewer := collected.2 }

/-- A page older than `before`, what follows `after`, or the newest page. -/
def pageThreadTranscript (thread : Thread J) (limit : ℕ)
    (before after : Option String) : Except String (TranscriptPage J) :=
  let limit := max 1 (min limit transcriptPageMax)
  match after with
  | some after => thread.pageNewer text after limit
  | none => thread.pageOlder text before limit

end Thread

section Rows

variable {J : Type}

/-- Through the `n`th turn start. -/
def upToTurn : ℕ → List (ThreadRow J) → List (ThreadRow J)
  | _, [] => []
  | n, row :: rest =>
      if row.startsTurn then
        if 1 < n then row :: upToTurn (n - 1) rest else [row]
      else row :: upToTurn n rest

/-- Up to the turn start after the `n`th. -/
def beforeTurn : ℕ → List (ThreadRow J) → List (ThreadRow J)
  | _, [] => []
  | n, row :: rest =>
      if row.startsTurn then
        if n = 0 then [] else row :: beforeTurn (n - 1) rest
      else row :: beforeTurn n rest

theorem upToTurn_cons (n : ℕ) (row : ThreadRow J) (rest : List (ThreadRow J)) :
    upToTurn n (row :: rest) =
      if row.startsTurn then
        if 1 < n then row :: upToTurn (n - 1) rest else [row]
      else row :: upToTurn n rest := rfl

theorem beforeTurn_cons (n : ℕ) (row : ThreadRow J)
    (rest : List (ThreadRow J)) :
    beforeTurn n (row :: rest) =
      if row.startsTurn then
        if n = 0 then [] else row :: beforeTurn (n - 1) rest
      else row :: beforeTurn n rest := rfl

theorem upToTurn_prefix (n : ℕ) (rows : List (ThreadRow J)) :
    upToTurn n rows <+: rows := by
  induction rows generalizing n with
  | nil => exact List.prefix_refl _
  | cons row rest ih =>
      unfold upToTurn
      split_ifs
      · exact (List.prefix_cons_inj row).mpr (ih _)
      · exact ⟨rest, rfl⟩
      · exact (List.prefix_cons_inj row).mpr (ih _)

theorem beforeTurn_prefix (n : ℕ) (rows : List (ThreadRow J)) :
    beforeTurn n rows <+: rows := by
  induction rows generalizing n with
  | nil => exact List.prefix_refl _
  | cons row rest ih =>
      unfold beforeTurn
      split_ifs
      · exact List.nil_prefix
      · exact (List.prefix_cons_inj row).mpr (ih _)
      · exact (List.prefix_cons_inj row).mpr (ih _)

variable {rows : List (ThreadRow J)}

/-- A page that leaves older rows ends at a turn start. -/
theorem upToTurn_last (n : ℕ)
    (hshort : (upToTurn n rows).length < rows.length) :
    ∃ row ∈ (upToTurn n rows).getLast?, row.startsTurn = true := by
  induction rows generalizing n with
  | nil => simp [upToTurn] at hshort
  | cons row rest ih =>
      unfold upToTurn at hshort ⊢
      split_ifs at hshort ⊢ with hstarts hmore
      · rw [List.length_cons, List.length_cons] at hshort
        rcases ih (n - 1) (by omega) with ⟨last, hlast, hturn⟩
        exact ⟨last, by rw [List.getLast?_cons, hlast]; rfl, hturn⟩
      · exact ⟨row, rfl, hstarts⟩
      · rw [List.length_cons, List.length_cons] at hshort
        rcases ih n (by omega) with ⟨last, hlast, hturn⟩
        exact ⟨last, by rw [List.getLast?_cons, hlast]; rfl, hturn⟩

/-- Back to the first turn start, no other row starts one. -/
theorem upToTurn_one_tail (rows : List (ThreadRow J)) :
    ∀ row ∈ (upToTurn 1 rows).reverse.tail, row.startsTurn = false := by
  rw [List.tail_reverse]
  intro row hrow
  rw [List.mem_reverse] at hrow
  induction rows with
  | nil => cases hrow
  | cons first rest ih =>
      rw [upToTurn_cons] at hrow
      by_cases hstarts : first.startsTurn = true
      · rw [if_pos hstarts] at hrow
        cases hrow
      · rw [if_neg hstarts] at hrow
        cases hup : upToTurn 1 rest with
        | nil =>
            rw [hup] at hrow
            cases hrow
        | cons next more =>
            rw [hup, List.dropLast_cons_of_ne_nil (by simp)] at hrow
            rcases List.mem_cons.mp hrow with rfl | hmore
            · exact Bool.eq_false_iff.mpr hstarts
            · rw [hup] at ih
              exact ih hmore

theorem upToTurn_ne_nil (n : ℕ)
    (hrows : rows ≠ []) : upToTurn n rows ≠ [] := by
  cases rows with
  | nil => exact absurd rfl hrows
  | cons row rest =>
      unfold upToTurn
      split_ifs <;> simp

theorem beforeTurn_ne_nil {n : ℕ} (hn : 0 < n)
    (hrows : rows ≠ []) : beforeTurn n rows ≠ [] := by
  cases rows with
  | nil => exact absurd rfl hrows
  | cons row rest =>
      unfold beforeTurn
      split_ifs
      · omega
      · simp
      · simp

end Rows

namespace Thread

variable {J : Type} {thread : Thread J}

/-- The rows a cursor leaves to read, in the order of the direction. -/
def Reads (thread : Thread J) (direction : PageDirection)
    (cursor : Option ThreadAnchor) (inclusive : Bool)
    (rest : List (ThreadRow J)) : Prop :=
  ∀ limit, thread.listThreadMessageRows direction cursor inclusive limit =
    rest.take limit

theorem reads_newest (thread : Thread J) :
    thread.Reads .older none false thread.rows.reverse := by
  intro limit
  simp [listThreadMessageRows]

section Split

variable {front back : List (ThreadRow J)} {row : ThreadRow J}

theorem front_before (hrows : thread.rows = front ++ row :: back) :
    ∀ r ∈ front, r.anchor.before row.anchor := by
  intro r hr
  have hsorted := thread.sorted
  rw [hrows, List.pairwise_append] at hsorted
  exact hsorted.2.2 r hr row List.mem_cons_self

theorem back_after (hrows : thread.rows = front ++ row :: back) :
    ∀ r ∈ back, row.anchor.before r.anchor := by
  intro r hr
  have hsorted := thread.sorted
  rw [hrows, List.pairwise_append] at hsorted
  exact (List.pairwise_cons.mp hsorted.2.1).1 r hr

theorem anchor_ne_of_before {a b : ThreadAnchor} (h : a.before b) : a ≠ b := by
  rintro rfl
  exact a.not_before_self h

theorem reads_older (hrows : thread.rows = front ++ row :: back) :
    thread.Reads .older (some row.anchor) false front.reverse := by
  have hfront := front_before hrows
  have hback := back_after hrows
  intro limit
  unfold listThreadMessageRows
  dsimp only [Bool.false_and, Bool.false_or]
  simp only [Bool.false_and, Bool.false_or]
  rw [hrows, List.filter_append, List.filter_cons,
    if_neg (by simp [ThreadAnchor.not_before_self]),
    List.filter_eq_self.mpr (fun r hr => decide_eq_true (hfront r hr)),
    List.filter_eq_nil_iff.mpr (fun r hr => by
      simp [ThreadAnchor.before_asymm (hback r hr)]),
    List.append_nil]

theorem reads_older_inclusive (hrows : thread.rows = front ++ row :: back) :
    thread.Reads .older (some row.anchor) true (row :: front.reverse) := by
  have hfront := front_before hrows
  have hback := back_after hrows
  intro limit
  unfold listThreadMessageRows
  simp only [Bool.true_and]
  rw [hrows, List.filter_append, List.filter_cons, if_pos (by simp),
    List.filter_eq_self.mpr (fun r hr => by simp [hfront r hr]),
    List.filter_eq_nil_iff.mpr (fun r hr => by
      simp [ThreadAnchor.before_asymm (hback r hr),
        (anchor_ne_of_before (hback r hr)).symm])]
  simp

theorem reads_newer (hrows : thread.rows = front ++ row :: back) :
    thread.Reads .newer (some row.anchor) false back := by
  have hfront := front_before hrows
  have hback := back_after hrows
  intro limit
  unfold listThreadMessageRows
  simp only [Bool.false_and, Bool.false_or]
  rw [hrows, List.filter_append, List.filter_cons,
    if_neg (by simp [ThreadAnchor.not_before_self]),
    List.filter_eq_nil_iff.mpr (fun r hr => by
      simp [ThreadAnchor.before_asymm (hfront r hr)]),
    List.filter_eq_self.mpr (fun r hr => decide_eq_true (hback r hr)),
    List.nil_append]

theorem find_anchor (hrows : thread.rows = front ++ row :: back) :
    thread.findThreadMessageAnchor row.message.id = some row.anchor := by
  have hids := thread.ids
  rw [hrows, List.map_append, List.map_cons, List.nodup_append] at hids
  have hfront : ∀ r ∈ front, r.message.id ≠ row.message.id := by
    intro r hr hid
    exact hids.2.2 _ (List.mem_map_of_mem hr) _ List.mem_cons_self hid
  unfold findThreadMessageAnchor
  rw [hrows, List.find?_append, List.find?_eq_none.mpr
    (fun r hr => by simp [hfront r hr]), Option.none_or, List.find?_cons]
  simp

/-- The rows after a row of what an older read returned. -/
theorem reads_past {rest batch tail suffix : List (ThreadRow J)}
    (hrows : thread.rows = rest.reverse ++ suffix)
    (hsplit : rest = batch ++ tail) (hlast : batch.getLast? = some row) :
    thread.Reads .older (some row.anchor) false tail := by
  rcases List.getLast?_eq_some_iff.mp hlast with ⟨init, rfl⟩
  have hrows' : thread.rows =
      tail.reverse ++ row :: (init.reverse ++ suffix) := by
    rw [hrows, hsplit]
    simp
  have hreads := reads_older hrows'
  rwa [List.reverse_reverse] at hreads

theorem reads_beyond {rest batch tail seen : List (ThreadRow J)}
    (hrows : thread.rows = seen ++ rest)
    (hsplit : rest = batch ++ tail) (hlast : batch.getLast? = some row) :
    thread.Reads .newer (some row.anchor) false tail := by
  rcases List.getLast?_eq_some_iff.mp hlast with ⟨init, rfl⟩
  have hrows' : thread.rows = (seen ++ init) ++ row :: tail := by
    rw [hrows, hsplit]
    simp
  exact reads_newer hrows'

end Split

section Batches

variable {limit turns : ℕ}

theorem collectBatch_spec (hturns : turns < limit)
    (batch tail : List (ThreadRow J)) :
    (∃ p q row t, batch = p ++ q ∧ p.getLast? = some row ∧
      collectBatch limit turns batch = (p, t, some (row, !q.isEmpty)) ∧
      upToTurn (limit - turns) (batch ++ tail) = p) ∨
    ∃ t, t < limit ∧ collectBatch limit turns batch = (batch, t, none) ∧
      upToTurn (limit - turns) (batch ++ tail) =
        batch ++ upToTurn (limit - t) tail := by
  induction batch generalizing turns with
  | nil => exact Or.inr ⟨turns, hturns, rfl, rfl⟩
  | cons row batch ih =>
      rw [List.cons_append, upToTurn_cons]
      unfold collectBatch
      split_ifs with hstarts hmore hlimit
      · have hnext : limit - turns - 1 = limit - (turns + 1) := by omega
        rw [hnext]
        rcases ih hmore with ⟨p, q, last, t, hbatch, hlast, hscan, hup⟩ |
          ⟨t, ht, hscan, hup⟩
        · left
          refine ⟨row :: p, q, last, t, ?_, ?_, ?_, ?_⟩
          · rw [hbatch, List.cons_append]
          · rw [List.getLast?_cons, hlast]
            rfl
          · rw [hscan]
          · rw [hup]
        · right
          refine ⟨t, ht, ?_, ?_⟩
          · rw [hscan]
          · rw [hup, List.cons_append]
      · omega
      · omega
      · exact Or.inl ⟨[row], batch, row, turns + 1, rfl, rfl, rfl, rfl⟩
      · rcases ih hturns with ⟨p, q, last, t, hbatch, hlast, hscan, hup⟩ |
          ⟨t, ht, hscan, hup⟩
        · left
          refine ⟨row :: p, q, last, t, ?_, ?_, ?_, ?_⟩
          · rw [hbatch, List.cons_append]
          · rw [List.getLast?_cons, hlast]
            rfl
          · rw [hscan]
          · rw [hup]
        · right
          refine ⟨t, ht, ?_, ?_⟩
          · rw [hscan]
          · rw [hup, List.cons_append]

theorem freshBatch_spec (hturns : turns ≤ limit)
    (batch tail : List (ThreadRow J)) :
    (∃ p t, p.length < (batch ++ tail).length ∧
      freshBatch limit turns batch = (p, t, true) ∧
      beforeTurn (limit - turns) (batch ++ tail) = p) ∨
    ∃ t, t ≤ limit ∧ freshBatch limit turns batch = (batch, t, false) ∧
      beforeTurn (limit - turns) (batch ++ tail) =
        batch ++ beforeTurn (limit - t) tail := by
  induction batch generalizing turns with
  | nil => exact Or.inr ⟨turns, hturns, rfl, rfl⟩
  | cons row batch ih =>
      rw [List.cons_append, beforeTurn_cons]
      unfold freshBatch
      split_ifs with hstarts hover hzero hzero
      · exact Or.inl ⟨[], turns + 1, by simp, rfl, rfl⟩
      · omega
      · omega
      · have hnext : limit - turns - 1 = limit - (turns + 1) := by omega
        rw [hnext]
        rcases ih (Nat.le_of_not_lt hover) with ⟨p, t, hp, hscan, hup⟩ |
          ⟨t, ht, hscan, hup⟩
        · left
          refine ⟨row :: p, t, ?_, ?_, ?_⟩
          · simpa using hp
          · rw [hscan]
          · rw [hup]
        · right
          refine ⟨t, ht, ?_, ?_⟩
          · rw [hscan]
          · rw [hup, List.cons_append]
      · rcases ih hturns with ⟨p, t, hp, hscan, hup⟩ | ⟨t, ht, hscan, hup⟩
        · left
          refine ⟨row :: p, t, ?_, ?_, ?_⟩
          · simpa using hp
          · rw [hscan]
          · rw [hup]
        · right
          refine ⟨t, ht, ?_, ?_⟩
          · rw [hscan]
          · rw [hup, List.cons_append]

theorem headBatch_spec (batch tail : List (ThreadRow J)) :
    (∃ p, headBatch batch = (p, true) ∧ upToTurn 1 (batch ++ tail) = p) ∨
    (headBatch batch = (batch, false) ∧
      upToTurn 1 (batch ++ tail) = batch ++ upToTurn 1 tail) := by
  induction batch with
  | nil => exact Or.inr ⟨rfl, rfl⟩
  | cons row batch ih =>
      rw [List.cons_append, upToTurn_cons]
      unfold headBatch
      by_cases hstarts : row.startsTurn = true
      · rw [if_pos hstarts, if_pos hstarts]
        exact Or.inl ⟨[row], rfl, rfl⟩
      · rw [if_neg hstarts, if_neg hstarts]
        rcases ih with ⟨p, hscan, hup⟩ | ⟨hscan, hup⟩
        · exact Or.inl ⟨row :: p, by rw [hscan], by rw [hup]⟩
        · exact Or.inr ⟨by rw [hscan], by rw [hup, List.cons_append]⟩

end Batches

section Rounds

variable {limit turns : ℕ} {cursor : Option ThreadAnchor}
variable {rest suffix seen : List (ThreadRow J)}

theorem take_batch (rest : List (ThreadRow J)) :
    rest = rest.take transcriptRowBatch ++ rest.drop transcriptRowBatch :=
  (List.take_append_drop _ _).symm

theorem length_batch (rest : List (ThreadRow J)) :
    rest.length = (rest.take transcriptRowBatch).length +
      (rest.drop transcriptRowBatch).length := by
  rw [← List.length_append, ← take_batch]

/-- The rows after a batch of older ones. -/
theorem rows_past (hrows : thread.rows = rest.reverse ++ suffix) :
    thread.rows = (rest.drop transcriptRowBatch).reverse ++
      ((rest.take transcriptRowBatch).reverse ++ suffix) := by
  rw [← List.append_assoc, ← List.reverse_append, ← take_batch]
  exact hrows

/-- A batch that is not full leaves nothing to read. -/
theorem drop_batch_eq_nil
    (hshort : (rest.take transcriptRowBatch).length < transcriptRowBatch) :
    rest.drop transcriptRowBatch = [] := by
  rw [List.length_take] at hshort
  exact List.drop_eq_nil_of_le (by omega)

theorem batch_last
    (hfull : ¬ (rest.take transcriptRowBatch).length < transcriptRowBatch) :
    ∃ row, (rest.take transcriptRowBatch).getLast? = some row := by
  cases hlast : (rest.take transcriptRowBatch).getLast? with
  | some row => exact ⟨row, rfl⟩
  | none =>
      rw [List.getLast?_eq_none_iff.mp hlast] at hfull
      simp [transcriptRowBatch] at hfull

theorem drop_batch_length {rounds : ℕ} (hrounds : rest.length < rounds + 1)
    (hfull : ¬ (rest.take transcriptRowBatch).length < transcriptRowBatch) :
    (rest.drop transcriptRowBatch).length < rounds := by
  rw [List.length_take] at hfull
  rw [List.length_drop]
  unfold transcriptRowBatch at hfull ⊢
  omega

/-- The rounds collect the rows through the `limit`th turn start. -/
theorem collectOlder_spec (rounds : ℕ) (hturns : turns < limit)
    (hrows : thread.rows = rest.reverse ++ suffix)
    (hreads : thread.Reads .older cursor false rest)
    (hrounds : rest.length < rounds) :
    thread.collectOlder limit rounds cursor turns =
      (upToTurn (limit - turns) rest,
        decide ((upToTurn (limit - turns) rest).length < rest.length)) := by
  induction rounds generalizing cursor turns rest suffix with
  | zero => omega
  | succ rounds ih =>
      unfold collectOlder
      dsimp only
      rw [hreads]
      have hsplit := take_batch rest
      rcases collectBatch_spec hturns (rest.take transcriptRowBatch)
        (rest.drop transcriptRowBatch) with
        ⟨p, q, row, t, hbatch, hlast, hscan, hup⟩ | ⟨t, ht, hscan, hup⟩
      · rw [← hsplit] at hup
        rw [hscan, hup]
        have hrest : rest = p ++ (q ++ rest.drop transcriptRowBatch) := by
          rw [← List.append_assoc, ← hbatch]
          exact hsplit
        have hpast := reads_past hrows hrest hlast
        dsimp only
        rw [hpast]
        congr 1
        have hlength : rest.length =
            p.length + (q ++ rest.drop transcriptRowBatch).length := by
          rw [← List.length_append, ← hrest]
        rw [hlength]
        cases q with
        | nil =>
            cases hdrop : rest.drop transcriptRowBatch <;> simp
        | cons first q => simp
      · rw [← hsplit] at hup
        rw [hscan, hup]
        dsimp only
        split_ifs with hshort
        · rw [drop_batch_eq_nil hshort] at hsplit ⊢
          rw [List.append_nil] at hsplit
          simp only [upToTurn, List.append_nil]
          rw [← hsplit]
          simp
        · rcases batch_last hshort with ⟨row, hlast⟩
          rw [hlast, Option.map_some]
          rw [ih ht (rows_past hrows) (reads_past hrows hsplit hlast)
            (drop_batch_length hrounds hshort)]
          congr 1
          rw [length_batch rest, List.length_append]
          simp

theorem collectNewer_spec (rounds : ℕ) (hturns : turns ≤ limit)
    (hrows : thread.rows = seen ++ rest)
    (hreads : thread.Reads .newer cursor false rest)
    (hrounds : rest.length < rounds) :
    thread.collectNewer limit rounds cursor turns =
      (beforeTurn (limit - turns) rest,
        decide ((beforeTurn (limit - turns) rest).length < rest.length)) := by
  induction rounds generalizing cursor turns rest seen with
  | zero => omega
  | succ rounds ih =>
      unfold collectNewer
      dsimp only
      rw [hreads]
      have hsplit := take_batch rest
      rcases freshBatch_spec hturns (rest.take transcriptRowBatch)
        (rest.drop transcriptRowBatch) with
        ⟨p, t, hp, hscan, hup⟩ | ⟨t, ht, hscan, hup⟩
      · rw [← hsplit] at hup hp
        rw [hscan, hup]
        rw [decide_eq_true hp]
      · rw [← hsplit] at hup
        rw [hscan, hup]
        dsimp only
        split_ifs with hshort
        · rw [drop_batch_eq_nil hshort] at hsplit ⊢
          rw [List.append_nil] at hsplit
          simp only [beforeTurn, List.append_nil]
          rw [← hsplit]
          simp
        · rcases batch_last hshort with ⟨row, hlast⟩
          rw [hlast, Option.map_some]
          have hrows' : thread.rows = (seen ++ rest.take transcriptRowBatch) ++
                rest.drop transcriptRowBatch := by
            rw [List.append_assoc, ← hsplit]
            exact hrows
          rw [ih ht hrows' (reads_beyond hrows hsplit hlast)
            (drop_batch_length hrounds hshort)]
          congr 1
          rw [length_batch rest, List.length_append]
          simp

theorem collectHead_spec (rounds : ℕ) {inclusive : Bool}
    (hrows : thread.rows = rest.reverse ++ suffix)
    (hreads : thread.Reads .older cursor inclusive rest)
    (hrounds : rest.length < rounds) :
    thread.collectHead rounds cursor inclusive = upToTurn 1 rest := by
  induction rounds generalizing cursor inclusive rest suffix with
  | zero => omega
  | succ rounds ih =>
      unfold collectHead
      dsimp only
      rw [hreads]
      have hsplit := take_batch rest
      rcases headBatch_spec (rest.take transcriptRowBatch)
        (rest.drop transcriptRowBatch) with ⟨p, hscan, hup⟩ | ⟨hscan, hup⟩
      · rw [← hsplit] at hup
        rw [hscan, hup]
      · rw [← hsplit] at hup
        rw [hscan, hup]
        split_ifs with hshort
        · rw [drop_batch_eq_nil hshort]
          simp [upToTurn]
        · rcases batch_last hshort with ⟨row, hlast⟩
          rw [hlast, Option.map_some]
          rw [ih (rows_past hrows) (reads_past hrows hsplit hlast)
            (drop_batch_length hrounds hshort)]

end Rounds

end Thread

end QiForge
