import Mathlib.Tactic

/-!
# Running a script again after a cold miss

`exec` and `run` of the database outside a transaction.  A script is run
statement by statement in autocommit mode; when a miss of the tier is recorded
at its end, whether a statement failed or not, the misses are resolved and the
whole script runs again.  SQLite itself is a parameter.  What an attempt meets
(which statement misses, whether a miss is swallowed, whether a flush or a
fetch fails) is given with the attempt.
-/

namespace QiForge
namespace ColdMiss

def MAX_STATEMENT_MISS_RETRIES : ℕ := 64

variable {σ Stmt Row ρ : Type*}

/-- A statement in autocommit mode: `none` is an SQL error, which leaves the
database as it was. -/
structure Sqlite (σ Stmt Row : Type*) where
  execute : σ → Stmt → Option (σ × List Row)
  changes : σ → ℕ

inductive StatementEvent where
  | misses
  | runs (swallowed : Bool)

/-- `left` says that misses of another file are still recorded. -/
inductive Resolve where
  | fetched
  | failed (left : Bool)

structure Attempt where
  statement : ℕ → StatementEvent
  flushFails : Bool
  resolve : Resolve
  resolveAgain : Resolve

/-- `missed` is `hasMisses` of the VFS. -/
structure Connection (σ : Type*) where
  db : σ
  missed : Bool

namespace Sqlite

variable (sql : Sqlite σ Stmt Row)

/-- The statements of a script from the `i`-th on. -/
def statements (attempt : Attempt) :
    ℕ → List Stmt → Connection σ → Connection σ × Option (List Row)
  | _, [], c => (c, some [])
  | i, stmt :: rest, c =>
      match attempt.statement i with
      | .misses => ({ c with missed := true }, none)
      | .runs swallowed =>
          let c := { c with missed := c.missed || swallowed }
          match sql.execute c.db stmt with
          | none => (c, none)
          | some (db, rows) =>
              let (c, more) :=
                statements attempt (i + 1) rest { c with db := db }
              (c, more.map (rows ++ ·))

def execUnlocked (script : List Stmt) (attempt : Attempt)
    (c : Connection σ) : Connection σ × Option (List Row) :=
  let (c, rows) := sql.statements attempt 0 script c
  (c, if attempt.flushFails then none else rows)

def runUnlocked (script : List Stmt) (attempt : Attempt)
    (c : Connection σ) : Connection σ × Option ℕ :=
  let (c, rows) := sql.statements attempt 0 script c
  (c, if attempt.flushFails then none else rows.map fun _ => sql.changes c.db)

end Sqlite

/-- The `catch` of the retry loop. -/
def caught (retry : Connection σ → Connection σ × Option ρ)
    (resolve : Resolve) (c : Connection σ) : Connection σ × Option ρ :=
  if c.missed then
    match resolve with
    | .fetched => retry { c with missed := false }
    | .failed left => ({ c with missed := left }, none)
  else (c, none)

/-- The loop of `retryingColdMisses` with some retries left; an error while
the misses of a finished attempt are resolved lands in its `catch`. -/
def retrying (op : Attempt → Connection σ → Connection σ × Option ρ)
    (attempts : ℕ → Attempt) :
    ℕ → ℕ → Connection σ → Connection σ × Option ρ
  | 0, k, c => op (attempts k) c
  | left + 1, k, c =>
      match op (attempts k) c with
      | (c, some result) =>
          if c.missed then
            match (attempts k).resolve with
            | .fetched =>
                retrying op attempts left (k + 1) { c with missed := false }
            | .failed others =>
                caught (retrying op attempts left (k + 1))
                  (attempts k).resolveAgain { c with missed := others }
          else (c, some result)
      | (c, none) =>
          caught (retrying op attempts left (k + 1)) (attempts k).resolve c

def retryingColdMisses (inTx : Bool)
    (op : Attempt → Connection σ → Connection σ × Option ρ)
    (attempts : ℕ → Attempt) (c : Connection σ) :
    Connection σ × Option ρ :=
  if inTx then op (attempts 0) c
  else retrying op attempts MAX_STATEMENT_MISS_RETRIES 0 c

namespace Sqlite

variable (sql : Sqlite σ Stmt Row)

def exec (inTx : Bool) (script : List Stmt) (attempts : ℕ → Attempt)
    (c : Connection σ) : Connection σ × Option (List Row) :=
  retryingColdMisses inTx (sql.execUnlocked script) attempts c

def run (inTx : Bool) (script : List Stmt) (attempts : ℕ → Attempt)
    (c : Connection σ) : Connection σ × Option ℕ :=
  retryingColdMisses inTx (sql.runUnlocked script) attempts c

/-! ## What a script does -/

/-- Each statement once, in autocommit mode; `none` when one is an error. -/
def applyAll : List Stmt → σ → Option σ
  | [], db => some db
  | stmt :: rest, db =>
      (sql.execute db stmt).bind fun done => applyAll rest done.1

/-- What stays when the statements run up to the first error. -/
def applyUntilError : List Stmt → σ → σ
  | [], db => db
  | stmt :: rest, db =>
      match sql.execute db stmt with
      | none => db
      | some (db, _) => applyUntilError rest db

end Sqlite

/-! ## What a pattern of misses repeats -/

def StatementEvent.isMiss : StatementEvent → Bool
  | .misses => true
  | .runs _ => false

def StatementEvent.swallows : StatementEvent → Bool
  | .misses => false
  | .runs swallowed => swallowed

namespace Attempt

/-- How many of the statements `[i, i + n)` come before a miss. -/
def lengthFrom (attempt : Attempt) : ℕ → ℕ → ℕ
  | _, 0 => 0
  | i, n + 1 =>
      if (attempt.statement i).isMiss then 0
      else attempt.lengthFrom (i + 1) n + 1

/-- Whether one of the statements `[i, i + n)` fails by a miss. -/
def missesFrom (attempt : Attempt) (i n : ℕ) : Bool :=
  (List.range' i n).any fun j => (attempt.statement j).isMiss

/-- Whether one of the statements `[i, i + n)` swallows a miss. -/
def swallowsFrom (attempt : Attempt) (i n : ℕ) : Bool :=
  (List.range' i n).any fun j => (attempt.statement j).swallows

/-- A script of `n` statements ends without a recorded miss and without a
failed flush. -/
def clean (attempt : Attempt) (n : ℕ) (missed : Bool) : Bool :=
  !missed && !attempt.missesFrom 0 n && !attempt.swallowsFrom 0 n &&
    !attempt.flushFails

end Attempt

/-- How many statements each attempt commits that is run again. -/
def repeated (attempts : ℕ → Attempt) (n : ℕ) : ℕ → ℕ → Bool → List ℕ
  | 0, _, _ => []
  | left + 1, k, missed =>
      if (attempts k).clean n missed then []
      else
        (attempts k).lengthFrom 0 n :: repeated attempts n left (k + 1) false

/-- The database once those prefixes of the script were applied to it. -/
def Sqlite.replay (sql : Sqlite σ Stmt Row) (script : List Stmt)
    (lengths : List ℕ) (db : σ) : σ :=
  lengths.foldl (fun db n => sql.applyUntilError (script.take n) db) db

/-! ## One attempt -/

section Attempts

variable {sql : Sqlite σ Stmt Row}

variable {attempt : Attempt}

theorem lengthFrom_succ_of_runs {i : ℕ}
    {swallowed : Bool} (hevent : attempt.statement i = .runs swallowed)
    (n : ℕ) :
    attempt.lengthFrom i (n + 1) = attempt.lengthFrom (i + 1) n + 1 := by
  rw [Attempt.lengthFrom, hevent]
  rfl

theorem lengthFrom_succ_of_misses {i : ℕ}
    (hevent : attempt.statement i = .misses) (n : ℕ) :
    attempt.lengthFrom i (n + 1) = 0 := by
  rw [Attempt.lengthFrom, hevent]
  rfl

theorem missesFrom_succ (attempt : Attempt) (i n : ℕ) :
    attempt.missesFrom i (n + 1) =
      ((attempt.statement i).isMiss || attempt.missesFrom (i + 1) n) := by
  rw [Attempt.missesFrom, List.range'_succ, List.any_cons]
  rfl

theorem swallowsFrom_succ (attempt : Attempt) (i n : ℕ) :
    attempt.swallowsFrom i (n + 1) = ((attempt.statement i).swallows ||
        attempt.swallowsFrom (i + 1) n) := by
  rw [Attempt.swallowsFrom, List.range'_succ, List.any_cons]
  rfl

/-- An attempt leaves the statements before its miss, or before its SQL
error, applied. -/
theorem statements_db (attempt : Attempt) (i : ℕ) (script : List Stmt)
    (c : Connection σ) :
    (sql.statements attempt i script c).1.db = sql.applyUntilError
        (script.take (attempt.lengthFrom i script.length)) c.db := by
  induction script generalizing i c with
  | nil => rfl
  | cons stmt rest ih =>
      rw [Sqlite.statements, List.length_cons]
      cases hevent : attempt.statement i with
      | misses =>
          rw [lengthFrom_succ_of_misses hevent]
          rfl
      | runs swallowed =>
          rw [lengthFrom_succ_of_runs hevent, List.take_succ_cons,
            Sqlite.applyUntilError]
          cases hstep : sql.execute c.db stmt with
          | none => simp only [hstep]
          | some done =>
              simp only [hstep]
              exact ih (i + 1) _

/-- A recorded miss was there before or is one of the attempt's. -/
theorem statements_missed {i : ℕ} {script : List Stmt} {c : Connection σ}
    (hmissed : (sql.statements attempt i script c).1.missed = true) :
    (c.missed || attempt.missesFrom i script.length ||
      attempt.swallowsFrom i script.length) = true := by
  induction script generalizing i c with
  | nil =>
      change c.missed = true at hmissed
      simp [hmissed]
  | cons stmt rest ih =>
      rw [Sqlite.statements] at hmissed
      rw [List.length_cons, missesFrom_succ, swallowsFrom_succ]
      cases hevent : attempt.statement i with
      | misses => simp [StatementEvent.isMiss]
      | runs swallowed =>
          rw [hevent] at hmissed
          cases hstep : sql.execute c.db stmt with
          | none =>
              simp only [hstep] at hmissed
              simp only [StatementEvent.isMiss, StatementEvent.swallows]
              revert hmissed
              cases c.missed <;> cases swallowed <;> simp
          | some done =>
              simp only [hstep] at hmissed
              have hlater := ih hmissed
              simp only [StatementEvent.isMiss, StatementEvent.swallows]
              revert hlater
              cases c.missed <;> cases swallowed <;> simp

/-- An attempt that reaches the end applied the whole script. -/
theorem statements_completed {i : ℕ}
    {script : List Stmt} {c : Connection σ} {rows : List Row}
    (hrows : (sql.statements attempt i script c).2 = some rows) :
    sql.applyAll script c.db = some (sql.statements attempt i script c).1.db ∧
      attempt.missesFrom i script.length = false ∧
      (sql.statements attempt i script c).1.missed =
        (c.missed || attempt.swallowsFrom i script.length) := by
  induction script generalizing i c rows with
  | nil =>
      refine ⟨rfl, rfl, ?_⟩
      simp [Sqlite.statements, Attempt.swallowsFrom]
  | cons stmt rest ih =>
      rw [Sqlite.statements] at hrows ⊢
      rw [List.length_cons, missesFrom_succ, swallowsFrom_succ,
        Sqlite.applyAll]
      cases hevent : attempt.statement i with
      | misses =>
          rw [hevent] at hrows
          exact absurd hrows (by simp)
      | runs swallowed =>
          rw [hevent] at hrows
          cases hstep : sql.execute c.db stmt with
          | none =>
              simp only [hstep] at hrows
              exact absurd hrows (by simp)
          | some done =>
              simp only [hstep] at hrows ⊢
              rcases Option.map_eq_some_iff.mp hrows with ⟨more, hmore, -⟩
              rcases ih hmore with ⟨hall, hmisses, hmissed⟩
              refine ⟨hall, ?_, ?_⟩
              · rw [hmisses]
                rfl
              · rw [hmissed]
                simp [StatementEvent.swallows, Bool.or_assoc]

/-- What the retry loop needs to know of an operation on a script. -/
structure Runs (sql : Sqlite σ Stmt Row) (script : List Stmt)
    (op : Attempt → Connection σ → Connection σ × Option ρ) : Prop where
  committed : ∀ attempt c, (op attempt c).1.db = sql.applyUntilError
        (script.take (attempt.lengthFrom 0 script.length)) c.db
  missed : ∀ attempt c, (op attempt c).1.missed = true →
    attempt.clean script.length c.missed = false
  failed : ∀ attempt c, (op attempt c).1.missed = false →
    (op attempt c).2 = none ∨ attempt.clean script.length c.missed = true
  completed : ∀ attempt c result, (op attempt c).2 = some result →
    sql.applyAll script c.db = some (op attempt c).1.db

theorem execUnlocked_runs (sql : Sqlite σ Stmt Row) (script : List Stmt) :
    Runs sql script (sql.execUnlocked script) := by
  constructor
  · intro attempt c
    exact statements_db attempt 0 script c
  · intro attempt c hmissed
    have hany := statements_missed hmissed
    rw [Attempt.clean]
    revert hany
    cases c.missed <;> cases attempt.missesFrom 0 script.length <;> simp
    intro hswallowed
    simp [hswallowed]
  · intro attempt c hmissed
    cases hflush : attempt.flushFails with
    | true => exact Or.inl (by simp [Sqlite.execUnlocked, hflush])
    | false =>
        cases hrows : (sql.statements attempt 0 script c).2 with
        | none =>
            exact Or.inl (by simp [Sqlite.execUnlocked, hrows])
        | some rows =>
            rcases statements_completed hrows with ⟨-, hmisses, hleft⟩
            change (sql.statements attempt 0 script c).1.missed = false
              at hmissed
            rw [hmissed, eq_comm, Bool.or_eq_false_iff] at hleft
            refine Or.inr ?_
            simp [Attempt.clean, hflush, hmisses, hleft.1, hleft.2]
  · intro attempt c result hresult
    have hrows : ∃ rows,
        (sql.statements attempt 0 script c).2 = some rows := by
      cases hflush : attempt.flushFails with
      | true => simp [Sqlite.execUnlocked, hflush] at hresult
      | false =>
          simp only [Sqlite.execUnlocked, hflush] at hresult
          exact ⟨result, hresult⟩
    rcases hrows with ⟨rows, hrows⟩
    exact (statements_completed hrows).1

/-- `run` does what `exec` does and answers the change count. -/
theorem runUnlocked_eq (sql : Sqlite σ Stmt Row) (script : List Stmt)
    (attempt : Attempt) (c : Connection σ) :
    sql.runUnlocked script attempt c = ((sql.execUnlocked script attempt c).1,
        (sql.execUnlocked script attempt c).2.map fun _ =>
          sql.changes (sql.execUnlocked script attempt c).1.db) := by
  rw [Sqlite.runUnlocked, Sqlite.execUnlocked]
  split_ifs <;> rfl

theorem runUnlocked_runs (sql : Sqlite σ Stmt Row) (script : List Stmt) :
    Runs sql script (sql.runUnlocked script) := by
  have h := execUnlocked_runs sql script
  constructor
  · intro attempt c
    rw [runUnlocked_eq]
    exact h.committed attempt c
  · intro attempt c
    rw [runUnlocked_eq]
    exact h.missed attempt c
  · intro attempt c hmissed
    rw [runUnlocked_eq] at hmissed ⊢
    refine (h.failed attempt c hmissed).imp_left ?_
    intro hnone
    simp [hnone]
  · intro attempt c result hresult
    rw [runUnlocked_eq] at hresult ⊢
    rcases Option.map_eq_some_iff.mp hresult with ⟨rows, hrows, -⟩
    exact h.completed attempt c rows hrows

/-! ## The whole call -/

variable {script : List Stmt}
  {op : Attempt → Connection σ → Connection σ × Option ρ}
  {attempts : ℕ → Attempt}

variable {c after : Connection σ}

theorem caught_resolves {retry : Connection σ → Connection σ × Option ρ}
    {resolve : Resolve} {result : ρ}
    (hcall : caught retry resolve c = (after, some result)) :
    c.missed = true ∧
      retry { c with missed := false } = (after, some result) := by
  unfold caught at hcall
  split_ifs at hcall with hmissed
  · cases resolve with
    | fetched => exact ⟨hmissed, hcall⟩
    | failed left => exact absurd (congrArg Prod.snd hcall) (by simp)
  · exact absurd (congrArg Prod.snd hcall) (by simp)

/-- A call that resolves either ends with its first attempt or runs again
after it. -/
theorem retrying_succ {left k : ℕ} {result : ρ}
    (hcall : retrying op attempts (left + 1) k c = (after, some result)) :
    (after.missed = false ∧ op (attempts k) c = (after, some result)) ∨
      ((op (attempts k) c).1.missed = true ∧ retrying op attempts left (k + 1)
            { (op (attempts k) c).1 with missed := false } =
          (after, some result)) := by
  rw [retrying] at hcall
  rcases hop : op (attempts k) c with ⟨c', outcome⟩
  rw [hop] at hcall
  cases outcome with
  | none => exact Or.inr (caught_resolves hcall)
  | some done =>
      simp only at hcall
      split_ifs at hcall with hmissed
      · cases hresolve : (attempts k).resolve with
        | fetched =>
            rw [hresolve] at hcall
            exact Or.inr ⟨hmissed, hcall⟩
        | failed others =>
            rw [hresolve] at hcall
            exact Or.inr ⟨hmissed, (caught_resolves hcall).2⟩
      · have hsame := Prod.mk.inj hcall
        obtain rfl := hsame.1
        exact Or.inl ⟨Bool.eq_false_iff.mpr hmissed, hcall⟩

/-- A call that resolves ends with one whole application of the script, on
what the attempts before it committed. -/
theorem retrying_resolves (h : Runs sql script op) {left k : ℕ} {result : ρ}
    (hcall : retrying op attempts left k c = (after, some result)) :
    sql.applyAll script (sql.replay script
          (repeated attempts script.length left k c.missed) c.db) =
      some after.db := by
  induction left generalizing k c with
  | zero =>
      have hdone := h.completed (attempts k) c result (congrArg Prod.snd hcall)
      have hdb := congrArg (fun r => r.1.db) hcall
      exact hdone.trans (congrArg some hdb)
  | succ left ih =>
      rw [repeated]
      rcases retrying_succ hcall with ⟨hmissed, hop⟩ | ⟨hmissed, hagain⟩
      · have hresult := congrArg Prod.snd hop
        have hconn := congrArg Prod.fst hop
        have hclean : (attempts k).clean script.length c.missed = true := by
          refine (h.failed (attempts k) c ?_).resolve_left ?_
          · rw [hconn]
            exact hmissed
          · rw [hresult]
            simp
        rw [if_pos hclean]
        have hdone := h.completed (attempts k) c result hresult
        rw [hconn] at hdone
        exact hdone
      · have hunclean := h.missed (attempts k) c hmissed
        have hrest := ih hagain
        rw [h.committed] at hrest
        rw [if_neg (Bool.eq_false_iff.mp hunclean)]
        exact hrest

end Attempts

/-! ## When a script is applied once -/

section AppliedOnce

/-- A call that resolves, by `exec` or by `run`. -/
def Sqlite.Resolves (sql : Sqlite σ Stmt Row) (script : List Stmt)
    (attempts : ℕ → Attempt) (before after : Connection σ) : Prop :=
  (∃ rows, sql.exec false script attempts before = (after, some rows)) ∨
    ∃ changes, sql.run false script attempts before = (after, some changes)

/-- Whenever the call resolves, each statement was executed once. -/
def Sqlite.AppliesOnce (sql : Sqlite σ Stmt Row) (script : List Stmt)
    (attempts : ℕ → Attempt) (before : Connection σ) : Prop :=
  ∀ after, sql.Resolves script attempts before after →
    sql.applyAll script before.db = some after.db

theorem Sqlite.Resolves.applyAll_replay {sql : Sqlite σ Stmt Row}
    {script : List Stmt} {attempts : ℕ → Attempt}
    {before after : Connection σ}
    (h : sql.Resolves script attempts before after) :
    sql.applyAll script (sql.replay script
          (repeated attempts script.length MAX_STATEMENT_MISS_RETRIES 0
            before.missed) before.db) = some after.db := by
  rcases h with ⟨rows, hcall⟩ | ⟨changes, hcall⟩
  · exact retrying_resolves (execUnlocked_runs sql script) hcall
  · exact retrying_resolves (runUnlocked_runs sql script) hcall

theorem replay_of_zero (sql : Sqlite σ Stmt Row) (script : List Stmt)
    {lengths : List ℕ} (hzero : ∀ n ∈ lengths, n = 0) (db : σ) :
    sql.replay script lengths db = db := by
  induction lengths with
  | nil => rfl
  | cons n lengths ih =>
      obtain rfl := hzero n List.mem_cons_self
      exact ih fun m hm => hzero m (List.mem_cons_of_mem _ hm)

/-- A database whose statements each add one. -/
def counting : Sqlite ℕ Unit Unit where
  execute db _ := some (db + 1, [])
  changes _ := 1

theorem counting_applyAll (script : List Unit) (db : ℕ) :
    counting.applyAll script db = some (db + script.length) := by
  induction script generalizing db with
  | nil => rfl
  | cons stmt rest ih =>
      rw [List.length_cons, Nat.add_comm rest.length, ← Nat.add_assoc]
      exact ih (db + 1)

theorem counting_applyUntilError (script : List Unit) (db : ℕ) :
    counting.applyUntilError script db = db + script.length := by
  induction script generalizing db with
  | nil => rfl
  | cons stmt rest ih =>
      rw [List.length_cons, Nat.add_comm rest.length, ← Nat.add_assoc]
      exact ih (db + 1)

theorem counting_replay (script : List Unit) (lengths : List ℕ) (db : ℕ) :
    counting.replay script lengths db =
      db + (lengths.map fun n => min n script.length).sum := by
  induction lengths generalizing db with
  | nil => rfl
  | cons n lengths ih =>
      rw [List.map_cons, List.sum_cons, ← Nat.add_assoc, ← List.length_take,
        ← counting_applyUntilError]
      exact ih _

theorem lengthFrom_le (attempt : Attempt) (i n : ℕ) :
    attempt.lengthFrom i n ≤ n := by
  induction n generalizing i with
  | zero => exact le_rfl
  | succ n ih =>
      rw [Attempt.lengthFrom]
      have hlater := ih (i + 1)
      split_ifs <;> omega

theorem le_of_mem_repeated {attempts : ℕ → Attempt} {n left k length : ℕ}
    {missed : Bool} (hmem : length ∈ repeated attempts n left k missed) :
    length ≤ n := by
  induction left generalizing k missed with
  | zero => simp [repeated] at hmem
  | succ left ih =>
      rw [repeated] at hmem
      split_ifs at hmem
      · simp at hmem
      · rcases List.mem_cons.mp hmem with rfl | hlater
        · exact lengthFrom_le _ _ _
        · exact ih hlater

/-- A pattern of misses leaves every script of `n` statements applied once,
on every database, exactly when each attempt that is run again was failed by
its first statement. -/
theorem appliedOnce_iff (attempts : ℕ → Attempt) (n : ℕ) (missed : Bool)
    (hresolves : ∃ after, counting.Resolves (List.replicate n ()) attempts
      ⟨0, missed⟩ after) :
    (∀ (σ Stmt Row : Type) (sql : Sqlite σ Stmt Row) (script : List Stmt)
        (db : σ), script.length = n →
          sql.AppliesOnce script attempts ⟨db, missed⟩) ↔
      ∀ length ∈ repeated attempts n MAX_STATEMENT_MISS_RETRIES 0 missed,
        length = 0 := by
  constructor
  · intro honce length hmem
    rcases hresolves with ⟨after, hafter⟩
    have hdone := hafter.applyAll_replay
    rw [List.length_replicate, ← honce ℕ Unit Unit counting _ 0
      List.length_replicate after hafter, counting_applyAll,
      counting_applyAll, counting_replay, List.length_replicate,
      Option.some.injEq] at hdone
    have hsum := List.single_le_sum (l := (repeated attempts n
      MAX_STATEMENT_MISS_RETRIES 0 missed).map fun k => min k n)
      (fun _ _ => Nat.zero_le _) _ (List.mem_map_of_mem hmem)
    have hle := le_of_mem_repeated hmem
    dsimp only at hdone
    omega
  · rintro hzero σ Stmt Row sql script db rfl after hafter
    have hdone := hafter.applyAll_replay
    rw [replay_of_zero sql script hzero] at hdone
    exact hdone

end AppliedOnce

/-- The `j`-th statement misses in the first attempt. -/
def missesOnce (j k : ℕ) : Attempt where
  statement i := if k = 0 ∧ i = j then .misses else .runs false
  flushFails := false
  resolve := .fetched
  resolveAgain := .fetched

theorem not_appliedOnce_secondMisses : ∃ after rows,
      counting.exec false [(), ()] (missesOnce 1) ⟨0, false⟩ =
          (after, some rows) ∧
        counting.applyAll [(), ()] 0 ≠ some after.db :=
  ⟨⟨3, false⟩, [], rfl, by decide⟩

theorem appliedOnce_iff_firstMisses : (missesOnce 0 0).clean 2 false = false ∧
      ∀ (σ Stmt Row : Type) (sql : Sqlite σ Stmt Row) (script : List Stmt)
        (db : σ), script.length = 2 →
          sql.AppliesOnce script (missesOnce 0) ⟨db, false⟩ :=
  ⟨rfl, (appliedOnce_iff (missesOnce 0) 2 false
    ⟨⟨2, false⟩, Or.inl ⟨[], rfl⟩⟩).mpr (by decide)⟩

end ColdMiss
end QiForge
