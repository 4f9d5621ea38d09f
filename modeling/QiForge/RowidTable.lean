import Mathlib.Tactic

/-!
# Tables with rowids

A table with one unique key column, its rows in the order of their rowids.
Updating a row in place keeps its rowid; `INSERT OR REPLACE` removes the row
with the key and gives the new one a rowid greater than every existing one.
Which rowid that is is up to the database.
-/

namespace QiForge

structure TableRow (κ α : Type*) where
  rowid : ℤ
  key : κ
  value : α
deriving DecidableEq

structure RowidTable (κ α : Type*) where
  rows : List (TableRow κ α)
  sorted : rows.Pairwise fun row later => row.rowid < later.rowid
  nodup : (rows.map TableRow.key).Nodup

/-- How the database picks the rowid of a new row. -/
structure NewRowid (κ α : Type*) where
  next : List (TableRow κ α) → ℤ
  exceeds : ∀ rows, ∀ row ∈ rows, row.rowid < next rows

variable {κ α : Type*}

/-- One more than the greatest. -/
def NewRowid.afterGreatest : NewRowid κ α where
  next := fun rows => rows.foldr (fun row max => row.rowid ⊔ max) 0 + 1
  exceeds := by
    intro rows row hmem
    induction rows with
    | nil => exact absurd hmem List.not_mem_nil
    | cons first rest ih =>
        rw [List.foldr_cons]
        rcases List.mem_cons.mp hmem with rfl | hrest
        · exact Int.lt_add_one_of_le le_sup_left
        · have hlt := ih hrest
          have hle : rest.foldr (fun row max => row.rowid ⊔ max) 0 ≤
              first.rowid ⊔ rest.foldr (fun row max => row.rowid ⊔ max) 0 :=
            le_sup_right
          omega

namespace RowidTable

def empty : RowidTable κ α := ⟨[], List.Pairwise.nil, List.nodup_nil⟩

def mapValues (f : κ → α → α) (t : RowidTable κ α) : RowidTable κ α where
  rows := t.rows.map fun row => { row with value := f row.key row.value }
  sorted := by
    rw [List.pairwise_map]
    exact t.sorted
  nodup := by
    rw [List.map_map]
    exact t.nodup

variable [DecidableEq κ]

def find (t : RowidTable κ α) (key : κ) : Option (TableRow κ α) :=
  t.rows.find? fun row => decide (row.key = key)

def update (t : RowidTable κ α) (key : κ) (value : α) : RowidTable κ α :=
  t.mapValues fun other old => if other = key then value else old

/-- `INSERT OR REPLACE`. -/
def replace (new : NewRowid κ α) (t : RowidTable κ α) (key : κ)
    (value : α) : RowidTable κ α where
  rows := (t.rows.filter fun row => decide (row.key ≠ key)) ++
      [⟨new.next t.rows, key, value⟩]
  sorted := by
    rw [List.pairwise_append]
    refine ⟨t.sorted.sublist List.filter_sublist,
      List.pairwise_singleton _ _, ?_⟩
    intro row hrow last hlast
    rw [List.mem_singleton] at hlast
    rw [hlast]
    exact new.exceeds t.rows row (List.mem_of_mem_filter hrow)
  nodup := by
    rw [List.map_append]
    apply List.Nodup.append
    · exact t.nodup.sublist (List.filter_sublist.map _)
    · simp
    · intro other hother hlast
      rcases List.mem_map.mp hother with ⟨row, hrow, rfl⟩
      have hne := of_decide_eq_true (List.mem_filter.mp hrow).2
      exact hne (by simpa using hlast)

/-- `INSERT .. ON CONFLICT DO UPDATE`. -/
def upsert (new : NewRowid κ α) (t : RowidTable κ α) (key : κ)
    (value : α) : RowidTable κ α :=
  if (t.find key).isSome then t.update key value
  else t.replace new key value

/-- `INSERT OR IGNORE`. -/
def insertOrIgnore (new : NewRowid κ α) (t : RowidTable κ α) (key : κ)
    (value : α) : RowidTable κ α :=
  if (t.find key).isSome then t else t.replace new key value

variable {t : RowidTable κ α}

theorem find_eq_some_iff {key : κ} {row : TableRow κ α} :
    t.find key = some row ↔ row ∈ t.rows ∧ row.key = key := by
  unfold find
  constructor
  · intro h
    exact ⟨List.mem_of_find?_eq_some h, by simpa using List.find?_some h⟩
  · rintro ⟨hmem, rfl⟩
    cases hfind : t.rows.find? fun other => decide (other.key = row.key) with
    | none =>
        have hnone := List.find?_eq_none.mp hfind row hmem
        exact absurd (decide_eq_true rfl) hnone
    | some other =>
        have hother := List.mem_of_find?_eq_some hfind
        have hkey : other.key = row.key := by
          simpa using List.find?_some hfind
        rw [List.inj_on_of_nodup_map t.nodup hother hmem hkey]

theorem find_eq_none_iff {key : κ} :
    t.find key = none ↔ ∀ row ∈ t.rows, row.key ≠ key := by
  unfold find
  rw [List.find?_eq_none]
  simp

theorem find_update_of_ne {key other : κ} {value : α}
    (h : other ≠ key) : (t.update key value).find other = t.find other := by
  cases hfind : t.find other with
  | none =>
      rw [find_eq_none_iff] at hfind ⊢
      intro row hmem
      rcases List.mem_map.mp hmem with ⟨old, hold, rfl⟩
      exact hfind old hold
  | some row =>
      rw [find_eq_some_iff] at hfind ⊢
      have hne : row.key ≠ key := hfind.2 ▸ h
      refine ⟨List.mem_map.mpr ⟨row, hfind.1, ?_⟩, hfind.2⟩
      simp [hne]

/-- A row whose rowid is greater than those of all selected rows comes last
when it is selected too. -/
theorem filter_concat {row : TableRow κ α}
    (hmem : row ∈ t.rows) {p q : TableRow κ α → Bool}
    (hlast : ∀ other ∈ t.rows, p other = true → other.rowid < row.rowid)
    (hq : ∀ other ∈ t.rows, q other = (p other ||
      decide (other.key = row.key))) :
    t.rows.filter q = t.rows.filter p ++ [row] := by
  have hsorted := t.sorted
  have hnodup := t.nodup
  rcases List.append_of_mem hmem with ⟨front, back, hrows⟩
  rw [hrows] at hlast hq hsorted hnodup ⊢
  have hp : p row = false := by
    by_contra hne
    have hlt := hlast row (by simp) (by simpa using hne)
    exact absurd hlt (lt_irrefl _)
  have hqrow : q row = true := by
    rw [hq row (by simp)]
    simp
  rw [List.map_append, List.map_cons, List.nodup_append] at hnodup
  have hfront : front.filter q = front.filter p := by
    apply List.filter_congr
    intro other hother
    have hne : other.key ≠ row.key :=
      hnodup.2.2 _ (List.mem_map_of_mem hother) _ List.mem_cons_self
    rw [hq other (by simp [hother])]
    simp [hne]
  have hback : ∀ other ∈ back, p other = false ∧ q other = false := by
    intro other hother
    have hlater : row.rowid < other.rowid := by
      rw [List.pairwise_append] at hsorted
      exact List.rel_of_pairwise_cons hsorted.2.1 hother
    have hpother : p other = false := by
      by_contra hne
      have hlt := hlast other (by simp [hother]) (by simpa using hne)
      exact absurd hlt (not_lt.mpr hlater.le)
    have hne : other.key ≠ row.key := by
      intro hsame
      have hcons := (List.nodup_cons.mp hnodup.2.1).1
      exact hcons (hsame ▸ List.mem_map_of_mem hother)
    refine ⟨hpother, ?_⟩
    rw [hq other (by simp [hother]), hpother]
    simp [hne]
  have hnoneP : back.filter p = [] := by
    rw [List.filter_eq_nil_iff]
    intro other hother
    simp [(hback other hother).1]
  have hnoneQ : back.filter q = [] := by
    rw [List.filter_eq_nil_iff]
    intro other hother
    simp [(hback other hother).2]
  simp [List.filter_append, hfront, hqrow, hp, hnoneP, hnoneQ]

/-- A replaced row is selected last if at all. -/
theorem filter_replace {new : NewRowid κ α} {key : κ}
    {value : α} {p : TableRow κ α → Bool}
    (hold : ∀ row ∈ t.rows, row.key = key → p row = false) :
    (t.replace new key value).rows.filter p = t.rows.filter p ++
        [⟨new.next t.rows, key, value⟩].filter p := by
  unfold replace
  rw [List.filter_append, List.filter_filter]
  congr 1
  apply List.filter_congr
  intro row hmem
  by_cases hkey : row.key = key
  · simp [hold row hmem hkey]
  · simp [hkey]

theorem mem_replace {new : NewRowid κ α} {key : κ}
    {value : α} {row : TableRow κ α}
    (h : row ∈ (t.replace new key value).rows) :
    (row ∈ t.rows ∧ row.key ≠ key) ∨ (row.key = key ∧ row.value = value) := by
  unfold replace at h
  rcases List.mem_append.mp h with hold | hnew
  · rcases List.mem_filter.mp hold with ⟨hmem, hne⟩
    exact Or.inl ⟨hmem, of_decide_eq_true hne⟩
  · rw [List.mem_singleton] at hnew
    subst hnew
    exact Or.inr ⟨rfl, rfl⟩

/-- Every row's value satisfies `P`. -/
def All (P : α → Prop) (t : RowidTable κ α) : Prop :=
  ∀ row ∈ t.rows, P row.value

section Values

variable {P : α → Prop} {new : NewRowid κ α} {t : RowidTable κ α}
variable {key : κ} {value : α}

omit [DecidableEq κ] in
theorem All.mapValues {f : κ → α → α} (h : All P t)
    (hf : ∀ key value, P value → P (f key value)) :
    All P (t.mapValues f) := by
  intro row hmem
  rcases List.mem_map.mp hmem with ⟨old, hold, rfl⟩
  exact hf old.key old.value (h old hold)

theorem All.update (h : All P t) (hvalue : P value) :
    All P (t.update key value) := by
  apply h.mapValues
  intro other old hold
  split_ifs
  · exact hvalue
  · exact hold

theorem All.replace (h : All P t) (hvalue : P value) :
    All P (t.replace new key value) := by
  intro row hmem
  rcases mem_replace hmem with ⟨hold, -⟩ | ⟨-, hnew⟩
  · exact h row hold
  · rw [hnew]
    exact hvalue

theorem All.upsert (h : All P t) (hvalue : P value) :
    All P (t.upsert new key value) := by
  unfold RowidTable.upsert
  split_ifs
  · exact h.update hvalue
  · exact h.replace hvalue

theorem All.insertOrIgnore (h : All P t) (hvalue : P value) :
    All P (t.insertOrIgnore new key value) := by
  unfold RowidTable.insertOrIgnore
  split_ifs
  · exact h
  · exact h.replace hvalue

end Values

end RowidTable
end QiForge
