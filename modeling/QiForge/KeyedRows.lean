import Mathlib.Tactic

/-!
# Rows updated by a key

An `UPDATE ... WHERE key = k` on a list of rows, and what it does to the rows
when their keys are unique.
-/

namespace QiForge

namespace KeyedRows

variable {α β κ : Type*} [DecidableEq κ] (key : α → κ)

/-- The rows with the ones of a key changed. -/
def update (k : κ) (change : α → α) (rows : List α) : List α :=
  rows.map fun row => if key row = k then change row else row

/-- The row of a key. -/
def get (k : κ) (rows : List α) : Option α :=
  rows.find? fun row => decide (key row = k)

variable {key} {k : κ} {change : α → α} {rows : List α} {row other : α}

theorem get_eq_some (hget : get key k rows = some row) :
    row ∈ rows ∧ key row = k :=
  ⟨List.mem_of_find?_eq_some hget, by simpa using List.find?_some hget⟩

theorem get_eq_none (hget : get key k rows = none) : k ∉ rows.map key := by
  intro hmem
  rcases List.mem_map.mp hmem with ⟨row, hrow, heq⟩
  have hnone := List.find?_eq_none.mp hget row hrow
  simp [heq] at hnone

/-- With unique keys a row of the key is the one that is found. -/
theorem eq_of_get (hnodup : (rows.map key).Nodup)
    (hget : get key k rows = some row) (hother : other ∈ rows)
    (hkey : key other = k) : other = row := by
  rcases get_eq_some hget with ⟨hmem, hrow⟩
  exact List.inj_on_of_nodup_map hnodup hother hmem (hkey.trans hrow.symm)

theorem get_of_mem (hnodup : (rows.map key).Nodup) (hmem : row ∈ rows) :
    get key (key row) rows = some row := by
  cases hget : get key (key row) rows with
  | none => exact absurd (List.mem_map_of_mem hmem) (get_eq_none hget)
  | some found => rw [eq_of_get hnodup hget hmem rfl]

omit [DecidableEq κ] in
/-- With unique keys the key of an erased row is gone. -/
theorem key_not_mem_erase [DecidableEq α] (hnodup : (rows.map key).Nodup)
    (hmem : row ∈ rows) : key row ∉ (rows.erase row).map key := by
  intro hkey
  rcases List.mem_map.mp hkey with ⟨other, hother, heq⟩
  rcases (hnodup.of_map _).mem_erase_iff.mp hother with ⟨hne, hrest⟩
  exact hne (List.inj_on_of_nodup_map hnodup hrest hmem heq)

theorem mem_update {row' : α} (hmem : row' ∈ update key k change rows) :
    ∃ row ∈ rows, key row = k ∧ row' = change row ∨
      key row ≠ k ∧ row' = row := by
  rcases List.mem_map.mp hmem with ⟨row, hrow, rfl⟩
  by_cases hkey : key row = k
  · exact ⟨row, hrow, .inl ⟨hkey, by rw [if_pos hkey]⟩⟩
  · exact ⟨row, hrow, .inr ⟨hkey, by rw [if_neg hkey]⟩⟩

theorem map_update (f : α → β)
    (hsame : ∀ row ∈ rows, key row = k → f (change row) = f row) :
    (update key k change rows).map f = rows.map f := by
  unfold update
  rw [List.map_map]
  apply List.map_congr_left
  intro row hrow
  rw [Function.comp_apply]
  split
  next hkey => exact hsame row hrow hkey
  next => rfl

theorem update_of_get_none (hget : get key k rows = none) :
    update key k change rows = rows := by
  unfold update
  calc rows.map (fun row => if key row = k then change row else row)
      = rows.map id := by
        apply List.map_congr_left
        intro row hrow
        have hne : key row ≠ k := by
          rintro rfl
          exact get_eq_none hget (List.mem_map_of_mem hrow)
        rw [if_neg hne, id]
    _ = rows := List.map_id rows

theorem update_update (first second : α → α)
    (hkey : ∀ row, key (first row) = key row) :
    update key k second (update key k first rows) =
      update key k (fun row => second (first row)) rows := by
  unfold update
  rw [List.map_map]
  apply List.map_congr_left
  intro row _
  rw [Function.comp_apply]
  by_cases heq : key row = k
  · rw [if_pos heq, if_pos heq, if_pos ((hkey row).trans heq)]
  · rw [if_neg heq, if_neg heq, if_neg heq]

theorem nodup_append {f : α → β} (hnodup : (rows.map f).Nodup)
    (hnew : f row ∉ rows.map f) : ((rows ++ [row]).map f).Nodup := by
  rw [List.map_append, List.map_singleton, ← List.concat_eq_append]
  exact hnodup.concat hnew

end KeyedRows

end QiForge
