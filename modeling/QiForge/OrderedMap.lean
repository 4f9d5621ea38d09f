import Mathlib.Tactic

/-!
# Insertion-ordered maps

The `Map` of the source: entries are iterated in the order their keys were
first inserted, overwriting a key keeps its place, and deleting a key forgets
its place.  No key occurs twice, which the structure carries as a field, so an
entry of the list and the answer of a lookup are the same fact.

`All` is the invariant rule: what every entry satisfies survives the
operations, and overwriting or deleting a key needs nothing of the entry it
replaces.
-/

namespace QiForge

structure OrderedMap (κ α : Type*) where
  entries : List (κ × α)
  nodup : (entries.map Prod.fst).Nodup

namespace OrderedMap

variable {κ α β : Type*}

def empty : OrderedMap κ α := ⟨[], List.nodup_nil⟩

instance : Inhabited (OrderedMap κ α) := ⟨empty⟩

def keys (m : OrderedMap κ α) : List κ := m.entries.map Prod.fst

def size (m : OrderedMap κ α) : ℕ := m.entries.length

def filter (p : κ → α → Bool) (m : OrderedMap κ α) : OrderedMap κ α :=
  ⟨m.entries.filter fun entry => p entry.1 entry.2,
    m.nodup.sublist (List.filter_sublist.map _)⟩

def mapValues (f : κ → α → β) (m : OrderedMap κ α) : OrderedMap κ β :=
  ⟨m.entries.map fun entry => (entry.1, f entry.1 entry.2), by
    simpa [Function.comp_def] using m.nodup⟩

/-- Forget the `n` oldest entries. -/
def dropOldest (n : ℕ) (m : OrderedMap κ α) : OrderedMap κ α :=
  ⟨m.entries.drop n, m.nodup.sublist ((List.drop_sublist n _).map _)⟩

section Lookup

variable [DecidableEq κ]

private def lookup : List (κ × α) → κ → Option α
  | [], _ => none
  | (k, v) :: rest, key => if k = key then some v else lookup rest key

def get? (m : OrderedMap κ α) (key : κ) : Option α := lookup m.entries key

def has (m : OrderedMap κ α) (key : κ) : Bool := (m.get? key).isSome

def delete (m : OrderedMap κ α) (key : κ) : OrderedMap κ α :=
  m.filter fun k _ => decide (k ≠ key)

variable {key : κ} {value : α}

private theorem lookup_eq_some_iff {entries : List (κ × α)}
    (hnodup : (entries.map Prod.fst).Nodup) :
    lookup entries key = some value ↔ (key, value) ∈ entries := by
  induction entries with
  | nil => simp [lookup]
  | cons entry rest ih =>
      obtain ⟨k, v⟩ := entry
      rw [List.map_cons, List.nodup_cons] at hnodup
      by_cases hk : k = key
      · subst hk
        have hnot : (k, value) ∉ rest := fun hmem =>
          hnodup.1 (List.mem_map.mpr ⟨(k, value), hmem, rfl⟩)
        simp [lookup, hnot, eq_comm]
      · simp [lookup, hk, ih hnodup.2, Ne.symm hk]

variable {m : OrderedMap κ α}

theorem mem_entries_iff : (key, value) ∈ m.entries ↔ m.get? key = some value :=
  (lookup_eq_some_iff m.nodup).symm

theorem mem_keys_iff : key ∈ m.keys ↔ ∃ value, m.get? key = some value := by
  simp [keys, ← mem_entries_iff]

theorem get?_eq_none_iff : m.get? key = none ↔ key ∉ m.keys := by
  rw [mem_keys_iff, Option.eq_none_iff_forall_ne_some, not_exists]

theorem has_iff : m.has key = true ↔ ∃ value, m.get? key = some value := by
  rw [has, Option.isSome_iff_exists]

@[simp] theorem get?_empty (key : κ) :
    (empty : OrderedMap κ α).get? key = none := rfl

@[simp] theorem get?_filter (p : κ → α → Bool) (m : OrderedMap κ α) (key : κ) :
    (m.filter p).get? key = (m.get? key).filter (p key) := by
  apply Option.ext
  intro value
  rw [← mem_entries_iff, Option.filter_eq_some_iff, ← mem_entries_iff]
  simp [filter]

@[simp] theorem get?_mapValues (f : κ → α → β) (m : OrderedMap κ α) (key : κ) :
    (m.mapValues f).get? key = (m.get? key).map (f key) := by
  apply Option.ext
  intro value
  rw [← mem_entries_iff, Option.map_eq_some_iff]
  simp only [mapValues, List.mem_map, Prod.mk.injEq, Prod.exists,
    ← mem_entries_iff]
  constructor
  · rintro ⟨k, v, hmem, rfl, rfl⟩
    exact ⟨v, hmem, rfl⟩
  · rintro ⟨v, hmem, rfl⟩
    exact ⟨key, v, hmem, rfl, rfl⟩

@[simp] theorem get?_delete (m : OrderedMap κ α) (key other : κ) :
    (m.delete key).get? other =
      if other = key then none else m.get? other := by
  rw [delete, get?_filter]
  by_cases h : other = key
  · simp [h]
  · simp only [if_neg h]
    cases m.get? other <;> simp [Option.filter, h]

theorem get?_of_get?_dropOldest {n : ℕ}
    (h : (m.dropOldest n).get? key = some value) :
    m.get? key = some value := by
  rw [← mem_entries_iff] at h ⊢
  exact List.mem_of_mem_drop h

/-- Append an entry whose key is new. -/
def push (m : OrderedMap κ α) (key : κ) (value : α) : OrderedMap κ α :=
  ⟨(m.delete key).entries ++ [(key, value)], by
    have hnot : key ∉ (m.delete key).keys := by
      rw [← get?_eq_none_iff]
      simp
    rw [List.map_append]
    refine List.Nodup.append (m.delete key).nodup (by simp) ?_
    intro k hk hk'
    have heq : k = key := by simpa using hk'
    exact hnot (heq ▸ hk)⟩

def set (m : OrderedMap κ α) (key : κ) (value : α) : OrderedMap κ α :=
  if m.has key then
    m.mapValues fun k v => if k = key then value else v
  else m.push key value

@[simp] theorem get?_push (m : OrderedMap κ α) (key : κ) (value : α)
    (other : κ) :
    (m.push key value).get? other =
      if other = key then some value else m.get? other := by
  apply Option.ext
  intro v
  rw [← mem_entries_iff]
  simp only [push, List.mem_append, mem_entries_iff, get?_delete,
    List.mem_singleton, Prod.mk.injEq]
  by_cases h : other = key <;> simp [h, eq_comm]

@[simp] theorem get?_set (m : OrderedMap κ α) (key : κ) (value : α)
    (other : κ) :
    (m.set key value).get? other =
      if other = key then some value else m.get? other := by
  unfold set
  by_cases hhas : m.has key
  · rw [if_pos hhas, get?_mapValues]
    by_cases h : other = key
    · subst h
      obtain ⟨v, hv⟩ := has_iff.mp hhas
      simp [hv]
    · simp [h]
  · rw [if_neg hhas, get?_push]

/-- Every entry satisfies `P`. -/
def All (P : κ → α → Prop) (m : OrderedMap κ α) : Prop :=
  ∀ key value, m.get? key = some value → P key value

theorem all_empty (P : κ → α → Prop) : All P empty := by
  intro key value h
  simp at h

theorem All.mono {P Q : κ → α → Prop} (h : All P m)
    (himp : ∀ key value, P key value → Q key value) : All Q m :=
  fun key value hget => himp key value (h key value hget)

variable {P : κ → α → Prop}

theorem All.filter {p : κ → α → Bool}
    (h : All (fun key value => p key value = true → P key value) m) :
    All P (m.filter p) := by
  intro key value hget
  rw [get?_filter, Option.filter_eq_some_iff] at hget
  exact h key value hget.1 hget.2

theorem All.delete (h : All (fun k value => k ≠ key → P k value) m) :
    All P (m.delete key) := by
  intro k value hget
  rw [get?_delete] at hget
  by_cases hk : k = key
  · simp [hk] at hget
  · exact h k value (by simpa [hk] using hget) hk

theorem All.dropOldest (h : All P m) (n : ℕ) : All P (m.dropOldest n) :=
  fun key value hget => h key value (get?_of_get?_dropOldest hget)

theorem All.push (h : All (fun k v => k ≠ key → P k v) m)
    (hvalue : P key value) : All P (m.push key value) := by
  intro k v hget
  rw [get?_push] at hget
  by_cases hk : k = key
  · subst hk
    obtain rfl : value = v := by simpa using hget
    exact hvalue
  · exact h k v (by simpa [hk] using hget) hk

theorem All.set (h : All (fun k v => k ≠ key → P k v) m)
    (hvalue : P key value) : All P (m.set key value) := by
  intro k v hget
  rw [get?_set] at hget
  by_cases hk : k = key
  · subst hk
    obtain rfl : value = v := by simpa using hget
    exact hvalue
  · exact h k v (by simpa [hk] using hget) hk

end Lookup
end OrderedMap
end QiForge
