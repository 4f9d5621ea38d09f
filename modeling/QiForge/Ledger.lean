import Mathlib.Tactic

/-!
# A ledger of openings and settlements

A log marks keys as opened and as settled.  In a sound log a key is opened at
most once and settled at most once, never before it is opened, and not opened
after it is settled.  Three entries keep a log sound: a new key is opened, an
open key is settled, a new key is settled at once.  A log whose open keys are
all settled has no key left open.
-/

namespace QiForge
namespace Ledger

variable {κ : Type} [DecidableEq κ]

inductive Mark where
  | opened
  | settled
deriving DecidableEq, Repr

/-- The marks of one key, in order. -/
def trail (log : List (κ × Mark)) (key : κ) : List Mark :=
  (log.filter fun entry => entry.1 = key).map Prod.snd

@[simp] theorem trail_nil (key : κ) : trail ([] : List (κ × Mark)) key = [] :=
  rfl

theorem trail_append (front back : List (κ × Mark)) (key : κ) :
    trail (front ++ back) key = trail front key ++ trail back key := by
  rw [trail, List.filter_append, List.map_append]
  rfl

theorem trail_mark_self (log : List (κ × Mark)) (key : κ) (mark : Mark) :
    trail (log ++ [(key, mark)]) key = trail log key ++ [mark] := by
  rw [trail_append]
  simp [trail]

theorem trail_mark_other
    {key other : κ} (hne : key ≠ other) (log : List (κ × Mark)) (mark : Mark) :
    trail (log ++ [(key, mark)]) other = trail log other := by
  rw [trail_append]
  simp [trail, hne]

/-- No key is open: each was never marked, settled at once, or opened and
then settled. -/
def Settled (marks : List Mark) : Prop :=
  marks = [] ∨ marks = [.settled] ∨ marks = [.opened, .settled]

/-- A log with its open keys, and keys it has not marked. -/
structure Sound (log : List (κ × Mark)) (isOpen isNew : κ → Prop) : Prop where
  opened : ∀ key, isOpen key → trail log key = [.opened]
  settled : ∀ key, ¬ isOpen key → Settled (trail log key)
  fresh : ∀ key, isNew key → trail log key = []

namespace Sound

variable {log : List (κ × Mark)} {isOpen isNew nextOpen nextNew : κ → Prop}

theorem empty (isNew : κ → Prop) :
    Sound ([] : List (κ × Mark)) (fun _ => False) isNew where
  opened := fun _ hopen => hopen.elim
  settled := fun _ _ => Or.inl rfl
  fresh := fun _ _ => rfl

theorem not_open_of_new
    (hsound : Sound log isOpen isNew) {key : κ} (hnew : isNew key) :
    ¬ isOpen key := by
  intro hopen
  have htrail := hsound.opened key hopen
  rw [hsound.fresh key hnew] at htrail
  cases htrail

theorem mono (hsound : Sound log isOpen isNew)
    (hopen : ∀ key, nextOpen key ↔ isOpen key)
    (hnew : ∀ key, nextNew key → isNew key) :
    Sound log nextOpen nextNew where
  opened := fun key hkey => hsound.opened key ((hopen key).mp hkey)
  settled := fun key hkey => hsound.settled key (mt (hopen key).mpr hkey)
  fresh := fun key hkey => hsound.fresh key (hnew key hkey)

/-- Open a key that has no mark. -/
theorem start (hsound : Sound log isOpen isNew) {key : κ}
    (hkey : trail log key = [])
    (hopen : ∀ other, nextOpen other ↔ other = key ∨ isOpen other)
    (hnew : ∀ other, nextNew other → isNew other ∧ other ≠ key) :
    Sound (log ++ [(key, .opened)]) nextOpen nextNew where
  opened := by
    intro other hother
    by_cases heq : key = other
    · subst heq
      rw [trail_mark_self, hkey, List.nil_append]
    · rw [trail_mark_other heq]
      rcases (hopen other).mp hother with hsame | hold
      · exact absurd hsame.symm heq
      · exact hsound.opened other hold
  settled := by
    intro other hother
    have hne : key ≠ other := by
      rintro rfl
      exact hother ((hopen key).mpr (Or.inl rfl))
    rw [trail_mark_other hne]
    exact hsound.settled other fun hold =>
      hother ((hopen other).mpr (Or.inr hold))
  fresh := by
    intro other hother
    obtain ⟨hold, hne⟩ := hnew other hother
    rw [trail_mark_other (Ne.symm hne)]
    exact hsound.fresh other hold

/-- Settle an open key, or one that has no mark. -/
theorem settle (hsound : Sound log isOpen isNew) {key : κ}
    (hkey : isOpen key ∨ trail log key = [])
    (hopen : ∀ other, nextOpen other ↔ isOpen other ∧ other ≠ key)
    (hnew : ∀ other, nextNew other → isNew other ∧ other ≠ key) :
    Sound (log ++ [(key, .settled)]) nextOpen nextNew where
  opened := by
    intro other hother
    obtain ⟨hold, hne⟩ := (hopen other).mp hother
    rw [trail_mark_other (Ne.symm hne)]
    exact hsound.opened other hold
  settled := by
    intro other hother
    by_cases heq : key = other
    · subst heq
      rw [trail_mark_self]
      rcases hkey with hold | hnone
      · rw [hsound.opened key hold]
        exact Or.inr (Or.inr rfl)
      · rw [hnone]
        exact Or.inr (Or.inl rfl)
    · rw [trail_mark_other heq]
      exact hsound.settled other fun hold =>
        hother ((hopen other).mpr ⟨hold, Ne.symm heq⟩)
  fresh := by
    intro other hother
    obtain ⟨hold, hne⟩ := hnew other hother
    rw [trail_mark_other (Ne.symm hne)]
    exact hsound.fresh other hold

/-- Settle open keys one after the other. -/
theorem settleAll {keys : List κ} (hkeys : keys.Nodup)
    (hsound : Sound log isOpen isNew)
    (hall : ∀ key ∈ keys, isOpen key) :
    Sound (log ++ keys.map fun key => (key, .settled))
      (fun key => isOpen key ∧ key ∉ keys) isNew := by
  induction keys generalizing log isOpen with
  | nil =>
      rw [List.map_nil, List.append_nil]
      exact hsound.mono (by simp) fun _ hnew => hnew
  | cons key keys ih =>
      obtain ⟨hkey, hnodup⟩ := List.nodup_cons.mp hkeys
      have hfirst : Sound (log ++ [(key, .settled)])
            (fun other => isOpen other ∧ other ≠ key) isNew := by
        refine hsound.settle (Or.inl (hall key List.mem_cons_self))
          (fun _ => Iff.rfl) fun other hother => ⟨hother, ?_⟩
        rintro rfl
        exact hsound.not_open_of_new hother (hall other List.mem_cons_self)
      have hrest := ih hnodup hfirst fun other hother =>
        ⟨hall other (List.mem_cons_of_mem _ hother), fun heq =>
          hkey (heq ▸ hother)⟩
      rw [List.map_cons, ← List.singleton_append, ← List.append_assoc]
      refine hrest.mono (fun other => ?_) fun _ hother => hother
      rw [List.mem_cons, not_or, and_assoc]

end Sound

end Ledger
end QiForge
