import Mathlib.Data.List.TakeWhile

/-!
# Texts bound to a statement

wa-sqlite hands a text over as a C string, so what a statement is given ends
before the first U+0000 of the text.
-/

namespace QiForge

def nul : Char := Char.ofNat 0

def bindText (text : List Char) : List Char := text.takeWhile (· ≠ nul)

theorem bindText_eq_self {text : List Char} :
    bindText text = text ↔ nul ∉ text := by
  unfold bindText
  rw [List.takeWhile_eq_self_iff]
  constructor
  · intro h hmem
    exact of_decide_eq_true (h nul hmem) rfl
  · intro h c hc
    exact decide_eq_true fun hnul => h (hnul ▸ hc)

end QiForge
