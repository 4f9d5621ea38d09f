import QiForge.Transition

/-!
# A machine at every key

A family of machines, one state for each key, where an event names the key it
is for and leaves the states of the others alone.  What the machine of each key
preserves, with or without a condition on its steps, a run of the family
preserves at every key.
-/

namespace QiForge
namespace Transition

variable {κ σ ε : Type*} [DecidableEq κ]

def pointwise (step : κ → σ → ε → Option σ) (s : κ → σ) (event : κ × ε) :
    Option (κ → σ) :=
  (step event.1 (s event.1) event.2).map fun next =>
    Function.update s event.1 next

/-- The condition of the event's key, in the state at that key. -/
def AtKey (cond : κ → σ → ε → Prop) (s : κ → σ) (event : κ × ε) : Prop :=
  cond event.1 (s event.1) event.2

instance {cond : κ → σ → ε → Prop} [∀ k s e, Decidable (cond k s e)]
    (s : κ → σ) (event : κ × ε) : Decidable (AtKey cond s event) :=
  inferInstanceAs (Decidable (cond event.1 (s event.1) event.2))

variable {step : κ → σ → ε → Option σ} {cond : κ → σ → ε → Prop}
  {I : κ → σ → Prop}

/-- A step at one key leaves the other keys alone. -/
theorem pointwise_preserves {s s' : κ → σ} {event : κ × ε}
    (hstep : pointwise step s event = some s') (hI : ∀ k, I k (s k))
    (hkey : ∀ next, step event.1 (s event.1) event.2 = some next →
      I event.1 next) :
    ∀ k, I k (s' k) := by
  rcases Option.map_eq_some_iff.mp hstep with ⟨next, hnext, rfl⟩
  intro k
  by_cases hk : k = event.1
  · subst hk
    rw [Function.update_self]
    exact hkey next hnext
  · rw [Function.update_of_ne hk]
    exact hI k

theorem pointwise_run_preserves_of_meets
    (hpreserves : ∀ k s s' e, I k s → cond k s e → step k s e = some s' →
      I k s')
    {s s' : κ → σ} {events : List (κ × ε)}
    (hmeets : Meets (pointwise step) (AtKey cond) s events)
    (hinit : ∀ k, I k (s k))
    (hrun : run (pointwise step) s events = some s') :
    ∀ k, I k (s' k) := by
  apply run_preserves_of_meets (I := fun s : κ → σ => ∀ k, I k (s k)) _
    hmeets hinit hrun
  intro before after event hbefore hcond hstep
  exact pointwise_preserves hstep hbefore fun next hnext =>
    hpreserves event.1 _ next event.2 (hbefore event.1) hcond hnext

theorem pointwise_run_preserves
    (hpreserves : ∀ k s s' e, I k s → step k s e = some s' → I k s')
    {s s' : κ → σ} {events : List (κ × ε)} (hinit : ∀ k, I k (s k))
    (hrun : run (pointwise step) s events = some s') :
    ∀ k, I k (s' k) := by
  apply run_preserves (I := fun s : κ → σ => ∀ k, I k (s k)) _ hinit hrun
  intro before after event hbefore hstep
  exact pointwise_preserves hstep hbefore fun next hnext =>
    hpreserves event.1 _ next event.2 (hbefore event.1) hnext

end Transition
end QiForge
