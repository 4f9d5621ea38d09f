import QiForge.CreditBalance

/-!
# An override repairs the balance

A charge between the read and the write of an override is given back, and the
balance is then too high.  The next override that is not disturbed ends that,
whatever came before it, and while no other is the balance stays covered.
-/

namespace QiForge
namespace UserCredits

variable {disableCredits : Bool} {u u' : UserCredits}

theorem covered_after_override {events : List CreditEvent} (hsound : u.Sound)
    (hmeets : Transition.Meets (step disableCredits) Undisturbed u events)
    (hwritten : u.Covered ∨ ∃ i, .writeBalance i ∈ events)
    (hrun : Transition.run (step disableCredits) u events = some u') :
    u'.Covered := by
  induction events generalizing u with
  | nil =>
      cases hrun
      exact hwritten.resolve_right (by simp)
  | cons event events ih =>
      rcases Transition.run_cons_eq_some.mp hrun with ⟨mid, hstep, hrest⟩
      apply ih (hsound.step hstep) (hmeets.tail hstep) ?_ hrest
      rcases hwritten with hcovered | ⟨i, hi⟩
      · exact .inl (hcovered.step hsound hmeets.head hstep)
      · rcases List.mem_cons.mp hi with rfl | hlater
        · exact .inl (covered_writeBalance hsound hmeets.head hstep)
        · exact .inr ⟨i, hlater⟩

end UserCredits
end QiForge
