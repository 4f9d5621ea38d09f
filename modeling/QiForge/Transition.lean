import Mathlib.Tactic

/-!
# Runs of a partial step function

A machine is a partial step function `step : σ → ε → Option σ`: the event may
be impossible in the state.  A run executes a list of events, and `Meets`
says that a condition holds at every step of it, read in the state the step
starts from.  The run rules below turn what one step preserves into what every
run preserves, with or without such a condition, and lift a simulation of one
step to a simulation of runs.
-/

namespace QiForge
namespace Transition

variable {σ ε α : Type*}

/-- Execute the events from left to right; `none` when one is impossible. -/
def run (step : σ → ε → Option σ) : σ → List ε → Option σ
  | s, [] => some s
  | s, e :: es => (step s e).bind fun s' => run step s' es

/-- `cond` holds at every step the events take from `s`. -/
def Meets (step : σ → ε → Option σ) (cond : σ → ε → Prop) : σ → List ε → Prop
  | _, [] => True
  | s, e :: es =>
      cond s e ∧
        match step s e with
        | none => True
        | some s' => Meets step cond s' es

variable {step : σ → ε → Option σ} {cond : σ → ε → Prop}

@[simp] theorem run_nil (s : σ) : run step s [] = some s := rfl

theorem run_cons (s : σ) (e : ε) (es : List ε) :
    run step s (e :: es) = (step s e).bind fun s' => run step s' es := rfl

theorem run_cons_eq_some {s s' : σ} {e : ε} {es : List ε} :
    run step s (e :: es) = some s' ↔
      ∃ mid, step s e = some mid ∧ run step mid es = some s' := by
  simp [run_cons, Option.bind_eq_some_iff]

theorem run_append_eq_some {s s' : σ} {front back : List ε} :
    run step s (front ++ back) = some s' ↔
      ∃ mid, run step s front = some mid ∧ run step mid back = some s' := by
  induction front generalizing s with
  | nil => simp
  | cons e es ih =>
      cases hstep : step s e with
      | none => simp [run_cons, hstep]
      | some mid => simp [run_cons, hstep, ih]

theorem Meets.head {s : σ} {e : ε} {es : List ε}
    (h : Meets step cond s (e :: es)) : cond s e := h.1

theorem Meets.tail {s mid : σ} {e : ε} {es : List ε}
    (h : Meets step cond s (e :: es)) (hstep : step s e = some mid) :
    Meets step cond mid es := by
  have htail := h.2
  rw [hstep] at htail
  exact htail

theorem Meets.append {s : σ} {front back : List ε} :
    Meets step cond s (front ++ back) ↔ Meets step cond s front ∧
        ∀ mid, run step s front = some mid → Meets step cond mid back := by
  induction front generalizing s with
  | nil => simp [Meets]
  | cons e es ih =>
      cases hstep : step s e with
      | none => simp [Meets, run_cons, hstep]
      | some s' =>
          simp only [List.cons_append, Meets, hstep, run_cons,
            Option.bind_some, and_assoc]
          rw [ih]

theorem Meets.mono {cond' : σ → ε → Prop}
    (himp : ∀ s e, cond s e → cond' s e) {s : σ} {es : List ε}
    (h : Meets step cond s es) : Meets step cond' s es := by
  induction es generalizing s with
  | nil => trivial
  | cons e es ih =>
      refine ⟨himp s e h.head, ?_⟩
      cases hstep : step s e with
      | none => trivial
      | some s' => exact ih (h.tail hstep)

theorem Meets.and {cond' : σ → ε → Prop} {s : σ} {es : List ε}
    (h : Meets step cond s es) (h' : Meets step cond' s es) :
    Meets step (fun s e => cond s e ∧ cond' s e) s es := by
  induction es generalizing s with
  | nil => trivial
  | cons e es ih =>
      refine ⟨⟨h.head, h'.head⟩, ?_⟩
      cases hstep : step s e with
      | none => trivial
      | some s' => exact ih (h.tail hstep) (h'.tail hstep)

/-- Conditions that agree wherever a third one holds agree on the runs that
meet it. -/
theorem Meets.congr {left right : σ → ε → Prop}
    (hiff : ∀ s e, cond s e → (left s e ↔ right s e)) {s : σ} {es : List ε}
    (h : Meets step cond s es) :
    Meets step left s es ↔ Meets step right s es := by
  induction es generalizing s with
  | nil => simp [Meets]
  | cons e es ih =>
      unfold Meets
      rw [hiff s e h.head]
      cases hstep : step s e with
      | none => simp
      | some s' => simp [ih (h.tail hstep)]

instance Meets.decidable [∀ s e, Decidable (cond s e)] :
    (s : σ) → (es : List ε) → Decidable (Meets step cond s es)
  | _, [] => isTrue trivial
  | s, e :: es =>
      match hstep : step s e with
      | none =>
          decidable_of_iff (cond s e) (by simp [Meets, hstep])
      | some s' =>
          have : Decidable (Meets step cond s' es) := Meets.decidable s' es
          decidable_of_iff (cond s e ∧ Meets step cond s' es)
            (by simp [Meets, hstep])

/-- A simulation of one step, under the condition, lifts to runs: the related
abstract state is the abstract fold of the same events. -/
theorem run_simulates {R : σ → α → Prop} {astep : α → ε → α}
    (hstep : ∀ s s' a e, R s a → cond s e → step s e = some s' →
      R s' (astep a e))
    {s s' : σ} {a : α} {es : List ε}
    (hmeets : Meets step cond s es) (hinit : R s a)
    (hrun : run step s es = some s') : R s' (es.foldl astep a) := by
  induction es generalizing s a with
  | nil =>
      have heq : s = s' := by simpa using hrun
      exact heq ▸ hinit
  | cons e es ih =>
      obtain ⟨mid, hmid, hrest⟩ := run_cons_eq_some.mp hrun
      exact ih (hmeets.tail hmid)
        (hstep s mid a e hinit hmeets.head hmid) hrest

theorem meets_true (s : σ) (es : List ε) :
    Meets step (fun _ _ => True) s es := by
  induction es generalizing s with
  | nil => trivial
  | cons e es ih =>
      refine ⟨trivial, ?_⟩
      cases step s e with
      | none => trivial
      | some s' => exact ih s'

/-- A condition on the events alone. -/
theorem meets_of_forall_mem {P : ε → Prop} {s : σ} {es : List ε}
    (h : ∀ e ∈ es, P e) : Meets step (fun _ e => P e) s es := by
  induction es generalizing s with
  | nil => trivial
  | cons e es ih =>
      refine ⟨h e (by simp), ?_⟩
      cases step s e with
      | none => trivial
      | some s' => exact ih fun e' he' => h e' (by simp [he'])

/-- A simulation of every step lifts to runs. -/
theorem run_refines {R : σ → α → Prop} {astep : α → ε → α}
    (hstep : ∀ s s' a e, R s a → step s e = some s' → R s' (astep a e))
    {s s' : σ} {a : α} {es : List ε} (hinit : R s a)
    (hrun : run step s es = some s') : R s' (es.foldl astep a) :=
  run_simulates (fun s s' a e hs _ h => hstep s s' a e hs h)
    (meets_true s es) hinit hrun

/-- What every step preserves under the condition, every run preserves. -/
theorem run_preserves_of_meets {I : σ → Prop}
    (hstep : ∀ s s' e, I s → cond s e → step s e = some s' → I s')
    {s s' : σ} {es : List ε} (hmeets : Meets step cond s es)
    (hinit : I s) (hrun : run step s es = some s') : I s' :=
  @run_simulates σ ε Unit step cond (fun s _ => I s) (fun a _ => a)
    (fun s s' _ e hs hc h => hstep s s' e hs hc h) s s' () es
    hmeets hinit hrun

/-- What every step preserves, every run preserves. -/
theorem run_preserves {I : σ → Prop}
    (hstep : ∀ s s' e, I s → step s e = some s' → I s')
    {s s' : σ} {es : List ε} (hinit : I s)
    (hrun : run step s es = some s') : I s' :=
  run_preserves_of_meets (fun s s' e hs _ h => hstep s s' e hs h)
    (meets_true s es) hinit hrun

/-- Where every step lowers a measure, it bounds the length of the runs. -/
theorem run_length_le {I : σ → Prop} {measure : σ → ℕ}
    (hstep : ∀ s s' e, I s → cond s e → step s e = some s' →
      I s' ∧ measure s' < measure s)
    {s s' : σ} {es : List ε} (hmeets : Meets step cond s es) (hinit : I s)
    (hrun : run step s es = some s') :
    es.length + measure s' ≤ measure s := by
  induction es generalizing s with
  | nil =>
      have heq : s = s' := by simpa using hrun
      simp [heq]
  | cons e es ih =>
      obtain ⟨mid, hmid, hrest⟩ := run_cons_eq_some.mp hrun
      obtain ⟨hmidInv, hlower⟩ := hstep s mid e hinit hmeets.head hmid
      have htail := ih (hmeets.tail hmid) hmidInv hrest
      simp only [List.length_cons]
      omega

/-- Where a step that misses the condition breaks what the invariant gives,
the runs that keep it in every state are those that meet the condition. -/
theorem forall_states_iff_meets {I P : σ → Prop}
    (hstep : ∀ s s' e, I s → cond s e → step s e = some s' → I s')
    (hgives : ∀ s, I s → P s)
    (hbreaks : ∀ s e, I s → ¬cond s e → ∃ s', step s e = some s' ∧ ¬P s')
    {s : σ} {es : List ε} (hinit : I s) :
    (∀ front back s', es = front ++ back → run step s front = some s' → P s') ↔
      Meets step cond s es := by
  constructor
  · intro hall
    induction es generalizing s with
    | nil => trivial
    | cons e es ih =>
        have hcond : cond s e := by
          by_contra hnot
          rcases hbreaks s e hinit hnot with ⟨s', hs', hbroken⟩
          exact hbroken (hall [e] es s' rfl (by simp [run_cons, hs']))
        refine ⟨hcond, ?_⟩
        cases hs : step s e with
        | none => trivial
        | some mid =>
            apply ih (hstep s mid e hinit hcond hs)
            intro front back s' hes hrun
            exact hall (e :: front) back s' (by rw [hes, List.cons_append])
              (run_cons_eq_some.mpr ⟨mid, hs, hrun⟩)
  · rintro hmeets front back s' rfl hrun
    exact hgives s'
      (run_preserves_of_meets hstep (Meets.append.mp hmeets).1 hinit hrun)

end Transition
end QiForge
