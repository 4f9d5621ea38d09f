import Mathlib.Tactic

/-!
# Programs of requests

A program sends requests one after another and goes on with their answers, an
error among them.  What a request does to the world and what it answers is the
server's, and the fate of the request, whether it fails and when, is the
environment's.  A program may be cut off between two requests.

`Keeps` is what holds of every request of a program, whatever the fates, and
of its result.  The rules below follow the ways programs are put together.
-/

namespace QiForge

inductive Requests (Op : Type) (Ans : Op → Type) (ε α : Type) where
  | done (result : Except ε α)
  | call (op : Op) (next : Except ε (Ans op) → Requests Op Ans ε α)

namespace Requests

variable {Op : Type} {Ans : Op → Type} {ε α β : Type}

/-- Goes on with the result of a program, be it an error. -/
def andThen : Requests Op Ans ε α →
    (Except ε α → Requests Op Ans ε β) → Requests Op Ans ε β
  | done result, next => next result
  | call op next', next => call op fun answer => (next' answer).andThen next

def ok (value : α) : Requests Op Ans ε α := done (.ok value)

def fail (error : ε) : Requests Op Ans ε α := done (.error error)

def bind (p : Requests Op Ans ε α) (next : α → Requests Op Ans ε β) :
    Requests Op Ans ε β :=
  p.andThen fun result =>
    match result with
    | .ok value => next value
    | .error error => fail error

def tryCatch (p : Requests Op Ans ε α) (handler : ε → Requests Op Ans ε α) :
    Requests Op Ans ε α :=
  p.andThen fun result =>
    match result with
    | .ok value => ok value
    | .error error => handler error

/-- One request. -/
def request (op : Op) : Requests Op Ans ε (Ans op) := call op done

/-- At most so many further attempts after errors that may be retried. -/
def withRetry (isRetryable : ε → Bool) (attempt : Requests Op Ans ε α) :
    ℕ → Requests Op Ans ε α
  | 0 => attempt
  | retries + 1 => attempt.tryCatch fun error =>
      if isRetryable error then withRetry isRetryable attempt retries
      else fail error

section Server

variable {World Fate : Type}
  (serve : World → (op : Op) → Fate → World × Except ε (Ans op))

/-- The next request of a program that has not ended. -/
def step (w : World) (fate : Fate) :
    Requests Op Ans ε α → Option (World × Requests Op Ans ε α)
  | done _ => none
  | call op next => some ((serve w op fate).1, next (serve w op fate).2)

/-- The world and the result after a program, when the fates suffice. -/
def run : Requests Op Ans ε α → World → List Fate → Option (World × Except ε α)
  | done result, w, _ => some (w, result)
  | call _ _, _, [] => none
  | call op next, w, fate :: fates =>
      run (next (serve w op fate).2) (serve w op fate).1 fates

variable (R : World → World → Prop)

/-- Each request changes the world within `R`, and the result is in `Q`. -/
def Keeps : Requests Op Ans ε α → (Except ε α → World → Prop) → World → Prop
  | done result, Q, w => Q result w
  | call op next, Q, w => ∀ fate, R w (serve w op fate).1 ∧
      Keeps (next (serve w op fate).2) Q (serve w op fate).1

variable {serve R} {p : Requests Op Ans ε α}
  {Q Q' : Except ε α → World → Prop} {P : Except ε β → World → Prop}
  {w w' : World}

theorem Keeps.imp (h : Keeps serve R p Q w)
    (himp : ∀ result w, Q result w → Q' result w) :
    Keeps serve R p Q' w := by
  induction p generalizing w with
  | done result => exact himp result w h
  | call op next ih => exact fun fate => ⟨(h fate).1, ih _ (h fate).2⟩

theorem keeps_andThen {next : Except ε α → Requests Op Ans ε β} :
    Keeps serve R (p.andThen next) P w ↔
      Keeps serve R p (fun result => Keeps serve R (next result) P) w := by
  induction p generalizing w with
  | done result => rfl
  | call op next' ih =>
      constructor
      · exact fun h fate => ⟨(h fate).1, (ih _).mp (h fate).2⟩
      · exact fun h fate => ⟨(h fate).1, (ih _).mpr (h fate).2⟩

theorem Keeps.bind {next : α → Requests Op Ans ε β} (h : Keeps serve R p Q w)
    (hok : ∀ value w, Q (.ok value) w → Keeps serve R (next value) P w)
    (herror : ∀ error w, Q (.error error) w → P (.error error) w) :
    Keeps serve R (p.bind next) P w := by
  apply keeps_andThen.mpr
  apply h.imp
  intro result w hresult
  cases result with
  | ok value => exact hok value w hresult
  | error error => exact herror error w hresult

theorem Keeps.tryCatch {handler : ε → Requests Op Ans ε α}
    (h : Keeps serve R p Q w)
    (hok : ∀ value w, Q (.ok value) w → Q' (.ok value) w)
    (herror : ∀ error w, Q (.error error) w →
      Keeps serve R (handler error) Q' w) :
    Keeps serve R (p.tryCatch handler) Q' w := by
  apply keeps_andThen.mpr
  apply h.imp
  intro result w hresult
  cases result with
  | ok value => exact hok value w hresult
  | error error => exact herror error w hresult

theorem keeps_request {op : Op} {Q : Except ε (Ans op) → World → Prop}
    (h : ∀ fate, R w (serve w op fate).1 ∧
      Q (serve w op fate).2 (serve w op fate).1) :
    Keeps serve R (request op) Q w := h

/-- The invariant of the attempts holds again after each error. -/
theorem keeps_withRetry {isRetryable : ε → Bool} {J : World → Prop}
    (hattempt : ∀ w, J w → Keeps serve R p (fun result w' =>
      Q result w' ∧ ∀ error, result = .error error → J w') w)
    (hJ : J w) (retries : ℕ) :
    Keeps serve R (withRetry isRetryable p retries) Q w := by
  induction retries generalizing w with
  | zero => exact (hattempt w hJ).imp fun _ _ h => h.1
  | succ retries ih =>
      apply (hattempt w hJ).tryCatch
      · exact fun _ _ h => h.1
      · intro error w' h
        split
        · exact ih (h.2 error rfl)
        · exact h.1

theorem Keeps.step {p' : Requests Op Ans ε α} {fate : Fate}
    (h : Keeps serve R p Q w)
    (hstep : p.step serve w fate = some (w', p')) :
    R w w' ∧ Keeps serve R p' Q w' := by
  cases p with
  | done result => cases hstep
  | call op next =>
      obtain ⟨rfl, rfl⟩ := Prod.mk.inj (Option.some.inj hstep)
      exact h fate

end Server

end Requests

end QiForge
