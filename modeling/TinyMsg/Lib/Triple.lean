import TinyMsg.Lib.Run

/-!
# Rules of pre- and postconditions for computations that may stop

`Meets x P E` says of a computation `x : Except ε α` that it ends with a value that meets `P`, or
stops for a reason that meets `E`.  The rules go along the structure of a computation: a value, a
sequence, a choice, and a run of steps, which has the invariant for its pre- and postcondition.
-/

namespace TinyMsg

universe u

variable {α β σ : Type u} {ι ε : Type*} {x : Except ε α} {P P' : α → Prop} {E E' : ε → Prop}

/-- The computation ends with a value that meets `P`, or stops for a reason that meets `E`. -/
def Meets (x : Except ε α) (P : α → Prop) (E : ε → Prop) : Prop :=
  match x with
  | .ok a => P a
  | .error e => E e

@[simp] theorem meets_ok {a : α} : Meets (.ok a : Except ε α) P E ↔ P a := Iff.rfl

@[simp] theorem meets_error {e : ε} : Meets (.error e : Except ε α) P E ↔ E e := Iff.rfl

/-- What is known of the value. -/
theorem Meets.of_ok (h : Meets x P E) {a : α} (hx : x = .ok a) : P a := by
  subst hx
  exact h

/-- What is known of the reason. -/
theorem Meets.of_error (h : Meets x P E) {e : ε} (hx : x = .error e) : E e := by
  subst hx
  exact h

/-- The rule of consequence. -/
theorem Meets.mono (h : Meets x P E) (hP : ∀ a, P a → P' a) (hE : ∀ e, E e → E' e) :
    Meets x P' E' := by
  cases x with
  | ok a => exact hP a h
  | error e => exact hE e h

/-- The rule of sequence. -/
theorem Meets.bind {f : α → Except ε β} {Q : β → Prop} (h : Meets x P E)
    (hf : ∀ a, P a → Meets (f a) Q E) : Meets (x >>= f) Q E := by
  cases x with
  | ok a => exact hf a h
  | error e => exact h

/-- The rule of choice. -/
theorem Meets.ite {c : Prop} [Decidable c] {y : Except ε α} (hx : c → Meets x P E)
    (hy : ¬ c → Meets y P E) : Meets (if c then x else y) P E := by
  split
  case isTrue h => exact hx h
  case isFalse h => exact hy h

/-- The rule of runs: an invariant of the steps is an invariant of the run. -/
theorem meets_run {step : σ → ι → Except ε σ} {I : σ → Prop} {s : σ} {es : List ι} (hs : I s)
    (hstep : ∀ s e, e ∈ es → I s → Meets (step s e) I E) : Meets (run step s es) I E := by
  induction es generalizing s with
  | nil => exact hs
  | cons e es ih =>
    rw [run_cons]
    refine (hstep s e List.mem_cons_self hs).bind fun s' hs' => ?_
    exact ih hs' fun t f hf => hstep t f (List.mem_cons_of_mem _ hf)

end TinyMsg
