/-!
# Steps that may fail

Reading a notation and rolling dice are both made of steps that keep their state when they
fail. These lemmas open a sequence of two steps, so that later proofs never unfold one.
-/

namespace DiceNotation.Step

variable {ε σ α β : Type}

/-- After a step that succeeds the next one runs. -/
theorem bind_of_ok {x : EStateM ε σ α} {f : α → EStateM ε σ β} {s s' : σ} {a : α}
    (h : x s = .ok a s') : (x >>= f) s = f a s' := by
  change EStateM.bind x f s = _
  simp only [EStateM.bind, h]

/-- After a step that fails nothing runs. -/
theorem bind_of_error {x : EStateM ε σ α} {f : α → EStateM ε σ β} {s s' : σ} {e : ε}
    (h : x s = .error e s') : (x >>= f) s = .error e s' := by
  change EStateM.bind x f s = _
  simp only [EStateM.bind, h]

/-- Two steps succeed together exactly if the first one succeeds and the second one
succeeds from the state that the first one leaves. -/
theorem bind_eq_ok_iff {x : EStateM ε σ α} {f : α → EStateM ε σ β} {s s' : σ} {b : β} :
    (x >>= f) s = .ok b s' ↔ ∃ a middle, x s = .ok a middle ∧ f a middle = .ok b s' := by
  cases hx : x s with
  | ok a middle =>
    rw [bind_of_ok hx]
    constructor
    · intro h
      exact ⟨a, middle, rfl, h⟩
    · rintro ⟨_, _, ⟨rfl, rfl⟩, h⟩
      exact h
  | error e middle => simp [bind_of_error hx]

/-- Two sequences of steps are equal from a state if their first steps are, and their second
steps are from the state that the first ones leave. -/
theorem bind_congr_of_ok {x y : EStateM ε σ α} {f g : α → EStateM ε σ β} {s : σ}
    (hfirst : x s = y s) (hsecond : ∀ a s', x s = .ok a s' → f a s' = g a s') :
    (x >>= f) s = (y >>= g) s := by
  cases hx : x s with
  | ok a middle =>
    rw [bind_of_ok hx, bind_of_ok (hfirst ▸ hx)]
    exact hsecond a middle hx
  | error e middle => rw [bind_of_error hx, bind_of_error (hfirst ▸ hx)]

/-- A step that does nothing succeeds in the state in which it starts. -/
theorem pure_eq_ok_iff {a b : α} {s s' : σ} :
    (pure a : EStateM ε σ α) s = .ok b s' ↔ a = b ∧ s = s' := by
  change EStateM.Result.ok a s = .ok b s' ↔ _
  simp

/-- The state that a step leaves, whether it succeeds or fails. -/
def stateOf : EStateM.Result ε σ α → σ
  | .ok _ s => s
  | .error _ s => s

/-- Two steps change the state as the first one does, and then, if that succeeds, as the
second one does. -/
theorem stateOf_bind {R : σ → σ → Prop} (htrans : ∀ {a b c}, R a b → R b c → R a c)
    {x : EStateM ε σ α} {f : α → EStateM ε σ β} {s : σ} (hfirst : R s (stateOf (x s)))
    (hsecond : ∀ a s', R s' (stateOf (f a s'))) : R s (stateOf ((x >>= f) s)) := by
  cases hx : x s with
  | ok a middle =>
    rw [hx] at hfirst
    rw [bind_of_ok hx]
    exact htrans hfirst (hsecond a middle)
  | error e middle =>
    rw [hx] at hfirst
    rw [bind_of_error hx]
    exact hfirst

end DiceNotation.Step
