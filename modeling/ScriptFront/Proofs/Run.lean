set_option autoImplicit false

/-! # Runs of stateful operations

The parser and the lexer are made of operations that keep a state and may fail. Their runs are taken
apart at the binds: either the first operation is known to answer or to fail, or all that is known
of it is how it ends (`Ensures`). -/

namespace ScriptFront.Run

variable {ε σ α β : Type}

/-- A run ends as described: one condition for an answer, one for an error. -/
def Ensures (ok : α → σ → Prop) (fail : ε → Prop) : EStateM.Result ε σ α → Prop
  | .ok value state => ok value state
  | .error error _ => fail error

/-- Once an operation has answered, the next one goes on from there. -/
theorem bind_of_ok {p : EStateM ε σ α} {f : α → EStateM ε σ β} {s s' : σ} {a : α}
    (h : p s = .ok a s') : (p >>= f) s = f a s' := by
  show EStateM.bind p f s = f a s'
  rw [EStateM.bind, h]

/-- Once an operation has failed, nothing follows. -/
theorem bind_of_error {p : EStateM ε σ α} {f : α → EStateM ε σ β} {s s' : σ} {e : ε}
    (h : p s = .error e s') : (p >>= f) s = .error e s' := by
  show EStateM.bind p f s = .error e s'
  rw [EStateM.bind, h]

/-- What is done to an answer changes neither the state nor an error. -/
theorem map_apply (f : α → β) (p : EStateM ε σ α) (s : σ) : (f <$> p) s =
    match p s with
    | .ok a s' => .ok (f a) s'
    | .error e s' => .error e s' := rfl

/-- The same outcome with another state behind it. -/
def mapState {τ : Type} (f : σ → τ) : EStateM.Result ε σ α → EStateM.Result ε τ α
  | .ok value state => .ok value (f state)
  | .error error state => .error error (f state)

namespace Ensures

variable {ok : β → σ → Prop} {fail : ε → Prop}

/-- One operation after another ends as described if the first one ends so that the second does. -/
theorem bind {middle : α → σ → Prop} {p : EStateM ε σ α} {f : α → EStateM ε σ β} {s : σ}
    (hp : Ensures middle fail (p s)) (hf : ∀ a s', middle a s' → Ensures ok fail (f a s')) :
    Ensures ok fail ((p >>= f) s) := by
  cases h : p s with
  | ok a s' => rw [bind_of_ok h]; rw [h] at hp; exact hf a s' hp
  | error e s' => rw [bind_of_error h]; rw [h] at hp; exact hp

theorem imp {ok' : β → σ → Prop} {fail' : ε → Prop} {r : EStateM.Result ε σ β}
    (h : Ensures ok fail r) (hok : ∀ b s, ok b s → ok' b s) (hfail : ∀ e, fail e → fail' e) :
    Ensures ok' fail' r := by
  cases r with
  | ok b s => exact hok b s h
  | error e s => exact hfail e h

end Ensures

end ScriptFront.Run
