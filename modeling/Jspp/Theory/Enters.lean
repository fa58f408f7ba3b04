/-
# Theory.Enters -- the parts a run comes to

`Enters k s' m s`: run from the state `s`, the attempt `m` comes to its part `k` in
the state `s'`.  A run ends where a part it comes to ends it (`Enters.error`).

`Traces e P m s`: where `m` ends with the error `e`, the property `P` of the part
that ends it holds, for a property that is passed on from the parts of an attempt
to the whole (`Passes`).

* `Traces.bind`, `Traces.loop`: the rules of sequence and of a bounded loop.
-/
import Jspp.Theory.Attempt

namespace Jspp.Theory

set_option autoImplicit false

namespace Attempt

variable {σ ε α β γ τ ρ : Type}

/-- The run of `m` from `s` comes to `k` in the state `s'`. -/
inductive Enters (k : Attempt σ ε β) (s' : σ) : {α : Type} → Attempt σ ε α → σ → Prop where
  | here : Enters k s' k s'
  | first {α γ : Type} {m : Attempt σ ε α} {f : α → Attempt σ ε γ} {s : σ}
      (enters : Enters k s' m s) : Enters k s' (m >>= f) s
  | second {α γ : Type} {m : Attempt σ ε α} {f : α → Attempt σ ε γ} {s s₁ : σ} {a : α}
      (run : m s = (.ok a, s₁)) (enters : Enters k s' (f a) s₁) : Enters k s' (m >>= f) s

theorem Enters.error {k : Attempt σ ε β} {m : Attempt σ ε α} {s s' : σ} {e : ε}
    (enters : Enters k s' m s) (ends : (k s').1 = .error e) : (m s).1 = .error e := by
  induction enters with
  | here => exact ends
  | @first α γ m f s _ ih =>
      have run : m s = (.error e, (m s).2) := Prod.ext ih rfl
      rw [bind_error run]
  | second run _ ih => rw [bind_ok run, ih]

/-- A property of attempts and the states they start from, passed on from the parts. -/
class Passes (P : {α : Type} → Attempt σ ε α → σ → Prop) : Prop where
  first {α γ : Type} {m : Attempt σ ε α} {f : α → Attempt σ ε γ} {s : σ} : P m s → P (m >>= f) s
  second {α γ : Type} {m : Attempt σ ε α} {f : α → Attempt σ ε γ} {s s₁ : σ} {a : α} :
    m s = (.ok a, s₁) → P (f a) s₁ → P (m >>= f) s

/-- Where the attempt ends with `e`, `P` holds of it. -/
def Traces (e : ε) (P : {α : Type} → Attempt σ ε α → σ → Prop) (m : Attempt σ ε α) (s : σ) :
    Prop :=
  (m s).1 = .error e → P m s

instance : Passes (σ := σ) (ε := ε) (fun {_} _ _ => False) where
  first := False.elim
  second _ := False.elim

variable {e : ε} {P : {α : Type} → Attempt σ ε α → σ → Prop}

theorem Traces.of_ne {m : Attempt σ ε α} {s : σ} (other : (m s).1 ≠ .error e) :
    Traces e (@P) m s :=
  fun ends => absurd ends other

theorem Traces.bind [passes : Passes (@P)] {m : Attempt σ ε α} {f : α → Attempt σ ε γ} {s : σ}
    (head : Traces e (@P) m s)
    (tail : ∀ a s₁, m s = (.ok a, s₁) → Traces e (@P) (f a) s₁) :
    Traces e (@P) (m >>= f) s := by
  intro ends
  rcases run : m s with ⟨outcome, s₁⟩
  cases outcome with
  | error e' =>
      rw [bind_error run] at ends
      exact passes.first (head (by rw [run]; exact congrArg Except.error (Except.error.inj ends)))
  | ok a =>
      rw [bind_ok run] at ends
      exact passes.second run (tail a s₁ run ends)

theorem Traces.ite {c : Prop} [Decidable c] {m m' : Attempt σ ε α} {s : σ}
    (yes : c → Traces e (@P) m s) (no : ¬ c → Traces e (@P) m' s) :
    Traces e (@P) (if c then m else m') s := by
  split
  case isTrue holds => exact yes holds
  case isFalse fails => exact no fails

theorem Traces.loop [Passes (@P)] {out : ε} (other : out ≠ e)
    {round : τ → Attempt σ ε (Round τ ρ)} (body : ∀ t s, Traces e (@P) (round t) s) (n : Nat)
    (t : τ) (s : σ) : Traces e (@P) (loop out round n t) s := by
  induction n generalizing t s with
  | zero => exact .of_ne fun ends => other (Except.error.inj ends)
  | succ n ih =>
      refine Traces.bind (body t s) fun r s₁ _ => ?_
      cases r with
      | again t => exact ih t s₁
      | leave r => exact .of_ne nofun

end Attempt

end Jspp.Theory
