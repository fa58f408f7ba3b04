/-
# Theory.Attempt -- computations on a state that may fail

An `Attempt` runs on a state and ends with a result or with an error; either way
the state it has come to remains.

`Does M N m s Q` is its triple at the state `s`: the attempt comes from `s` by a
chain of single moves `M`, an error it ends with satisfies `N`, and a result with
its state satisfies `Q`.

* `Does.bind`: the rule of sequence; `Does.move` for an update that is one move.
* `loop`, `Does.loop`: a loop over local variables whose rounds are bounded, and
  its rule: a measure that every round lowers leaves the bound out of reach.
* `Chain.invariant`: what every move preserves holds along a chain.
-/
import Mathlib.Logic.Relation

namespace Jspp.Theory

set_option autoImplicit false

def Attempt (σ ε α : Type) : Type := σ → Except ε α × σ

/-- How a round of a loop ends: with the local variables of the next, or for good. -/
inductive Round (τ ρ : Type) where
  | again (t : τ)
  | leave (r : ρ)

namespace Attempt

variable {σ ε α β τ ρ : Type}

def pure (a : α) : Attempt σ ε α := fun s => (.ok a, s)

def bind (m : Attempt σ ε α) (f : α → Attempt σ ε β) : Attempt σ ε β := fun s =>
  match m s with
  | (.ok a, s') => f a s'
  | (.error e, s') => (.error e, s')

instance : Monad (Attempt σ ε) where
  pure := pure
  bind := bind

def fail (e : ε) : Attempt σ ε α := fun s => (.error e, s)

def get : Attempt σ ε σ := fun s => (.ok s, s)

def modify (f : σ → σ) : Attempt σ ε Unit := fun s => (.ok (), f s)

/-- A loop; `out` is its error where the rounds are used up. -/
def loop (out : ε) (round : τ → Attempt σ ε (Round τ ρ)) : Nat → τ → Attempt σ ε ρ
  | 0, _ => fail out
  | n + 1, t => do
      match ← round t with
      | .again t => loop out round n t
      | .leave r => Pure.pure r

/-! ## Chains of moves -/

/-- A chain of moves. -/
abbrev Chain (M : σ → σ → Prop) : σ → σ → Prop := Relation.ReflTransGen M

variable {M : σ → σ → Prop} {N : ε → Prop}

theorem Chain.invariant {I : σ → Prop} (step : ∀ s s', M s s' → I s → I s') {s s' : σ}
    (chain : Chain M s s') (start : I s) : I s' := by
  induction chain with
  | refl => exact start
  | tail _ move ih => exact step _ _ move ih

/-- What the attempt does from `s`. -/
structure Does (M : σ → σ → Prop) (N : ε → Prop) (m : Attempt σ ε α) (s : σ)
    (Q : α → σ → Prop) : Prop where
  chain : Chain M s (m s).2
  error : ∀ e, (m s).1 = .error e → N e
  result : ∀ a, (m s).1 = .ok a → Q a (m s).2

variable {m : Attempt σ ε α} {f : α → Attempt σ ε β} {s : σ} {P Q : α → σ → Prop}
  {R : β → σ → Prop}

theorem Does.pure {a : α} (holds : Q a s) : Does M N (Pure.pure a : Attempt σ ε α) s Q where
  chain := .refl
  error := fun _ same => nomatch same
  result := fun _ same => Except.ok.inj same ▸ holds

theorem Does.fail {e : ε} (holds : N e) : Does M N (fail e : Attempt σ ε α) s Q where
  chain := .refl
  error := fun _ same => Except.error.inj same ▸ holds
  result := fun _ same => nomatch same

theorem Does.get {Q : σ → σ → Prop} (holds : Q s s) : Does M N (get : Attempt σ ε σ) s Q where
  chain := .refl
  error := fun _ same => nomatch same
  result := fun _ same => Except.ok.inj same ▸ holds

/-- An update that is a chain of moves. -/
theorem Does.modify {g : σ → σ} {Q : Unit → σ → Prop} (chain : Chain M s (g s))
    (holds : Q () (g s)) : Does M N (modify g : Attempt σ ε Unit) s Q where
  chain := chain
  error := fun _ same => nomatch same
  result := fun _ _ => holds

theorem Does.move {g : σ → σ} {Q : Unit → σ → Prop} (move : M s (g s)) (holds : Q () (g s)) :
    Does M N (Attempt.modify g : Attempt σ ε Unit) s Q :=
  Does.modify (.single move) holds

theorem bind_error {e : ε} {s' : σ} (run : m s = (.error e, s')) :
    (m >>= f) s = (.error e, s') := by
  show Attempt.bind m f s = _
  simp only [Attempt.bind, run]

theorem bind_ok {a : α} {s' : σ} (run : m s = (.ok a, s')) : (m >>= f) s = f a s' := by
  show Attempt.bind m f s = _
  simp only [Attempt.bind, run]

theorem Does.bind (first : Does M N m s P)
    (second : ∀ a s', Chain M s s' → P a s' → Does M N (f a) s' R) :
    Does M N (m >>= f) s R := by
  obtain ⟨chain, error, result⟩ := first
  rcases same : m s with ⟨outcome, s'⟩
  rw [same] at chain error result
  cases outcome with
  | error e =>
      have run := bind_error (f := f) same
      exact {
        chain := by rw [run]; exact chain
        error := fun e' eq => by
          rw [run] at eq
          exact error e' (congrArg Except.error (Except.error.inj eq))
        result := fun a eq => by rw [run] at eq; cases eq }
  | ok a =>
      have run := bind_ok (f := f) same
      have more := second a s' chain (result a rfl)
      exact {
        chain := by rw [run]; exact chain.trans more.chain
        error := fun e eq => more.error e (by rw [run] at eq; exact eq)
        result := fun b eq => by
          rw [run] at eq ⊢
          exact more.result b eq }

theorem Does.weaken (does : Does M N m s P) (more : ∀ a s', Chain M s s' → P a s' → Q a s') :
    Does M N m s Q where
  chain := does.chain
  error := does.error
  result := fun a same => more a _ does.chain (does.result a same)

theorem Does.ite {c : Prop} [Decidable c] {m' : Attempt σ ε α} (yes : c → Does M N m s Q)
    (no : ¬ c → Does M N m' s Q) : Does M N (if c then m else m') s Q := by
  split
  case isTrue holds => exact yes holds
  case isFalse fails => exact no fails

/-- The local variables satisfy `I` before each round, and the measure bounds the rounds. -/
theorem Does.loop {out : ε} {round : τ → Attempt σ ε (Round τ ρ)} {I : τ → σ → Prop}
    {m : σ → Nat} {Q : ρ → σ → Prop}
    (body : ∀ t s, I t s → Does M N (round t) s fun r s' =>
      match r with
      | .again t' => I t' s' ∧ m s' < m s
      | .leave r => Q r s')
    {n : Nat} {t : τ} {s : σ} (start : I t s) (enough : m s < n) :
    Does M N (loop out round n t) s Q := by
  induction n generalizing t s with
  | zero => exact absurd enough (Nat.not_lt_zero _)
  | succ n ih =>
      refine (body t s start).bind fun r s' _ ended => ?_
      cases r with
      | again t' => exact ih ended.1 (by have := ended.2; omega)
      | leave r => exact Does.pure ended

end Attempt

end Jspp.Theory
