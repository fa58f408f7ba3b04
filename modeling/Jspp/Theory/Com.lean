/-
# Theory.Com -- commands, their runs and their triples

Structured commands over any type of states: primitive steps and tests, which may
be undefined, sequence, branching, loops, and an answer that ends the command
early.  `Com.Runs c s o` says that the command, begun in `s`, ends with `o`; a
command that does not end has no run.

* `Com.Result`: a state in which it goes on behind the command, an answer, or an
  undefined step.
* `Com.Meets`: total correctness, with one rule for each way to put commands
  together; `Com.Meets.while` asks for an invariant and a number that the body
  lowers.
-/
import Mathlib.Data.Nat.Basic

namespace Jspp.Theory

set_option autoImplicit false

universe u v

/-- Commands over states in `σ` that may answer with an `R`. -/
inductive Com (σ : Type u) (R : Type v) where
  | skip
  | prim (f : σ → Option σ)
  | ret (f : σ → Option R)
  | seq (c d : Com σ R)
  | ite (test : σ → Option Bool) (c d : Com σ R)
  | while (test : σ → Option Bool) (c : Com σ R)

namespace Com

variable {σ : Type u} {R : Type v}

/-- How a command ends. -/
inductive Result (σ : Type u) (R : Type v) where
  | going (s : σ)
  | answered (r : R)
  | stuck

namespace Result

/-- After a primitive step. -/
def ofStep : Option σ → Result σ R
  | some s => .going s
  | none => .stuck

def ofAnswer : Option R → Result σ R
  | some r => .answered r
  | none => .stuck

theorem going_ne_stuck (s : σ) : (.going s : Result σ R) ≠ .stuck := by
  intro same
  cases same

/-- Nothing behind the command is run. -/
def Leaves : Result σ R → Prop
  | .going _ => False
  | _ => True

/-- A state with `Q`, or an answer with `A`. -/
def Meets (Q : σ → Prop) (A : R → Prop) : Result σ R → Prop
  | .going s => Q s
  | .answered r => A r
  | .stuck => False

theorem Meets.weaken {Q Q' : σ → Prop} {A A' : R → Prop} {o : Result σ R} (h : o.Meets Q A)
    (states : ∀ s, Q s → Q' s) (answers : ∀ r, A r → A' r) : o.Meets Q' A' := by
  cases o with
  | going s => exact states s h
  | answered r => exact answers r h
  | stuck => exact h

end Result

/-! ## Runs -/

/-- The command, begun in the state, ends with the result. -/
inductive Runs : Com σ R → σ → Result σ R → Prop where
  | skip {s : σ} : Runs .skip s (.going s)
  | prim {f : σ → Option σ} {s : σ} {o : Result σ R} (eq : .ofStep (f s) = o) :
      Runs (.prim f) s o
  | ret {f : σ → Option R} {s : σ} {o : Result σ R} (eq : .ofAnswer (f s) = o) :
      Runs (.ret f) s o
  | seq {c d : Com σ R} {s s' : σ} {o : Result σ R} (first : Runs c s (.going s'))
      (second : Runs d s' o) : Runs (.seq c d) s o
  | seqLeft {c d : Com σ R} {s : σ} {o : Result σ R} (first : Runs c s o) (left : o.Leaves) :
      Runs (.seq c d) s o
  | ite {test : σ → Option Bool} {c d : Com σ R} {s : σ} {b : Bool} {o : Result σ R}
      (tested : test s = some b) (ran : Runs (if b then c else d) s o) : Runs (.ite test c d) s o
  | iteStuck {test : σ → Option Bool} {c d : Com σ R} {s : σ} (tested : test s = none) :
      Runs (.ite test c d) s .stuck
  | whileOut {test : σ → Option Bool} {c : Com σ R} {s : σ} (tested : test s = some false) :
      Runs (.while test c) s (.going s)
  | whileOn {test : σ → Option Bool} {c : Com σ R} {s s' : σ} {o : Result σ R}
      (tested : test s = some true) (body : Runs c s (.going s'))
      (rest : Runs (.while test c) s' o) : Runs (.while test c) s o
  | whileLeft {test : σ → Option Bool} {c : Com σ R} {s : σ} {o : Result σ R}
      (tested : test s = some true) (body : Runs c s o) (left : o.Leaves) :
      Runs (.while test c) s o
  | whileStuck {test : σ → Option Bool} {c : Com σ R} {s : σ} (tested : test s = none) :
      Runs (.while test c) s .stuck

/-! ## Total correctness -/

/-- Begun in a state with `P`, the command ends, in a state with `Q` or with an answer with `A`. -/
def Meets (P : σ → Prop) (c : Com σ R) (Q : σ → Prop) (A : R → Prop) : Prop :=
  ∀ s, P s → ∃ o, Runs c s o ∧ o.Meets Q A

namespace Meets

variable {P P' Q Q' I : σ → Prop} {A A' : R → Prop} {c d : Com σ R} {test : σ → Option Bool}

theorem consequence (pre : ∀ s, P' s → P s) (post : ∀ s, Q s → Q' s) (answers : ∀ r, A r → A' r)
    (h : Meets P c Q A) : Meets P' c Q' A' := by
  intro s meets
  obtain ⟨o, ran, ends⟩ := h s (pre s meets)
  exact ⟨o, ran, ends.weaken post answers⟩

theorem skip : Meets Q (.skip : Com σ R) Q A := fun _ meets => ⟨_, .skip, meets⟩

theorem prim {f : σ → Option σ} (h : ∀ s, P s → ∃ s', f s = some s' ∧ Q s') :
    Meets P (.prim f) Q A := by
  intro s meets
  obtain ⟨s', eq, holds⟩ := h s meets
  exact ⟨.going s', .prim (by rw [eq]; rfl), holds⟩

theorem ret {f : σ → Option R} (h : ∀ s, P s → ∃ r, f s = some r ∧ A r) :
    Meets P (.ret f) Q A := by
  intro s meets
  obtain ⟨r, eq, holds⟩ := h s meets
  exact ⟨.answered r, .ret (by rw [eq]; rfl), holds⟩

theorem seq (first : Meets P c Q' A) (second : Meets Q' d Q A) : Meets P (.seq c d) Q A := by
  intro s meets
  obtain ⟨o, ran, ends⟩ := first s meets
  cases o with
  | going s' =>
      obtain ⟨o', ran', ends'⟩ := second s' ends
      exact ⟨o', .seq ran ran', ends'⟩
  | answered r => exact ⟨_, .seqLeft ran trivial, ends⟩
  | stuck => exact ends.elim

theorem ite (tested : ∀ s, P s → ∃ b, test s = some b)
    (yes : Meets (fun s => P s ∧ test s = some true) c Q A)
    (no : Meets (fun s => P s ∧ test s = some false) d Q A) : Meets P (.ite test c d) Q A := by
  intro s meets
  obtain ⟨b, eq⟩ := tested s meets
  cases b with
  | true =>
      obtain ⟨o, ran, ends⟩ := yes s ⟨meets, eq⟩
      exact ⟨o, .ite eq ran, ends⟩
  | false =>
      obtain ⟨o, ran, ends⟩ := no s ⟨meets, eq⟩
      exact ⟨o, .ite eq ran, ends⟩

/-- The loop rule: the body keeps the invariant, and lowers `μ`. -/
theorem «while» (μ : σ → Nat) (tested : ∀ s, I s → ∃ b, test s = some b)
    (body : ∀ n, Meets (fun s => I s ∧ test s = some true ∧ μ s = n) c
      (fun s => I s ∧ μ s < n) A) :
    Meets I (.while test c) (fun s => I s ∧ test s = some false) A := by
  suffices all : ∀ n s, μ s = n → I s →
      ∃ o, Runs (.while test c) s o ∧ o.Meets (fun s => I s ∧ test s = some false) A from
    fun s meets => all (μ s) s rfl meets
  intro n
  induction n using Nat.strong_induction_on with
  | _ n ih =>
    intro s size meets
    obtain ⟨b, eq⟩ := tested s meets
    cases b with
    | false => exact ⟨.going s, .whileOut eq, meets, eq⟩
    | true =>
        obtain ⟨o, ran, ends⟩ := body n s ⟨meets, eq, size⟩
        cases o with
        | going s' =>
            obtain ⟨o', ran', ends'⟩ := ih (μ s') ends.2 s' rfl ends.1
            exact ⟨o', .whileOn eq ran ran', ends'⟩
        | answered r => exact ⟨_, .whileLeft eq ran trivial, ends⟩
        | stuck => exact ends.elim

end Meets

end Com

end Jspp.Theory
