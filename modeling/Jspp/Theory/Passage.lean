/-
# Theory.Passage -- structured programs on a loop of rounds

A machine makes rounds, one instruction after another, and knows nothing of the
structure of its program.  A `Passage` is what a part of the program does as a
whole: the states it may be entered in, with those it is left in.  Pieces are put
together by what they leave behind: `andThen` goes on where the first piece
comes out at a given place, `repeated` begins again where the piece comes back.

* `Realised l K here k p`: entered in front of the piece, the loop `l` comes to a
  state the piece leads to, and needs `k` rounds at least; `K` is what every round
  keeps.
* `Realised.andThen`, `Realised.repeated`: it is so of pieces made of realised ones.
* `Realised.ends_iff`: the loop ends as it does behind the piece.
-/
import Jspp.Theory.Loop

namespace Jspp.Theory

set_option autoImplicit false

universe u

namespace Loop

variable {σ : Type u} {l : Loop σ} {s t : σ}

/-- The loop ends in `t`, after that many rounds. -/
inductive EndsIn (l : Loop σ) : Nat → σ → σ → Prop where
  | done {s : σ} (finished : ¬ l.more s) : EndsIn l 0 s s
  | next {n : Nat} {s s' t : σ} (more : l.more s) (ran : l.round s = some s')
      (rest : EndsIn l n s' t) : EndsIn l (n + 1) s t

theorem EndsIn.ends {n : Nat} (h : l.EndsIn n s t) : l.Ends s t := by
  induction h with
  | done finished => exact ⟨.start, finished⟩
  | next more ran _ ih => exact ⟨.trans (.next .start more ran) ih.1, ih.2⟩

theorem Reaches.endsIn {t' : σ} {n : Nat} (reached : Reaches l s t) (ends : l.EndsIn n t t') :
    ∃ m, l.EndsIn m s t' := by
  induction reached generalizing n with
  | start => exact ⟨n, ends⟩
  | next _ more ran ih => exact ih (.next more ran ends)

theorem ends_iff_endsIn : l.Ends s t ↔ ∃ n, l.EndsIn n s t := by
  constructor
  · rintro ⟨reached, finished⟩
    exact reached.endsIn (.done finished)
  · rintro ⟨n, ends⟩
    exact ends.ends

end Loop

/-- A part of a program, by the states it is entered and left in. -/
abbrev Passage (σ : Type u) := σ → σ → Prop

namespace Passage

variable {σ : Type u}

/-- Where the first piece comes out here, the second one follows. -/
def andThen (p : Passage σ) (here : σ → Prop) (q : Passage σ) : Passage σ := fun s t =>
  ∃ u, p s u ∧ (here u ∧ q u t ∨ ¬ here u ∧ t = u)

/-- As often as the piece comes back here, it is begun again. -/
inductive repeated (p : Passage σ) (here : σ → Prop) : Passage σ where
  | out {s t : σ} (ran : p s t) (left : ¬ here t) : repeated p here s t
  | again {s u t : σ} (ran : p s u) (back : here u) (rest : repeated p here u t) :
      repeated p here s t

end Passage

/-! ## Pieces of a program that a loop runs -/

/-- Entered here, the loop does what the piece does, in `k` rounds at least. -/
structure Realised {σ : Type u} (l : Loop σ) (K here : σ → Prop) (k : Nat) (p : Passage σ) :
    Prop where
  reaches : ∀ s t, K s → here s → p s t → l.Reaches s t
  passes : ∀ n s r, K s → here s → l.EndsIn n s r → ∃ t m, p s t ∧ m + k ≤ n ∧ l.EndsIn m t r

namespace Realised

variable {σ : Type u} {l : Loop σ} {K here there : σ → Prop} {k j : Nat} {p q : Passage σ}

/-- Nothing at all is a piece. -/
theorem nothing : Realised l K here 0 Eq where
  reaches := by
    rintro s t _ _ rfl
    exact .start
  passes := by
    intro n s r _ _ ends
    exact ⟨s, n, rfl, Nat.le_refl _, ends⟩

theorem weaken (h : Realised l K here k p) (less : j ≤ k) : Realised l K here j p where
  reaches := h.reaches
  passes := by
    intro n s r kept front ends
    obtain ⟨t, m, ran, rounds, rest⟩ := h.passes n s r kept front ends
    exact ⟨t, m, ran, by omega, rest⟩

section

variable (keeps : ∀ s t, K s → l.more s → l.round s = some t → K t)

include keeps

theorem andThen (one : Realised l K here k p) (two : Realised l K there j q) :
    Realised l K here k (p.andThen there q) where
  reaches := by
    rintro s t kept front ⟨u, ran, ⟨back, rest⟩ | ⟨_, rfl⟩⟩
    · have reached := one.reaches s u kept front ran
      exact reached.trans (two.reaches u t (reached.invariant kept keeps) back rest)
    · exact one.reaches s _ kept front ran
  passes := by
    intro n s r kept front ends
    obtain ⟨u, m, ran, rounds, rest⟩ := one.passes n s r kept front ends
    by_cases back : there u
    · have kept' := (one.reaches s u kept front ran).invariant kept keeps
      obtain ⟨t, m', ran', rounds', rest'⟩ := two.passes m u r kept' back rest
      exact ⟨t, m', ⟨u, ran, .inl ⟨back, ran'⟩⟩, by omega, rest'⟩
    · exact ⟨u, m, ⟨u, ran, .inr ⟨back, rfl⟩⟩, rounds, rest⟩

/-- Every turn takes a round, so a loop that ends comes out of the repetition. -/
theorem repeated (one : Realised l K here (k + 1) p) :
    Realised l K here (k + 1) (p.repeated here) where
  reaches := by
    intro s t kept front ran
    induction ran with
    | out ran _ => exact one.reaches _ _ kept front ran
    | again ran back _ ih =>
        have reached := one.reaches _ _ kept front ran
        exact reached.trans (ih (reached.invariant kept keeps) back)
  passes := by
    intro n
    induction n using Nat.strong_induction_on with
    | _ n ih =>
      intro s r kept front ends
      obtain ⟨u, m, ran, rounds, rest⟩ := one.passes n s r kept front ends
      by_cases back : here u
      · have kept' := (one.reaches s u kept front ran).invariant kept keeps
        obtain ⟨t, m', ran', rounds', rest'⟩ := ih m (by omega) u r kept' back rest
        exact ⟨t, m', .again ran back ran', by omega, rest'⟩
      · exact ⟨u, m, .out ran back, rounds, rest⟩

end

/-- The loop ends as it does behind the piece. -/
theorem ends_iff (h : Realised l K here k p) {s r : σ} (kept : K s) (front : here s) :
    l.Ends s r ↔ ∃ t, p s t ∧ l.Ends t r := by
  constructor
  · intro ends
    obtain ⟨n, ends⟩ := Loop.ends_iff_endsIn.mp ends
    obtain ⟨t, m, ran, _, rest⟩ := h.passes n s r kept front ends
    exact ⟨t, ran, rest.ends⟩
  · rintro ⟨t, ran, reached, finished⟩
    exact ⟨(h.reaches s t kept front ran).trans reached, finished⟩

end Realised

end Jspp.Theory
