/-
# Theory.Loop -- loops by their rounds

A loop has a test and a round; the round may be undefined, and then the loop
does not go on.  `Reaches l s t` says that the loop, begun in `s`, comes to its
test in the state `t`.

* `Reaches.invariant`: what holds at the beginning and is kept by every round.
* `Returns.of_measure`: a loop whose rounds are defined and lower a number returns.
* `Returns.not_of_invariant`: one that keeps its test true does not.
* `Returns.from`: a loop that returns does so from every state it reaches.
-/
import Mathlib.Data.Nat.Basic

namespace Jspp.Theory

set_option autoImplicit false

universe u

structure Loop (σ : Type u) where
  more : σ → Prop
  round : σ → Option σ

namespace Loop

variable {σ : Type u} {l : Loop σ} {s t : σ}

/-- The states in which the test is made. -/
inductive Reaches (l : Loop σ) (s : σ) : σ → Prop where
  | start : Reaches l s s
  | next {t t' : σ} (reached : Reaches l s t) (more : l.more t) (ran : l.round t = some t') :
      Reaches l s t'

/-- The loop ends in `t`. -/
def Ends (l : Loop σ) (s t : σ) : Prop := Reaches l s t ∧ ¬ l.more t

def Returns (l : Loop σ) (s : σ) : Prop := ∃ t, l.Ends s t

theorem Reaches.invariant {I : σ → Prop} (start : I s)
    (keeps : ∀ t t', I t → l.more t → l.round t = some t' → I t') (reached : Reaches l s t) :
    I t := by
  induction reached with
  | start => exact start
  | next _ more ran ih => exact keeps _ _ ih more ran

theorem Reaches.trans {t' : σ} (one : Reaches l s t) (other : Reaches l t t') :
    Reaches l s t' := by
  induction other with
  | start => exact one
  | next _ more ran ih => exact .next ih more ran

theorem Returns.of_measure (μ : σ → Nat)
    (down : ∀ t, Reaches l s t → l.more t → ∃ t', l.round t = some t' ∧ μ t' < μ t) :
    l.Returns s := by
  suffices ends : ∀ n t, Reaches l s t → μ t = n → l.Returns s from ends (μ s) s .start rfl
  intro n
  induction n using Nat.strong_induction_on with
  | _ n ih =>
    intro t reached size
    by_cases more : l.more t
    · obtain ⟨t', ran, less⟩ := down t reached more
      exact ih (μ t') (size ▸ less) t' (.next reached more ran) rfl
    · exact ⟨t, reached, more⟩

theorem Returns.not_of_invariant {I : σ → Prop} (start : I s)
    (keeps : ∀ t t', I t → l.more t → l.round t = some t' → I t') (goes : ∀ t, I t → l.more t) :
    ¬ l.Returns s := fun ⟨t, reached, ends⟩ =>
  ends (goes t (reached.invariant start keeps))

/-- Behind a state stands what its round leads to. -/
theorem Reaches.behind {t t' : σ} (ran : l.round s = some t) (reached : Reaches l s t') :
    t' = s ∨ Reaches l t t' := by
  induction reached with
  | start => exact .inl rfl
  | next _ more ran' ih =>
      rcases ih with rfl | behind
      · cases ran.symm.trans ran'
        exact .inr .start
      · exact .inr (.next behind more ran')

/-- Rounds are determined: of two states one comes behind the other. -/
theorem Reaches.linear {t t' : σ} (one : Reaches l s t) (other : Reaches l s t') :
    Reaches l t t' ∨ Reaches l t' t := by
  induction one with
  | start => exact .inl other
  | @next t t₁ reached more ran ih =>
      rcases ih with behind | front
      · rcases behind.behind ran with rfl | behind
        · exact .inr (.next .start more ran)
        · exact .inl behind
      · exact .inr (.next front more ran)

/-- The round that a loop goes on with. -/
theorem Ends.of_more (more : l.more s) (ends : l.Ends s t) :
    ∃ s', l.round s = some s' ∧ l.Ends s' t := by
  obtain ⟨reached, done⟩ := ends
  have first : ∀ t, Reaches l s t → t = s ∨ ∃ s', l.round s = some s' ∧ Reaches l s' t := by
    intro t reached
    induction reached with
    | start => exact .inl rfl
    | next _ more ran ih =>
        rcases ih with rfl | ⟨s', begun, behind⟩
        · exact .inr ⟨_, ran, .start⟩
        · exact .inr ⟨s', begun, .next behind more ran⟩
  rcases first t reached with rfl | ⟨s', begun, behind⟩
  · exact absurd more done
  · exact ⟨s', begun, behind, done⟩

/-- A round that does what the round of another state does. -/
theorem Ends.of_same {s' : σ} (same : l.round s' = l.round s) (more : l.more s)
    (more' : l.more s') (ends : l.Ends s t) : l.Ends s' t := by
  obtain ⟨u, ran, reached, done⟩ := ends.of_more more
  exact ⟨.trans (.next .start more' (same.trans ran)) reached, done⟩

/-- Nothing stands behind the end. -/
theorem Reaches.of_end (done : ¬ l.more s) (reached : Reaches l s t) : t = s := by
  induction reached with
  | start => rfl
  | next _ more _ ih => exact absurd (ih ▸ more) done

/-- A state the loop comes to ends as the loop does. -/
theorem Ends.from {t' : σ} (ends : l.Ends s t) (reached : Reaches l s t') : l.Ends t' t := by
  rcases reached.linear ends.1 with behind | front
  · exact ⟨behind, ends.2⟩
  · exact ⟨front.of_end ends.2 ▸ .start, ends.2⟩

theorem Returns.from {t : σ} (returns : l.Returns s) (reached : Reaches l s t) : l.Returns t := by
  obtain ⟨u, ends⟩ := returns
  exact ⟨u, ends.from reached⟩

end Loop

end Jspp.Theory
