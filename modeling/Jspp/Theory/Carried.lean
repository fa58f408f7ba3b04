/-
# Theory.Carried -- commands carried out by pieces of a program

A command on abstract states is carried out by a piece of a program on concrete
ones when each run of the one is a run of the other: states stay related, an
answer of the command is an answer of the piece, and where a step of the command
is undefined nothing is asked.  A piece that is left at all is left as a run of
its command says, so the piece goes on without an end where the command does.

* `Carried S A here there c p`: from `here` to `there`.
* `Tests`: the piece that decides a test, with the places it leads to.
* `Carried.seq`, `Carried.ite`, `Carried.while`: for each way to put commands
  together, a way to put pieces together.
-/
import Jspp.Theory.Com
import Jspp.Theory.Passage

namespace Jspp.Theory

set_option autoImplicit false

universe u v w

namespace Com

variable {σ : Type u} {R : Type v}

theorem runs_seq_skip {c : Com σ R} {s : σ} {o : Result σ R} :
    Runs (.seq c .skip) s o ↔ Runs c s o := by
  constructor
  · intro ran
    cases ran with
    | seq first second =>
        cases second
        exact first
    | seqLeft first _ => exact first
  · intro ran
    cases o with
    | going s' => exact .seq ran .skip
    | answered r => exact .seqLeft ran trivial
    | stuck => exact .seqLeft ran trivial

theorem runs_skip_seq {c : Com σ R} {s : σ} {o : Result σ R} :
    Runs (.seq .skip c) s o ↔ Runs c s o := by
  constructor
  · intro ran
    cases ran with
    | seq first second =>
        cases first
        exact second
    | seqLeft first left =>
        cases first
        exact False.elim left
  · exact fun ran => .seq .skip ran

end Com

open Com

variable {σ : Type u} {R : Type v} {τ : Type w}

/-- What a result of the command is for the piece: a related state there, or the answer. -/
def Shows (S : σ → τ → Prop) (A : R → τ → Prop) (there : τ → Prop) (t : τ) : Result σ R → Prop
  | .going s => S s t ∧ there t
  | .answered r => A r t
  | .stuck => False

/-- The piece carries out the command. -/
structure Carried (S : σ → τ → Prop) (A : R → τ → Prop) (here there : τ → Prop) (c : Com σ R)
    (p : Passage τ) : Prop where
  forward : ∀ s t o, S s t → here t → Runs c s o → o ≠ .stuck → ∃ t', p t t' ∧ Shows S A there t' o
  backward : ∀ s t t', S s t → here t → p t t' →
    ∃ o, Runs c s o ∧ (o = .stuck ∨ Shows S A there t' o)

/-- The piece decides the test. -/
structure Tests (S : σ → τ → Prop) (here yes no : τ → Prop) (test : σ → Option Bool)
    (p : Passage τ) : Prop where
  forward : ∀ s t b, S s t → here t → test s = some b →
    ∃ t', p t t' ∧ S s t' ∧ if b then yes t' else no t'
  backward : ∀ s t t', S s t → here t → p t t' →
    ∀ b, test s = some b → S s t' ∧ if b then yes t' else no t'

namespace Carried

variable {S : σ → τ → Prop} {A : R → τ → Prop} {here there mid : τ → Prop} {c c' d : Com σ R}
  {p q : Passage τ}

theorem congr (same : ∀ s o, Runs c s o ↔ Runs c' s o) (h : Carried S A here there c p) :
    Carried S A here there c' p where
  forward s t o related front ran := h.forward s t o related front ((same s o).mpr ran)
  backward := by
    intro s t t' related front ran
    obtain ⟨o, runs, shown⟩ := h.backward s t t' related front ran
    exact ⟨o, (same s o).mp runs, shown⟩

theorem seq (apart : ∀ r t, A r t → ¬ mid t) (first : Carried S A here mid c p)
    (second : Carried S A mid there d q) : Carried S A here there (.seq c d) (p.andThen mid q) where
  forward := by
    intro s t o related front ran fine
    cases ran with
    | seq one two =>
        obtain ⟨t', ran, related', back⟩ := first.forward s t _ related front one
          (Result.going_ne_stuck _)
        obtain ⟨t'', ran', shown⟩ := second.forward _ t' o related' back two fine
        exact ⟨t'', ⟨t', ran, .inl ⟨back, ran'⟩⟩, shown⟩
    | seqLeft one left =>
        obtain ⟨t', ran, shown⟩ := first.forward s t o related front one fine
        cases o with
        | going _ => exact False.elim left
        | answered r => exact ⟨t', ⟨t', ran, .inr ⟨apart r t' shown, rfl⟩⟩, shown⟩
        | stuck => exact (fine rfl).elim
  backward := by
    rintro s t t' related front ⟨u, ran, rest⟩
    obtain ⟨o, runs, rfl | shown⟩ := first.backward s t u related front ran
    · exact ⟨.stuck, .seqLeft runs trivial, .inl rfl⟩
    cases o with
    | going s' =>
        obtain ⟨related', back⟩ := shown
        rcases rest with ⟨_, ran'⟩ | ⟨left, _⟩
        · obtain ⟨o', runs', shown'⟩ := second.backward s' u t' related' back ran'
          exact ⟨o', .seq runs runs', shown'⟩
        · exact absurd back left
    | answered r =>
        rcases rest with ⟨back, _⟩ | ⟨_, rfl⟩
        · exact absurd back (apart r u shown)
        · exact ⟨_, .seqLeft runs trivial, .inr shown⟩
    | stuck => exact shown.elim

/-- Behind the command the piece only moves on. -/
theorem andMove (apart : ∀ r t, A r t → ¬ mid t) (first : Carried S A here mid c p)
    (second : Carried S A mid there .skip q) : Carried S A here there c (p.andThen mid q) :=
  (first.seq apart second).congr fun _ _ => runs_seq_skip

/-- In front of the command the piece only moves on. -/
theorem moveAnd (apart : ∀ r t, A r t → ¬ mid t) (first : Carried S A here mid .skip p)
    (second : Carried S A mid there c q) : Carried S A here there c (p.andThen mid q) :=
  (first.seq apart second).congr fun _ _ => runs_skip_seq

/-- A branch: the piece of the second command stands behind that of the first, and is nothing at
all where both end in the same place. -/
theorem ite {test : σ → Option Bool} {tested : Passage τ} {yes no : τ → Prop}
    (apart : ∀ r t, A r t → ¬ no t) (other : ∀ t, yes t → ¬ no t)
    (still : ∀ t t', there t → no t → (q t t' ↔ t' = t)) (decides : Tests S here yes no test tested)
    (first : Carried S A yes there c p) (second : Carried S A no there d q) :
    Carried S A here there (.ite test c d) ((tested.andThen yes p).andThen no q) where
  forward := by
    intro s t o related front ran fine
    cases ran with
    | iteStuck => exact (fine rfl).elim
    | @ite _ _ _ _ b _ eq branch =>
        obtain ⟨u, decided, related', at_u⟩ := decides.forward s t b related front eq
        cases b with
        | true =>
            have at_yes : yes u := at_u
            obtain ⟨t', ran, shown⟩ := first.forward s u o related' at_yes branch fine
            refine ⟨t', ⟨t', ⟨u, decided, .inl ⟨at_yes, ran⟩⟩, ?_⟩, shown⟩
            by_cases at_no : no t'
            · cases o with
              | going s' => exact .inl ⟨at_no, (still t' t' shown.2 at_no).mpr rfl⟩
              | answered r => exact absurd at_no (apart r t' shown)
              | stuck => exact (fine rfl).elim
            · exact .inr ⟨at_no, rfl⟩
        | false =>
            have at_no : no u := at_u
            obtain ⟨t', ran, shown⟩ := second.forward s u o related' at_no branch fine
            have not_yes : ¬ yes u := fun at_yes => other u at_yes at_no
            exact ⟨t', ⟨u, ⟨u, decided, .inr ⟨not_yes, rfl⟩⟩, .inl ⟨at_no, ran⟩⟩, shown⟩
  backward := by
    rintro s t t' related front ⟨v, ⟨u, decided, inner⟩, rest⟩
    cases eq : test s with
    | none => exact ⟨.stuck, .iteStuck eq, .inl rfl⟩
    | some b =>
        obtain ⟨related', at_u⟩ := decides.backward s t u related front decided b eq
        cases b with
        | true =>
            have at_yes : yes u := at_u
            rcases inner with ⟨_, ran⟩ | ⟨left, _⟩
            · obtain ⟨o, runs, rfl | shown⟩ := first.backward s u v related' at_yes ran
              · exact ⟨.stuck, .ite eq runs, .inl rfl⟩
              refine ⟨o, .ite eq runs, .inr ?_⟩
              rcases rest with ⟨at_no, ran'⟩ | ⟨_, rfl⟩
              · cases o with
                | going s' =>
                    rw [(still v t' shown.2 at_no).mp ran']
                    exact shown
                | answered r => exact absurd at_no (apart r v shown)
                | stuck => exact shown.elim
              · exact shown
            · exact absurd at_yes left
        | false =>
            have at_no : no u := at_u
            rcases inner with ⟨at_yes, _⟩ | ⟨_, rfl⟩
            · exact absurd at_no (other u at_yes)
            · rcases rest with ⟨_, ran⟩ | ⟨left, _⟩
              · obtain ⟨o, runs, shown⟩ := second.backward s v t' related' at_no ran
                exact ⟨o, .ite eq runs, shown⟩
              · exact absurd at_no left

/-- A loop: the body leads back to the test, and the piece behind the loop only moves on. -/
theorem «while» {test : σ → Option Bool} {tested : Passage τ} {yes no : τ → Prop}
    (apart : ∀ r t, A r t → ¬ here t ∧ ¬ no t) (other : ∀ t, yes t → ¬ no t)
    (ahead : ∀ t, no t → ¬ here t) (decides : Tests S here yes no test tested)
    (body : Carried S A yes here c p) (closing : Carried S A no there .skip q) :
    Carried S A here there (.while test c)
      (((tested.andThen yes p).repeated here).andThen no q) where
  forward := by
    intro s t o related front ran fine
    generalize whole : Com.while test c = loop at ran
    induction ran generalizing t with
    | whileOut eq =>
        cases whole
        obtain ⟨u, decided, related', at_u⟩ := decides.forward _ t false related front eq
        have at_no : no u := at_u
        have not_yes : ¬ yes u := fun at_yes => other u at_yes at_no
        obtain ⟨t', ran, shown⟩ := closing.forward _ u _ related' at_no
          .skip (Result.going_ne_stuck _)
        exact ⟨t', ⟨u, .out ⟨u, decided, .inr ⟨not_yes, rfl⟩⟩ (ahead u at_no),
          .inl ⟨at_no, ran⟩⟩, shown⟩
    | whileOn eq one _ _ ih =>
        cases whole
        obtain ⟨u, decided, related', at_u⟩ := decides.forward _ t true related front eq
        have at_yes : yes u := at_u
        obtain ⟨v, ran, related'', back⟩ := body.forward _ u _ related' at_yes one
          (Result.going_ne_stuck _)
        obtain ⟨t', ⟨x, again, rest⟩, shown⟩ := ih v related'' back fine rfl
        exact ⟨t', ⟨x, .again ⟨u, decided, .inl ⟨at_yes, ran⟩⟩ back again, rest⟩, shown⟩
    | @whileLeft _ _ _ o eq one left _ =>
        cases whole
        obtain ⟨u, decided, related', at_u⟩ := decides.forward _ t true related front eq
        have at_yes : yes u := at_u
        obtain ⟨v, ran, shown⟩ := body.forward _ u _ related' at_yes one fine
        cases o with
        | going _ => exact False.elim left
        | answered r =>
            obtain ⟨not_here, not_no⟩ := apart r v shown
            exact ⟨v, ⟨v, .out ⟨u, decided, .inl ⟨at_yes, ran⟩⟩ not_here, .inr ⟨not_no, rfl⟩⟩,
              shown⟩
        | stuck => exact (fine rfl).elim
    | whileStuck => exact (fine rfl).elim
    | _ => cases whole
  backward := by
    rintro s t t' related front ⟨u, turns, rest⟩
    induction turns generalizing s with
    | @out t u ran left =>
        obtain ⟨v, decided, inner⟩ := ran
        cases eq : test s with
        | none => exact ⟨.stuck, .whileStuck eq, .inl rfl⟩
        | some b =>
            obtain ⟨related', at_v⟩ := decides.backward s t v related front decided b eq
            cases b with
            | true =>
                have at_yes : yes v := at_v
                rcases inner with ⟨_, ran⟩ | ⟨away, _⟩
                · obtain ⟨o, runs, rfl | shown⟩ := body.backward s v u related' at_yes ran
                  · exact ⟨.stuck, .whileLeft eq runs trivial, .inl rfl⟩
                  cases o with
                  | going s' => exact absurd shown.2 left
                  | answered r =>
                      rcases rest with ⟨at_no, _⟩ | ⟨_, rfl⟩
                      · exact absurd at_no (apart r u shown).2
                      · exact ⟨_, .whileLeft eq runs trivial, .inr shown⟩
                  | stuck => exact shown.elim
                · exact absurd at_yes away
            | false =>
                have at_no : no v := at_v
                rcases inner with ⟨at_yes, _⟩ | ⟨_, rfl⟩
                · exact absurd at_no (other v at_yes)
                · rcases rest with ⟨_, ran⟩ | ⟨away, _⟩
                  · obtain ⟨o, runs, shown⟩ := closing.backward s u t' related' at_no ran
                    cases runs
                    exact ⟨_, .whileOut eq, shown⟩
                  · exact absurd at_no away
    | @again t u w ran back _ ih =>
        obtain ⟨v, decided, inner⟩ := ran
        cases eq : test s with
        | none => exact ⟨.stuck, .whileStuck eq, .inl rfl⟩
        | some b =>
            obtain ⟨related', at_v⟩ := decides.backward s t v related front decided b eq
            cases b with
            | true =>
                have at_yes : yes v := at_v
                rcases inner with ⟨_, ran⟩ | ⟨away, _⟩
                · obtain ⟨o, runs, rfl | shown⟩ := body.backward s v u related' at_yes ran
                  · exact ⟨.stuck, .whileLeft eq runs trivial, .inl rfl⟩
                  cases o with
                  | going s' =>
                      obtain ⟨o', runs', shown'⟩ := ih s' shown.1 back rest
                      exact ⟨o', .whileOn eq runs runs', shown'⟩
                  | answered r => exact absurd back (apart r u shown).1
                  | stuck => exact shown.elim
                · exact absurd at_yes away
            | false =>
                have at_no : no v := at_v
                rcases inner with ⟨at_yes, _⟩ | ⟨_, rfl⟩
                · exact absurd at_no (other v at_yes)
                · exact absurd back (ahead u at_no)

end Carried

end Jspp.Theory
