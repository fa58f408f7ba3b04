/-
# Theory.Fuel -- computations with more fuel

A computation that is given more fuel either ran out of it before or does the
same as before, log and result.  A family of computations tends to one of them
when, unless that one runs out of fuel, from some point on all do what it does;
with more and more fuel they tend to a limit, which has all the fuel it needs.

* `Traced.Tends`: the families that tend to a computation, along a filter.
* `Tends.bind`: sequences keep it.
* `Traced.Refuelled`: a family of one.
* `limit`, `tends_limit`: computations with more and more fuel.
-/
import Mathlib.Order.Filter.AtTopBot.Basic
import Jspp.Theory.Trace

namespace Jspp.Theory.Traced

open Filter

set_option autoImplicit false

universe u v w

variable {E : Type u} {R : Type v} {S : Type w} {ι : Type} {F : Filter ι}

/-- From some point on the computations of the family are `t`, unless that runs out of fuel. -/
def Tends (F : Filter ι) (ts : ι → Traced E R) (t : Traced E R) : Prop :=
  t.ending = .timeout ∨ ∀ᶠ i in F, ts i = t

namespace Tends

theorem const (t : Traced E R) : Tends F (fun _ => t) t := .inr (.of_forall fun _ => rfl)

theorem timeout (ts : ι → Traced E R) : Tends F ts .timeout := .inl rfl

theorem congr {ts ts' : ι → Traced E R} {t : Traced E R} (same : ∀ᶠ i in F, ts i = ts' i)
    (h : Tends F ts t) : Tends F ts' t := by
  rcases h with late | ends
  · exact .inl late
  · refine .inr ?_
    filter_upwards [same, ends] with i same ends
    rw [← same, ends]

/-- With one unit of fuel more. -/
theorem shift (f : Nat → ι → Traced E R) {ns : ι → Nat} {n : Nat} {t : Traced E R}
    (less : ∀ᶠ i in F, n + 1 ≤ ns i) (h : Tends F (fun i => f (ns i - 1 + 1) i) t) :
    Tends F (fun i => f (ns i) i) t := by
  refine h.congr ?_
  filter_upwards [less] with i less
  rw [Nat.sub_add_cancel (by omega)]

theorem note {ts : ι → Traced E R} {t : Traced E R} (e : E) (h : Tends F ts t) :
    Tends F (fun i => (ts i).note e) (t.note e) := by
  rcases h with late | ends
  · exact .inl late
  · refine .inr ?_
    filter_upwards [ends] with i ends
    rw [ends]

theorem bind {ts : ι → Traced E R} {t : Traced E R} {fs : ι → R → Traced E S} {f : R → Traced E S}
    (h : Tends F ts t) (rest : ∀ r, Tends F (fun i => fs i r) (f r)) :
    Tends F (fun i => (ts i).bind (fs i)) (t.bind f) := by
  rcases h with late | ends
  · exact .inl (by rw [Traced.bind, late])
  · cases ending : t.ending with
    | done r =>
        rw [bind_done ending]
        rcases rest r with late | same
        · exact .inl late
        · refine .inr ?_
          filter_upwards [ends, same] with i ends same
          rw [ends, bind_done ending, same]
    | fault =>
        refine .inr ?_
        filter_upwards [ends] with i ends
        rw [ends, Traced.bind, Traced.bind, ending]
    | timeout => exact .inl (by rw [Traced.bind, ending])

/-- A result of `t` is the result of the family. -/
theorem done {ts : ι → Traced E R} {t : Traced E R} {r : R} (h : Tends F ts t)
    (ended : t.ending = .done r) : ∀ᶠ i in F, (ts i).ending = .done r := by
  rcases h with late | ends
  · cases ended.symm.trans late
  · filter_upwards [ends] with i ends
    rw [ends, ended]

end Tends

/-- The second computation is the first one, unless that one ran out of fuel. -/
def Refuelled (t t' : Traced E R) : Prop := Tends (Pure.pure ()) (fun _ : Unit => t') t

/-- A result stays the result. -/
theorem Refuelled.done {t t' : Traced E R} {r : R} (h : Refuelled t t')
    (ended : t.ending = .done r) : t'.ending = .done r :=
  eventually_pure.mp (Tends.done h ended)

theorem refuelled_iff {t t' : Traced E R} :
    Refuelled t t' ↔ t.ending = .timeout ∨ t' = t := by
  rw [Refuelled, Tends, eventually_pure]

/-! ## Limits -/

/-- The computation with all the fuel it needs. -/
noncomputable def limit (ts : Nat → Traced E R) : Traced E R :=
  open Classical in
  if h : ∃ n, (ts n).ending ≠ .timeout then ts h.choose else .timeout

variable {ts : Nat → Traced E R} (grows : ∀ n m, n ≤ m → Refuelled (ts n) (ts m))

include grows

theorem refuelled_limit (n : Nat) : Refuelled (ts n) (limit ts) := by
  rw [refuelled_iff]
  by_cases late : (ts n).ending = .timeout
  · exact .inl late
  · have some : ∃ n, (ts n).ending ≠ .timeout := ⟨n, late⟩
    rw [limit, dif_pos some]
    refine .inr ?_
    rcases Nat.le_total n some.choose with less | less
    · exact (refuelled_iff.mp (grows _ _ less)).resolve_left late
    · exact ((refuelled_iff.mp (grows _ _ less)).resolve_left some.choose_spec).symm

theorem tends_limit : Tends atTop ts (limit ts) := by
  by_cases some : ∃ n, (ts n).ending ≠ .timeout
  · obtain ⟨n, ends⟩ := some
    refine .inr ?_
    have at_n := (refuelled_iff.mp (refuelled_limit grows n)).resolve_left ends
    filter_upwards [eventually_ge_atTop n] with m less
    rw [at_n, (refuelled_iff.mp (grows n m less)).resolve_left ends]
  · rw [limit, dif_neg some]
    exact .timeout _

end Jspp.Theory.Traced
