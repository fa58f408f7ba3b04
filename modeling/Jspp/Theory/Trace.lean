/-
# Theory.Trace -- computations that leave a log

A `Traced` computation writes down events while it runs and ends with a result,
at a step its language does not define, or out of fuel.

`HoldsWhile cond P log` says that the events of the log satisfy `P` for as long
as all of them before satisfied `cond`.  `Keeps cond P t Q` is the triple of a
computation `t`: its log holds while `cond` does, and when `cond` held of all of
it, a result satisfies `Q`.

* `Keeps.bind`: the rule of sequence.
* `holdsWhile_iff`: the events in front of an event, written out.
* `Returns`: partial correctness, without a condition on the log.
-/
import Mathlib.Data.List.Basic

namespace Jspp.Theory

set_option autoImplicit false

universe u v w

/-- How a computation ended. -/
inductive Ending (R : Type v) where
  | done (r : R)
  | fault
  | timeout
  deriving DecidableEq

structure Traced (E : Type u) (R : Type v) where
  log : List E
  ending : Ending R

namespace Traced

variable {E : Type u} {R : Type v} {S : Type w}

def pure (r : R) : Traced E R := ⟨[], .done r⟩

def fault : Traced E R := ⟨[], .fault⟩

def timeout : Traced E R := ⟨[], .timeout⟩

def note (e : E) (t : Traced E R) : Traced E R := ⟨e :: t.log, t.ending⟩

def ofOption : Option R → Traced E R
  | some r => pure r
  | none => fault

def bind (t : Traced E R) (f : R → Traced E S) : Traced E S :=
  match t.ending with
  | .done r => ⟨t.log ++ (f r).log, (f r).ending⟩
  | .fault => ⟨t.log, .fault⟩
  | .timeout => ⟨t.log, .timeout⟩

/-- The result, if there is one. -/
def result? (t : Traced E R) : Option R :=
  match t.ending with
  | .done r => some r
  | _ => none

@[simp] theorem log_pure (r : R) : (pure r : Traced E R).log = [] := rfl
@[simp] theorem ending_pure (r : R) : (pure r : Traced E R).ending = .done r := rfl
@[simp] theorem log_fault : (fault : Traced E R).log = [] := rfl
@[simp] theorem ending_fault : (fault : Traced E R).ending = .fault := rfl
@[simp] theorem log_timeout : (timeout : Traced E R).log = [] := rfl
@[simp] theorem ending_timeout : (timeout : Traced E R).ending = .timeout := rfl
@[simp] theorem log_note (e : E) (t : Traced E R) : (t.note e).log = e :: t.log := rfl
@[simp] theorem ending_note (e : E) (t : Traced E R) : (t.note e).ending = t.ending := rfl

theorem bind_done {t : Traced E R} {r : R} (h : t.ending = .done r) (f : R → Traced E S) :
    t.bind f = ⟨t.log ++ (f r).log, (f r).ending⟩ := by
  rw [bind, h]

/-- A sequence that ends with a result had one in the middle. -/
theorem ending_bind {t : Traced E R} {f : R → Traced E S} {s : S}
    (h : (t.bind f).ending = .done s) : ∃ r, t.ending = .done r ∧ (f r).ending = .done s := by
  unfold bind at h
  split at h
  case h_1 r eq => exact ⟨r, eq, h⟩
  case h_2 => cases h
  case h_3 => cases h

@[simp] theorem pure_bind (r : R) (f : R → Traced E S) : (pure r).bind f = f r := by
  simp [bind]

end Traced

/-! ## Logs that hold while a condition does -/

variable {E : Type u} {R : Type v} {S : Type w}

/-- Every event satisfies `P` as long as all the events before it satisfied `cond`. -/
def HoldsWhile (cond P : E → Prop) : List E → Prop
  | [] => True
  | e :: log => P e ∧ (cond e → HoldsWhile cond P log)

theorem holdsWhile_iff {cond P : E → Prop} {log : List E} :
    HoldsWhile cond P log ↔
      ∀ pre e post, log = pre ++ e :: post → (∀ x ∈ pre, cond x) → P e := by
  induction log with
  | nil => simp [HoldsWhile]
  | cons x log ih =>
      constructor
      · rintro ⟨first, rest⟩ pre e post eq conds
        cases pre with
        | nil => cases eq; exact first
        | cons y pre =>
            cases eq
            have tail := rest (conds x (by simp))
            exact ih.mp tail pre e post rfl fun z mem => conds z (by simp [mem])
      · intro all
        refine ⟨all [] x log rfl (by simp), fun good => ih.mpr ?_⟩
        intro pre e post eq conds
        refine all (x :: pre) e post (by simp [eq]) ?_
        intro z mem
        rcases List.mem_cons.mp mem with rfl | mem
        · exact good
        · exact conds z mem

theorem holdsWhile_append {cond P : E → Prop} {xs ys : List E} (first : HoldsWhile cond P xs)
    (second : (∀ x ∈ xs, cond x) → HoldsWhile cond P ys) : HoldsWhile cond P (xs ++ ys) := by
  induction xs with
  | nil => exact second (by simp)
  | cons x xs ih =>
      refine ⟨first.1, fun good => ih (first.2 good) fun rest => second ?_⟩
      intro y mem
      rcases List.mem_cons.mp mem with rfl | mem
      · exact good
      · exact rest y mem

/-- Where the condition holds of the whole log, so does the property. -/
theorem HoldsWhile.all {cond P : E → Prop} {log : List E} (h : HoldsWhile cond P log)
    (conds : ∀ x ∈ log, cond x) : ∀ x ∈ log, P x := by
  intro x mem
  obtain ⟨pre, post, eq⟩ := List.append_of_mem mem
  exact holdsWhile_iff.mp h pre x post eq fun y inPre => conds y (by simp [eq, inPre])

/-! ## Triples -/

/-- The log of `t` holds while `cond` does; a result that comes after `cond`
held throughout satisfies `Q`. -/
structure Keeps (cond P : E → Prop) (t : Traced E R) (Q : R → Prop) : Prop where
  log : HoldsWhile cond P t.log
  result : ∀ r, t.ending = .done r → (∀ x ∈ t.log, cond x) → Q r

namespace Keeps

variable {cond P : E → Prop}

theorem pure {r : R} {Q : R → Prop} (h : Q r) : Keeps cond P (Traced.pure r) Q where
  log := trivial
  result := by
    intro r' eq _
    cases eq
    exact h

theorem fault {Q : R → Prop} : Keeps cond P (Traced.fault : Traced E R) Q where
  log := trivial
  result := nofun

theorem timeout {Q : R → Prop} : Keeps cond P (Traced.timeout : Traced E R) Q where
  log := trivial
  result := nofun

theorem ofOption {o : Option R} {Q : R → Prop} (h : ∀ r, o = some r → Q r) :
    Keeps cond P (Traced.ofOption o) Q := by
  cases o with
  | none => exact fault
  | some r => exact pure (h r rfl)

theorem note {e : E} {t : Traced E R} {Q : R → Prop} (here : P e)
    (rest : cond e → Keeps cond P t Q) : Keeps cond P (t.note e) Q where
  log := ⟨here, fun good => (rest good).log⟩
  result := by
    intro r eq conds
    have good : cond e := conds e (by simp)
    exact (rest good).result r eq fun x mem => conds x (by simp [mem])

theorem bind {t : Traced E R} {f : R → Traced E S} {Q : R → Prop} {Q' : S → Prop}
    (first : Keeps cond P t Q) (second : ∀ r, Q r → Keeps cond P (f r) Q') :
    Keeps cond P (t.bind f) Q' := by
  unfold Traced.bind
  split
  case h_1 r eq =>
      refine ⟨holdsWhile_append first.log fun conds => ?_, ?_⟩
      · exact (second r (first.result r eq conds)).log
      · intro s done conds
        have before : ∀ x ∈ t.log, cond x := fun x mem => conds x (by simp [mem])
        exact (second r (first.result r eq before)).result s done fun x mem =>
          conds x (by simp [mem])
  case h_2 => exact ⟨first.log, nofun⟩
  case h_3 => exact ⟨first.log, nofun⟩

/-- A computation without events. -/
theorem silent {t : Traced E R} {Q : R → Prop} (empty : t.log = [])
    (result : ∀ r, t.ending = .done r → Q r) : Keeps cond P t Q where
  log := by
    rw [empty]
    trivial
  result := fun r eq _ => result r eq

theorem weaken {t : Traced E R} {Q Q' : R → Prop} (h : Keeps cond P t Q)
    (imp : ∀ r, Q r → Q' r) : Keeps cond P t Q' :=
  ⟨h.log, fun r eq conds => imp r (h.result r eq conds)⟩

theorem and {t : Traced E R} {Q Q' : R → Prop} (h : Keeps cond P t Q)
    (h' : ∀ r, t.ending = .done r → Q' r) : Keeps cond P t fun r => Q r ∧ Q' r :=
  ⟨h.log, fun r eq conds => ⟨h.result r eq conds, h' r eq⟩⟩

end Keeps

/-- Every result of `t` satisfies `Q`. -/
def Returns (t : Traced E R) (Q : R → Prop) : Prop := ∀ r, t.ending = .done r → Q r

namespace Returns

theorem pure {r : R} {Q : R → Prop} (h : Q r) : Returns (Traced.pure r : Traced E R) Q := by
  intro r' eq
  cases eq
  exact h

theorem fault {Q : R → Prop} : Returns (Traced.fault : Traced E R) Q := nofun

theorem timeout {Q : R → Prop} : Returns (Traced.timeout : Traced E R) Q := nofun

theorem ofOption {o : Option R} {Q : R → Prop} (h : ∀ r, o = some r → Q r) :
    Returns (Traced.ofOption o : Traced E R) Q := by
  cases o with
  | none => exact fault
  | some r => exact pure (h r rfl)

theorem note {e : E} {t : Traced E R} {Q : R → Prop} (h : Returns t Q) : Returns (t.note e) Q := h

theorem bind {t : Traced E R} {f : R → Traced E S} {Q : R → Prop} {Q' : S → Prop}
    (first : Returns t Q) (second : ∀ r, Q r → Returns (f r) Q') : Returns (t.bind f) Q' := by
  intro s done
  obtain ⟨r, eq, rest⟩ := Traced.ending_bind done
  exact second r (first r eq) s rest

theorem weaken {t : Traced E R} {Q Q' : R → Prop} (h : Returns t Q) (imp : ∀ r, Q r → Q' r) :
    Returns t Q' := fun r eq => imp r (h r eq)

end Returns

end Jspp.Theory
