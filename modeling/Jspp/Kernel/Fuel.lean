/-
# Kernel.Fuel -- the interpreter with more fuel

`_interp` and the functions it calls have no bound on their steps; the fuel is
one of the model.  Whatever they do with some fuel, they do with more, and what
they do with all the fuel they need is `limit`.

* `interp_refuelled`, `qinterpRun_refuelled`: more fuel changes nothing.
* `limit`, `interp_tends`: `_interp` without a bound on its steps.
* `limit_unfolds`: it is one activation whose calls are `limit` again.
-/
import Jspp.Kernel.Interp
import Jspp.Theory.Fuel

namespace Jspp.Kernel

open Jspp.Theory Jspp.Theory.Traced Jspp.Compiler Filter

set_option autoImplicit false

/-- The interpreters of the family tend to `run`. -/
def RunsTend {ι : Type} (F : Filter ι) (runs : ι → Run) (run : Run) : Prop :=
  ∀ q, Tends F (fun i => runs i q) (run q)

namespace Qinterp

section

variable {ι : Type} {F : Filter ι} {env : Env} {runs : ι → Run} {run : Run}
  (more : RunsTend F runs run)

include more

theorem runMethod_tends (mp : JsMethod) (q : Qinterp) :
    Tends F (fun i => runMethod env (runs i) mp q) (runMethod env run mp q) := by
  unfold runMethod
  split
  · exact .const _
  · exact more q

theorem callMethod_tends (mp : JsMethod) (nopop : Bool) (q : Qinterp) :
    Tends F (fun i => callMethod env (runs i) mp nopop q) (callMethod env run mp nopop q) :=
  .bind (.const _) fun q => .note _ (.bind (runMethod_tends more mp q) fun _ => .const _)

theorem callStaticMethod_tends (fqname : List Char) (q : Qinterp) :
    Tends F (fun i => callStaticMethod env (runs i) fqname q)
      (callStaticMethod env run fqname q) := by
  unfold callStaticMethod
  dsimp only
  split
  · exact .const _
  · split
    · exact .const _
    · exact callMethod_tends more _ false _

theorem callIn_tends (ctx : Nat) (mname : List Char) (nopop : Bool) (q : Qinterp) :
    Tends F (fun i => callIn env (runs i) ctx mname nopop q)
      (callIn env run ctx mname nopop q) := by
  unfold callIn
  cases env.findMethod ctx mname with
  | none => exact .const _
  | some mp => exact callMethod_tends more mp nopop _

theorem callInstMethod_tends (inst : Nat) (mname : List Char) (nopop : Bool) (q : Qinterp) :
    Tends F (fun i => callInstMethod env (runs i) inst mname nopop q)
      (callInstMethod env run inst mname nopop q) := by
  unfold callInstMethod
  cases q.classOf inst with
  | none => exact .const _
  | some c => exact callIn_tends more c mname nopop q

theorem callBaseMethod_tends (inst : Nat) (mname : List Char) (q : Qinterp) :
    Tends F (fun i => callBaseMethod env (runs i) inst mname q)
      (callBaseMethod env run inst mname q) := by
  unfold callBaseMethod
  cases (q.classOf inst).bind fun c => env.classes[c]? with
  | none => exact .const _
  | some jsp =>
      cases base : jsp.baseclass with
      | none =>
          simp only [base]
          exact callInstMethod_tends more inst mname false q
      | some c =>
          simp only [base]
          exact callIn_tends more c mname false q

theorem callInternalConstructors_tends (inst : Nat) {n : Nat} {ns : ι → Nat}
    (less : ∀ᶠ i in F, n ≤ ns i) (c : Nat) (q : Qinterp) :
    Tends F (fun i => callInternalConstructors env (runs i) inst (ns i) c q)
      (callInternalConstructors env run inst n c q) := by
  induction n generalizing ns c q with
  | zero => exact .timeout _
  | succ n ih =>
      refine .shift (fun n i => callInternalConstructors env (runs i) inst n c q) less ?_
      have fewer : ∀ᶠ i in F, n ≤ ns i - 1 := less.mono fun _ less => Nat.le_sub_one_of_lt less
      unfold callInternalConstructors
      cases env.classes[c]? with
      | none => exact .const _
      | some jsp =>
          refine .bind ?_ ?_
          · cases jsp.baseclass with
            | none => exact .const _
            | some base => exact ih fewer base q
          · rintro ⟨q, ok⟩
            dsimp only
            split
            · exact .const _
            · split
              · exact .const _
              · exact .bind (callMethod_tends more _ _ _) fun _ => .const _

theorem callConstructors_tends (inst : Nat) {n : Nat} {ns : ι → Nat}
    (less : ∀ᶠ i in F, n ≤ ns i) (c argcount : Nat) (q : Qinterp) :
    Tends F (fun i => callConstructors env (runs i) inst (ns i) c argcount q)
      (callConstructors env run inst n c argcount q) := by
  induction n generalizing ns c argcount q with
  | zero => exact .timeout _
  | succ n ih =>
      refine .shift (fun n i => callConstructors env (runs i) inst n c argcount q) less ?_
      have fewer : ∀ᶠ i in F, n ≤ ns i - 1 := less.mono fun _ less => Nat.le_sub_one_of_lt less
      unfold callConstructors
      cases env.classes[c]? with
      | none => exact .const _
      | some jsp =>
          refine .bind ?_ ?_
          · cases jsp.baseclass with
            | none => exact .const _
            | some base => exact ih fewer base argcount q
          · rintro ⟨q, err⟩
            dsimp only
            split
            · exact .const _
            · refine .bind (callInstMethod_tends more _ _ _ _) ?_
              rintro ⟨q, err⟩
              dsimp only
              split
              · split
                · exact ih fewer c 0 q
                · exact .const _
              · exact .const _

theorem dispatch_tends {n : Nat} {ns : ι → Nat} (less : ∀ᶠ i in F, n ≤ ns i) (op : OpCode)
    (sig : List Char) (argc inst : Nat) (q : Qinterp) :
    Tends F (fun i => dispatch env (runs i) (ns i) op sig argc inst q)
      (dispatch env run n op sig argc inst q) := by
  unfold dispatch
  split
  · exact callInstMethod_tends more inst sig false q
  · split
    · exact .const _
    · exact callConstructors_tends more inst less _ argc q
  · exact callBaseMethod_tends more inst sig q

theorem callOp_tends {n : Nat} {ns : ι → Nat} (less : ∀ᶠ i in F, n ≤ ns i) (op : OpCode)
    (arg1 arg2 : Int) (a : Act) (q : Qinterp) :
    Tends F (fun i => callOp env (runs i) (ns i) op arg1 arg2 a q)
      (callOp env run n op arg1 arg2 a q) := by
  unfold callOp
  split
  · refine .bind ?_ fun _ => .const _
    split
    · exact dispatch_tends more less op _ _ _ q
    · exact callStaticMethod_tends more _ q
  · exact .const _

omit more in
theorem loadBaseFields_more {n n' : Nat} (less : n ≤ n') {c slots : Nat}
    (h : loadBaseFields env n c = some slots) : loadBaseFields env n' c = some slots := by
  induction n generalizing n' c slots with
  | zero => cases h
  | succ n ih =>
      obtain ⟨n', rfl⟩ : ∃ m, n' = m + 1 := ⟨n' - 1, by omega⟩
      rw [loadBaseFields] at h ⊢
      obtain ⟨jsp, at_c, h⟩ := Option.bind_eq_some_iff.mp h
      obtain ⟨inherited, base, total⟩ := Option.map_eq_some_iff.mp h
      rw [at_c, Option.bind_some, Option.map_eq_some_iff]
      refine ⟨inherited, ?_, total⟩
      cases at_base : jsp.baseclass with
      | none =>
          rw [at_base] at base
          exact base
      | some b =>
          rw [at_base] at base
          exact ih (by omega) base

theorem newOp_tends {n : Nat} {ns : ι → Nat} (less : ∀ᶠ i in F, n ≤ ns i) (name : List Char)
    (q : Qinterp) :
    Tends F (fun i => newOp env (runs i) (ns i) name q) (newOp env run n name q) := by
  unfold newOp
  cases env.qinterpFindClass name with
  | none => exact .const _
  | some c =>
      cases fields : loadBaseFields env n c with
      | none =>
          simp only [fields]
          exact .timeout _
      | some slots =>
          simp only [fields]
          have ran : Tends F (fun i => (callInternalConstructors env (runs i) q.store.insts.length
              (ns i) c { q with store := addInst c slots q.store }).bind fun out =>
                .ofOption (out.1.onAct fun a => some
                  (if out.2 then a.push (.inst q.store.insts.length)
                    else a.raise .internalError2)))
              _ :=
            .bind (callInternalConstructors_tends more _ less c _) fun _ => .const _
          refine ran.congr ?_
          filter_upwards [less] with i less
          rw [loadBaseFields_more less fields]

theorem step_tends {n : Nat} {ns : ι → Nat} (less : ∀ᶠ i in F, n ≤ ns i) (i : Instr) (a : Act)
    (q : Qinterp) :
    Tends F (fun j => step env (runs j) (ns j) i a q) (step env run n i a q) := by
  unfold step
  split
  · exact callOp_tends more less _ _ _ a q
  · exact callOp_tends more less _ _ _ a q
  · exact callOp_tends more less _ _ _ a q
  · split
    · exact .const _
    · exact .bind (callStaticMethod_tends more _ q) fun _ => .const _
  · split
    · exact newOp_tends more less _ q
    · exact .const _
  · exact .const _

theorem loop_tends (base : Nat) {k n : Nat} {ks ns : ι → Nat} (less : ∀ᶠ i in F, k ≤ ks i)
    (rounds : ∀ᶠ i in F, n ≤ ns i) (q : Qinterp) :
    Tends F (fun i => loop env (runs i) (ks i) base (ns i) q) (loop env run k base n q) := by
  induction n generalizing ns q with
  | zero => exact .timeout _
  | succ n ih =>
      refine .shift (fun n i => loop env (runs i) (ks i) base n q) rounds ?_
      have fewer : ∀ᶠ i in F, n ≤ ns i - 1 := rounds.mono fun _ less => Nat.le_sub_one_of_lt less
      unfold loop
      cases q.act? with
      | none => exact .const _
      | some a =>
          dsimp only
          split
          · refine .note _ ?_
            cases fetch (codeOf a.frame) a.frame.pc with
            | none => exact .const _
            | some i => exact .bind (step_tends more less i _ _) fun q => ih fewer q
          · exact .const _

theorem activation_tends {n : Nat} {ns : ι → Nat} (less : ∀ᶠ i in F, n ≤ ns i) (q : Qinterp) :
    Tends F (fun i => activation env (runs i) (ns i) q) (activation env run n q) := by
  unfold activation
  cases q.act? with
  | none => exact .const _
  | some a => exact .bind (loop_tends more _ less less _) fun _ => .const _

end

end Qinterp

/-! ## More fuel -/

theorem Qinterp.loop_refuelled {env : Env} {run : Run} {base k k' n n' : Nat} (less : k ≤ k')
    (rounds : n ≤ n') (q : Qinterp) :
    Refuelled (loop env run k base n q) (loop env run k' base n' q) := by
  have same : RunsTend (Pure.pure ()) (fun _ : Unit => run) run := fun _ => .const _
  exact loop_tends same base (.of_forall fun _ => less) (.of_forall fun _ => rounds) q

/-- What `_interp` does with some fuel, it does with more. -/
theorem interp_refuelled (env : Env) {n m : Nat} (less : n ≤ m) (q : Qinterp) :
    Refuelled (interp env n q) (interp env m q) := by
  induction n generalizing m q with
  | zero => exact .timeout _
  | succ n ih =>
      obtain ⟨m, rfl⟩ : ∃ k, m = k + 1 := ⟨m - 1, by omega⟩
      have fewer : n ≤ m := by omega
      exact Qinterp.activation_tends (fun q => ih fewer q) (.of_forall fun _ => fewer) q

theorem qinterpRun_refuelled (env : Env) {n m : Nat} (less : n ≤ m)
    (startcls mainmethod : List Char) (argcount : Nat) (q : Qinterp) :
    Refuelled (qinterpRun env n startcls mainmethod argcount q)
      (qinterpRun env m startcls mainmethod argcount q) :=
  .bind (Qinterp.callStaticMethod_tends (fun q => interp_refuelled env less q) _ q)
    fun _ => .const _

/-! ## All the fuel it needs -/

/-- `_interp` without a bound on its steps. -/
noncomputable def limit (env : Env) : Run := fun q => Traced.limit fun n => interp env n q

theorem interp_tends (env : Env) : RunsTend atTop (interp env) (limit env) := fun q =>
  tends_limit fun _ _ less => interp_refuelled env less q

theorem interp_lifts (env : Env) (n : Nat) :
    RunsTend (Pure.pure ()) (fun _ : Unit => limit env) (interp env n) := fun q =>
  refuelled_limit (fun _ _ less => interp_refuelled env less q) n

theorem limit_iff {env : Env} {q : Qinterp} {x : Qinterp × InterpErrors} :
    (limit env q).ending = .done x ↔ ∃ n, (interp env n q).ending = .done x := by
  constructor
  · exact fun ended => ((interp_tends env q).done ended).exists
  · rintro ⟨n, ended⟩
    exact Refuelled.done (interp_lifts env n q) ended

/-- It is one activation, whose calls have all the fuel they need. -/
theorem limit_unfolds {env : Env} {q : Qinterp} {x : Qinterp × InterpErrors} :
    (limit env q).ending = .done x ↔
      ∃ n, (Qinterp.activation env (limit env) n q).ending = .done x := by
  rw [limit_iff]
  constructor
  · rintro ⟨n, ended⟩
    cases n with
    | zero => cases ended
    | succ n =>
        have more : Refuelled (Qinterp.activation env (interp env n) n q)
            (Qinterp.activation env (limit env) n q) :=
          Qinterp.activation_tends (interp_lifts env n) (.of_forall fun _ => Nat.le_refl n) q
        exact ⟨n, more.done ended⟩
  · rintro ⟨n, ended⟩
    have tends : Tends atTop (fun m => Qinterp.activation env (interp env m) m q)
        (Qinterp.activation env (limit env) n q) :=
      Qinterp.activation_tends (interp_tends env) (eventually_ge_atTop n) q
    obtain ⟨m, settled⟩ := (tends.done ended).exists
    exact ⟨m + 1, settled⟩

end Jspp.Kernel
