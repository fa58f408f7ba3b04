/-
# Kernel.Straight -- code that runs straight on

The code of an expression has no jumps: its instructions are executed one after
another, until one of them raises an error or an exception that is caught
elsewhere.  `runCode` does that to a list of instructions.

* `runCode_append`: the rule of sequence.
* `runCode_clean`: where the list is done with, there was no error.
* `fetch_cells`: the instruction at an address.
-/
import Jspp.Kernel.Calls

namespace Jspp.Theory

set_option autoImplicit false

theorem Traced.bind_assoc {E R S T : Type} (t : Traced E R) (f : R → Traced E S)
    (g : S → Traced E T) : (t.bind f).bind g = t.bind fun r => (f r).bind g := by
  obtain ⟨log, ending⟩ := t
  cases ending with
  | done r =>
      simp only [Traced.bind]
      cases (f r).ending <;> simp [List.append_assoc]
  | fault => rfl
  | timeout => rfl

end Jspp.Theory

namespace Jspp.Kernel

open Jspp.Compiler Jspp.Theory

namespace Qinterp

/-- The program counter of the current frame. -/
def pc (q : Qinterp) : Option Int := q.frames.head?.map StackFrame.pc

/-- The error code of the current frame. -/
def err (q : Qinterp) : Option InterpErrors := q.frames.head?.map StackFrame.err

/-- The instructions one after another; the flag tells whether the one behind them is next. -/
def runCode (env : Env) (run : Run) (fuel : Nat) :
    List Instr → Qinterp → Traced Event (Qinterp × Bool)
  | [], q => .pure (q, q.err = some .none)
  | i :: is, q =>
      match q.act? with
      | none => .pure (q, false)
      | some a =>
          if a.frame.err = .none then
            (step env run fuel i (advance i a) (q.put (advance i a))).bind fun q' =>
              if q'.pc = some (a.frame.pc + i.size) then runCode env run fuel is q'
              else .pure (q', false)
          else .pure (q, false)

section

variable {env : Env} {run : Run} {fuel : Nat}

theorem runCode_cons {q : Qinterp} {a : Act} (act : q.act? = some a) (good : a.frame.err = .none)
    (i : Instr) (is : List Instr) :
    runCode env run fuel (i :: is) q =
      (step env run fuel i (advance i a) (q.put (advance i a))).bind fun q' =>
        if q'.pc = some (a.frame.pc + i.size) then runCode env run fuel is q'
        else .pure (q', false) := by
  simp only [runCode, act, if_pos good]

theorem err_act {q : Qinterp} {a : Act} (act : q.act? = some a) : q.err = some a.frame.err := by
  rw [err, (act?_some act).1]
  rfl

/-- Behind an error nothing more is executed. -/
theorem runCode_error {q : Qinterp} (bad : q.err ≠ some .none) (is : List Instr) :
    runCode env run fuel is q = .pure (q, false) := by
  cases is with
  | nil => rw [runCode, decide_eq_false bad]
  | cons i is =>
      cases act : q.act? with
      | none => simp only [runCode, act]
      | some a =>
          have wrong : a.frame.err ≠ .none := fun clean => bad (by rw [err_act act, clean])
          simp only [runCode, act, if_neg wrong]

/-- Code behind code. -/
theorem runCode_append (is js : List Instr) (q : Qinterp) :
    runCode env run fuel (is ++ js) q =
      (runCode env run fuel is q).bind fun r =>
        if r.2 then runCode env run fuel js r.1 else .pure r := by
  by_cases clean : q.err = some .none
  case neg =>
    rw [runCode_error clean, runCode_error clean, Traced.pure_bind]
    exact (if_neg Bool.false_ne_true).symm
  induction is generalizing q with
  | nil =>
      rw [List.nil_append, runCode, Traced.pure_bind, decide_eq_true clean]
      exact (if_pos rfl).symm
  | cons i is ih =>
      cases act : q.act? with
      | none =>
          simp only [List.cons_append, runCode, act]
          rfl
      | some a =>
          have good : a.frame.err = .none := Option.some.inj ((err_act act).symm.trans clean)
          rw [List.cons_append, runCode_cons act good, runCode_cons act good, Traced.bind_assoc]
          congr 1
          funext q'
          split
          · by_cases clean' : q'.err = some .none
            · exact ih q' clean'
            · rw [runCode_error clean', runCode_error clean', Traced.pure_bind]
              exact (if_neg Bool.false_ne_true).symm
          · rw [Traced.pure_bind]
            exact (if_neg Bool.false_ne_true).symm

/-- Where the next instruction follows, there was no error. -/
theorem runCode_clean {is : List Instr} {q q' : Qinterp}
    (ran : (runCode env run fuel is q).ending = .done (q', true)) : q'.err = some .none := by
  induction is generalizing q with
  | nil =>
      obtain ⟨rfl, clean⟩ := Prod.mk.inj (Ending.done.inj ran)
      exact of_decide_eq_true clean
  | cons i is ih =>
      cases act : q.act? with
      | none =>
          simp only [runCode, act] at ran
          cases ran
      | some a =>
          by_cases clean : a.frame.err = .none
          · rw [runCode_cons act clean] at ran
            obtain ⟨q₁, -, rest⟩ := Traced.ending_bind ran
            split at rest
            · exact ih rest
            · cases rest
          · simp only [runCode, act, if_neg clean] at ran
            cases ran

/-- The instruction at the address behind some others. -/
theorem fetch_cells (pre post : List Instr) (i : Instr) :
    fetch (cells (pre ++ i :: post)) (codeSize pre) = some i := by
  have read := fetchAt_cells (cells pre) (cells post) i
  rw [length_cells_list] at read
  rw [fetch, if_neg (by omega), Int.toNat_natCast]
  simpa using read

theorem codeSize_lt (pre post : List Instr) (i : Instr) :
    codeSize pre < (cells (pre ++ i :: post)).length := by
  rw [length_cells_list, codeSize_append, codeSize_cons]
  have some := i.size_pos
  omega

end
end Qinterp
end Jspp.Kernel
