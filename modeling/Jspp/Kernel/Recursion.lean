/-
# Kernel.Recursion -- methods that call each other

What the static methods of a program are to answer is a table, of names and
arguments.  A rank of the calls goes down from each method to those it calls; where
the command of each method, with the calls of lower rank answered from the table,
answers what the table says, the methods of the loaded program answer it, each
call with as many steps as it needs.

* `Spec`, `Spec.Met`: the table, and that the program meets it.
* `Justified`, `met_of_justified`: the rule of recursion.
* `qinterpRun_recursive`: it is so of a run of the program.
-/
import Mathlib.Data.Nat.Fib.Basic
import Jspp.Kernel.Answers

namespace Jspp.Kernel

open Jspp.Compiler Jspp.Theory Qinterp

set_option autoImplicit false

/-! ## What methods are to answer -/

/-- What static methods are to answer, by the names they are called by. -/
abbrev Spec := List Char → List Value → Option Value

/-- A number for each call. -/
abbrev Rank := List Char → List Value → Nat

namespace Spec

/-- The calls of lower rank. -/
def below (spec : Spec) (rank : Rank) (n : Nat) : Spec := fun name vs =>
  if rank name vs < n then spec name vs else none

/-- The answers by the constants of a class. -/
def callees (spec : Spec) (env : Env) (ctx : Nat) : Callees := fun sig vs =>
  (env.constText ctx sig).bind fun name => spec name vs

/-- Called on operands with those values, a method answers what the table says. -/
def Met (env : Env) (spec : Spec) : Prop :=
  ∀ name vs v, spec name vs = some v → ∀ q os below, os.map Prod.snd = vs → Handed q os below →
    ∃ q', (callStaticMethod env (limit env) name q).ending = .done (q', .none) ∧
      Called q (v.variant :: below) q'

variable {env : Env} {spec : Spec} {rank : Rank} {ctx sig n : Nat} {name : List Char}
  {vs : List Value} {v : Value}

theorem Met.right (met : Met env spec) (ctx : Nat) :
    Right env (limit env) ctx (spec.callees env ctx) := by
  intro sig vs v answer
  obtain ⟨name, named, answer⟩ := Option.bind_eq_some_iff.mp answer
  exact ⟨name, named, met name vs v answer⟩

theorem below_some :
    spec.below rank n name vs = some v ↔ rank name vs < n ∧ spec name vs = some v := by
  unfold below
  split
  case isTrue less => exact ⟨fun answer => ⟨less, answer⟩, fun both => both.2⟩
  case isFalse more => exact ⟨nofun, fun both => absurd both.1 more⟩

/-- A call of lower rank. -/
theorem callees_below (named : env.constText ctx sig = some name) (answer : spec name vs = some v)
    (less : rank name vs < n) : (spec.below rank n).callees env ctx sig vs = some v := by
  rw [callees, named]
  exact below_some.mpr ⟨less, answer⟩

end Spec

/-! ## The rule of recursion -/

/-- The name is that of a static method over integers. -/
structure Static (env : Env) (name : List Char) (jsp : Nat) (mp : JsMethod) (locals : Nat)
    (s : Stmt) : Prop where
  cls : env.qinterpFindClass (name.takeWhile (· ≠ '.')) = some jsp
  found : env.findMethod jsp (name.drop ((name.takeWhile (· ≠ '.')).length + 1)) = some mp
  native : mp.isnative = false
  returns : mp.hasretval = true
  body : mp.body = .method locals s
  values : ∀ vdp ∈ mp.args, vdp.isptr = false

/-- Each method answers what the table says, where the calls of lower rank do. -/
def Justified (env : Env) (spec : Spec) (rank : Rank) : Prop :=
  ∀ name vs v, spec name vs = some v → ∃ jsp mp locals s, Static env name jsp mp locals s ∧
    mp.args.length = vs.length ∧
    Com.Meets (· = ⟨vs.map some, []⟩)
      ((Stmt.block locals s).com ((spec.below rank (rank name vs)).callees env jsp))
      (fun _ => False) (· = some v)

section

variable {host : Host} {s : Session} {spec : Spec} {rank : Rank} {env : Env} {name : List Char}
  {jsp locals : Nat} {mp : JsMethod} {st : Stmt} {q : Qinterp} {os : List (Variant × Value)}
  {below : List Variant}

theorem callStaticMethod_found (static : Static env name jsp mp locals st) (run : Run) :
    callStaticMethod env run name q = callMethod env run mp false (q.enterFrame jsp) := by
  rw [callStaticMethod]
  simp only [static.cls, static.found]

/-- Operands on the stack, as the arguments of a method. -/
theorem Handed.passes (handed : Handed q os below) (count : mp.args.length = os.length)
    (values : ∀ vdp ∈ mp.args, vdp.isptr = false) :
    List.Forall₂ (Argument q.store (q.frames.length + 1)) mp.args os := by
  refine List.forall₂_iff_zip.mpr ⟨count, fun {vdp o} mem => ?_⟩
  have inside := List.of_mem_zip mem
  obtain ⟨place, operand⟩ := handed.operands o inside.2
  refine ⟨operand.deref, fun ptr => ?_, fun d k least => operand.ne_local least k⟩
  rw [values vdp inside.1] at ptr
  cases ptr

/-- What each method answers with calls of lower rank, the program answers. -/
theorem met_of_justified (prepared : Prepared host s)
    (justified : Justified (s.env host) spec rank) : spec.Met (s.env host) := by
  suffices all : ∀ n, (spec.below rank n).Met (s.env host) from fun name vs v answer =>
    all (rank name vs + 1) name vs v (Spec.below_some.mpr ⟨Nat.lt_succ_self _, answer⟩)
  intro n
  induction n using Nat.strong_induction_on with
  | _ n ih =>
    rintro name _ v answer q os below rfl handed
    obtain ⟨less, answer⟩ := Spec.below_some.mp answer
    obtain ⟨jsp, mp, locals, st, static, count, meets⟩ := justified name _ v answer
    obtain ⟨_, _, _, ok⟩ :=
      findMethod_compiled (prepared.classes compiled_logic.invariant) static.found
    have callable : Callable mp q os below := ⟨ok.code, static.native, handed.stack,
      handed.passes (count.trans (List.length_map _)) static.values⟩
    obtain ⟨o, ran, ends⟩ := meets (arguments os) (by simp [arguments])
    cases o with
    | going _ => exact ends.elim
    | stuck => exact ends.elim
    | answered r =>
        obtain rfl : r = some v := ends
        obtain ⟨q', closed, called⟩ := callMethod_answers ((ih _ less).right jsp) static.body
          callable ran nofun
        rw [leaves, if_pos static.returns] at called
        exact ⟨q', (congrArg Traced.ending (callStaticMethod_found static _)).trans closed, called⟩

/-- A run of the program answers what the table says. -/
theorem qinterpRun_recursive (prepared : Prepared host s)
    (justified : Justified (s.env host) spec rank) {startcls mainmethod : List Char}
    {argcount : Nat} {v : Value}
    (answer : spec (startcls ++ ['.'] ++ buildMethodSig mainmethod true ++
      List.replicate argcount 'v') (os.map Prod.snd) = some v) (handed : Handed q os below) :
    ∃ n q', Called q below q' ∧ ∀ m, n ≤ m →
      (qinterpRun (s.env host) m startcls mainmethod argcount q).ending =
        .done (q', .none, some v.variant) := by
  obtain ⟨q', closed, called⟩ :=
    met_of_justified prepared justified _ _ v answer q os below rfl handed
  obtain ⟨n, reached⟩ := Filter.eventually_atTop.mp
    ((callStaticMethod_tends (interp_tends (s.env host)) _ q).done closed)
  refine ⟨n, { q' with stack := below }, ⟨called.frames, rfl, called.store⟩, fun m less => ?_⟩
  rw [qinterpRun]
  dsimp only
  rw [Traced.bind_done (reached m less)]
  simp only [called.stack, Traced.ending_pure]

end

/-! ## A program of the repository -/

/-- `testsrc/fib.jspp`, with the first of its `main` methods. -/
def fibText : List Char :=
  "class test \x7b private static doFib(fib) \x7b if (fib < 2) \x7b return 1; \x7d ".toList ++
    "return test::doFib(fib-1) + test::doFib(fib-2); \x7d ".toList ++
    "public static main() \x7b return test::doFib( 10 ); \x7d \x7d".toList

/-- `test::doFib( e )`, by its constant. -/
def doFib (sig : Nat) (e : Expr) : Expr :=
  .scall "test".toList "doFib".toList (.cons e .nil) sig

/-- `fib - n`. -/
def fibLess (n : Int) : Expr := .binary .sub (.lvalue .block 0) (.push .im n)

/-- The statements of `doFib`. -/
def fibBody : Stmt :=
  .seq (.seq (.seq .skip
    (.ite (.binary .lt (.lvalue .block 0) (.push .im 2))
      (.block 0 (.seq (.seq .skip (.ret (.push .im 1))) .skip)) .skip))
    (.ret (.binary .add (doFib 0 (fibLess 1)) (doFib 1 (fibLess 2))))) .skip

/-- The statements of `main`. -/
def mainBody : Stmt := .seq (.seq .skip (.ret (doFib 2 (.push .im 10)))) .skip

def doFibName : List Char := "test.doFib:Svv".toList

def mainName : List Char := "test.main:Sv".toList

/-- What becomes of the text. -/
theorem fib_loaded : ∃ s mp main, loaded fibText = some s ∧
    Static (s.env plainHost) doFibName 1 mp 1 fibBody ∧ mp.args.length = 1 ∧
    Static (s.env plainHost) mainName 1 main 0 mainBody ∧ main.args.length = 0 ∧
    ∀ sig : Nat, sig < 3 → (s.env plainHost).constText 1 ↑sig = some doFibName := by
  have runs : ((loaded fibText).bind fun s =>
      ((s.env plainHost).findMethod 1 (doFibName.drop 5)).bind fun mp =>
        ((s.env plainHost).findMethod 1 (mainName.drop 5)).map fun main =>
          decide ((s.env plainHost).qinterpFindClass "test".toList = some 1 ∧
            (mp.isnative = false ∧ mp.hasretval = true ∧ mp.body = .method 1 fibBody ∧
              (∀ vdp ∈ mp.args, vdp.isptr = false) ∧ mp.args.length = 1) ∧
            (main.isnative = false ∧ main.hasretval = true ∧ main.body = .method 0 mainBody ∧
              (∀ vdp ∈ main.args, vdp.isptr = false) ∧ main.args.length = 0) ∧
            ∀ sig : Nat, sig < 3 → (s.env plainHost).constText 1 ↑sig = some doFibName)) =
        some true := by
    decide +kernel
  obtain ⟨s, load, holds⟩ := Option.bind_eq_some_iff.mp runs
  obtain ⟨mp, found, holds⟩ := Option.bind_eq_some_iff.mp holds
  obtain ⟨main, found', holds⟩ := Option.map_eq_some_iff.mp holds
  obtain ⟨cls, ⟨native, returns, body, values, count⟩,
    ⟨native', returns', body', values', count'⟩, named⟩ := of_decide_eq_true holds
  exact ⟨s, mp, main, load, ⟨cls, found, native, returns, body, values⟩, count,
    ⟨cls, found', native', returns', body', values'⟩, count', named⟩

/-- What the methods are to answer: Fibonacci numbers in 32 bits. -/
def fibSpec : Spec := fun name vs =>
  match vs with
  | [.int n] =>
      if name = doFibName ∧ n < 2 ^ 31 then some (.int (wrap32 (n.toNat + 1).fib)) else none
  | [] => if name = mainName then some (.int 89) else none
  | _ => none

/-- The calls of `doFib` by their argument, and `main` above the one it makes. -/
def fibRank : Rank := fun _ vs =>
  match vs with
  | [.int n] => n.toNat
  | _ => 11

/-- The step of the recursion, in 32 bits. -/
theorem fib_turn {n : Int} (least : 2 ≤ n) :
    wrap32 (wrap32 ((n - 1).toNat + 1).fib + wrap32 ((n - 2).toNat + 1).fib) =
      wrap32 (n.toNat + 1).fib := by
  obtain ⟨m, rfl⟩ : ∃ m : Nat, n = m + 2 := ⟨(n - 2).toNat, by omega⟩
  have once : ((m : Int) + 2 - 1).toNat + 1 = m + 1 + 1 := by omega
  have twice : ((m : Int) + 2 - 2).toNat + 1 = m + 1 := by omega
  have whole : ((m : Int) + 2).toNat + 1 = m + 1 + 2 := by omega
  have sum : ((m + 1 + 1).fib : Int) + (m + 1).fib = (m + 1 + 2).fib := by
    have turn : (m + 1 + 2).fib = (m + 1).fib + (m + 1 + 1).fib := Nat.fib_add_two
    omega
  rw [once, twice, whole, ← sum, wrap32, wrap32, wrap32, wrap32, ← Int.add_bmod]

theorem test_truth {calls : Callees} {e : Expr} {s : Valuation} {b : Bool}
    (plain : e.isPlace = false) (value : e.value? calls s.vars = some (.truth b)) :
    Valuation.test calls e s = some b := by
  rw [Valuation.test, plain, value]
  cases b <;> rfl

theorem runs_ret {calls : Callees} {e : Expr} {s : Valuation} {v : Value}
    (value : e.value? calls s.vars = some v) :
    ((Stmt.ret e).com calls).Runs s (.answered (some v)) :=
  .ret (by rw [value]; rfl)

section

variable {env : Env} (named : ∀ sig : Nat, sig < 3 → env.constText 1 ↑sig = some doFibName)

include named

/-- A call of `doFib` of lower rank. -/
theorem doFib_value {sig k : Nat} (at_sig : sig < 3) {n : Int} (most : n < 2 ^ 31)
    (less : n.toNat < k) {e : Expr} {vars : List (Option Value)}
    (value : e.value? ((fibSpec.below fibRank k).callees env 1) vars = some (.int n)) :
    (doFib sig e).value? ((fibSpec.below fibRank k).callees env 1) vars =
      some (.int (wrap32 (n.toNat + 1).fib)) := by
  have answer : fibSpec doFibName [.int n] = some (.int (wrap32 (n.toNat + 1).fib)) :=
    if_pos ⟨rfl, most⟩
  rw [doFib, Expr.value?, Args.values?, value, Args.values?]
  exact Spec.callees_below (named sig at_sig) answer less

/-- The method answers a Fibonacci number, where its calls do. -/
theorem doFib_meets {n : Int} (most : n < 2 ^ 31) :
    Com.Meets (· = ⟨[some (.int n)], []⟩)
      ((Stmt.block 1 fibBody).com ((fibSpec.below fibRank n.toNat).callees env 1))
      (fun _ => False) (· = some (.int (wrap32 (n.toNat + 1).fib))) := by
  rintro _ rfl
  have tested : Valuation.test ((fibSpec.below fibRank n.toNat).callees env 1)
      (.binary .lt (.lvalue .block 0) (.push .im 2)) ⟨[some (.int n), none], [1]⟩ =
        some (decide (n < 2)) := test_truth rfl rfl
  by_cases small : n < 2
  · rw [decide_eq_true small] at tested
    have first : (n.toNat + 1).fib = 1 := by
      have below : n.toNat = 0 ∨ n.toNat = 1 := by omega
      rcases below with zero | one
      · rw [zero, zero_add, Nat.fib_one]
      · rw [one, Nat.fib_two]
    have one : wrap32 (n.toNat + 1).fib = 1 := by
      rw [first]
      decide
    rw [one]
    exact ⟨.answered (some (.int 1)), .seq (.prim rfl) (.seqLeft (.seqLeft (.seqLeft (.seq .skip
      (.ite tested (.seq (.prim rfl) (.seqLeft (.seqLeft (.seq .skip (.ret rfl)) trivial)
        trivial)))) trivial) trivial) trivial), rfl⟩
  · rw [decide_eq_false small] at tested
    have less : ∀ k : Int, 1 ≤ k → k ≤ 2 →
        (fibLess k).value? ((fibSpec.below fibRank n.toNat).callees env 1)
          [some (.int n), none] = some (.int (n - k)) := by
      intro k least greatest
      have small : wrap32 (n - k) = n - k := by
        rw [wrap32, Int.bmod_eq_of_le (by omega) (by omega)]
      simp [fibLess, Expr.value?, BinOp.value?, Value.num, small]
    have once := doFib_value named (show 0 < 3 by omega) (by omega) (by omega)
      (less 1 (by omega) (by omega))
    have twice := doFib_value named (show 1 < 3 by omega) (by omega) (by omega)
      (less 2 (by omega) (by omega))
    have value : (Expr.binary .add (doFib 0 (fibLess 1)) (doFib 1 (fibLess 2))).value?
        ((fibSpec.below fibRank n.toNat).callees env 1) [some (.int n), none] =
          some (.int (wrap32 (n.toNat + 1).fib)) := by
      rw [Expr.value?, once, twice, Option.bind_some, Option.bind_some, BinOp.value?, Value.num,
        Value.num, fib_turn (by omega)]
    exact ⟨.answered (some (.int (wrap32 (n.toNat + 1).fib))), .seq (.prim rfl) (.seqLeft (.seqLeft
      (.seq (.seq .skip (.ite tested .skip)) (runs_ret value)) trivial) trivial), rfl⟩

/-- `main` calls it once. -/
theorem main_meets : Com.Meets (· = ⟨[], []⟩)
    ((Stmt.block 0 mainBody).com ((fibSpec.below fibRank 11).callees env 1))
    (fun _ => False) (· = some (.int 89)) := by
  rintro _ rfl
  have value : (doFib 2 (.push .im 10)).value? ((fibSpec.below fibRank 11).callees env 1) [] =
      some (.int (wrap32 (Int.toNat 10 + 1).fib)) :=
    doFib_value named (by omega) (by omega) (by decide) (by rw [Expr.value?])
  have eleven : wrap32 (Int.toNat 10 + 1).fib = 89 := by
    have fib : (Int.toNat 10 + 1).fib = 89 := rfl
    rw [fib]
    decide
  rw [eleven] at value
  exact ⟨.answered (some (.int 89)), .seq (.prim rfl) (.seqLeft (.seqLeft (.seq .skip
    (runs_ret value)) trivial) trivial), rfl⟩

end

/-- The methods of the text answer what they are to answer. -/
theorem fib_justified : ∃ s, loaded fibText = some s ∧
    Justified (s.env plainHost) fibSpec fibRank := by
  obtain ⟨s, mp, main, load, static, count, static', count', named⟩ := fib_loaded
  refine ⟨s, load, fun name vs v answer => ?_⟩
  unfold fibSpec at answer
  split at answer
  case h_1 n =>
      split at answer
      case isTrue holds =>
          obtain ⟨rfl, most⟩ := holds
          cases answer
          exact ⟨1, mp, 1, fibBody, static, count, doFib_meets named most⟩
      case isFalse => cases answer
  case h_2 =>
      split at answer
      case isTrue holds =>
          subst holds
          cases answer
          exact ⟨1, main, 0, mainBody, static', count', main_meets named⟩
      case isFalse => cases answer
  case h_3 => cases answer

/-- The text, loaded and run, computes Fibonacci numbers. -/
theorem fib_run : ∃ s, loaded fibText = some s ∧
    (∃ n q', ∀ m, n ≤ m → (qinterpRun (s.env plainHost) m "test".toList "main".toList 0
      s.q).ending = .done (q', .none, some (.int 89))) ∧
    ∀ k : Int, k < 2 ^ 31 → ∃ n q', ∀ m, n ≤ m →
      (qinterpRun (s.env plainHost) m "test".toList "doFib".toList 1
        { s.q with stack := [.int k] }).ending =
          .done (q', .none, some (.int (wrap32 (k.toNat + 1).fib))) := by
  obtain ⟨s, load, justified⟩ := fib_justified
  have prepared := loaded_prepared load
  refine ⟨s, load, ?_, fun k most => ?_⟩
  · have answer : fibSpec ("test".toList ++ ['.'] ++ buildMethodSig "main".toList true ++
        List.replicate 0 'v') [] = some (.int 89) := by decide
    have handed : Handed s.q [] s.q.stack :=
      ⟨rfl, fun _ none => (List.not_mem_nil none).elim⟩
    obtain ⟨n, q', _, ended⟩ := qinterpRun_recursive prepared justified answer handed
    exact ⟨n, q', ended⟩
  · have answer : fibSpec ("test".toList ++ ['.'] ++ buildMethodSig "doFib".toList true ++
        List.replicate 1 'v') [.int k] = some (.int (wrap32 (k.toNat + 1).fib)) :=
      if_pos ⟨by decide, most⟩
    have handed : Handed { s.q with stack := [.int k] } [(.int k, .int k)] [] := by
      refine ⟨rfl, fun o mem => ⟨false, ?_⟩⟩
      rw [List.mem_singleton.mp mem]
      exact .direct (.int k)
    obtain ⟨n, q', _, ended⟩ := qinterpRun_recursive prepared justified answer handed
    exact ⟨n, q', ended⟩

end Jspp.Kernel
