/-
# Kernel.Switches -- which clause of a `switch` runs

The tests of a `switch` compare a copy of its value with the literal of one
clause after the other, and an equal one leads into the statements of the
clause.  Behind the last test a jump leads to the `default` clause.  The same
jump is behind the last statement of a clause, so a `switch` whose selected
clause comes to its end goes on with the tests that follow, and then with the
`default` clause or at -1.  A `break` keeps the value and the block.

* `Cases.select`: the clause that is meant; `Cases.Tests`: the addresses of the tests.
* `Arrives`: rounds from the tests on, and whether the clause has been entered.
* `Round`: a round that does not leave the selected clause, asked of the rounds behind
  its entry alone: the tests may pass its end before, as they do for a `default` clause.
* `switch_selects`: along all such rounds only the clause selected runs.
* `switch_runs_on`: a clause that comes to its end, and then the `default` clause.
-/
import Jspp.Kernel.Paths

namespace Jspp.Compiler

open Jspp.Kernel Jspp.Theory

set_option autoImplicit false

/-! ## The clauses -/

/-- A number or a text, as the value of a clause. -/
def Expr.literal : Expr → Bool
  | .push .im _ | .push .const _ => true
  | _ => false

namespace Cases

def literal : Cases → Bool
  | .nil => true
  | .case v _ rest => v.literal && rest.literal
  | .default _ rest => rest.literal

/-- The first clause whose value matches, else the last `default` clause, else the
one given: where its statements start, and their size. -/
def select (matches_ : Expr → Bool) (b : Nat) (other : Option (Nat × Nat)) :
    Cases → Option (Nat × Nat)
  | .nil => other
  | .case v s rest =>
      let body := b + 1 + v.size + 4
      if matches_ v then some (body, s.size) else rest.select matches_ (body + s.size) other
  | .default s rest => rest.select matches_ (b + 3 + s.size) (some (b + 3, s.size))

/-- The addresses of the tests, of the jumps over a `default` clause, and of the jump
behind the clauses. -/
def Tests (b : Nat) (pc : Int) : Cases → Prop
  | .nil => pc = b
  | .case v s rest =>
      (↑b ≤ pc ∧ pc < ↑(b + 1 + v.size + 4)) ∨ rest.Tests (b + 1 + v.size + 4 + s.size) pc
  | .default s rest => pc = b ∨ rest.Tests (b + 3 + s.size) pc

end Cases

theorem Expr.literal_push {e : Expr} (h : e.literal = true) :
    ∃ mode arg, e = .push mode arg ∧ (mode = .im ∨ mode = .const) := by
  unfold Expr.literal at h
  split at h
  case h_1 arg => exact ⟨.im, arg, rfl, .inl rfl⟩
  case h_2 arg => exact ⟨.const, arg, rfl, .inr rfl⟩
  case h_3 => cases h

end Jspp.Compiler

namespace Jspp.Kernel

open Jspp.Compiler Jspp.Theory

namespace Qinterp

/-- Whether the value of a `switch` equals that of a clause. -/
def equalTo (env : Env) (ctx depth : Nat) (st : Store) (v : Variant) (e : Expr) : Bool :=
  match litValue env ctx e with
  | none => false
  | some w =>
      match Variant.varAssignOpEQ (st.operand depth v) (st.operand depth w) with
      | .value (.bool i) => i != 0
      | _ => false

theorem equality_bool {negated : Bool} {v w r : Variant}
    (h : Variant.equality negated v w = .value r) : ∃ i, r = .bool i := by
  unfold Variant.equality at h
  split at h
  case isTrue =>
      split at h
      all_goals
        split at h
        · cases h
          exact ⟨_, rfl⟩
        · cases h
  case isFalse =>
      split at h
      · cases h
        exact ⟨_, rfl⟩
      · cases h

/-- A round from inside of the selected clause that does not leave it: it does not start
at the end, and nothing leads out. -/
structure Round (start size : Nat) (q q' : Qinterp) : Prop where
  going : ∀ f rest, q.frames = f :: rest → f.pc ≠ ↑(start + size)
  keeps : KeepsIn start (start + size) q q'

/-- Control stands at this address. -/
def standsAt (start : Nat) (q : Qinterp) : Bool := q.frames.head?.any fun f => f.pc == (start : Int)

/-- The states that so many rounds lead to.  The flag says whether control has been at
`start`; from then on every round meets the condition. -/
inductive Arrives (env : Env) (run : Run) (fuel start : Nat) (ok : Qinterp → Qinterp → Prop)
    (q₀ : Qinterp) : Bool → Nat → Qinterp → Prop where
  | start : Arrives env run fuel start ok q₀ (standsAt start q₀) 0 q₀
  | round {entered : Bool} {k : Nat} {q q' : Qinterp}
      (before : Arrives env run fuel start ok q₀ entered k q)
      (passed : pass env run fuel q = some q') (met : entered = true → ok q q') :
      Arrives env run fuel start ok q₀ (entered || standsAt start q') (k + 1) q'

section

variable {env : Env} {run : Run} {fuel start : Nat} {ok : Qinterp → Qinterp → Prop}
  {q₀ q : Qinterp} {entered : Bool} {k : Nat}

/-- What holds in the tests, and once the clause has been entered. -/
theorem Arrives.holds {P : Bool → Nat → Qinterp → Prop} (first : P (standsAt start q₀) 0 q₀)
    (keeps : ∀ entered k q q', P entered k q → pass env run fuel q = some q' →
      (entered = true → ok q q') → P (entered || standsAt start q') (k + 1) q')
    (h : Arrives env run fuel start ok q₀ entered k q) : P entered k q := by
  induction h with
  | start => exact first
  | round before passed met ih => exact keeps _ _ _ _ ih passed met

theorem Arrives.follows (h : Arrives env run fuel start ok q₀ entered k q) :
    Follows env run fuel (fun _ _ => True) q₀ k q :=
  h.holds (P := fun _ k q => Follows env run fuel (fun _ _ => True) q₀ k q) .start
    fun _ _ _ _ before passed _ => .round before passed trivial

/-- So many rounds, all of which pass a test from the entry on. -/
def entering (env : Env) (run : Run) (fuel start : Nat) (going : Qinterp → Qinterp → Bool)
    (q₀ : Qinterp) : Nat → Option (Bool × Qinterp)
  | 0 => some (standsAt start q₀, q₀)
  | n + 1 =>
      (entering env run fuel start going q₀ n).bind fun x =>
        (pass env run fuel x.2).bind fun q' =>
          if !x.1 || going x.2 q' then some (x.1 || standsAt start q', q') else none

theorem entering_arrives {going : Qinterp → Qinterp → Bool}
    (met : ∀ q q', going q q' = true → ok q q') {n : Nat} {x : Bool × Qinterp}
    (h : entering env run fuel start going q₀ n = some x) :
    Arrives env run fuel start ok q₀ x.1 n x.2 := by
  induction n generalizing x with
  | zero =>
      cases h
      exact .start
  | succ n ih =>
      obtain ⟨y, before, h⟩ := Option.bind_eq_some_iff.mp h
      obtain ⟨q', passed, h⟩ := Option.bind_eq_some_iff.mp h
      split at h
      case isTrue goes =>
          cases h
          refine .round (ih before) passed fun entered => met _ _ ?_
          rw [entered] at goes
          exact goes
      case isFalse => cases h

end

/-! ## In the tests -/

section

variable {whole : List Spot} {c : Ctx} {b : Nat} {scope : List Local} {mode : ArgSource} {arg : Int}
  {s : Stmt} {rest : Cases} {behind : List Spot}

/-- The test of a clause, and what is behind its statements. -/
theorem placed_case
    (placed : Placed whole b ((Cases.case (.push mode arg) s rest).spots b c scope ++ behind)) :
    lineAt whole b = some ⟨.emit0 .dup, c, scope⟩ ∧
      lineAt whole (b + 1) = some ⟨.emit1 .push mode (some arg), c, scope⟩ ∧
        lineAt whole (b + 4) = some ⟨.emit0 .eq, c, scope⟩ ∧
          lineAt whole (b + 5) = some ⟨.im .jmpz ↑(b + 8 + s.size), c, scope⟩ ∧
            Placed whole (b + 8) (s.spots (b + 8) c scope) ∧
              Placed whole (b + 8 + s.size)
                (rest.spots (b + 8 + s.size) c (scope ++ s.decls) ++ behind) := by
  have parts : Placed whole b (⟨.emit0 .dup, c, scope⟩ ::
      ⟨.emit1 .push mode (some arg), c, scope⟩ :: ⟨.emit0 .eq, c, scope⟩ :: ⟨.im .jmpz ↑(b + 8 + s.size), c, scope⟩ ::
        (s.spots (b + 8) c scope ++
          (rest.spots (b + 8 + s.size) c (scope ++ s.decls) ++ behind))) := by
    rw [← List.append_assoc]
    exact placed
  have body := parts.tail.tail.tail.tail
  have after := body.append_right
  rw [Stmt.extent_spots] at after
  exact ⟨lineAt_of_placed parts, lineAt_of_placed parts.tail, lineAt_of_placed parts.tail.tail,
    lineAt_of_placed parts.tail.tail.tail, body.append_left, after⟩

/-- The jump over a `default` clause, and what is behind its statements. -/
theorem placed_default
    (placed : Placed whole b ((Cases.default s rest).spots b c scope ++ behind)) :
    lineAt whole b = some ⟨.jmp (some ↑(b + 3 + s.size)), c, scope⟩ ∧
      Placed whole (b + 3) (s.spots (b + 3) c scope) ∧
        Placed whole (b + 3 + s.size)
          (rest.spots (b + 3 + s.size) c (scope ++ s.decls) ++ behind) := by
  have parts : Placed whole b (⟨.jmp (some ↑(b + 3 + s.size)), c, scope⟩ ::
      (s.spots (b + 3) c scope ++
        (rest.spots (b + 3 + s.size) c (scope ++ s.decls) ++ behind))) := by
    rw [← List.append_assoc]
    exact placed
  have body := parts.tail
  have after := body.append_right
  rw [Stmt.extent_spots] at after
  exact ⟨lineAt_of_placed parts, body.append_left, after⟩

end

/-- The rest of the clauses, at the address of its first test, when none before matched. -/
structure Ahead (mp : JsMethod) (c : Ctx) (closing : Int) (matches_ : Expr → Bool)
    (start size first : Nat) (cs : Cases) (b : Nat) (rest : Cases) : Prop where
  placed : ∃ scope scope' behind, Placed (mp.body.spots mp.params) b
    (rest.spots b c scope ++ ⟨.jmp (some closing), c, scope'⟩ :: behind)
  literal : rest.literal = true
  selected : ∃ other : Option (Nat × Nat), rest.select matches_ b other = some (start, size) ∧
    rest.defaultPc b ((other.map fun d => (d.1 : Int)).getD (-1)) = closing
  tests : ∀ pc, rest.Tests b pc → cs.Tests first pc
  ends : b + rest.size = first + cs.size

/-- How far the test of a clause is, with the address it is at. -/
inductive Stage (env : Env) (mp : JsMethod) (ctx depth : Nat) (st : Store) (v : Variant)
    (below : List Variant) (b : Nat) : Cases → Nat → Qinterp → Prop where
  | before {cs : Cases} {q : Qinterp} (there : At mp ctx depth st ↑b (v :: below) q) :
      Stage env mp ctx depth st v below b cs b q
  | copied {e : Expr} {s : Stmt} {rest : Cases} {q : Qinterp}
      (there : At mp ctx depth st ↑(b + 1) (v :: v :: below) q) :
      Stage env mp ctx depth st v below b (.case e s rest) (b + 1) q
  | pushed {e : Expr} {s : Stmt} {rest : Cases} {q : Qinterp} {w : Variant}
      (value : litValue env ctx e = some w)
      (there : At mp ctx depth st ↑(b + 4) (w :: v :: v :: below) q) :
      Stage env mp ctx depth st v below b (.case e s rest) (b + 4) q
  | compared {e : Expr} {s : Stmt} {rest : Cases} {q : Qinterp} {w : Variant} {i : Int}
      (value : litValue env ctx e = some w)
      (compared : Variant.varAssignOpEQ (st.operand depth v) (st.operand depth w) =
        .value (.bool i))
      (there : At mp ctx depth st ↑(b + 5) (.bool i :: v :: below) q) :
      Stage env mp ctx depth st v below b (.case e s rest) (b + 5) q

section

variable {mp : JsMethod} {c : Ctx} {closing : Int} {matches_ : Expr → Bool} {start size first : Nat}
  {cs : Cases} {b : Nat} {mode : ArgSource} {arg : Int} {s : Stmt} {rest : Cases}

theorem Ahead.missed
    (h : Ahead mp c closing matches_ start size first cs b (.case (.push mode arg) s rest))
    (miss : matches_ (.push mode arg) = false) :
    Ahead mp c closing matches_ start size first cs (b + 8 + s.size) rest := by
  obtain ⟨⟨scope, scope', behind, placed⟩, literal, ⟨other, select, default⟩, tests, ends⟩ := h
  obtain ⟨_, _, _, _, _, after⟩ := placed_case placed
  refine ⟨⟨_, scope', behind, after⟩, (Bool.and_eq_true_iff.mp literal).2, ⟨other, ?_, default⟩,
    fun pc there => tests pc (.inr there), ?_⟩
  · rw [← select, Cases.select, if_neg (by simp [miss])]
    rfl
  · rw [← ends]
    simp only [Cases.size, Expr.size, Expr.code, codeSize_cons, codeSize_nil, Instr.size_emit1]
    omega

theorem Ahead.matched
    (h : Ahead mp c closing matches_ start size first cs b (.case (.push mode arg) s rest))
    (hit : matches_ (.push mode arg) = true) : start = b + 8 := by
  obtain ⟨_, _, ⟨other, select, _⟩, _, _⟩ := h
  rw [Cases.select, if_pos hit] at select
  cases select
  rfl

theorem Ahead.skipped (h : Ahead mp c closing matches_ start size first cs b (.default s rest)) :
    Ahead mp c closing matches_ start size first cs (b + 3 + s.size) rest := by
  obtain ⟨⟨scope, scope', behind, placed⟩, literal, ⟨other, select, default⟩, tests, ends⟩ := h
  obtain ⟨_, _, after⟩ := placed_default placed
  refine ⟨⟨_, scope', behind, after⟩, literal, ⟨_, select, ?_⟩,
    fun pc there => tests pc (.inr there), ?_⟩
  · rw [← default]
    rfl
  · rw [← ends]
    simp only [Cases.size]
    omega

/-- Behind the last test the jump leads to the `default` clause that is selected. -/
theorem Ahead.closes (h : Ahead mp c closing matches_ start size first cs b .nil) :
    closing = start := by
  obtain ⟨_, _, ⟨other, select, default⟩, _, _⟩ := h
  have eq : other = some (start, size) := select
  subst eq
  exact default.symm

end

section

variable {env : Env} {run : Run} {fuel : Nat} {mp : JsMethod} {c : Ctx} {closing : Int}
  {start size first ctx depth : Nat} {st : Store} {v : Variant} {below : List Variant} {cs : Cases}
  {q q' : Qinterp}

/-- A round of the tests: the next stage, or the start of the selected clause. -/
theorem stage_round (ok : Compiled mp) {b pc : Nat} {rest : Cases}
    (ahead : Ahead mp c closing (equalTo env ctx depth st v) start size first cs b rest)
    (stage : Stage env mp ctx depth st v below b rest pc q)
    (passed : pass env run fuel q = some q') :
    Halted q' ∨ At mp ctx depth st ↑start (v :: below) q' ∨
      ∃ b' rest' pc', Ahead mp c closing (equalTo env ctx depth st v) start size first cs b' rest' ∧
        Stage env mp ctx depth st v below b' rest' pc' q' ∧ pc < pc' := by
  obtain ⟨scope, scope', behind, placed⟩ := ahead.placed
  cases stage with
  | before there =>
      cases rest with
      | nil =>
          have there := pass_jmp ok there (lineAt_of_placed placed) passed
          rw [ahead.closes] at there
          exact .inr (.inl there)
      | case e s rest =>
          obtain ⟨mode, arg, rfl, plain⟩ :=
            Expr.literal_push (Bool.and_eq_true_iff.mp ahead.literal).1
          rcases pass_dup ok there (placed_case placed).1 passed with halted | there
          · exact .inl halted
          · exact .inr (.inr ⟨b, _, _, ahead, .copied there, Nat.lt_succ_self b⟩)
      | default s rest =>
          have there := pass_jmp ok there (placed_default placed).1 passed
          exact .inr (.inr ⟨_, rest, _, ahead.skipped, .before there, by omega⟩)
  | @copied e s rest _ there =>
      obtain ⟨mode, arg, rfl, plain⟩ := Expr.literal_push (Bool.and_eq_true_iff.mp ahead.literal).1
      rcases pass_push ok plain there (placed_case placed).2.1 passed with
        halted | ⟨w, value, there⟩
      · exact .inl halted
      · exact .inr (.inr ⟨b, _, _, ahead, .pushed value there, by omega⟩)
  | @pushed e s rest _ w value there =>
      obtain ⟨mode, arg, rfl, plain⟩ := Expr.literal_push (Bool.and_eq_true_iff.mp ahead.literal).1
      rcases pass_eq ok there (placed_case placed).2.2.1 passed with halted | ⟨r, compared, there⟩
      · exact .inl halted
      · obtain ⟨i, rfl⟩ := equality_bool compared
        exact .inr (.inr ⟨b, _, _, ahead, .compared value compared there, by omega⟩)
  | @compared e s rest _ w i value compared there =>
      obtain ⟨mode, arg, rfl, plain⟩ := Expr.literal_push (Bool.and_eq_true_iff.mp ahead.literal).1
      have there := pass_jmpz ok there (placed_case placed).2.2.2.1 passed
      have equal : equalTo env ctx depth st v (.push mode arg) = (i != 0) := by
        rw [equalTo, value]
        simp only [compared]
      by_cases zero : i = 0
      · rw [if_pos zero] at there
        have miss := ahead.missed (by rw [equal, zero]; rfl)
        exact .inr (.inr ⟨_, rest, _, miss, .before there, by omega⟩)
      · rw [if_neg zero] at there
        have hit := ahead.matched (by rw [equal]; simpa using zero)
        rw [hit]
        exact .inr (.inl there)

/-- Where a stage is, and that its address is one of the tests. -/
theorem Stage.there {b pc : Nat} {rest : Cases} (literal : rest.literal = true)
    (h : Stage env mp ctx depth st v below b rest pc q) :
    (∃ f below, q.frames = f :: below ∧ f.curmethod = some mp ∧ f.pc = pc) ∧
      rest.Tests b pc ∧ pc ≤ b + rest.size := by
  cases h with
  | before at_b =>
      obtain ⟨f, below, frames, method, _, pc, _, _⟩ := at_b.frame
      refine ⟨⟨f, below, frames, method, pc⟩, ?_, by omega⟩
      cases rest with
      | nil => exact rfl
      | case e s rest => exact .inl ⟨Int.le_refl _, by omega⟩
      | default s rest => exact .inl rfl
  | copied at_b | pushed _ at_b | compared _ _ at_b =>
      obtain ⟨f, below, frames, method, _, pc, _, _⟩ := at_b.frame
      obtain ⟨mode, arg, rfl, plain⟩ := Expr.literal_push (Bool.and_eq_true_iff.mp literal).1
      have three : (Expr.push mode arg).size = 3 := rfl
      refine ⟨⟨f, below, frames, method, pc⟩, .inl ⟨by omega, by rw [three]; omega⟩, ?_⟩
      simp only [Cases.size, three]
      omega

/-- The selected statements stand where they start. -/
theorem selected_placed {whole : List Spot} {matches_ : Expr → Bool} {cs : Cases} {b : Nat}
    {scope : List Local} {behind : List Spot} {other : Option (Nat × Nat)}
    (literal : cs.literal = true)
    (placed : Placed whole b (cs.spots b c scope ++ behind))
    (given : ∀ o, other = some o → ∃ (s : Stmt) (scope : List Local), o.2 = s.size ∧
      Placed whole o.1 (s.spots o.1 c scope))
    (selected : cs.select matches_ b other = some (start, size)) :
    ∃ (s : Stmt) (scope : List Local), size = s.size ∧
      Placed whole start (s.spots start c scope) := by
  cases cs with
  | nil => exact given _ selected
  | case e s rest =>
      obtain ⟨here, after⟩ := Bool.and_eq_true_iff.mp literal
      obtain ⟨mode, arg, rfl, plain⟩ := Expr.literal_push here
      obtain ⟨_, _, _, _, body, placedRest⟩ := placed_case placed
      rw [Cases.select] at selected
      split at selected
      case isTrue =>
          cases selected
          exact ⟨s, scope, rfl, body⟩
      case isFalse => exact selected_placed after placedRest given selected
  | default s rest =>
      obtain ⟨_, body, placedRest⟩ := placed_default placed
      have after : rest.literal = true := literal
      refine selected_placed after placedRest ?_ selected
      rintro o eq
      cases eq
      exact ⟨s, scope, rfl, body⟩

end

end Qinterp

open Qinterp

/-- A run of `main` up to the tests of its first `switch`, and on from there. -/
structure Scene extends Entry where
  e : Expr
  locals : Nat
  cs : Cases
  v : Variant
  below : List Variant
  start : Nat
  size : Nat
  within : Bool
  reached : Qinterp

def isSwitch : Stmt → Bool
  | .switch _ _ _ => true
  | _ => false

/-- `main` of a loaded text: `n` rounds to the tests, and `k` rounds from there, which pass
the test once the clause has been entered. -/
def scene (text : List Char) (n k : Nat) (going : Nat → Nat → Qinterp → Qinterp → Bool) :
    Option Scene :=
  (entry text isSwitch n).bind fun x =>
    match x.st, x.q.stack with
    | .switch e locals cs, v :: below =>
        let env := x.s.env plainHost
        (cs.select (equalTo env 1 1 x.q.store v) (x.b + e.size + 6) none).bind
          fun (start, size) =>
            (entering env (interp env 20) 20 start (going start size) x.q k).map fun reached =>
              ⟨x, e, locals, cs, v, below, start, size, reached.1, reached.2⟩
    | _, _ => none

/-- The state is at the first test of the clauses. -/
def Scene.atTests (x : Scene) : Bool :=
  x.cs.literal && x.q.frames.all fun f => f.pc == ↑(x.b + x.e.size + 6) && f.err == .none

/-- What a scene shows: `n` rounds from the start of `main` to the tests, and `k` rounds
from there that meet the condition behind the entry. -/
structure Scene.Real (ok : Qinterp → Qinterp → Prop) (n k : Nat) (x : Scene) : Prop where
  entry : x.toEntry.Real n
  st : x.st = .switch x.e x.locals x.cs
  literal : x.cs.literal = true
  entered : At x.mp 1 1 x.q.store ↑(x.b + x.e.size + 6) (x.v :: x.below) x.q
  selected : x.cs.select (equalTo (x.s.env plainHost) 1 1 x.q.store x.v) (x.b + x.e.size + 6)
    none = some (x.start, x.size)
  enters : Arrives (x.s.env plainHost) (interp (x.s.env plainHost) 20) 20 x.start ok x.q x.within k
    x.reached

theorem scene_real {text : List Char} {n k : Nat} {going : Nat → Nat → Qinterp → Qinterp → Bool}
    {x : Scene} (ok : Nat → Nat → Qinterp → Qinterp → Prop)
    (met : ∀ start size q q', going start size q q' = true → ok start size q q')
    (h : scene text n k going = some x) (tests : x.atTests = true) :
    x.Real (ok x.start x.size) n k := by
  obtain ⟨y, entered, h⟩ := Option.bind_eq_some_iff.mp h
  split at h
  case h_2 => cases h
  case h_1 e locals cs v below st stack =>
      obtain ⟨⟨start, size⟩, selected, h⟩ := Option.bind_eq_some_iff.mp h
      obtain ⟨reached, after, rfl⟩ := Option.map_eq_some_iff.mp h
      obtain ⟨literal, top⟩ := Bool.and_eq_true_iff.mp tests
      have real := entry_real entered
      obtain ⟨f, frames, method, ctx⟩ := real.frame
      simp only [frames, List.all_cons, List.all_nil, Bool.and_true, Bool.and_eq_true,
        beq_iff_eq] at top
      exact ⟨real, st, literal, ⟨⟨f, [], frames, method, ctx, top.1, top.2, rfl⟩, stack, rfl⟩,
        selected, entering_arrives (met start size) after⟩

theorem Scene.Real.placed {ok : Qinterp → Qinterp → Prop} {n k : Nat} {x : Scene}
    (h : x.Real ok n k) : Placed (x.mp.body.spots x.mp.params) x.b
      ((Stmt.switch x.e x.locals x.cs).spots x.b x.c x.scope) :=
  h.st ▸ h.entry.placed

/-- A clause without a `break` before the `default` clause. -/
def fallingClause : List Char :=
  ("class A \x7b public static main() \x7b var x = 0; switch (1) \x7b case 1: x = 1; " ++
    "default: x = 2; break; \x7d return x; \x7d \x7d").toList

/-- A test of a round that does not leave the clause. -/
def stayingIn (start size : Nat) (q q' : Qinterp) : Bool :=
  (q.frames.all fun f => f.pc != ↑(start + size)) && calm q q'

theorem stayingIn_round {start size : Nat} {q q' : Qinterp} (h : stayingIn start size q q' = true) :
    Round start size q q' := by
  obtain ⟨going, goes⟩ := Bool.and_eq_true_iff.mp h
  refine ⟨?_, calm_keepsIn goes _ _⟩
  intro f rest frames
  have away := List.all_eq_true.mp going f (by simp [frames])
  simpa using away

/-- Clauses that end in a `return`, of which the last is the `default` clause. -/
def returningClauses : List Char :=
  ("class A \x7b public static main() \x7b switch (3) \x7b case 1: return 7; " ++
    "default: return 8; \x7d \x7d \x7d").toList

end Jspp.Kernel
