/-
# Kernel.Finally -- how often a `finally` block runs

Behind a protected block a false flag is pushed and control goes to the
`finally` block, whose end jumps back to the `catch` block when the flag is
true.  A handler pushes a true flag, so a caught exception runs the `finally`
block before the `catch` block, and once more behind it, where no flag is left.

* `Enters`: rounds, counted by how often they enter a part of the code.
* `TryRound`: a round that leaves no block and catches nothing.
* `finally_once`: along all such rounds the block is entered once, and left behind.
* `finally_twice`: an exception that is caught.
-/
import Jspp.Kernel.Paths

namespace Jspp.Compiler

open Jspp.Kernel Jspp.Theory

set_option autoImplicit false

/-! ## The parts of a `try` -/

/-- The end of the protected block of a `try` at address `b`. -/
def Stmt.tryEnd (b : Nat) (s : Stmt) : Nat := b + 3 + s.size

/-- The address of the `catch` block. -/
def Stmt.catchPc (b : Nat) (s : Stmt) : Nat := s.tryEnd b + 6 + 11

/-- The address of the `finally` block. -/
def Stmt.finallyPc (b : Nat) (s h : Stmt) : Nat := s.catchPc b + (3 + h.size + 1)

section

variable {whole : List Spot} {s h f : Stmt} {v : Local} {locals b : Nat} {c : Ctx}
  {scope : List Local}

/-- The instructions of a `try` around its blocks, and its two blocks. -/
theorem placed_try (placed : Placed whole b ((Stmt.try s v locals h f).spots b c scope)) :
    (∃ l, lineAt whole b = some l ∧ ∃ t, l.instr = .im .try t) ∧
      Placed whole (b + 3) (s.spots (b + 3) (c.inTry b) scope) ∧
        (∃ l, lineAt whole (s.tryEnd b) = some l ∧ l.instr = .im .push 0) ∧
          (∃ l, lineAt whole (s.tryEnd b + 3) = some l ∧
            l.instr = .jmp (some ↑(s.finallyPc b h))) ∧
            (∃ scope, Placed whole (s.finallyPc b h) (f.spots (s.finallyPc b h) c scope)) ∧
              ∃ l, lineAt whole (s.finallyPc b h + f.size) = some l ∧
                l.instr = .im .jmpnz ↑(s.catchPc b) := by
  simp only [Stmt.spots, marked, List.map_cons, List.map_nil, List.append_assoc, List.cons_append,
    List.nil_append] at placed
  have body := placed.tail
  have flag := body.append_right
  rw [Stmt.extent_spots] at flag
  have handler := flag.tail.tail.tail.tail.tail.tail.tail.tail
  have leave := handler.append_right
  rw [Stmt.extent_spots] at leave
  have final : Placed whole (s.finallyPc b h) _ := leave.tail.move (by
    simp only [Stmt.finallyPc, Stmt.catchPc, Stmt.tryEnd, line_size, Instr.size_im, Instr.size_jmp,
      Instr.size_emit0, Instr.size_emit1]
    omega)
  have test := final.append_right
  rw [Stmt.extent_spots] at test
  exact ⟨⟨_, lineAt_of_placed placed, _, rfl⟩, body.append_left, ⟨_, lineAt_of_placed flag, rfl⟩,
    ⟨_, lineAt_of_placed flag.tail, rfl⟩, ⟨_, final.append_left⟩, _, lineAt_of_placed test, rfl⟩

end

end Jspp.Compiler

namespace Jspp.Kernel

open Jspp.Compiler Jspp.Theory

namespace Qinterp

/-! ## Rounds that enter a part of the code -/

/-- The frame on top is between two addresses. -/
def within (lo hi : Nat) (q : Qinterp) : Bool :=
  (q.frames.head?).any fun f => decide (↑lo ≤ f.pc) && decide (f.pc ≤ ↑hi)

/-- So many rounds that meet the condition, of which so many enter a part. -/
inductive Enters (env : Env) (run : Run) (fuel : Nat) (ok : Qinterp → Qinterp → Prop)
    (part : Qinterp → Bool) (q₀ : Qinterp) : Nat → Nat → Qinterp → Prop where
  | start : Enters env run fuel ok part q₀ 0 0 q₀
  | round {k n : Nat} {q q' : Qinterp} (before : Enters env run fuel ok part q₀ k n q)
      (passed : pass env run fuel q = some q') (met : ok q q') :
      Enters env run fuel ok part q₀ (k + 1) (if part q' && !part q then n + 1 else n) q'

section

variable {env : Env} {run : Run} {fuel : Nat} {ok : Qinterp → Qinterp → Prop}
  {part : Qinterp → Bool} {q₀ q : Qinterp} {k n : Nat}

theorem Enters.holds {P : Nat → Qinterp → Prop} (start : P 0 q₀)
    (keeps : ∀ n q q', P n q → pass env run fuel q = some q' → ok q q' →
      P (if part q' && !part q then n + 1 else n) q')
    (h : Enters env run fuel ok part q₀ k n q) : P n q := by
  induction h with
  | start => exact start
  | round before passed met ih => exact keeps _ _ _ ih passed met

/-- So many rounds, all of which pass a test, and how often they enter a part. -/
def entries (env : Env) (run : Run) (fuel : Nat) (going : Qinterp → Qinterp → Bool)
    (part : Qinterp → Bool) : Nat → Qinterp → Option (Nat × Qinterp)
  | 0, q => some (0, q)
  | k + 1, q =>
      (entries env run fuel going part k q).bind fun (n, q) =>
        (pass env run fuel q).bind fun q' =>
          if going q q' then some (if part q' && !part q then n + 1 else n, q') else none

theorem entries_enters {going : Qinterp → Qinterp → Bool}
    (met : ∀ q q', going q q' = true → ok q q')
    (h : entries env run fuel going part k q₀ = some (n, q)) :
    Enters env run fuel ok part q₀ k n q := by
  induction k generalizing n q with
  | zero =>
      cases h
      exact .start
  | succ k ih =>
      obtain ⟨⟨m, q₁⟩, before, h⟩ := Option.bind_eq_some_iff.mp h
      obtain ⟨q₂, passed, h⟩ := Option.bind_eq_some_iff.mp h
      split at h
      case isTrue goes =>
          cases h
          exact .round (ih before) passed (met q₁ _ goes)
      case isFalse => cases h

end

/-! ## Rounds of a `try` -/

/-- What is on the operand stack tests as zero behind an instruction. -/
def TestsZero (env : Env) (i : Instr) (q : Qinterp) : Prop :=
  ∃ a a', q.act? = some a ∧ (advance i a).testTop env = some (some 0, a')

/-- A round of a `try` that is not over: nothing leads out of one of its blocks, and the
test behind the `finally` block finds zero on the operand stack. -/
structure TryRound (env : Env) (b : Nat) (s h f : Stmt) (q q' : Qinterp) : Prop where
  going : ∀ g rest, q.frames = g :: rest → g.pc ≠ ↑(s.finallyPc b h + f.size + 3)
  body : within (b + 3) (s.tryEnd b) q = true → KeepsIn (b + 3) (s.tryEnd b) q q'
  final : within (s.finallyPc b h) (s.finallyPc b h + f.size) q = true →
    KeepsIn (s.finallyPc b h) (s.finallyPc b h + f.size) q q'
  flag : ∀ g rest, q.frames = g :: rest → g.pc = ↑(s.finallyPc b h + f.size) →
    TestsZero env (.im .jmpnz ↑(s.catchPc b)) q

/-- The activation ended, or the `finally` block was not entered yet and control is in the
protected block or at one of the instructions around it, or it was entered once and control
is in it or behind the statement. -/
def TryPhase (mp : JsMethod) (b : Nat) (s h f : Stmt) (n : Nat) (q : Qinterp) : Prop :=
  Halted q ∨
    (n = 0 ∧ (Inside mp b b q ∨ Inside mp (b + 3) (s.tryEnd b) q ∨
      Inside mp (s.tryEnd b + 3) (s.tryEnd b + 3) q)) ∨
    (n = 1 ∧ (Inside mp (s.finallyPc b h) (s.finallyPc b h + f.size) q ∨
      Inside mp (s.finallyPc b h + f.size + 3) (s.finallyPc b h + f.size + 3) q))

section

variable {env : Env} {run : Run} {fuel : Nat} {mp : JsMethod} {q q' : Qinterp}

theorem Inside.within {lo hi : Nat} (h : Inside mp lo hi q) : Qinterp.within lo hi q = true := by
  obtain ⟨f, rest, frames, _, low, high⟩ := h
  simp [Qinterp.within, frames, low, high]

theorem Inside.outside {lo hi lo' hi' : Nat} (h : Inside mp lo hi q) (away : hi < lo' ∨ hi' < lo) :
    Qinterp.within lo' hi' q = false := by
  obtain ⟨f, rest, frames, _, low, high⟩ := h
  simp only [Qinterp.within, frames, List.head?_cons, Option.any_some, Bool.and_eq_false_iff,
    decide_eq_false_iff_not]
  omega

/-- A round at the address of one instruction. -/
theorem round_at (good : RunWithin run) (ok : Compiled mp) {k : Nat} {l : Spot}
    (spot : lineAt (mp.body.spots mp.params) k = some l) (there : Inside mp k k q)
    (passed : pass env run fuel q = some q') :
    Halted q' ∨ ∃ (f f' : StackFrame) (rest : List StackFrame), q'.frames = f' :: rest ∧
      f'.curmethod = some mp ∧ Moves l.instr ⟨↑(k + l.instr.size), f.blockframes⟩ f'.shape := by
  obtain ⟨f, f', rest, i, frames, frames', _, read, same, moved⟩ := pass_stepped good passed
  obtain ⟨g, _, frames₂, method, low, high⟩ := there
  rw [frames] at frames₂
  obtain ⟨rfl, rfl⟩ := List.cons.inj frames₂
  rcases moved with bad | moves
  · exact .inl ⟨f', rest, frames', bad⟩
  · have fetched : fetch mp.code f.pc = some i := by
      rw [codeOf, method] at read
      exact read
    obtain ⟨k', l', at_k, at_l, rfl⟩ := ok.fetch fetched
    obtain rfl : k' = k := by omega
    rw [spot] at at_l
    cases at_l
    refine .inr ⟨f, f', rest, frames', same.curmethod.trans method, ?_⟩
    rw [at_k] at moves
    exact moves

/-- The test behind the `finally` block goes on behind the statement when it finds zero. -/
theorem round_flag (ok : Compiled mp) {k : Nat} {t : Int} {l : Spot}
    (spot : lineAt (mp.body.spots mp.params) k = some l) (jump : l.instr = .im .jmpnz t)
    (there : Inside mp k k q) (zero : TestsZero env (.im .jmpnz t) q)
    (passed : pass env run fuel q = some q') : Inside mp (k + 3) (k + 3) q' := by
  obtain ⟨f, rest, frames, method, low, high⟩ := there
  obtain ⟨a, a₁, act, tested⟩ := zero
  have top := (act?_some act).1
  rw [frames] at top
  obtain ⟨eq, _⟩ := List.cons.inj top
  have at_k : a.frame.pc = k := by
    rw [← eq]
    omega
  have in_method : a.frame.curmethod = some mp := by rw [← eq, method]
  have read : fetch (codeOf a.frame) a.frame.pc = some (.im .jmpnz t) := by
    obtain ⟨_, _, _, okCode⟩ := ok
    rw [codeOf, in_method, at_k]
    simp only [Option.map_some, Option.getD_some]
    rw [fetch, if_neg (by omega), Int.toNat_natCast, okCode.code, ← Body.map_spots mp.params,
      fetchAt_spots, spot, ← jump]
    rfl
  obtain ⟨a', executed, rfl⟩ := pass_exec act read (fun _ _ => rfl) passed
  have stay : a₁.pop = some a' := by
    have jumped : (advance (.im .jmpnz t) a).jumpIf env false t = some a' := executed
    rw [Act.jumpIf, tested] at jumped
    exact jumped
  obtain ⟨kept₁, shape₁, _⟩ := Act.testTop_still tested
  obtain ⟨kept₂, shape₂, _⟩ := Act.pop_still stay
  have pc : a'.frame.pc = ↑(k + 3) := by
    have same : a'.frame.shape.pc = (advance (.im .jmpnz t) a).frame.shape.pc := by
      rw [shape₂, shape₁]
    show a'.frame.shape.pc = _
    rw [same]
    show a.frame.pc + 3 = _
    omega
  have called : a'.frame.curmethod = some mp :=
    (kept₂.curmethod.trans kept₁.curmethod).trans in_method
  exact ⟨a'.frame, _, rfl, called, by omega, by omega⟩

end

end Qinterp

open Qinterp

/-- From the start of a `try` on, as long as nothing leads out of its blocks and the test
behind the `finally` block finds zero, that block is entered once, behind the protected
block, and then the statement is over. -/
theorem finally_once {host : Host} {s : Session} (prepared : Prepared host s) {d : Nat}
    {sig : List Char} {mp : JsMethod} (found : (s.env host).findMethod d sig = some mp)
    {st h f : Stmt} {v : Local} {locals b : Nat} {c : Ctx} {scope : List Local}
    (placed : Placed (mp.body.spots mp.params) b ((Stmt.try st v locals h f).spots b c scope))
    {q₀ : Qinterp} (entered : Inside mp b b q₀) {calls fuel k n : Nat} {q : Qinterp}
    (enters : Enters (s.env host) (interp (s.env host) calls) fuel (TryRound (s.env host) b st h f)
      (within (st.finallyPc b h) (st.finallyPc b h + f.size)) q₀ k n q) :
    TryPhase mp b st h f n q := by
  have ok : Compiled mp :=
    findMethod_compiled (prepared.classes compiled_logic.invariant) found
  have good : RunWithin (interp (s.env host) calls) := interp_within _ _
  obtain ⟨⟨l₁, at_try, t, try_⟩, body, ⟨l₂, at_push, push⟩, ⟨l₃, at_jump, jump⟩,
    ⟨_, final⟩, l₄, at_test, test⟩ := placed_try placed
  have after : st.tryEnd b = b + 3 + st.size := rfl
  have far : st.finallyPc b h = st.tryEnd b + 17 + (3 + h.size + 1) := rfl
  refine enters.holds (P := TryPhase mp b st h f) (.inr (.inl ⟨rfl, .inl entered⟩)) ?_
  intro n q q' now passed round
  rcases now with halted | ⟨rfl, start | inside | flag⟩ | ⟨rfl, inside | ended⟩
  · exact absurd passed (not_pass_halted halted)
  · -- `OP_TRY`
    rcases round_at good ok at_try start passed with halted | ⟨g, g', rest, frames, method, moves⟩
    · exact .inl halted
    · rw [try_] at moves
      obtain ⟨bf, below, _, shape⟩ := moves
      have pc : g'.pc = ↑(b + 3) := congrArg Shape.pc shape
      have there : Inside mp (b + 3) (st.tryEnd b) q' :=
        ⟨g', rest, frames, method, by omega, by omega⟩
      rw [there.outside (.inl (by omega))]
      exact .inr (.inl ⟨rfl, .inr (.inl there)⟩)
  · by_cases ends : ∃ g rest, q.frames = g :: rest ∧ g.pc = ↑(st.tryEnd b)
    · -- `OP_PUSH` of the false flag
      obtain ⟨g, rest, frames, at_end⟩ := ends
      have there : Inside mp (st.tryEnd b) (st.tryEnd b) q := by
        obtain ⟨g', below, frames', method, _, _⟩ := inside
        rw [frames] at frames'
        cases frames'
        exact ⟨g, rest, frames, method, by omega, by omega⟩
      rcases round_at good ok at_push there passed with
        halted | ⟨g, g', rest, frames, method, moves⟩
      · exact .inl halted
      · rw [push] at moves
        have pc : g'.pc = ↑(st.tryEnd b + 3) := congrArg Shape.pc moves
        have next : Inside mp (st.tryEnd b + 3) (st.tryEnd b + 3) q' :=
          ⟨g', rest, frames, method, by omega, by omega⟩
        rw [next.outside (.inl (by omega))]
        exact .inr (.inl ⟨rfl, .inr (.inr next)⟩)
    · -- in the protected block
      have going : ∀ g rest, q.frames = g :: rest → g.pc ≠ ↑(b + 3 + st.size) :=
        fun g rest frames at_end => ends ⟨g, rest, frames, at_end⟩
      rcases inside_round good ok body inside going (round.body inside.within) passed with
        halted | next
      · exact .inl halted
      · rw [next.outside (.inl (by omega))]
        exact .inr (.inl ⟨rfl, .inr (.inl next)⟩)
  · -- `OP_JMP` to the `finally` block
    rcases round_at good ok at_jump flag passed with halted | ⟨g, g', rest, frames, method, moves⟩
    · exact .inl halted
    · rw [jump] at moves
      have pc : g'.pc = ↑(st.finallyPc b h) := congrArg Shape.pc moves
      have next : Inside mp (st.finallyPc b h) (st.finallyPc b h + f.size) q' :=
        ⟨g', rest, frames, method, by omega, by omega⟩
      rw [next.within, flag.outside (.inl (by omega))]
      exact .inr (.inr ⟨rfl, .inl next⟩)
  · by_cases ends : ∃ g rest, q.frames = g :: rest ∧ g.pc = ↑(st.finallyPc b h + f.size)
    · -- `OP_JMPNZ`
      obtain ⟨g, rest, frames, at_end⟩ := ends
      have there : Inside mp (st.finallyPc b h + f.size) (st.finallyPc b h + f.size) q := by
        obtain ⟨g', below, frames', method, _, _⟩ := inside
        rw [frames] at frames'
        cases frames'
        exact ⟨g, rest, frames, method, by omega, by omega⟩
      have next := round_flag ok at_test test there (round.flag g rest frames at_end) passed
      rw [next.outside (.inr (by omega))]
      exact .inr (.inr ⟨rfl, .inr next⟩)
    · -- in the `finally` block
      have going : ∀ g rest, q.frames = g :: rest → g.pc ≠ ↑(st.finallyPc b h + f.size) :=
        fun g rest frames at_end => ends ⟨g, rest, frames, at_end⟩
      rcases inside_round good ok final inside going (round.final inside.within) passed with
        halted | next
      · exact .inl halted
      · rw [inside.within]
        have same : (if within (st.finallyPc b h) (st.finallyPc b h + f.size) q' && !true
            then 1 + 1 else 1) = 1 := by simp
        rw [same]
        exact .inr (.inr ⟨rfl, .inl next⟩)
  · obtain ⟨g, rest, frames, _, low, high⟩ := ended
    exact absurd (by omega) (round.going g rest frames)

/-! ## Runs of a loaded program -/

/-- A run of `main` up to its first `try`, and on from there. -/
structure Trial extends Entry where
  body : Stmt
  v : Local
  locals : Nat
  h : Stmt
  f : Stmt
  count : Nat
  reached : Qinterp

def isTry : Stmt → Bool
  | .try _ _ _ _ _ => true
  | _ => false

/-- `main` of a loaded text: `n` rounds to the `try`, and `k` rounds that pass the test. -/
def trial (text : List Char) (n k : Nat)
    (going : Env → Nat → Stmt → Stmt → Stmt → Qinterp → Qinterp → Bool) : Option Trial :=
  (entry text isTry n).bind fun x =>
    match x.st with
    | .try body v locals h f =>
        let env := x.s.env plainHost
        (entries env (interp env 20) 20 (going env x.b body h f)
          (within (body.finallyPc x.b h) (body.finallyPc x.b h + f.size)) k x.q).map
            fun (count, reached) => ⟨x, body, v, locals, h, f, count, reached⟩
    | _ => none

/-- What a trial shows: `n` rounds from the start of `main` to the `try`, and `k` rounds
from there that meet the condition. -/
structure Trial.Real (ok : Qinterp → Qinterp → Prop) (n k : Nat) (x : Trial) : Prop where
  entry : x.toEntry.Real n
  st : x.st = .try x.body x.v x.locals x.h x.f
  entered : Inside x.mp x.b x.b x.q
  enters : Enters (x.s.env plainHost) (interp (x.s.env plainHost) 20) 20 ok
    (within (x.body.finallyPc x.b x.h) (x.body.finallyPc x.b x.h + x.f.size)) x.q k x.count
      x.reached

theorem trial_real {text : List Char} {n k : Nat}
    {going : Env → Nat → Stmt → Stmt → Stmt → Qinterp → Qinterp → Bool} {x : Trial}
    (ok : Env → Nat → Stmt → Stmt → Stmt → Qinterp → Qinterp → Prop)
    (met : ∀ env b s h f q q', going env b s h f q q' = true → ok env b s h f q q')
    (run : trial text n k going = some x) (start : within x.b x.b x.q = true) :
    x.Real (ok (x.s.env plainHost) x.b x.body x.h x.f) n k := by
  obtain ⟨y, entered, run⟩ := Option.bind_eq_some_iff.mp run
  split at run
  case h_2 => cases run
  case h_1 body v locals h f st =>
      obtain ⟨⟨count, reached⟩, after, rfl⟩ := Option.map_eq_some_iff.mp run
      have real := entry_real entered
      obtain ⟨g, frames, method, _⟩ := real.frame
      simp only [within, frames, List.head?_cons, Option.any_some, Bool.and_eq_true,
        decide_eq_true_eq] at start
      exact ⟨real, st, ⟨g, [], frames, method, start⟩,
        entries_enters (met _ _ _ _ _) after⟩

theorem Trial.Real.placed {ok : Qinterp → Qinterp → Prop} {n k : Nat} {x : Trial}
    (h : x.Real ok n k) : Placed (x.mp.body.spots x.mp.params) x.b
      ((Stmt.try x.body x.v x.locals x.h x.f).spots x.b x.c x.scope) :=
  h.st ▸ h.entry.placed

/-- An exception that is caught. -/
def caughtOnce : List Char :=
  ("class A \x7b public static main() \x7b var x = 0; try \x7b throw 1; \x7d " ++
    "catch (e) \x7b x = 1; \x7d finally \x7b x = 2; \x7d return x; \x7d \x7d").toList

/-- The `finally` block is entered a second time. -/
theorem finally_twice :
    ∃ x : Trial, x.Real (fun _ _ => True) 4 22 ∧ x.count = 2 := by
  have runs : (trial caughtOnce 4 22 fun _ _ _ _ _ _ _ => true).any (fun x =>
      within x.b x.b x.q && x.count == 2) = true := by
    rw [show caughtOnce = _ from toList_literals _ _]
    decide +kernel
  obtain ⟨x, played, holds⟩ := (Option.any_eq_true _ _).mp runs
  obtain ⟨start, twice⟩ := Bool.and_eq_true_iff.mp holds
  exact ⟨x, trial_real (fun _ _ _ _ _ _ _ => True) (fun _ _ _ _ _ _ _ _ => trivial) played start,
    by simpa using twice⟩

/-- A test of a round of a `try`. -/
def tryGoing (env : Env) (b : Nat) (s h f : Stmt) (q q' : Qinterp) : Bool :=
  calm q q' && q.frames.all fun g =>
    g.pc != ↑(s.finallyPc b h + f.size + 3) &&
      (g.pc != ↑(s.finallyPc b h + f.size) ||
        (q.act?).any fun a =>
          (((advance (.im .jmpnz ↑(s.catchPc b)) a).testTop env).map Prod.fst) == some (some 0))

theorem tryGoing_round {env : Env} {b : Nat} {s h f : Stmt} {q q' : Qinterp}
    (going : tryGoing env b s h f q q' = true) : TryRound env b s h f q q' := by
  obtain ⟨stays, goes⟩ := Bool.and_eq_true_iff.mp going
  refine ⟨?_, fun _ => calm_keepsIn stays _ _, fun _ => calm_keepsIn stays _ _, ?_⟩
  all_goals
    intro g rest frames
    have here := List.all_eq_true.mp goes g (by simp [frames])
    obtain ⟨away, flag⟩ := Bool.and_eq_true_iff.mp here
  · simpa using away
  · intro at_end
    rcases Bool.or_eq_true_iff.mp flag with no | tests
    · exact absurd at_end (by simpa using no)
    · obtain ⟨a, act, zero⟩ := (Option.any_eq_true _ _).mp tests
      obtain ⟨⟨i, a'⟩, tested, rfl⟩ := Option.map_eq_some_iff.mp (beq_iff_eq.mp zero)
      exact ⟨a, a', act, tested⟩

/-- Nothing is thrown. -/
def nothingThrown : List Char :=
  ("class A \x7b public static main() \x7b var x = 0; try \x7b x = 1; \x7d " ++
    "catch (e) \x7b x = 1; \x7d finally \x7b x = 2; \x7d return x; \x7d \x7d").toList

/-- The `finally` block ran, and control is behind the statement. -/
theorem finally_once_quiet :
    ∃ x : Trial, x.Real (TryRound (x.s.env plainHost) x.b x.body x.h x.f) 4 16 ∧ x.count = 1 ∧
      TryPhase x.mp x.b x.body x.h x.f x.count x.reached := by
  have runs : (trial nothingThrown 4 16 tryGoing).any (fun x =>
      within x.b x.b x.q && x.count == 1) = true := by
    rw [show nothingThrown = _ from toList_literals _ _]
    decide +kernel
  obtain ⟨x, played, holds⟩ := (Option.any_eq_true _ _).mp runs
  obtain ⟨start, once⟩ := Bool.and_eq_true_iff.mp holds
  have real := trial_real TryRound (fun _ _ _ _ _ _ _ => tryGoing_round) played start
  exact ⟨x, real, by simpa using once, finally_once real.entry.prepared real.entry.found
    real.placed real.entered real.enters⟩

end Jspp.Kernel
