/-
# Kernel.Structure -- statements as the wholes they were in the source

`parse.c` turns the statements of a method into instructions with jumps, and the
loop of `_interp` knows the instructions only.  `Stmt.meaning` is what a
statement does as a whole, put together from what its parts do: the parts of a
sequence one behind the other, a branch behind its test, the turns of a loop
until the test fails or something else leads out of it.  A part that ends
elsewhere, with an error, a return or a jump of its own, ends the whole there.

* `rounds`: the loop of `_interp`; `loop_iff`: it is that loop.
* `straight`: instructions that run straight on; `straight_realised`.
* `Stmt.meaning`: what a statement does, at the address it was compiled to.
* `Stmt.realised`: the compiled code of every statement does what it means.
-/
import Jspp.Kernel.Paths
import Jspp.Kernel.Straight
import Jspp.Theory.Passage

namespace Jspp.Kernel

open Jspp.Compiler Jspp.Theory

set_option autoImplicit false

instance : Line Instr Unit where
  size := Instr.size
  mark _ := ()
  size_pos := Instr.size_pos

theorem extent_eq (is : List Instr) : extent is = codeSize is := rfl

theorem placed_front {whole js : List Instr} {b : Nat} (is : List Instr)
    (h : Placed whole b (is ++ js)) : Placed whole b is :=
  h.append_left

/-- Some instructions with those directly behind them. -/
theorem placed_through {whole is ks : List Instr} {b : Nat} (js : List Instr)
    (h : Placed whole b (is ++ (js ++ ks))) : Placed whole b (is ++ js) := by
  rw [← List.append_assoc] at h
  exact h.append_left

namespace Qinterp

/-! ## The loop of `_interp` -/

/-- The loop of `_interp`, an instruction a round. -/
def rounds (env : Env) (run : Run) (fuel : Nat) : Loop Qinterp where
  more q := ∃ a, q.act? = some a ∧ Running a.frame
  round := pass env run fuel

/-- The frame on top is one of that method. -/
def Method (mp : JsMethod) (q : Qinterp) : Prop :=
  ∃ f rest, q.frames = f :: rest ∧ f.curmethod = some mp

/-- The next instruction is the one at that address. -/
def Here (k : Int) (q : Qinterp) : Prop := q.pc = some k ∧ q.err = some .none

instance (k : Int) (q : Qinterp) : Decidable (Here k q) :=
  inferInstanceAs (Decidable (q.pc = some k ∧ q.err = some .none))

section

variable {env : Env} {run : Run} {fuel : Nat} {mp : JsMethod} {q q' r : Qinterp}

theorem pass_method (good : RunWithin run) (method : Method mp q)
    (passed : pass env run fuel q = some q') : Method mp q' := by
  obtain ⟨f, rest, frames, at_mp⟩ := method
  obtain ⟨g, g', rest', _, at_q, at_q', _, _, same, _⟩ := pass_stepped good passed
  rw [frames] at at_q
  obtain ⟨rfl, rfl⟩ := List.cons.inj at_q
  exact ⟨g', _, at_q', same.curmethod.trans at_mp⟩

theorem rounds_keep (good : RunWithin run) (q q' : Qinterp) (method : Method mp q)
    (_ : (rounds env run fuel).more q) (passed : (rounds env run fuel).round q = some q') :
    Method mp q' :=
  pass_method good method passed

/-- The loop makes a round and goes on, or it has ended. -/
theorem endsIn_of_loop {base n : Nat} (ended : (loop env run fuel base n q).ending = .done r) :
    ∃ k, k ≤ n ∧ (rounds env run fuel).EndsIn k q r := by
  induction n generalizing q with
  | zero => cases ended
  | succ n ih =>
      cases act : q.act? with
      | none =>
          simp only [loop, act] at ended
          cases ended
      | some a =>
          by_cases running : Running a.frame
          · have inside : a.frame.pc < (codeOf a.frame).length ∧ a.frame.err = .none := running
            cases read : fetch (codeOf a.frame) a.frame.pc with
            | none =>
                simp only [loop, act, read, if_pos inside] at ended
                cases ended
            | some i =>
                simp only [loop, act, read, if_pos inside, Traced.ending_note] at ended
                obtain ⟨q₁, stepped, rest⟩ := Traced.ending_bind ended
                have passed : pass env run fuel q = some q₁ := by
                  simp only [pass, act, read, if_pos inside, Traced.result?, stepped]
                obtain ⟨k, less, ends⟩ := ih rest
                exact ⟨k + 1, by omega, .next ⟨a, act, running⟩ passed ends⟩
          · have halted : ¬(a.frame.pc < (codeOf a.frame).length ∧ a.frame.err = .none) := running
            simp only [loop, act, if_neg halted, Traced.ending_pure] at ended
            cases ended
            refine ⟨0, Nat.zero_le _, .done ?_⟩
            rintro ⟨b, act', running'⟩
            rw [act] at act'
            cases act'
            exact running running'

theorem loop_of_endsIn (good : RunWithin run) (base : Nat) (method : Method mp q) {k : Nat}
    (ends : (rounds env run fuel).EndsIn k q r) :
    (loop env run fuel base (k + 1) q).ending = .done r := by
  induction ends with
  | @done q finished =>
      obtain ⟨f, rest, frames, -⟩ := method
      have act := act?_of_frames frames
      have halted : ¬(f.pc < (codeOf f).length ∧ f.err = .none) := fun running =>
        finished ⟨_, act, running⟩
      rw [loop]
      simp only [act]
      rw [if_neg halted]
      rfl
  | next more passed _ ih =>
      rw [loop_pass base _ passed]
      exact ih (pass_method good method passed)

/-- The loop of `_interp` ends as its rounds do. -/
theorem loop_iff (good : RunWithin run) (base : Nat) (method : Method mp q) :
    (∃ n, (loop env run fuel base n q).ending = .done r) ↔ (rounds env run fuel).Ends q r := by
  rw [Loop.ends_iff_endsIn]
  constructor
  · rintro ⟨n, ended⟩
    obtain ⟨k, -, ends⟩ := endsIn_of_loop ended
    exact ⟨k, ends⟩
  · rintro ⟨k, ends⟩
    exact ⟨k + 1, loop_of_endsIn good base method ends⟩

/-! ## Instructions that run straight on -/

/-- The instructions one behind the other. -/
def straight (env : Env) (run : Run) (fuel : Nat) (is : List Instr) : Passage Qinterp := fun q q' =>
  ∃ next, (runCode env run fuel is q).ending = .done (q', next)

/-- In front of an instruction, the loop reads it. -/
theorem Here.read {whole : List Instr} (code : mp.code = cells whole) {b : Nat} {i : Instr}
    {is : List Instr} (placed : Placed whole b (i :: is)) (method : Method mp q)
    (here : Here b q) :
    ∃ a, q.act? = some a ∧ a.frame.pc = b ∧ a.frame.err = .none ∧ Running a.frame ∧
      fetch (codeOf a.frame) a.frame.pc = some i := by
  obtain ⟨f, rest, frames, at_mp⟩ := method
  obtain ⟨pc, err⟩ := here
  rw [Qinterp.pc, frames] at pc
  rw [Qinterp.err, frames] at err
  have pc := Option.some.inj pc
  have err := Option.some.inj err
  obtain ⟨pre, post, rfl, at_b⟩ := placed
  rw [extent_eq] at at_b
  have at_code : codeOf f = cells (pre ++ i :: (is ++ post)) := by
    rw [codeOf, at_mp]
    exact code
  refine ⟨_, act?_of_frames frames, pc, err, ⟨?_, err⟩, ?_⟩
  · rw [pc, at_code, ← at_b]
    exact Int.ofNat_lt.mpr (codeSize_lt _ _ _)
  · rw [at_code, pc, ← at_b]
    exact fetch_cells _ _ _

theorem pass_read {a : Act} {i : Instr} (act : q.act? = some a) (running : Running a.frame)
    (read : fetch (codeOf a.frame) a.frame.pc = some i) :
    pass env run fuel q = (step env run fuel i (advance i a) (q.put (advance i a))).result? := by
  have inside : a.frame.pc < (codeOf a.frame).length ∧ a.frame.err = .none := running
  simp only [pass, act, read, if_pos inside]

section

variable {whole : List Instr} (code : mp.code = cells whole) (good : RunWithin run)

include code good

theorem straight_reaches {is : List Instr} {b : Nat} (placed : Placed whole b is)
    (method : Method mp q) (here : Here b q) (ran : straight env run fuel is q q') :
    (rounds env run fuel).Reaches q q' := by
  obtain ⟨next, ran⟩ := ran
  induction is generalizing q b with
  | nil =>
      cases ran
      exact .start
  | cons i is ih =>
      obtain ⟨a, act, at_b, clean, running, read⟩ := here.read code placed method
      rw [runCode_cons act clean] at ran
      obtain ⟨q₁, stepped, rest⟩ := Traced.ending_bind ran
      have passed : pass env run fuel q = some q₁ := by
        simp only [pass_read act running read, Traced.result?, stepped]
      have first : (rounds env run fuel).Reaches q q₁ := .next .start ⟨a, act, running⟩ passed
      split at rest
      case isTrue next_pc =>
          by_cases clean₁ : q₁.err = some .none
          · have here₁ : Here ↑(b + i.size) q₁ := by
              refine ⟨?_, clean₁⟩
              rw [next_pc, at_b]
              simp
            exact first.trans (ih placed.tail (pass_method good method passed) here₁ rest)
          · rw [runCode_error clean₁] at rest
            cases rest
            exact first
      case isFalse =>
          cases rest
          exact first

theorem straight_passes {is : List Instr} {b n : Nat} (placed : Placed whole b is)
    (method : Method mp q) (here : Here b q) (ends : (rounds env run fuel).EndsIn n q r) :
    ∃ q' m, straight env run fuel is q q' ∧ m + min is.length 1 ≤ n ∧
      (rounds env run fuel).EndsIn m q' r := by
  induction is generalizing q b n with
  | nil => exact ⟨q, n, ⟨_, rfl⟩, by simp, ends⟩
  | cons i is ih =>
      obtain ⟨a, act, at_b, clean, running, read⟩ := here.read code placed method
      cases ends with
      | done finished => exact absurd ⟨a, act, running⟩ finished
      | @next n _ q₁ _ _ passed rest =>
          have stepped := result?_eq_some ((pass_read act running read).symm.trans passed)
          have unfolded : ∀ q' m,
              (∃ next, ((if q₁.pc = some (a.frame.pc + i.size) then runCode env run fuel is q₁
                else .pure (q₁, false)) : Traced Event (Qinterp × Bool)).ending =
                  .done (q', next)) → m ≤ n → (rounds env run fuel).EndsIn m q' r →
              ∃ q' m, straight env run fuel (i :: is) q q' ∧ m + min (i :: is).length 1 ≤ n + 1 ∧
                (rounds env run fuel).EndsIn m q' r := by
            rintro q' m ⟨next, ran⟩ less ends
            refine ⟨q', m, ⟨next, ?_⟩, by simp; omega, ends⟩
            rw [runCode_cons act clean, Traced.bind_done stepped]
            exact ran
          by_cases next_pc : q₁.pc = some (a.frame.pc + i.size)
          · by_cases clean₁ : q₁.err = some .none
            · have here₁ : Here ↑(b + i.size) q₁ := by
                refine ⟨?_, clean₁⟩
                rw [next_pc, at_b]
                simp
              obtain ⟨q', m, ⟨next, ran⟩, less, ends⟩ :=
                ih placed.tail (pass_method good method passed) here₁ rest
              exact unfolded q' m ⟨next, by rw [if_pos next_pc, ran]⟩ (by omega) ends
            · exact unfolded q₁ n ⟨false, by rw [if_pos next_pc, runCode_error clean₁]; rfl⟩
                (Nat.le_refl _) rest
          · exact unfolded q₁ n ⟨false, by rw [if_neg next_pc]; rfl⟩ (Nat.le_refl _) rest

/-- Where the method has the instructions, the loop runs them. -/
theorem straight_realised {is : List Instr} {b : Nat} (placed : Placed whole b is) :
    Realised (rounds env run fuel) (Method mp) (Here b) (min is.length 1)
      (straight env run fuel is) where
  reaches _ _ method here ran := straight_reaches code good placed method here ran
  passes _ _ _ method here ends := straight_passes code good placed method here ends

end
end

end Qinterp

open Qinterp

/-! ## What a statement does -/

section

variable (env : Env) (run : Run) (fuel : Nat)

/-- A loop: its test, a step where the test leads to `after`, and the same again where the
step comes back to the test; behind it the break target is taken back. -/
def loopMeaning (top after exit : Nat) (test : List Instr) (step : Passage Qinterp) :
    Passage Qinterp :=
  (((straight env run fuel (test ++ [.im .jmpz exit])).andThen (Here after) step).repeated
    (Here top)).andThen (Here exit) (straight env run fuel [.im .setbreak (-1)])

/-- The step of a `for` at the address behind its test: the body, and the post expression. -/
def forStep (eval after body size : Nat) (s : Passage Qinterp) : Option Expr → Passage Qinterp
  | none => s.andThen (Here ↑(body + size)) (straight env run fuel [.jmp none])
  | some e =>
      (straight env run fuel [.jmp (some ↑body)]).andThen (Here body)
        (s.andThen (Here ↑(body + size))
          ((straight env run fuel [.jmp (some ↑(after + 3))]).andThen (Here ↑(after + 3))
            (straight env run fuel (e.code ++ [.jmp (some ↑eval)]))))

/-- The body of a block. -/
def blockMeaning (b locals size : Nat) (s : Passage Qinterp) : Passage Qinterp :=
  (straight env run fuel [.im .enter locals]).andThen (Here ↑(b + 3))
    (s.andThen (Here ↑(b + 3 + size)) (straight env run fuel [.emit0 .leave]))

end

end Jspp.Kernel

namespace Jspp.Compiler

open Jspp.Kernel Jspp.Kernel.Qinterp Jspp.Theory

set_option autoImplicit false

section

variable (env : Env) (run : Run) (fuel : Nat)

mutual

/-- What a statement that is placed at `b` does. -/
def Stmt.meaning (b : Nat) : Stmt → Passage Qinterp
  | .skip | .decl _ => Eq
  | .seq s t => (s.meaning b).andThen (Here ↑(b + s.size)) (t.meaning (b + s.size))
  | .line n => straight env run fuel [.im .line n]
  | .expr e => straight env run fuel e.code
  | .ret e => straight env run fuel (e.code ++ [.emit0 .ret])
  | .vret => straight env run fuel [.emit0 .leave, .emit0 .vret]
  | .brk => straight env run fuel [.emit0 .break]
  | .cont => straight env run fuel [.emit0 .continue]
  | .throw e => straight env run fuel (e.code ++ [.emit0 .throw])
  | .block locals s => blockMeaning env run fuel b locals s.size (s.meaning (b + 3))
  | .ite c s t =>
      let body := b + c.size + 3
      let other := body + s.size + 3
      ((straight env run fuel (c.code ++ [.im .jmpz other])).andThen (Here body)
        ((s.meaning body).andThen (Here ↑(body + s.size))
          (straight env run fuel [.jmp (some ↑(other + t.size))]))).andThen (Here other)
            (t.meaning other)
  | .while c s =>
      let top := b + 3
      let body := top + c.size + 3
      let exit := body + s.size + 3
      (straight env run fuel [.im .setbreak exit]).andThen (Here top)
        (loopMeaning env run fuel top body exit c.code
          ((s.meaning body).andThen (Here ↑(body + s.size))
            (straight env run fuel [.jmp (some ↑top)])))
  | .for cond post s =>
      let eval := b + 3
      let after := eval + codeSize (optCode cond) + 3
      let body := after + postSize post
      let exit := body + s.size + 3
      (straight env run fuel [.im .setbreak exit]).andThen (Here eval)
        (loopMeaning env run fuel eval after exit (optCode cond)
          (forStep env run fuel eval after body s.size (s.meaning body) post))
  | .switch e locals cases =>
      let first := b + e.size + 3 + 3
      let closing := first + cases.size
      let default := cases.defaultPc first (-1)
      (straight env run fuel (e.code ++ [.im .setbreak ↑(closing + 4), .im .enter locals])).andThen
        (Here first) ((cases.meaning first).andThen (Here closing)
          (((straight env run fuel [.jmp (some default)]).andThen (Here default)
            (cases.fromDefault first Eq)).repeated (Here closing)))
  | .try s v locals handler fin =>
      let after := b + 3 + s.size
      let catchpc := after + 6
      let startcatch := catchpc + 11
      let finpc := startcatch + (3 + handler.size + 1)
      let ending : Passage Qinterp := (fin.meaning finpc).andThen (Here ↑(finpc + fin.size))
        (straight env run fuel [.im .jmpnz startcatch])
      (((straight env run fuel [.im .try catchpc]).andThen (Here ↑(b + 3))
        ((s.meaning (b + 3)).andThen (Here after)
          (straight env run fuel [.im .push 0, .jmp (some ↑finpc)]))).andThen (Here catchpc)
            (straight env run fuel [.emit1 .lvalue .block (some v.offset), .emit0 .rot,
              .emit0 .assign, .im .push 1, .jmp (some ↑finpc)])).andThen (Here finpc)
                (ending.andThen (Here startcatch)
                  (((blockMeaning env run fuel startcatch locals handler.size
                    (handler.meaning (startcatch + 3))).andThen (Here finpc) ending).repeated
                      (Here startcatch)))

/-- The clauses of a `switch`, tested in their order; one whose body comes to its end goes on
with the test of the next. -/
def Cases.meaning (b : Nat) : Cases → Passage Qinterp
  | .nil => Eq
  | .case v s rest =>
      let body := b + 1 + v.size + 4
      ((straight env run fuel (.emit0 .dup ::
        (v.code ++ [.emit0 .eq, .im .jmpz ↑(body + s.size)]))).andThen (Here body)
          (s.meaning body)).andThen (Here ↑(body + s.size)) (rest.meaning (body + s.size))
  | .default s rest =>
      let body := b + 3
      (straight env run fuel [.jmp (some ↑(body + s.size))]).andThen (Here ↑(body + s.size))
        (rest.meaning (body + s.size))

/-- The body of the last `default` and the clauses behind it. -/
def Cases.fromDefault (b : Nat) (found : Passage Qinterp) : Cases → Passage Qinterp
  | .nil => found
  | .case v s rest => rest.fromDefault (b + 1 + v.size + 4 + s.size) found
  | .default s rest =>
      rest.fromDefault (b + 3 + s.size)
        ((s.meaning (b + 3)).andThen (Here ↑(b + 3 + s.size)) (rest.meaning (b + 3 + s.size)))

end

end

end Jspp.Compiler

namespace Jspp.Kernel

open Jspp.Compiler Jspp.Theory Qinterp

set_option autoImplicit false

/-! ## The compiled code does what the statement means -/

section

variable {env : Env} {run : Run} {fuel : Nat} {mp : JsMethod} {whole : List Instr}
  (code : mp.code = cells whole) (good : RunWithin run)

include code good

theorem straight_one {is : List Instr} {b : Nat} (placed : Placed whole b is) (ne : is ≠ []) :
    Realised (rounds env run fuel) (Method mp) (Here b) (0 + 1) (straight env run fuel is) := by
  have some : 0 < is.length := List.length_pos_iff.mpr ne
  exact (straight_realised code good placed).weaken (by omega)

theorem straight_any {is : List Instr} {b : Nat} (placed : Placed whole b is) :
    Realised (rounds env run fuel) (Method mp) (Here b) 0 (straight env run fuel is) :=
  (straight_realised code good placed).weaken (Nat.zero_le _)

/-- One instruction. -/
theorem straight_head {i : Instr} {is : List Instr} {b : Nat} (placed : Placed whole b (i :: is)) :
    Realised (rounds env run fuel) (Method mp) (Here b) (0 + 1) (straight env run fuel [i]) :=
  straight_one code good placed.head (List.cons_ne_nil _ _)

theorem loop_realised {top after exit : Nat} {test rest : List Instr} {step : Passage Qinterp}
    (placed : Placed whole top (test ++ .im .jmpz exit :: rest))
    (closing : Placed whole exit [.im .setbreak (-1)])
    (stepped : Realised (rounds env run fuel) (Method mp) (Here after) 0 step) :
    Realised (rounds env run fuel) (Method mp) (Here top) (0 + 1)
      (loopMeaning env run fuel top after exit test step) := by
  have turn := (straight_one code good (placed_through [_] placed) (by simp)).andThen
    (rounds_keep good) stepped
  exact (turn.repeated (rounds_keep good)).andThen (rounds_keep good)
    (straight_head code good closing)

theorem block_realised {b locals : Nat} {is rest : List Instr} {size : Nat} {s : Passage Qinterp}
    (placed : Placed whole b (.im .enter locals :: (is ++ .emit0 .leave :: rest)))
    (at_size : size = codeSize is)
    (inner : Realised (rounds env run fuel) (Method mp) (Here ↑(b + 3)) 0 s) :
    Realised (rounds env run fuel) (Method mp) (Here b) (0 + 1)
      (blockMeaning env run fuel b locals size s) := by
  subst at_size
  have leaving := placed.tail.append_right
  exact (straight_head code good placed).andThen (rounds_keep good)
    (inner.andThen (rounds_keep good) (straight_head code good leaving))

theorem step_realised {eval after body size : Nat} {is : List Instr} {s : Passage Qinterp}
    {post : Option Expr} (placed : Placed whole after (postCode eval after post ++
      (is ++ [.jmp (postPc after post), .im .setbreak (-1)])))
    (at_body : body = after + postSize post) (at_size : size = codeSize is)
    (inner : Realised (rounds env run fuel) (Method mp) (Here body) 0 s) :
    Realised (rounds env run fuel) (Method mp) (Here after) 0
      (forStep env run fuel eval after body size s post) := by
  subst at_size
  cases post with
  | none =>
      have back : Placed whole (body + codeSize is) (.jmp none :: [.im .setbreak (-1)]) :=
        placed.append_right.append_right.move (by rw [at_body]; rfl)
      have first : Realised (rounds env run fuel) (Method mp) (Here after) 0 s := by
        have same : body = after := by simpa [postSize] using at_body
        rw [← same]
        exact inner
      exact first.andThen (rounds_keep good) (straight_head code good back)
  | some e =>
      have behind : Placed whole body (is ++ [.jmp (some ↑(after + 3)), .im .setbreak (-1)]) :=
        placed.append_right.move (by rw [extent_eq, codeSize_postCode, at_body])
      have inside : Placed whole (after + 3) (e.code ++ [.jmp (some ↑eval)]) :=
        placed.append_left.tail
      have jump : Placed whole after [.jmp (some ↑body)] := by
        have first := placed.append_left.head
        rwa [show after + 3 + e.size + 3 = body by rw [at_body, postSize]; omega] at first
      exact ((straight_head code good jump).andThen (rounds_keep good)
        (inner.andThen (rounds_keep good)
          ((straight_head code good behind.append_right).andThen (rounds_keep good)
            (straight_any code good inside)))).weaken (Nat.zero_le _)

end

section

variable {env : Env} {run : Run} {fuel : Nat} {mp : JsMethod} {whole : List Instr}

mutual

/-- The code of a statement does what the statement means. -/
theorem Stmt.realised (code : mp.code = cells whole) (good : RunWithin run) (b : Nat) (s : Stmt)
    (placed : Placed whole b (s.code b)) :
    Realised (rounds env run fuel) (Method mp) (Here b) 0 (s.meaning env run fuel b) := by
  cases s with
  | skip | decl _ =>
      rw [Stmt.meaning]
      exact .nothing
  | seq s t =>
      rw [Stmt.code] at placed
      rw [Stmt.meaning]
      have behind : Placed whole (b + s.size) (t.code (b + s.size)) :=
        placed.append_right.move (by rw [extent_eq, Stmt.codeSize_code])
      exact (Stmt.realised code good b s placed.append_left).andThen (rounds_keep good)
        (Stmt.realised code good (b + s.size) t behind)
  | line n | vret | brk | cont =>
      rw [Stmt.code] at placed
      rw [Stmt.meaning]
      exact straight_any code good placed
  | expr e | ret e | throw e =>
      rw [Stmt.code] at placed
      rw [Stmt.meaning]
      exact straight_any code good placed
  | block locals s =>
      rw [Stmt.code] at placed
      rw [Stmt.meaning]
      have inner := Stmt.realised code good (b + 3) s placed.tail.append_left
      exact (block_realised code good placed (Stmt.codeSize_code _ _).symm inner).weaken
        (Nat.zero_le _)
  | ite c s t =>
      rw [Stmt.code] at placed
      rw [Stmt.meaning]
      have behind := placed.append_right
      have inner : Placed whole (b + c.size + 3) _ := behind.tail
      have closing : Placed whole (b + c.size + 3 + s.size) _ :=
        inner.append_right.move (by rw [extent_eq, Stmt.codeSize_code])
      exact ((straight_any code good (placed_through [_] placed)).andThen (rounds_keep good)
        ((Stmt.realised code good (b + c.size + 3) s inner.append_left).andThen (rounds_keep good)
          (straight_head code good closing))).andThen (rounds_keep good)
            (Stmt.realised code good _ t closing.tail)
  | «while» c s =>
      rw [Stmt.code] at placed
      rw [Stmt.meaning]
      have top : Placed whole (b + 3) _ := placed.tail
      have inner : Placed whole (b + 3 + c.size + 3) _ := top.append_right.tail
      have back : Placed whole (b + 3 + c.size + 3 + s.size) _ :=
        inner.append_right.move (by rw [extent_eq, Stmt.codeSize_code])
      exact ((straight_head code good placed).andThen (rounds_keep good)
        (loop_realised code good top back.tail
          ((Stmt.realised code good _ s inner.append_left).andThen (rounds_keep good)
            (straight_head code good back)))).weaken (Nat.zero_le _)
  | «for» cond post s =>
      rw [Stmt.code] at placed
      rw [Stmt.meaning]
      have top : Placed whole (b + 3) _ := placed.tail
      have after : Placed whole (b + 3 + codeSize (optCode cond) + 3) _ := top.append_right.tail
      have inner : Placed whole (b + 3 + codeSize (optCode cond) + 3 + postSize post) _ :=
        after.append_right.move (by rw [extent_eq, codeSize_postCode])
      have closing : Placed whole _ [.im .setbreak (-1)] := inner.append_right.tail
      refine ((straight_head code good placed).andThen (rounds_keep good)
        (loop_realised code good top (closing.move ?_)
          (step_realised code good after rfl (Stmt.codeSize_code _ _).symm
            (Stmt.realised code good _ s inner.append_left)))).weaken (Nat.zero_le _)
      rw [extent_eq, Stmt.codeSize_code]
      rfl
  | switch e locals cases =>
      rw [Stmt.code] at placed
      rw [Stmt.meaning]
      have first : Placed whole (b + e.size + 3 + 3) _ := placed.append_right.tail.tail
      have closing : Placed whole (b + e.size + 3 + 3 + cases.size) _ :=
        first.append_right.move (by rw [extent_eq, Cases.codeSize_code])
      have turn := (straight_head code good closing).andThen (rounds_keep good)
        (Cases.fromDefault_realised code good _ cases (-1) first.append_left .nothing)
      exact (straight_any code good (placed_through [_, _] placed)).andThen (rounds_keep good)
        ((Cases.realised code good _ cases first.append_left).andThen (rounds_keep good)
          (turn.repeated (rounds_keep good)))
  | «try» s v locals handler fin =>
      rw [Stmt.code] at placed
      rw [Stmt.meaning]
      have inner : Placed whole (b + 3) _ := placed.tail
      have after : Placed whole (b + 3 + s.size) _ :=
        inner.append_right.move (by rw [extent_eq, Stmt.codeSize_code])
      have caught : Placed whole (b + 3 + s.size + 6) _ := after.tail.tail
      have start : Placed whole (b + 3 + s.size + 6 + 11) _ := caught.tail.tail.tail.tail.tail
      have handling : Placed whole (b + 3 + s.size + 6 + 11 + 3) _ := start.tail
      have leaving : Placed whole (b + 3 + s.size + 6 + 11 + 3 + handler.size) _ :=
        handling.append_right.move (by rw [extent_eq, Stmt.codeSize_code])
      have ending : Placed whole (b + 3 + s.size + 6 + 11 + (3 + handler.size + 1)) _ :=
        leaving.tail.move (show _ + 1 = _ by omega)
      have test : Placed whole (b + 3 + s.size + 6 + 11 + (3 + handler.size + 1) + fin.size) _ :=
        ending.append_right.move (by rw [extent_eq, Stmt.codeSize_code])
      have finish := (Stmt.realised code good _ fin ending.append_left).andThen (rounds_keep good)
        (straight_head code good test)
      have normal := (straight_head code good placed).andThen (rounds_keep good)
        ((Stmt.realised code good _ s inner.append_left).andThen (rounds_keep good)
          (straight_any code good (placed_front [_, _] after)))
      have thrown : Realised (rounds env run fuel) (Method mp) _ 0 _ :=
        straight_any code good (placed_front [_, _, _, _, _] caught)
      have handled := block_realised code good start (Stmt.codeSize_code _ _).symm
        (Stmt.realised code good _ handler handling.append_left)
      exact ((normal.andThen (rounds_keep good) thrown).andThen (rounds_keep good)
        (finish.andThen (rounds_keep good)
          ((handled.andThen (rounds_keep good) finish).repeated (rounds_keep good)))).weaken
            (Nat.zero_le _)

/-- The code of the clauses of a `switch`. -/
theorem Cases.realised (code : mp.code = cells whole) (good : RunWithin run) (b : Nat)
    (cs : Cases) (placed : Placed whole b (cs.code b)) :
    Realised (rounds env run fuel) (Method mp) (Here b) 0 (cs.meaning env run fuel b) := by
  cases cs with
  | nil =>
      rw [Cases.meaning]
      exact .nothing
  | case v s rest =>
      rw [Cases.code] at placed
      rw [Cases.meaning]
      have test : Placed whole b (.emit0 .dup :: (v.code ++ [.emit0 .eq,
          .im .jmpz ↑(b + 1 + v.size + 4 + s.size)])) :=
        placed_through [_, _] (show Placed whole b ((.emit0 .dup :: v.code) ++ ([_, _] ++ _)) from
          placed)
      have inner : Placed whole (b + 1 + v.size + 4) _ := placed.tail.append_right.tail.tail
      have behind : Placed whole (b + 1 + v.size + 4 + s.size) _ :=
        inner.append_right.move (by rw [extent_eq, Stmt.codeSize_code])
      exact ((straight_any code good test).andThen (rounds_keep good)
        (Stmt.realised code good _ s inner.append_left)).andThen (rounds_keep good)
          (Cases.realised code good _ rest behind)
  | default s rest =>
      rw [Cases.code] at placed
      rw [Cases.meaning]
      have behind : Placed whole (b + 3 + s.size) _ :=
        placed.tail.append_right.move (by rw [extent_eq, Stmt.codeSize_code]; rfl)
      exact ((straight_head code good placed).andThen (rounds_keep good)
        (Cases.realised code good _ rest behind)).weaken (Nat.zero_le _)

theorem Cases.fromDefault_realised (code : mp.code = cells whole) (good : RunWithin run)
    (b : Nat) (cs : Cases) (pc : Int) {found : Passage Qinterp} (placed : Placed whole b (cs.code b))
    (before : Realised (rounds env run fuel) (Method mp) (Here pc) 0 found) :
    Realised (rounds env run fuel) (Method mp) (Here (cs.defaultPc b pc)) 0
      (cs.fromDefault env run fuel b found) := by
  cases cs with
  | nil =>
      rw [Cases.fromDefault, Cases.defaultPc]
      exact before
  | case v s rest =>
      rw [Cases.code] at placed
      rw [Cases.fromDefault, Cases.defaultPc]
      have inner : Placed whole (b + 1 + v.size + 4) _ := placed.tail.append_right.tail.tail
      have behind : Placed whole (b + 1 + v.size + 4 + s.size) _ :=
        inner.append_right.move (by rw [extent_eq, Stmt.codeSize_code])
      exact Cases.fromDefault_realised code good _ rest pc behind before
  | default s rest =>
      rw [Cases.code] at placed
      rw [Cases.fromDefault, Cases.defaultPc]
      have inner : Placed whole (b + 3) _ := placed.tail
      have behind : Placed whole (b + 3 + s.size) _ :=
        inner.append_right.move (by rw [extent_eq, Stmt.codeSize_code])
      exact Cases.fromDefault_realised code good _ rest _ behind
        ((Stmt.realised code good _ s inner.append_left).andThen (rounds_keep good)
          (Cases.realised code good _ rest behind))

end

end

/-- In front of a statement, `_interp` ends as it does behind what the statement does. -/
theorem statement_structured {env : Env} {run : Run} {fuel : Nat} {mp : JsMethod}
    {whole : List Instr} {b : Nat} {s : Stmt} {q : Qinterp} (code : mp.code = cells whole)
    (good : RunWithin run) (placed : Placed whole b (s.code b)) (method : Method mp q)
    (here : Here b q) (base : Nat) (r : Qinterp) :
    (∃ n, (loop env run fuel base n q).ending = .done r) ↔
      ∃ t, s.meaning env run fuel b q t ∧ ∃ n, (loop env run fuel base n t).ending = .done r := by
  have realised : Realised (rounds env run fuel) (Method mp) (Here b) 0 _ :=
    Stmt.realised code good b s placed
  rw [loop_iff good base method, realised.ends_iff method here]
  constructor
  · rintro ⟨t, meant, ends⟩
    have method' := (realised.reaches q t method here meant).invariant method (rounds_keep good)
    exact ⟨t, meant, (loop_iff good base method').mpr ends⟩
  · rintro ⟨t, meant, ended⟩
    have method' := (realised.reaches q t method here meant).invariant method (rounds_keep good)
    exact ⟨t, meant, (loop_iff good base method').mp ended⟩

/-! ## A method of a text -/

deriving instance DecidableEq for Expr, Args
deriving instance DecidableEq for Stmt, Cases
deriving instance DecidableEq for Body

/-- Greatest common divisors. -/
def gcdText : List Char :=
  ("class A \x7b public static gcd(a, b) \x7b var t; if (a < 0) \x7b a = 0 - a; \x7d if (b < 0) \x7b" ++
    " b = 0 - b; \x7d while (b > 0) \x7b t = a % b; a = b; b = t; \x7d return a; \x7d \x7d").toList

/-- `if( a < 0 ) { a = 0 - a; }`, of a parameter. -/
def gcdAbs (k : Nat) : Stmt :=
  .ite (.binary .lt (.lvalue .block k) (.push .im 0))
    (.block 0 (.seq (.seq .skip
      (.expr (.assign (.lvalue .block k) (.binary .sub (.push .im 0) (.lvalue .block k))))) .skip))
    .skip

/-- The statements of its loop. -/
def gcdTurn : Stmt :=
  .seq (.seq (.seq (.seq (.seq (.seq .skip
    (.expr (.assign (.lvalue .block 2) (.binary .mod (.lvalue .block 0) (.lvalue .block 1)))))
    .skip) (.expr (.assign (.lvalue .block 0) (.lvalue .block 1)))) .skip)
    (.expr (.assign (.lvalue .block 1) (.lvalue .block 2)))) .skip

def gcdBody : Stmt :=
  .seq (.seq (.seq (.seq (.seq (.seq (.seq .skip (.seq .skip (.seq (.decl ⟨['t'], 2⟩) .skip)))
    .skip) (gcdAbs 0)) (gcdAbs 1))
    (.while (.binary .gt (.lvalue .block 1) (.push .im 0)) (.block 0 gcdTurn)))
    (.ret (.lvalue .block 0))) .skip

/-- What becomes of the text. -/
theorem gcd_loaded : ∃ s mp, loaded gcdText = some s ∧
    (s.env plainHost).qinterpFindClass ['A'] = some 1 ∧
    (s.env plainHost).findMethod 1 (buildMethodSig "gcd".toList true ++ List.replicate 2 'v') =
      some mp ∧
    mp.isnative = false ∧ mp.hasretval = true ∧ mp.body = .method 3 gcdBody ∧
    mp.args.length = 2 := by
  have runs : ((loaded gcdText).bind fun s =>
      ((s.env plainHost).findMethod 1 (buildMethodSig "gcd".toList true ++
        List.replicate 2 'v')).map fun mp =>
          ((s.env plainHost).qinterpFindClass ['A'] == some 1 && !mp.isnative && mp.hasretval &&
            decide (mp.body = .method 3 gcdBody)) && mp.args.length == 2) = some true := by
    rw [show gcdText = _ from toList_literals _ _]
    decide +kernel
  obtain ⟨s, load, holds⟩ := Option.bind_eq_some_iff.mp runs
  obtain ⟨mp, found, holds⟩ := Option.map_eq_some_iff.mp holds
  simp only [Bool.and_eq_true, beq_iff_eq, Bool.not_eq_true', decide_eq_true_eq] at holds
  obtain ⟨⟨⟨⟨cls, native⟩, returns⟩, body⟩, count⟩ := holds
  exact ⟨s, mp, load, cls, found, native, returns, body, count⟩

/-- The loop in front of its body. -/
theorem gcd_structured : ∃ s mp, loaded gcdText = some s ∧ mp.body = .method 3 gcdBody ∧
    ∀ n r, (∃ k, (loop (s.env plainHost) (interp (s.env plainHost) n) n 0 k
      (startOf mp s.q)).ending = .done r) ↔
        ∃ t, (Stmt.block 3 gcdBody).meaning (s.env plainHost) (interp (s.env plainHost) n) n 0
          (startOf mp s.q) t ∧
            ∃ k, (loop (s.env plainHost) (interp (s.env plainHost) n) n 0 k t).ending =
              .done r := by
  obtain ⟨s, mp, load, cls, found, native, returns, body, count⟩ := gcd_loaded
  obtain ⟨_, _, _, ok⟩ := findMethod_compiled
    ((loaded_prepared load).classes compiled_logic.invariant) found
  refine ⟨s, mp, load, body, fun n r => ?_⟩
  refine statement_structured ok.code (interp_within _ n) (b := 0) ?_ ⟨_, _, rfl, rfl⟩
    ⟨rfl, rfl⟩ 0 r
  rw [body]
  exact .self _

end Jspp.Kernel
