/-
# Kernel.Answers -- calls of methods over integers

A method over integers is a command on its arguments, and a call of it does what
the command says: it ends exactly when the command ends, gives back the value the
command answers with, takes the arguments from the operand stack and leaves every
frame but its own as it was.

The calls in the method are taken to answer what the command says they do; a later
module shows it of methods that call each other.

* `statement_simulated`: a statement somewhere in the method.
* `activation_answers`: the method itself.
* `callMethod_answers`, `qinterpRun_answers`: a call of it, and a run of a program.
-/
import Jspp.Kernel.Fuel
import Jspp.Kernel.Integers

namespace Jspp.Kernel

open Jspp.Compiler Jspp.Theory Qinterp

set_option autoImplicit false

/-! ## Statements in the loop of `_interp` -/

section

variable {env : Env} {run : Run} {fuel : Nat} {mp : JsMethod} {whole : List Instr} {c : Setting}
  {σ : Valuation} {b : Nat} {s : Stmt} {q r : Qinterp} {calls : Callees}
  (right : Right env run c.start.ctx calls)

include right

/-- Where the command ends, the loop comes to a state that shows how. -/
theorem reaches_shown (code : mp.code = cells whole) (good : RunWithin run)
    (placed : Placed whole b (s.code b)) (method : Method mp q) (here : Here b q)
    (stands : Stands c σ q) {o : Com.Result Valuation (Option Value)} (ran : (s.com calls).Runs σ o)
    (fine : o ≠ .stuck) :
    ∃ t, Shows (Stands c) (Answered c) (Here ↑(b + s.size)) t o ∧
      (rounds env run fuel).Reaches q t := by
  obtain ⟨t, meant, shown⟩ := (Stmt.carried right b s).forward σ q o stands here ran fine
  exact ⟨t, shown, (Stmt.realised code good b s placed).reaches q t method here meant⟩

/-- A loop that ends has come through the command. -/
theorem runs_of_ends (code : mp.code = cells whole) (good : RunWithin run)
    (placed : Placed whole b (s.code b)) (method : Method mp q) (here : Here b q)
    (stands : Stands c σ q) (ends : (rounds env run fuel).Ends q r) :
    ∃ o, (s.com calls).Runs σ o := by
  obtain ⟨t, meant, _⟩ := ((Stmt.realised code good b s placed).ends_iff method here).mp ends
  obtain ⟨o, ran, _⟩ := (Stmt.carried right b s).backward σ q t stands here meant
  exact ⟨o, ran⟩

/-- The loop, in front of a statement over integers, goes on behind it with what the command of
the statement ends with, and does not end where the command does not. -/
theorem statement_simulated (code : mp.code = cells whole) (good : RunWithin run)
    (placed : Placed whole b (s.code b)) (method : Method mp q) (here : Here b q)
    (stands : Stands c σ q) (base : Nat) :
    (∀ o, (s.com calls).Runs σ o → o ≠ .stuck →
      ∃ t, Shows (Stands c) (Answered c) (Here ↑(b + s.size)) t o ∧
        ∀ r, (∃ n, (loop env run fuel base n q).ending = .done r) ↔
          ∃ n, (loop env run fuel base n t).ending = .done r) ∧
    ∀ n r, (loop env run fuel base n q).ending = .done r → ∃ o, (s.com calls).Runs σ o := by
  constructor
  · intro o ran fine
    obtain ⟨t, shown, reached⟩ : ∃ t, _ ∧ (rounds env run fuel).Reaches q t :=
      reaches_shown right code good placed method here stands ran fine
    refine ⟨t, shown, fun r => ?_⟩
    rw [loop_iff good base method, loop_iff good base (reached.invariant method (rounds_keep good))]
    exact ⟨fun ends => ends.from reached, fun ends => ⟨reached.trans ends.1, ends.2⟩⟩
  · intro n r ended
    exact runs_of_ends right code good placed method here stands
      ((loop_iff good base method).mp ⟨n, ended⟩)

end

/-! ## The method itself -/

/-- The value a frame returns when its command has ended so. -/
def returned (before : Variant) : Com.Result Valuation (Option Value) → Variant
  | .answered (some v) => v.variant
  | _ => before

/-- The interpreter behind the loop, in the frame it began with. -/
structure Settled (c : Setting) (v : Variant) (q : Qinterp) : Prop where
  stack : q.stack = c.stack
  others : SameElse c.depth c.store q.store
  frame : ∃ f, q.frames = f :: c.rest ∧ f.err = .none ∧ f.ctx = c.start.ctx ∧
    f.curmethod = c.start.curmethod ∧ f.stackcount = c.start.stackcount ∧ f.retval = v ∧
    (counts f.blockframes).sum ≤ f.locals

section

variable {env : Env} {run : Run} {fuel : Nat} {mp : JsMethod} {c : Setting}
  {vars : List (Option Value)} {locals : Nat} {s : Stmt}

/-- The epilogue takes back the mark of a `return`. -/
theorem epilogue_calm {pos : Nat} {a : Act} (fits : a.stack.length ≤ pos)
    (calm : a.frame.err = .none ∨ a.frame.err = .ret) : epilogue pos a = a.raise .none := by
  obtain ⟨f, depth, stack, st, linenum⟩ := a
  have all : popTo pos stack = stack := by
    rw [popTo, Nat.sub_eq_zero_of_le fits, List.drop_zero]
  rcases calm with calm | calm
  · obtain ⟨_, _, _, _, err, _, _, _⟩ := f
    cases calm
    simp [epilogue, Act.raise, all]
  · have calm : f.err = .ret := calm
    simp [epilogue, Act.raise, calm, all]

theorem activation_done {n : Nat} {q t : Qinterp} {a a' : Act} (act : q.act? = some a)
    (ended : (loop env run n a.stack.length n (q.put (a.goto 0))).ending = .done t)
    (act' : t.act? = some a') : (activation env run n q).ending =
      .done (t.put (epilogue (stackpos a.frame a.stack.length) a'),
        (epilogue (stackpos a.frame a.stack.length) a').frame.err) := by
  rw [activation]
  simp only [act]
  rw [Traced.bind_done ended]
  simp only [act', Traced.ending_pure]

/-- A state at the end of the method's code, or behind a `return`, with what it shows. -/
theorem shown_over {t : Qinterp} {n : Nat} {o : Com.Result Valuation (Option Value)}
    (at_mp : c.start.curmethod = some mp) (long : mp.code.length = n)
    (shown : Shows (Stands c) (Answered c) (Here n) t o) :
    ¬ (rounds env run fuel).more t ∧ ∃ f', t.frames = f' :: c.rest ∧ t.stack = c.stack ∧
      (f'.err = .none ∨ f'.err = .ret) ∧ f'.ctx = c.start.ctx ∧
      f'.curmethod = c.start.curmethod ∧ f'.stackcount = c.start.stackcount ∧
      f'.retval = returned c.start.retval o ∧ (counts f'.blockframes).sum ≤ f'.locals ∧
      SameElse c.depth c.store t.store := by
  cases o with
  | going s' =>
      obtain ⟨⟨f', frames, stack, alike⟩, pc, err⟩ := shown
      rw [Qinterp.pc, frames] at pc
      rw [Qinterp.err, frames] at err
      refine ⟨?_, f', frames, stack, .inl (Option.some.inj err), alike.same.ctx,
        alike.same.curmethod, alike.same.stackcount, alike.same.retval, alike.room,
        alike.others⟩
      rintro ⟨a, act, inside, _⟩
      cases (act?_of_frames frames).symm.trans act
      have at_end : f'.pc = n := Option.some.inj pc
      have method : f'.curmethod = some mp := alike.same.curmethod.trans at_mp
      simp only [codeOf, method, Option.map_some, Option.getD_some, long, at_end] at inside
      omega
  | answered v =>
      obtain ⟨f', frames, stack, err, ⟨f, same, ctx, method, count, retval⟩, room, others⟩ := shown
      refine ⟨?_, f', frames, stack, .inr err, ctx.trans same.ctx, method.trans same.curmethod,
        count.trans same.stackcount, ?_, room, others⟩
      · rintro ⟨a, act, _, calm⟩
        cases (act?_of_frames frames).symm.trans act
        cases err.symm.trans calm
      · rw [retval]
        cases v with
        | none => exact same.retval
        | some v => rfl
  | stuck => exact shown.elim

/-- A loop that ends in such a state ends the activation. -/
theorem activation_settles {st : Store} {linenum : Int} {n : Nat} {t : Qinterp} {f' : StackFrame}
    {v : Variant} (ended : (loop env run n c.stack.length n
      (site c.start c.rest st linenum c.stack 0)).ending = .done t)
    (frames : t.frames = f' :: c.rest) (stack : t.stack = c.stack)
    (calm : f'.err = .none ∨ f'.err = .ret) (ctx : f'.ctx = c.start.ctx)
    (method : f'.curmethod = c.start.curmethod) (count : f'.stackcount = c.start.stackcount)
    (retval : f'.retval = v) (room : (counts f'.blockframes).sum ≤ f'.locals)
    (others : SameElse c.depth c.store t.store) (pc : Int) :
    ∃ q', (activation env run n (site c.start c.rest st linenum c.stack pc)).ending =
      .done (q', .none) ∧ Settled c v q' := by
  obtain ⟨frames', stack', st', linenum'⟩ := t
  cases frames
  cases stack
  have fits : c.stack.length ≤ stackpos { c.start with pc := pc } c.stack.length := by
    rw [stackpos]
    omega
  have closed := activation_done (q := site c.start c.rest st linenum c.stack pc)
    (a := siteAct c.start c.depth st linenum c.stack pc)
    (t := ⟨f' :: c.rest, c.stack, st', linenum'⟩) rfl ended rfl
  rw [epilogue_calm fits calm] at closed
  exact ⟨_, closed, rfl, others, _, rfl, rfl, ctx, method, count, retval, room⟩

theorem limit_within (env : Env) : RunWithin (limit env) := by
  intro q x ended
  obtain ⟨n, ended⟩ := limit_iff.mp ended
  exact interp_within env n q x ended

variable {calls : Callees} (right : Right env (limit env) c.start.ctx calls)
  (at_mp : c.start.curmethod = some mp) (code : mp.code = cells mp.body.code)
  (body : mp.body = .method locals s) (clean : c.start.err = .none)
  (alike : Alike c ⟨vars, []⟩ c.start c.store)

include right at_mp code body clean alike

/-- What the command of the body ends with, `_interp` gives back. -/
theorem activation_answers (linenum pc : Int) {o : Com.Result Valuation (Option Value)}
    (ran : ((Stmt.block locals s).com calls).Runs ⟨vars, []⟩ o) (fine : o ≠ .stuck) :
    ∃ q', (limit env (site c.start c.rest c.store linenum c.stack pc)).ending =
      .done (q', .none) ∧ Settled c (returned c.start.retval o) q' := by
  have placed : Placed mp.body.code 0 ((Stmt.block locals s).code 0) := by
    rw [body]
    exact .self _
  have method : Method mp (site c.start c.rest c.store linenum c.stack 0) := ⟨_, _, rfl, at_mp⟩
  have here : Here ↑(0 : Nat) (site c.start c.rest c.store linenum c.stack 0) := site_here clean
  have long : mp.code.length = 0 + (Stmt.block locals s).size := by
    rw [code, length_cells_list, body, zero_add]
    exact Stmt.codeSize_code 0 (.block locals s)
  have within : RunWithin (limit env) := limit_within env
  obtain ⟨t, shown, reached⟩ : ∃ t, _ ∧ (rounds env (limit env) 0).Reaches _ t :=
    reaches_shown right code within placed method here (stands_site alike) ran fine
  obtain ⟨finished, f', frames, stack, calm, ctx, same, count, retval, room, others⟩ :=
    shown_over at_mp long shown
  obtain ⟨n, ended⟩ := (loop_iff within c.stack.length method).mpr ⟨reached, finished⟩
  have longer : (loop env (limit env) n c.stack.length n
      (site c.start c.rest c.store linenum c.stack 0)).ending = .done t :=
    (loop_refuelled (Nat.zero_le n) (Nat.le_refl n) _).done ended
  obtain ⟨q', closed, settled⟩ :=
    activation_settles longer frames stack calm ctx same count retval room others pc
  exact ⟨q', limit_unfolds.mpr ⟨n, closed⟩, settled⟩

/-- An activation that ends has come through the command of the body. -/
theorem runs_of_activation (linenum pc : Int) {x : Qinterp × InterpErrors}
    (ended : (limit env (site c.start c.rest c.store linenum c.stack pc)).ending = .done x) :
    ∃ o, ((Stmt.block locals s).com calls).Runs ⟨vars, []⟩ o := by
  obtain ⟨n, ended⟩ := limit_unfolds.mp ended
  have placed : Placed mp.body.code 0 ((Stmt.block locals s).code 0) := by
    rw [body]
    exact .self _
  have method : Method mp (site c.start c.rest c.store linenum c.stack 0) := ⟨_, _, rfl, at_mp⟩
  have here : Here ↑(0 : Nat) (site c.start c.rest c.store linenum c.stack 0) := site_here clean
  obtain ⟨t, ran, _⟩ := Traced.ending_bind (show (Traced.bind (loop env (limit env) n
    c.stack.length n (site c.start c.rest c.store linenum c.stack 0)) _).ending = .done x from
      ended)
  exact runs_of_ends right code (limit_within env) placed method here (stands_site alike)
    ((loop_iff (limit_within env) c.stack.length method).mp ⟨n, ran⟩)

end

/-! ## Calls -/

theorem SameElse.deref {depth : Nat} {st st' : Store} (same : SameElse depth st st') {w : Variant}
    (below : ∀ d k, depth ≤ d → w ≠ .ptr (.local d k)) : st'.deref w = st.deref w := by
  cases w with
  | ptr l => exact same.get l fun d k least at_l => below d k least (by rw [at_l])
  | _ => rfl

/-- An argument on the operand stack, with the value it has. -/
structure Argument (st : Store) (depth : Nat) (vdp : Vardef) (o : Variant × Value) : Prop where
  value : st.deref o.1 = o.2.variant
  plain : vdp.isptr = true → o.1 = o.2.variant
  below : ∀ d k, depth ≤ d → o.1 ≠ .ptr (.local d k)

theorem Argument.same {st st' : Store} {depth : Nat} {vdp : Vardef} {o : Variant × Value}
    (passes : Argument st depth vdp o) (same : SameElse depth st st') :
    Argument st' depth vdp o where
  value := (same.deref passes.below).trans passes.value
  plain := passes.plain
  below := passes.below

/-- The arguments become the first variables of the frame. -/
theorem passArgs_values {depth : Nat} {args : List Vardef} {os : List (Variant × Value)}
    {st : Store} (passes : List.Forall₂ (Argument st depth) args os) (below : List Variant) :
    ∃ passed st', passArgs depth args (os.map Prod.fst ++ below) st = some (passed, below, st') ∧
      SameElse depth st st' ∧
      (∀ k v, (os.reverse.map Prod.snd)[k]? = some v → st'.get (.local depth k) = v.variant) ∧
      ∀ k, args.length ≤ k → st'.get (.local depth k) = st.get (.local depth k) := by
  induction args generalizing os st with
  | nil =>
      cases passes
      refine ⟨[], st, rfl, .refl _ _, ?_, fun _ _ => rfl⟩
      intro k v found
      cases found
  | cons vdp args ih =>
      cases passes with
      | @cons _ o _ os first rest =>
          have same : SameElse depth st (st.set (.local depth args.length) o.2.variant) :=
            (SameElse.refl _ _).set _ _
          obtain ⟨passed, st', ran, same', values, outside⟩ :=
            ih (rest.imp fun _ _ passes => passes.same same)
          have value : (if vdp.isptr then o.1 else st.deref o.1) = o.2.variant := by
            split
            case isTrue ptr => exact first.plain ptr
            case isFalse => exact first.value
          have count : args.length = os.length := rest.length_eq
          have last : st'.get (.local depth args.length) = o.2.variant := by
            rw [outside _ (Nat.le_refl _), Store.get_set_self]
          refine ⟨o.2.variant :: passed, st', ?_, same.trans same', ?_, ?_⟩
          · show passArgs depth (vdp :: args) (o.1 :: (os.map Prod.fst ++ below)) st = _
            rw [passArgs]
            simp only [value, ran]
            rfl
          · intro k v found
            rw [List.reverse_cons, List.map_append] at found
            by_cases inside : k < os.length
            · rw [List.getElem?_append_left (by simpa using inside)] at found
              exact values k v found
            · rw [List.getElem?_append_right (by simpa using Nat.le_of_not_lt inside)] at found
              have at_k : k = args.length := by
                by_contra off
                rw [List.getElem?_eq_none (by simp; omega)] at found
                cases found
              subst at_k
              simp [count] at found
              rw [last, found]
          · intro k long
            have apart : Loc.local depth k ≠ .local depth args.length := by
              intro same
              cases same
              exact absurd long (by simp)
            rw [outside k (by simp at long; omega), Store.get_set_ne _ _ apart]

/-- The frame a call makes for the method, with its arguments in it. -/
def callFrame (mp : JsMethod) (jsp depth : Nat) : StackFrame where
  ctx := jsp
  curmethod := some mp
  locals := mp.args.length
  blockframes := [⟨0, -1, 0, -1, none, none⟩]
  err := .none
  retval := .void
  stackcount := depth
  pc := 0

/-- Where a method is run that was called on those arguments. -/
def callSetting (mp : JsMethod) (jsp : Nat) (q : Qinterp) (below : List Variant) (st : Store) :
    Setting where
  start := callFrame mp jsp q.stack.length
  rest := q.frames
  stack := below
  store := st
  base := [0]
  based := List.cons_ne_nil _ _

/-- The call up to the code of the method. -/
theorem call_begins (mp : JsMethod) (jsp : Nat) {q : Qinterp} {os : List (Variant × Value)}
    {below : List Variant} (stack : q.stack = (os.map Prod.fst).reverse ++ below)
    (passes : List.Forall₂ (Argument q.store (q.frames.length + 1)) mp.args os) :
    ∃ st, SameElse (q.frames.length + 1) q.store st ∧
      Alike (callSetting mp jsp q below st) ⟨os.map fun o => some o.2, []⟩
        (callFrame mp jsp q.stack.length) st ∧
      ((((q.enterFrame jsp).setMethod mp).onAct fun a => some (a.enterBlock 0)).bind
        (setLocals mp false)) =
          some (site (callFrame mp jsp q.stack.length) q.frames st q.linenum below 0) := by
  have nothing : SameElse (q.frames.length + 1) q.store
      (q.store.mapSlots (q.frames.length + 1) 0 (0 + 0) fun _ => .void) :=
    (SameElse.refl _ _).mapSlots _ _ _
  have reversed : List.Forall₂
      (Argument (q.store.mapSlots (q.frames.length + 1) 0 (0 + 0) fun _ => .void)
        (q.frames.length + 1)) mp.args.reverse os.reverse :=
    List.forall₂_reverse_iff.mpr (passes.imp fun _ _ passes => passes.same nothing)
  obtain ⟨passed, st, ran, same, values, _⟩ := passArgs_values reversed below
  have count : mp.args.length = os.length := passes.length_eq
  refine ⟨st, nothing.trans same, ⟨⟨?_, ?_⟩, rfl, ?_, ⟨rfl, rfl, rfl, rfl⟩, .refl _ _⟩,
    ?_⟩
  · simp [callFrame, count]
  · intro k v found
    rw [List.reverse_reverse] at values
    refine values k v ?_
    simp at found ⊢
    obtain ⟨w, at_k⟩ := found
    exact ⟨w, at_k⟩
  · simp [callFrame, counts]
  · obtain ⟨frames, stack', st', linenum⟩ := q
    obtain rfl : stack' = (os.map Prod.fst).reverse ++ below := stack
    have entered : (((enterFrame jsp ⟨frames, (os.map Prod.fst).reverse ++ below, st',
        linenum⟩).setMethod mp).onAct fun a => some (a.enterBlock 0)) =
          some ⟨{ callFrame mp jsp ((os.map Prod.fst).reverse ++ below).length with
            locals := 0 } :: frames, (os.map Prod.fst).reverse ++ below,
            st'.mapSlots (frames.length + 1) 0 (0 + 0) fun _ => .void, linenum⟩ := rfl
    rw [entered, Option.bind_some, setLocals]
    rw [← List.map_reverse]
    show Option.map _ (passArgs (frames.length + 1) mp.args.reverse _ _) = _
    rw [ran]
    simp [site, callFrame]

/-- The operand stack behind a call of the method. -/
def leaves (mp : JsMethod) (v : Variant) (below : List Variant) : List Variant :=
  if mp.hasretval then v :: below else below

/-- The call behind the code of the method. -/
theorem call_ends {mp : JsMethod} {jsp : Nat} {q q' : Qinterp} {below : List Variant} {st : Store}
    {v : Variant} (fits : q.stack.length = mp.args.length + below.length)
    (same : SameElse (q.frames.length + 1) q.store st)
    (settled : Settled (callSetting mp jsp q below st) v q') :
    ∃ q'', (q'.onAct Act.leaveBlock).bind (leaveFrame false) = some q'' ∧
      Called q (leaves mp v below) q'' := by
  obtain ⟨f, frames, clean, _, method, count, retval, room⟩ := settled.frame
  have method : f.curmethod = some mp := method
  have count : f.stackcount = q.stack.length := count
  have frames : q'.frames = f :: q.frames := frames
  have others : SameElse (q.frames.length + 1) st q'.store := settled.others
  have stack : q'.stack = below := settled.stack
  have kept : popTo (f.stackcount - mp.args.length) below = below := by
    rw [popTo, count, fits]
    simp
  have returns : returnsValue f = mp.hasretval := by
    simp [returnsValue, method, clean]
  obtain ⟨f', st', left, method', stackcount, returns', retval', others'⟩ :
      ∃ f' st', q'.onAct Act.leaveBlock = some ⟨f' :: q.frames, below, st', q'.linenum⟩ ∧
        f'.curmethod = some mp ∧ f'.stackcount = f.stackcount ∧
        returnsValue f' = mp.hasretval ∧ f'.retval = v ∧
        SameElse (q.frames.length + 1) st st' := by
    rw [Qinterp.onAct, act?_of_frames frames, Option.bind_some, Act.leaveBlock]
    cases blocks : f.blockframes with
    | nil =>
        refine ⟨f, _, ?_, method, rfl, returns, retval, others⟩
        simp only [Option.map_some, Qinterp.put, frames, List.tail_cons, stack]
    | cons bf rest =>
        rw [blocks, counts_cons, List.sum_cons] at room
        refine ⟨{ f with locals := f.locals - bf.localcount, blockframes := rest }, _, ?_, method,
          rfl, returns, retval, others.mapSlots (f.locals - bf.localcount) f.locals fun _ => .void⟩
        dsimp only
        rw [if_pos (by omega)]
        simp only [Option.map_some, Qinterp.put, frames, List.tail_cons, stack, List.length_cons]
  have popped : leftStack f' false below = some below := by
    simp only [leftStack, method', stackcount]
    rw [if_neg Bool.false_ne_true, if_pos (by omega), kept]
  have gone : leaveFrame false ⟨f' :: q.frames, below, st', q'.linenum⟩ =
      some ⟨q.frames, leaves mp v below,
        st'.mapSlots (q.frames.length + 1) 0 f'.locals Variant.varclear, q'.linenum⟩ := by
    simp only [leaveFrame, popped, Option.map_some, returns', retval', List.length_cons, leaves]
  exact ⟨_, Option.bind_eq_some_iff.mpr ⟨_, left, gone⟩, rfl, rfl,
    same.trans (others'.mapSlots _ _ _)⟩

/-- The method is one over integers, with these arguments on the operand stack. -/
structure Callable (mp : JsMethod) (q : Qinterp) (os : List (Variant × Value))
    (below : List Variant) : Prop where
  compiled : mp.code = cells mp.body.code
  native : mp.isnative = false
  stack : q.stack = (os.map Prod.fst).reverse ++ below
  passes : List.Forall₂ (Argument q.store (q.frames.length + 1)) mp.args os

/-- The variables a method begins with. -/
def arguments (os : List (Variant × Value)) : Valuation := ⟨os.map fun o => some o.2, []⟩

section

variable {env : Env} {mp : JsMethod} {locals : Nat} {s : Stmt} {q : Qinterp}
  {os : List (Variant × Value)} {below : List Variant} {calls : Callees} {jsp : Nat}
  (right : Right env (limit env) jsp calls) (body : mp.body = .method locals s)
  (callable : Callable mp q os below)

include right body callable

theorem callMethod_answers {o : Com.Result Valuation (Option Value)}
    (ran : ((Stmt.block locals s).com calls).Runs (arguments os) o) (fine : o ≠ .stuck) :
    ∃ q', (callMethod env (limit env) mp false (q.enterFrame jsp)).ending =
      .done (q', .none) ∧ Called q (leaves mp (returned .void o) below) q' := by
  obtain ⟨st, same, alike, begun⟩ := call_begins mp jsp callable.stack callable.passes
  obtain ⟨q', closed, settled⟩ := activation_answers (c := callSetting mp jsp q below st)
    right rfl callable.compiled body rfl alike q.linenum 0 ran fine
  have fits : q.stack.length = mp.args.length + below.length := by
    rw [callable.stack, callable.passes.length_eq]
    simp
  obtain ⟨q'', left, called⟩ := call_ends fits same settled
  refine ⟨q'', ?_, called⟩
  rw [callMethod, begun, Traced.ofOption, Traced.pure_bind, Traced.ending_note]
  have ran : (runMethod env (limit env) mp
      (site (callFrame mp jsp q.stack.length) q.frames st q.linenum below 0)).ending =
        .done (q', .none) := by
    rw [runMethod, if_neg (by rw [callable.native]; exact Bool.false_ne_true)]
    exact closed
  rw [Traced.bind_done ran]
  dsimp only
  rw [left]
  rfl

/-- A call that comes back has come through the command. -/
theorem runs_of_callMethod {x : Qinterp × InterpErrors}
    (ended : (callMethod env (limit env) mp false (q.enterFrame jsp)).ending = .done x) :
    ∃ o, ((Stmt.block locals s).com calls).Runs (arguments os) o := by
  obtain ⟨st, same, alike, begun⟩ := call_begins mp jsp callable.stack callable.passes
  rw [callMethod, begun, Traced.ofOption, Traced.pure_bind, Traced.ending_note] at ended
  obtain ⟨y, ran, _⟩ := Traced.ending_bind ended
  rw [runMethod, if_neg (by rw [callable.native]; exact Bool.false_ne_true)] at ran
  exact runs_of_activation (c := callSetting mp jsp q below st) right rfl callable.compiled body rfl
    alike q.linenum 0 ran

end

/-! ## Running a program -/

section

variable {host : Host} {s : Session} {startcls mainmethod : List Char} {argcount jsp : Nat}
  {mp : JsMethod} {locals : Nat} {st : Stmt} {q : Qinterp} {os : List (Variant × Value)}
  {below : List Variant} {calls : Callees}

/-- The name `qinterpRun` puts together is taken apart again by `callStaticMethod`. -/
theorem qinterpRun_calls (dotless : '.' ∉ startcls)
    (cls : (s.env host).qinterpFindClass startcls = some jsp)
    (found : (s.env host).findMethod jsp
      (buildMethodSig mainmethod true ++ List.replicate argcount 'v') = some mp) (run : Run) :
    callStaticMethod (s.env host) run
      (startcls ++ ['.'] ++ buildMethodSig mainmethod true ++ List.replicate argcount 'v') q =
        callMethod (s.env host) run mp false (q.enterFrame jsp) := by
  have name : startcls ++ ['.'] ++ buildMethodSig mainmethod true ++ List.replicate argcount 'v' =
      startcls ++ '.' :: (buildMethodSig mainmethod true ++ List.replicate argcount 'v') := by
    simp
  have front : (startcls ++ '.' :: (buildMethodSig mainmethod true ++
      List.replicate argcount 'v')).takeWhile (· ≠ '.') = startcls := by
    rw [List.takeWhile_append_of_pos]
    · simp
    · intro c mem
      have apart : c ≠ '.' := fun same => dotless (same ▸ mem)
      simpa using apart
  rw [name, callStaticMethod]
  simp only [front, cls]
  rw [show startcls ++ '.' :: (buildMethodSig mainmethod true ++ List.replicate argcount 'v') =
    (startcls ++ ['.']) ++ (buildMethodSig mainmethod true ++ List.replicate argcount 'v') by simp,
    List.drop_left' (by simp)]
  simp only [found]

/-- A run of a method over integers does what the command of its source does. -/
theorem qinterpRun_answers (right : Right (s.env host) (limit (s.env host)) jsp calls)
    (prepared : Prepared host s) (dotless : '.' ∉ startcls)
    (cls : (s.env host).qinterpFindClass startcls = some jsp)
    (found : (s.env host).findMethod jsp
      (buildMethodSig mainmethod true ++ List.replicate argcount 'v') = some mp)
    (native : mp.isnative = false) (returns : mp.hasretval = true)
    (body : mp.body = .method locals st) (stack : q.stack = (os.map Prod.fst).reverse ++ below)
    (passes : List.Forall₂ (Argument q.store (q.frames.length + 1)) mp.args os) :
    (∀ o, ((Stmt.block locals st).com calls).Runs (arguments os) o → o ≠ .stuck →
      ∃ n q', Called q below q' ∧ ∀ m, n ≤ m →
        (qinterpRun (s.env host) m startcls mainmethod argcount q).ending =
          .done (q', .none, some (returned .void o))) ∧
    ∀ m x, (qinterpRun (s.env host) m startcls mainmethod argcount q).ending = .done x →
      ∃ o, ((Stmt.block locals st).com calls).Runs (arguments os) o ∧
        (o = .stuck ∨ Called q below x.1 ∧ x.2 = (.none, some (returned .void o))) := by
  obtain ⟨_, _, _, ok⟩ := findMethod_compiled (prepared.classes compiled_logic.invariant) found
  have callable : Callable mp q os below := ⟨ok.code, native, stack, passes⟩
  have forward : ∀ o, ((Stmt.block locals st).com calls).Runs (arguments os) o → o ≠ .stuck →
      ∃ n q', Called q below q' ∧ ∀ m, n ≤ m →
        (qinterpRun (s.env host) m startcls mainmethod argcount q).ending =
          .done (q', .none, some (returned .void o)) := by
    intro o ran fine
    obtain ⟨q', closed, called⟩ := callMethod_answers right body callable ran fine
    obtain ⟨n, reached⟩ := Filter.eventually_atTop.mp
      ((callMethod_tends (interp_tends (s.env host)) mp false _).done closed)
    have top : q'.stack = returned .void o :: below := by
      rw [called.stack, leaves, if_pos returns]
    refine ⟨n, { q' with stack := below }, ⟨called.frames, rfl, called.store⟩, fun m less => ?_⟩
    rw [qinterpRun]
    dsimp only
    rw [qinterpRun_calls dotless cls found, Traced.bind_done (reached m less)]
    simp only [top, Traced.ending_pure]
  refine ⟨forward, fun m x ended => ?_⟩
  obtain ⟨y, called, _⟩ := Traced.ending_bind ended
  rw [qinterpRun_calls dotless cls found] at called
  have limited : (callMethod (s.env host) (limit (s.env host)) mp false
      (q.enterFrame jsp)).ending = .done y :=
    Traced.Refuelled.done (callMethod_tends (interp_lifts _ m) mp false _) called
  obtain ⟨o, ran⟩ := runs_of_callMethod right body callable limited
  refine ⟨o, ran, ?_⟩
  by_cases stuck : o = .stuck
  · exact .inl stuck
  · obtain ⟨n, q', gone, closed⟩ := forward o ran stuck
    have more := (qinterpRun_refuelled (s.env host) (Nat.le_add_right m n) startcls mainmethod
      argcount q).done ended
    rw [closed (m + n) (Nat.le_add_left n m)] at more
    cases more
    exact .inr ⟨gone, rfl⟩

/-- What the rules for commands show of the command of its body, a run of the method gives. -/
theorem qinterpRun_meets (right : Right (s.env host) (limit (s.env host)) jsp calls)
    (prepared : Prepared host s) (dotless : '.' ∉ startcls)
    (cls : (s.env host).qinterpFindClass startcls = some jsp)
    (found : (s.env host).findMethod jsp
      (buildMethodSig mainmethod true ++ List.replicate argcount 'v') = some mp)
    (native : mp.isnative = false) (returns : mp.hasretval = true)
    (body : mp.body = .method locals st) (stack : q.stack = (os.map Prod.fst).reverse ++ below)
    (passes : List.Forall₂ (Argument q.store (q.frames.length + 1)) mp.args os)
    {P : Valuation → Prop} {A : Option Value → Prop} (start : P (arguments os))
    (meets : Com.Meets P ((Stmt.block locals st).com calls) (fun _ => False) A) :
    ∃ r n q', A r ∧ Called q below q' ∧ ∀ m, n ≤ m →
      (qinterpRun (s.env host) m startcls mainmethod argcount q).ending =
        .done (q', .none, some (r.elim .void Value.variant)) := by
  obtain ⟨o, ran, ends⟩ := meets _ start
  have fine : o ≠ .stuck := by
    rintro rfl
    exact ends
  obtain ⟨n, q', called, ended⟩ := (qinterpRun_answers right prepared dotless cls found native
    returns body stack passes).1 o ran fine
  cases o with
  | going _ => exact ends.elim
  | answered r =>
      refine ⟨r, n, q', ends, called, ?_⟩
      cases r with
      | none => exact ended
      | some v => exact ended
  | stuck => exact (fine rfl).elim

end

/-! ## A method of a text -/

/-- No method is called. -/
def nothing : Callees := fun _ _ => none

theorem right_nothing (env : Env) (run : Run) (ctx : Nat) : Right env run ctx nothing :=
  fun _ _ _ answer => by cases answer

variable {calls : Callees}

/-- The variables of `gcd`, with the blocks open in it. -/
def gcdState (x y : Int) (t : Option Value) (blocks : List Nat) : Valuation :=
  ⟨[some (.int x), some (.int y), t, none, none], blocks⟩

/-- The second parameter, which every turn lowers. -/
def gcdSecond (s : Valuation) : Nat := (((s.vars[1]?).join.map Value.num).getD 0).toNat

/-- A parameter is made positive. -/
theorem gcd_abs {k : Nat} {v : Int} {s : Valuation} (value : (s.vars[k]?).join = some (.int v))
    (least : -2 ^ 31 < v) (most : v < 2 ^ 31) {A : Option Value → Prop} :
    Com.Meets (· = s) ((gcdAbs k).com calls)
      (· = { s with vars := s.vars.set k (some (.int ↑v.natAbs)) }) A := by
  have tested : Valuation.test calls (.binary .lt (.lvalue .block k) (.push .im 0)) s =
      some (decide (v < 0)) := by
    by_cases negative : v < 0 <;>
      simp [Valuation.test, Expr.isPlace, Expr.value?, value, BinOp.value?, Value.num, negative]
  obtain ⟨inside, at_k⟩ := place_value value
  refine .ite ?_ ?_ ?_
  · rintro _ rfl
    exact ⟨_, tested⟩
  · rintro s ⟨rfl, negative⟩
    rw [tested] at negative
    have negative : v < 0 := by simpa using negative
    have entered : Valuation.enter 0 s = some ⟨s.vars, 0 :: s.blocks⟩ := by
      simp [Valuation.enter]
    have assigned : (Expr.assign (.lvalue .block k)
        (.binary .sub (.push .im 0) (.lvalue .block k))).effect calls ⟨s.vars, 0 :: s.blocks⟩ =
          some ⟨s.vars.set k (some (.int ↑v.natAbs)), 0 :: s.blocks⟩ := by
      have wrapped : wrap32 (0 - v) = ↑v.natAbs := by
        rw [wrap32, Int.bmod_eq_of_le (by omega) (by omega)]
        omega
      have negated : (Expr.binary .sub (.push .im 0) (.lvalue .block k)).value? calls s.vars =
          some (.int ↑v.natAbs) := by
        rw [Expr.value?, Expr.value?, Expr.value?, value, ← wrapped]
        rfl
      simp [Expr.effect, Valuation.assign, negated, Valuation.put, inside]
    have left : Valuation.leave ⟨s.vars.set k (some (.int ↑v.natAbs)), 0 :: s.blocks⟩ =
        some ⟨s.vars.set k (some (.int ↑v.natAbs)), s.blocks⟩ := by
      simp [Valuation.leave]
    exact ⟨_, .seq (.prim (congrArg _ entered)) (.seq (.seq (.seq .skip
      (.prim (congrArg _ assigned))) .skip) (.prim (congrArg _ left))), rfl⟩
  · refine .consequence ?_ (fun _ meets => meets) (fun _ meets => meets) .skip
    rintro s ⟨rfl, positive⟩
    rw [tested] at positive
    have positive : ¬ v < 0 := by simpa using positive
    have same : s.vars.set k (some (.int ↑v.natAbs)) = s.vars := by
      rw [show (v.natAbs : Int) = v by omega, ← (List.getElem_eq_iff inside).mpr at_k]
      exact List.set_getElem_self inside
    rw [same]

theorem gcd_turn {x y : Nat} {t : Option Value} (some_y : 0 < y) :
    ((Stmt.block 0 gcdTurn).com calls).Runs (gcdState x y t [3])
      (.going (gcdState y ↑(x % y) (some (.int ↑(x % y))) [3])) := by
  have rem : (Expr.assign (.lvalue .block 2) (.binary .mod (.lvalue .block 0)
      (.lvalue .block 1))).effect calls (gcdState x y t [0, 3]) =
        some (gcdState x y (some (.int ↑(x % y))) [0, 3]) := by
    have defined : y ≠ 0 := by omega
    simp [Expr.effect, Valuation.assign, Expr.value?, gcdState, BinOp.value?, Value.num,
      Valuation.put, defined]
    rfl
  exact .seq (.prim rfl) (.seq (.seq (.seq (.seq (.seq (.seq (.seq .skip
    (.prim (congrArg _ rem))) .skip) (.prim rfl)) .skip) (.prim rfl)) .skip) (.prim rfl))

/-- The loop of the method: the greatest common divisor stays. -/
theorem gcd_loop (d : Nat) {A : Option Value → Prop} :
    Com.Meets (fun s => ∃ (x y : Nat) (t : _), x.gcd y = d ∧ s = gcdState x y t [3])
      ((Stmt.while (.binary .gt (.lvalue .block 1) (.push .im 0)) (.block 0 gcdTurn)).com calls)
      (fun s => ∃ t, s = gcdState d 0 t [3]) A := by
  have tested : ∀ (x y : Nat) (t : _),
      Valuation.test calls (.binary .gt (.lvalue .block 1) (.push .im 0)) (gcdState x y t [3]) =
        some (decide (0 < y)) := by
    intro x y t
    by_cases some_y : 0 < y <;>
      simp [Valuation.test, Expr.isPlace, Expr.value?, gcdState, BinOp.value?, Value.num, some_y]
  refine .consequence (fun _ meets => meets) ?_ (fun _ meets => meets) (.while gcdSecond ?_ ?_)
  · rintro _ ⟨⟨x, y, t, same, rfl⟩, none_y⟩
    rw [tested] at none_y
    obtain rfl : y = 0 := by simpa using none_y
    exact ⟨t, by rw [← same, Nat.gcd_zero_right]; rfl⟩
  · rintro _ ⟨x, y, t, _, rfl⟩
    exact ⟨_, tested x y t⟩
  · rintro n _ ⟨⟨x, y, t, same, rfl⟩, some_y, size⟩
    rw [tested] at some_y
    have some_y : 0 < y := by simpa using some_y
    refine ⟨_, gcd_turn some_y, ⟨y, x % y, _, ?_, rfl⟩, ?_⟩
    · rw [← same, Nat.gcd_comm x y, Nat.gcd_rec y x, Nat.gcd_comm]
    · have less : x % y < y := Nat.mod_lt x some_y
      have at_n : y = n := size
      show x % y < n
      omega

/-- The method ends, with the greatest common divisor. -/
theorem gcd_meets {x y : Int} (first : -2 ^ 31 < x ∧ x < 2 ^ 31)
    (second : -2 ^ 31 < y ∧ y < 2 ^ 31) :
    Com.Meets (· = ⟨[some (.int x), some (.int y)], []⟩) ((Stmt.block 3 gcdBody).com calls)
      (fun _ => False) (· = some (.int ↑(x.gcd y))) := by
  have entered : Com.Meets (· = ⟨[some (.int x), some (.int y)], []⟩)
      (.prim (Valuation.enter 3)) (· = gcdState x y none [3])
      (· = some (Value.int ↑(x.gcd y))) := by
    refine .prim ?_
    rintro _ rfl
    exact ⟨_, rfl, rfl⟩
  have absolute : Com.Meets (· = gcdState x y none [3]) ((gcdAbs 0).com calls)
      (· = gcdState ↑x.natAbs y none [3]) (· = some (Value.int ↑(x.gcd y))) :=
    gcd_abs rfl first.1 first.2
  have positive : Com.Meets (· = gcdState ↑x.natAbs y none [3]) ((gcdAbs 1).com calls)
      (fun s => ∃ (a b : Nat) (t : _), a.gcd b = x.gcd y ∧ s = gcdState a b t [3])
      (· = some (Value.int ↑(x.gcd y))) :=
    .consequence (fun _ meets => meets)
      (fun _ meets => ⟨x.natAbs, y.natAbs, none, rfl, meets⟩) (fun _ meets => meets)
      (gcd_abs rfl second.1 second.2)
  have answered : Com.Meets (fun s => ∃ t, s = gcdState ↑(x.gcd y) 0 t [3])
      ((Stmt.ret (.lvalue .block 0)).com calls) (fun _ => False) (· = some (.int ↑(x.gcd y))) := by
    refine .ret ?_
    rintro _ ⟨t, rfl⟩
    exact ⟨_, rfl, rfl⟩
  have never : ∀ c : Com Valuation (Option Value), Com.Meets (fun _ => False) c (fun _ => False)
      (· = some (Value.int ↑(x.gcd y))) := fun _ _ none => none.elim
  have declared : Com.Meets (· = gcdState x y none [3])
      (.seq (.seq .skip (.seq .skip (.seq .skip .skip))) .skip) (· = gcdState x y none [3])
      (· = some (Value.int ↑(x.gcd y))) :=
    .seq (.seq .skip (.seq .skip (.seq .skip .skip))) .skip
  exact .seq entered (.seq (.seq (.seq (.seq (.seq (.seq declared absolute) positive)
    (gcd_loop (x.gcd y))) answered) (never _)) (never _))

theorem plain_passes {st : Store} {depth : Nat} {args : List Vardef} (count : args.length = 2)
    (x y : Int) : List.Forall₂ (Argument st depth) args [(.int x, .int x), (.int y, .int y)] := by
  have plain : ∀ (vdp : Vardef) (i : Int), Argument st depth vdp (.int i, .int i) := fun _ _ =>
    ⟨rfl, fun _ => rfl, fun _ _ _ => Variant.noConfusion⟩
  obtain ⟨a, b, rfl⟩ := List.length_eq_two.mp count
  exact .cons (plain a x) (.cons (plain b y) .nil)

/-- Its body, entered with two arguments. -/
theorem gcd_simulated : ∃ s mp c q, loaded gcdText = some s ∧ mp.body = .method 3 gcdBody ∧
    Method mp q ∧ Stands c ⟨[some (.int 12), some (.int 18)], []⟩ q ∧ ∀ base : Nat,
      (∀ o, ((Stmt.block 3 gcdBody).com nothing).Runs ⟨[some (.int 12), some (.int 18)], []⟩ o →
        o ≠ .stuck → ∃ t, Shows (Stands c) (Answered c)
          (Here ↑(0 + (Stmt.block 3 gcdBody).size)) t o ∧
            ∀ r, (∃ n, (loop (s.env plainHost) (interp (s.env plainHost) 20) 20 base n q).ending =
              .done r) ↔ ∃ n, (loop (s.env plainHost) (interp (s.env plainHost) 20) 20 base n
                t).ending = .done r) ∧
      ∀ n r, (loop (s.env plainHost) (interp (s.env plainHost) 20) 20 base n q).ending = .done r →
        ∃ o, ((Stmt.block 3 gcdBody).com nothing).Runs
          ⟨[some (.int 12), some (.int 18)], []⟩ o := by
  obtain ⟨s, mp, load, cls, found, native, returns, body, count⟩ := gcd_loaded
  obtain ⟨_, _, _, ok⟩ := findMethod_compiled
    ((loaded_prepared load).classes compiled_logic.invariant) found
  obtain ⟨st, _, alike, _⟩ := call_begins mp 1 (q := { s.q with stack := [.int 18, .int 12] })
    (show _ = _ ++ [] from rfl) (plain_passes count 12 18)
  have stands : Stands _ _ (site _ _ _ s.q.linenum _ 0) := stands_site alike
  have placed : Placed mp.body.code 0 ((Stmt.block 3 gcdBody).code 0) := by
    rw [body]
    exact .self _
  exact ⟨s, mp, _, _, load, body, ⟨_, _, rfl, rfl⟩, stands, statement_simulated
    (right_nothing _ _ _) ok.code (interp_within _ 20) placed ⟨_, _, rfl, rfl⟩ (site_here rfl)
      stands⟩

/-- Its call. -/
theorem gcd_answers : ∃ s, loaded gcdText = some s ∧
    (∀ o, ((Stmt.block 3 gcdBody).com nothing).Runs ⟨[some (.int 12), some (.int 18)], []⟩ o →
      o ≠ .stuck → ∃ n q', Called { s.q with stack := [.int 18, .int 12] } [] q' ∧ ∀ m, n ≤ m →
        (qinterpRun (s.env plainHost) m ['A'] "gcd".toList 2
          { s.q with stack := [.int 18, .int 12] }).ending =
            .done (q', .none, some (returned .void o))) ∧
    ∀ m x, (qinterpRun (s.env plainHost) m ['A'] "gcd".toList 2
      { s.q with stack := [.int 18, .int 12] }).ending = .done x →
        ∃ o, ((Stmt.block 3 gcdBody).com nothing).Runs ⟨[some (.int 12), some (.int 18)], []⟩ o ∧
          (o = .stuck ∨ Called { s.q with stack := [.int 18, .int 12] } [] x.1 ∧
            x.2 = (.none, some (returned .void o))) := by
  obtain ⟨s, mp, load, cls, found, native, returns, body, count⟩ := gcd_loaded
  exact ⟨s, load, qinterpRun_answers (q := { s.q with stack := [.int 18, .int 12] })
    (right_nothing _ _ _) (loaded_prepared load) (by decide) cls found native returns body rfl
    (plain_passes count 12 18)⟩

/-- The text, loaded and run, computes greatest common divisors. -/
theorem gcd_run : ∃ s, loaded gcdText = some s ∧ ∀ x y : Int,
    -2 ^ 31 < x ∧ x < 2 ^ 31 → -2 ^ 31 < y ∧ y < 2 ^ 31 →
      ∃ n q', ∀ m, n ≤ m →
        (qinterpRun (s.env plainHost) m ['A'] "gcd".toList 2
          { s.q with stack := [.int y, .int x] }).ending =
            .done (q', .none, some (.int ↑(x.gcd y))) := by
  obtain ⟨s, mp, load, cls, found, native, returns, body, count⟩ := gcd_loaded
  refine ⟨s, load, fun x y first second => ?_⟩
  obtain ⟨r, n, q', rfl, _, ended⟩ := qinterpRun_meets
    (q := { s.q with stack := [.int y, .int x] })
    (P := (· = ⟨[some (.int x), some (.int y)], []⟩)) (right_nothing _ _ _)
    (loaded_prepared load) (by decide) cls found native returns body rfl (plain_passes count x y)
    rfl (gcd_meets first second)
  exact ⟨n, q', ended⟩

end Jspp.Kernel
