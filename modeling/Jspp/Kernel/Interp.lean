/-
# Kernel.Interp -- `_interp` and the calls

`exec` is what `_interp` does for an instruction that calls nothing; `step` adds
the calls and `loop` is its `while`.  The call functions of `interpinner.c` take
the interpreter as an argument (`Run`), and `interp` ties the knot: its fuel
bounds the depth of the calls, the length of each loop and of each base chain,
and a computation that needs more ends in `timeout`.

A run leaves a log: every fetch of `_interp`, with the state it happens in and
the depth of the operand stack when this activation started, and every method
that a call function is about to run.

* `exec`, `step`, `loop`, `interp`.
* `callStaticMethod`, `callInstMethod`, `callBaseMethod`,
  `callInternalConstructors`, `callConstructors`.
* `qinterpRun`.
-/
import Jspp.Kernel.Machine
import Jspp.Theory.Trace

namespace Jspp.Kernel

open Jspp.Compiler Jspp.Theory

set_option autoImplicit false

/-! ## Values behind pointers -/

namespace Store

/-- What the recursion of `varGetInt`, `varIsNumeric` and `varToString` looks
through; a parameter taken by reference is a pointer into a frame below, so the
chain is no longer than the frames are many. -/
def chase (st : Store) : Nat → Variant → Variant
  | n + 1, .ptr l => st.chase n (st.get l)
  | _, v => v

/-- An operand as `normalize` and the functions behind it see it: one pointer is
looked through, and behind a second one only a number. -/
def operand (st : Store) (depth : Nat) (v : Variant) : Variant :=
  let w := st.deref v
  if (st.chase depth w).varIsNumeric then st.chase depth w else w

/-- The store after a cast at a place.  The inner `none` is a failed cast. -/
def castAt (st : Store) (l : Loc) : VarResult → Option (Option Store)
  | .value w => some (some (st.set l w))
  | .mismatch => some none
  | .undefined => none

/-- `varCast( var, TYPE_BOOL )` at a place. -/
def castBool (st : Store) : Nat → Loc → Option (Option Store)
  | n, l =>
      match st.get l, n with
      | .ptr l', n + 1 => st.castBool n l'
      | v, _ => st.castAt l v.varCastBool

end Store

/-! ## Instructions without calls -/

namespace Act

/-- The shape of the binary operators: `lval2 op lval1` replaces both. -/
def binop (f : Variant → Variant → VarResult) (a : Act) : Option Act :=
  match a.stack with
  | lval1 :: lval2 :: rest =>
      match f (a.store.operand a.depth lval2) (a.store.operand a.depth lval1) with
      | .value v => some { a with stack := v :: rest }
      | .mismatch => some (a.raise .typeMismatch)
      | .undefined => none
  | _ => none

/-- `varAssignOpPlus` on two operands: texts are joined behind any number of pointers. -/
def plus (a : Act) (x y : Variant) : VarResult :=
  if x.isString || y.isString then
    .value (.string ((a.store.chase a.depth x).varToString ++
      (a.store.chase a.depth y).varToString))
  else Variant.varAssignOpPlus x y

/-- The shape of `varNegate`, `varComp` and `varLogNot`: they write where the operand is. -/
def unop (f : Variant → Option Variant) (a : Act) : Option Act :=
  match a.stack with
  | [] => none
  | .ptr l :: _ =>
      match f (a.store.chase a.depth (a.store.get l)) with
      | some v => some { a with store := a.store.set l v }
      | none => some (a.raise .typeMismatch)
  | lval1 :: rest =>
      match f lval1 with
      | some v => some { a with stack := v :: rest }
      | none => some (a.raise .typeMismatch)

/-- The counter behind `++` and `--`: an int or a char. -/
def count (delta : Int) : Variant → Option Variant
  | .int i => some (.int (wrap32 (i + delta)))
  | .char i => some (.char (wrap32 (i + delta)))
  | _ => none

/-- `OP_INC` and `OP_DEC`: the operand becomes the new value. -/
def preCount (delta : Int) (a : Act) : Option Act :=
  match a.stack with
  | .ptr l :: rest =>
      match count delta (a.store.get l) with
      | some v => some { a with stack := v :: rest, store := a.store.set l v }
      | none => some (a.raise .typeMismatch)
  | _ => none

/-- `OP_PINC` and `OP_PDEC`: the operand becomes the old value. -/
def postCount (delta : Int) (a : Act) : Option Act :=
  match a.stack with
  | .ptr l :: rest =>
      let a' := { a with stack := a.store.get l :: rest }
      match count delta (a.store.get l) with
      | some v => some { a' with store := a.store.set l v }
      | none => some (a'.raise .typeMismatch)
  | _ => none

/-- The value `OP_ASSIGN` stores: `varAssign` clears its target before it reads
`from`, which can be the same variant. -/
def assigned (st : Store) (target : Loc) : Variant → Variant
  | .ptr l => if l = target then (st.get l).varclear else st.get l
  | v => v

def assign (a : Act) : Option Act :=
  match a.stack with
  | lval1 :: .ptr l :: rest =>
      let v := assigned a.store l lval1
      let a' := { a with store := a.store.set l v }
      if v = .delegate then some (a'.raise .outOfMem) else some { a' with stack := rest }
  | _ => none

/-- The test of `OP_JMPZ` and `OP_JMPNZ`: `VARBOOL`, then the raw payload.  The
inner `none` is a failed cast. -/
def testTop (env : Env) (a : Act) : Option (Option Int × Act) :=
  match a.stack with
  | [] => none
  | .void :: _ => some (some (env.stale a), a)
  | .null :: _ => some (some 0, a)
  | .int i :: _ | .char i :: _ | .bool i :: _ => some (some i, a)
  | .ptr l :: _ =>
      match a.store.castBool a.depth l with
      | some (some st) => some (some (env.addr l), { a with store := st })
      | some none => some (none, a)
      | none => none
  | v :: rest =>
      match v.varCastBool with
      | .value (.bool i) => some (some i, { a with stack := .bool i :: rest })
      | .mismatch => some (none, a)
      | _ => none

/-- `OP_JMPZ` (`zero`) and `OP_JMPNZ`. -/
def jumpIf (env : Env) (zero : Bool) (target : Int) (a : Act) : Option Act :=
  (a.testTop env).bind fun
    | (none, a) => some (a.raise .typeMismatch)
    | (some i, a) => (if (i == 0) = zero then a.goto target else a).pop

/-- `VARDEREF( stackPeek0 ); varAssign( &retval, stackPeek0 )`. -/
def takeRetval (a : Act) : Option Act :=
  match a.stack with
  | [] => none
  | v :: rest =>
      let w := a.store.deref v
      some ({ a with stack := w :: rest }.setRetval w)

/-- `OP_THROW`. -/
def throw (a : Act) : Option Act :=
  a.getCatch.bind fun (catchpc, a) =>
    let a := a.goto catchpc
    if catchpc = -1 then (a.takeRetval.bind leaveBlock).map (raise .exception)
    else some (a.raise .none)

/-- `OP_RET`. -/
def ret (a : Act) : Option Act :=
  (a.takeRetval.bind pop).bind fun a => a.leaveBlock.map (raise .ret)

/-- `OP_BREAK`. -/
def doBreak (a : Act) : Option Act :=
  a.breakBlock.map fun (pc, a) => if pc = -1 then (a.goto pc).raise .badBreak else a.goto pc

/-- `OP_CONTINUE`: the jump of the loop is the instruction before the break target. -/
def doContinue (a : Act) : Option Act :=
  a.breakBlock.map fun (pc, a) => if pc = -1 then a.raise .badContinue else a.goto (pc - 3)

/-- `OP_DEREF`. -/
def deref (env : Env) (mode : ArgSource) (arg : Int) (a : Act) : Option Act :=
  match a.resolveValue env mode arg, a.stack with
  | some (.string fname), pthis :: rest =>
      (a.qinterpFindField env pthis fname).map fun
        | .missing => a.raise .fieldNotFound
        | .place l => { a with stack := .ptr l :: rest }
  | _, _ => none

/-- `OP_SDEREF`. -/
def sderef (env : Env) (mode mode2 : ArgSource) (arg1 arg2 : Int) (a : Act) : Option Act :=
  match a.resolveValue env mode arg1, a.resolveValue env mode2 arg2 with
  | some (.string name), some offset =>
      match env.qinterpFindClass name with
      | none => some (a.raise .classNotFound)
      | some c =>
          offset.varGetInt.bind fun o =>
            (env.classes[c]?).bind fun jsp =>
              if 0 ≤ o ∧ o < jsp.staticCount then some (a.push (.ptr (.static c o.toNat)))
              else none
  | _, _ => none

def exec0 (op : OpCode) (a : Act) : Option Act :=
  match op with
  | .nop => some a
  | .null => a.stackPush .null
  -- the interpreter shifts right for both
  | .rshift | .lshift => a.binop Variant.varAssignOpRightShift
  | .mult => a.binop Variant.varAssignOpMul
  | .div => a.binop Variant.varAssignOpDiv
  | .add => a.binop a.plus
  | .sub => a.binop Variant.varAssignOpSub
  | .mod => a.binop Variant.varAssignOpMod
  | .lt => a.binop Variant.varAssignOpLT
  | .lteq => a.binop Variant.varAssignOpLE
  | .eq => a.binop Variant.varAssignOpEQ
  | .gt => a.binop Variant.varAssignOpGT
  | .gteq => a.binop Variant.varAssignOpGE
  | .neq => a.binop Variant.varAssignOpNEQ
  | .binor => a.binop Variant.varAssignOpBinOr
  | .binand => a.binop Variant.varAssignOpBinAnd
  | .xor => a.binop Variant.varAssignOpBinXOr
  | .or => a.binop fun x y => .value (.ofBool (y.truth != 0 || x.truth != 0))
  | .and => a.binop fun x y => .value (.ofBool (y.truth != 0 && x.truth != 0))
  | .negate => a.unop Variant.varNegate
  | .compl => a.unop Variant.varComp
  | .not => a.unop Variant.varLogNot
  | .inc => a.preCount 1
  | .dec => a.preCount (-1)
  | .pinc => a.postCount 1
  | .pdec => a.postCount (-1)
  | .vret => some (a.raise .ret)
  | .ret => a.ret
  | .throw => a.throw
  | .leave => a.leaveBlock
  | .break => a.doBreak
  | .continue => a.doContinue
  | .dup => (a.peekN 0).bind a.stackPush
  | .assign => a.assign
  | .this => a.stackGetThis.map fun ip => a.push (.inst ip)
  | .rvalue =>
      match a.stack with
      | [] => none
      | v :: rest => some { a with stack := a.store.deref v :: rest }
  | .pop => a.pop
  | .rot =>
      match a.stack with
      | x :: y :: rest => some { a with stack := y :: x :: rest }
      | _ => none
  | .rot3 =>
      match a.stack with
      | x :: y :: z :: rest => some { a with stack := z :: y :: x :: rest }
      | _ => none
  | .native => some (a.raise .unknownOpcode)
  -- an opcode that takes an operand is not encoded without one
  | _ => none

def exec1 (env : Env) (op : OpCode) (mode : ArgSource) (arg : Int) (a : Act) : Option Act :=
  match op with
  | .try =>
      (a.resolveValue env mode arg).bind fun v =>
        v.varGetInt.bind fun pc => a.setTry (a.frame.pc - 3) pc
  | .enter => some (a.enterBlock arg.toNat)
  | .setbreak =>
      (a.resolveValue env mode arg).bind fun v =>
        v.varGetInt.bind fun pc => a.setBreak (a.frame.pc - 3) pc
  | .push => (a.resolveValue env mode arg).bind a.stackPush
  | .lvalue => (a.resolveLoc env mode arg).map fun l => a.push (.ptr l)
  | .deref => a.deref env mode arg
  | .jmpz => a.jumpIf env true arg
  | .jmpnz => a.jumpIf env false arg
  | .jmp => some (a.goto arg)
  | .line => some { a with linenum := arg }
  | _ => none

/-- The `switch` of `_interp` for an instruction that calls nothing. -/
def exec (env : Env) (i : Instr) (a : Act) : Option Act :=
  match i with
  | .emit0 op => a.exec0 op
  -- an operand that was never set
  | .emit1 _ _ none => none
  | .emit1 op mode (some arg) => a.exec1 env op mode arg
  | .emit2 op mode mode2 arg1 arg2 =>
      match op with
      | .sderef => a.sderef env mode mode2 arg1 arg2
      | _ => none

end Act

/-! ## Frames -/

/-- What a run writes down. -/
inductive Event where
  | fetch (base : Nat) (q : Qinterp)
  | invoke (mp : JsMethod) (q : Qinterp)

/-- `_interp` on the current frame, with the error code it returns. -/
abbrev Run := Qinterp → Traced Event (Qinterp × InterpErrors)

namespace Qinterp

def enterFrame (jsp : Nat) (q : Qinterp) : Qinterp :=
  { q with
    frames :=
      { ctx := jsp
        curmethod := none
        locals := 0
        blockframes := []
        err := .none
        retval := .void
        stackcount := q.stack.length
        pc := 0 } :: q.frames }

/-- `qip->curframe->curmethod = mp`. -/
def setMethod (mp : JsMethod) (q : Qinterp) : Qinterp :=
  match q.frames with
  | [] => q
  | f :: rest => { q with frames := { f with curmethod := some mp } :: rest }

/-- Popping the operand stack down to `n` entries, if it has more. -/
def popTo (n : Nat) (stack : List Variant) : List Variant := stack.drop (stack.length - n)

/-- The operand stack after the frame is left: without `nopop` what the call
used is popped, arguments included. -/
def leftStack (f : StackFrame) (nopop : Bool) (stack : List Variant) : Option (List Variant) :=
  match f.curmethod with
  | none => some stack
  | some mp =>
      if nopop then some stack
      else if mp.args.length ≤ f.stackcount then some (popTo (f.stackcount - mp.args.length) stack)
      else none

/-- Whether `leaveFrame` pushes the return value. -/
def returnsValue (f : StackFrame) : Bool :=
  ((f.curmethod.map JsMethod.hasretval).getD false || f.err = .exception) &&
    (f.err = .none || f.err = .exception)

def leaveFrame (nopop : Bool) (q : Qinterp) : Option Qinterp :=
  match q.frames with
  | [] => none
  | f :: rest =>
      (leftStack f nopop q.stack).map fun stack =>
        { q with
          frames := rest
          stack := if returnsValue f then f.retval :: stack else stack
          store := q.store.mapSlots q.frames.length 0 f.locals Variant.varclear }

/-- Work on the current frame. -/
def onAct (g : Act → Option Act) (q : Qinterp) : Option Qinterp :=
  q.act?.bind fun a => (g a).map q.put

/-- The arguments, last one first: what is taken from the operand stack, and the
store with the locals they become. -/
def passArgs (depth : Nat) : List Vardef → List Variant → Store →
    Option (List Variant × List Variant × Store)
  | [], stack, st => some ([], stack, st)
  | vdp :: args, v :: stack, st =>
      let w := if vdp.isptr then v else st.deref v
      (passArgs depth args stack (st.set (.local depth args.length) w)).map
        fun (passed, rest, st) => (w :: passed, rest, st)
  | _ :: _, [], _ => none

/-- The locals of a call: with `nopop` the arguments stay on the operand stack. -/
def setLocals (mp : JsMethod) (nopop : Bool) (q : Qinterp) : Option Qinterp :=
  match q.frames with
  | [] => none
  | f :: frames =>
      (passArgs q.frames.length mp.args.reverse q.stack q.store).map fun (passed, rest, st) =>
        { q with
          frames := { f with locals := f.locals + mp.args.length } :: frames
          stack := if nopop then passed ++ rest else rest
          store := st }

/-- A native method: its error code, with its return value in the frame. -/
def runNative (env : Env) (mp : JsMethod) (q : Qinterp) : Qinterp × InterpErrors :=
  let r := env.native mp q
  let q := { q with store := r.store }
  match q.frames with
  | [] => (q, r.err)
  | f :: rest => ({ q with frames := { f with retval := r.retval } :: rest }, r.err)

/-- The method of the current frame, native or compiled. -/
def runMethod (env : Env) (run : Run) (mp : JsMethod) (q : Qinterp) :
    Traced Event (Qinterp × InterpErrors) :=
  if mp.isnative then .pure (runNative env mp q) else run q

/-- The shared second half of the call functions: the method was found, and its
frame is the current one. -/
def callMethod (env : Env) (run : Run) (mp : JsMethod) (nopop : Bool) (q : Qinterp) :
    Traced Event (Qinterp × InterpErrors) :=
  (Traced.ofOption
    (((q.setMethod mp).onAct fun a => some (a.enterBlock 0)).bind (setLocals mp nopop))).bind
      fun q =>
        ((runMethod env run mp q).bind fun (q, err) =>
          (Traced.ofOption ((q.onAct Act.leaveBlock).bind (leaveFrame nopop))).bind fun q =>
            .pure (q, err)).note (.invoke mp q)

/-! ## Calls -/

/-- `callStaticMethod`: the class is the text before the first dot. -/
def callStaticMethod (env : Env) (run : Run) (fqname : List Char) (q : Qinterp) :
    Traced Event (Qinterp × InterpErrors) :=
  let clsname := fqname.takeWhile (· ≠ '.')
  match env.qinterpFindClass clsname with
  | none => .pure (q, .mainClassNotFound)
  | some jsp =>
      let q := q.enterFrame jsp
      match env.findMethod jsp (fqname.drop (clsname.length + 1)) with
      | none => (Traced.ofOption (q.leaveFrame false)).bind fun q => .pure (q, .unknownMethod)
      | some mp => q.callMethod env run mp false

/-- The shared part of `callInstMethod` and `callBaseMethod`: the method is
looked up in `ctx`, and without one the receiver is popped. -/
def callIn (env : Env) (run : Run) (ctx : Nat) (mname : List Char) (nopop : Bool) (q : Qinterp) :
    Traced Event (Qinterp × InterpErrors) :=
  let q := q.enterFrame ctx
  match env.findMethod ctx mname with
  | none =>
      let q := if nopop then q else { q with stack := q.stack.tail }
      (Traced.ofOption (q.leaveFrame nopop)).bind fun q => .pure (q, .unknownMethod)
  | some mp => q.callMethod env run mp nopop

def classOf (inst : Nat) (q : Qinterp) : Option Nat := (q.store.insts[inst]?).map JsInst.myclass

def callInstMethod (env : Env) (run : Run) (inst : Nat) (mname : List Char) (nopop : Bool)
    (q : Qinterp) : Traced Event (Qinterp × InterpErrors) :=
  match q.classOf inst with
  | none => .fault
  | some myclass => q.callIn env run myclass mname nopop

def callBaseMethod (env : Env) (run : Run) (inst : Nat) (mname : List Char) (q : Qinterp) :
    Traced Event (Qinterp × InterpErrors) :=
  match (q.classOf inst).bind fun c => env.classes[c]? with
  | none => .fault
  | some myclass =>
      match myclass.baseclass with
      | none => q.callInstMethod env run inst mname false
      | some base => q.callIn env run base mname false

/-- `callInternalConstructors`, from the top of the base chain down: whether all succeeded. -/
def callInternalConstructors (env : Env) (run : Run) (inst : Nat) :
    Nat → Nat → Qinterp → Traced Event (Qinterp × Bool)
  | 0, _, _ => .timeout
  | n + 1, c, q =>
      match env.classes[c]? with
      | none => .fault
      | some jsp =>
          (match jsp.baseclass with
            | none => Traced.pure (q, true)
            | some base => q.callInternalConstructors env run inst n base).bind fun (q, ok) =>
              if !ok then .pure (q, false)
              else
                let q := { q with stack := .inst inst :: q.stack }
                match env.findMethod c "@@constructor:Ivv".toList with
                | none =>
                    let q := { q.enterFrame c with stack := q.stack.tail }
                    (Traced.ofOption (q.leaveFrame false)).bind fun q => .pure (q, false)
                | some mp =>
                    ((q.enterFrame c).callMethod env run mp false).bind fun (q, err) =>
                      .pure (q, decide (err = InterpErrors.none))

/-- The signature of a constructor of the class. -/
def classConstructorSig (jsp : JsClass) (argcount : Nat) : List Char :=
  jsp.name ++ ":Ivv".toList ++ List.replicate argcount 'v'

/-- `callConstructors`.  A base class without the constructor asked for is
constructed again without arguments, from the top of its base chain. -/
def callConstructors (env : Env) (run : Run) (inst : Nat) :
    Nat → Nat → Nat → Qinterp → Traced Event (Qinterp × InterpErrors)
  | 0, _, _, _ => .timeout
  | n + 1, c, argcount, q =>
      match env.classes[c]? with
      | none => .fault
      | some jsp =>
          (match jsp.baseclass with
            | none => Traced.pure (q, InterpErrors.none)
            | some base => q.callConstructors env run inst n base argcount).bind fun (q, err) =>
              if err ≠ InterpErrors.none then .pure (q, err)
              else
                (q.callInstMethod env run inst (classConstructorSig jsp argcount) true).bind fun
                    (q, err) =>
                  if ¬(err = InterpErrors.none ∨ (argcount = 0 ∧ err = InterpErrors.unknownMethod)) then
                    if q.classOf inst ≠ some c ∧ argcount ≠ 0 then
                      q.callConstructors env run inst n c 0
                    else .pure (q, err)
                  else if q.classOf inst = some c then
                    if argcount ≤ q.stack.length then
                      .pure ({ q with stack := q.stack.drop argcount }, .none)
                    else .fault
                  else .pure (q, .none)

/-! ## Instructions with calls -/

/-- What `_interp` does with the error code of a call: an exception goes to the
handler `getCatch` finds, or it leaves the method with the value on the stack. -/
def afterCall (err : InterpErrors) (a : Act) : Option Act :=
  let a := a.raise err
  if err = .exception then
    a.getCatch.bind fun (catchpc, a) =>
      let a := a.goto catchpc
      if catchpc ≠ -1 then some (a.raise .none)
      else
        match a.stack with
        | [] => none
        | v :: rest => some { a.setRetval v with stack := rest }
  else some a

/-- The result of a call is worked into the calling frame. -/
def resume (q : Qinterp) (err : InterpErrors) : Traced Event Qinterp :=
  .ofOption (q.onAct (afterCall err))

/-- `stringReplaceChar( fqname, 'I', 'S' )` on the name of a static method of `Object`. -/
def objectSig (sig : List Char) : List Char :=
  ("Object.".toList ++ sig).map fun c => if c = 'I' then 'S' else c

/-- Which of the three instructions `OP_CALL`, `OP_CONSTRUCT`, `OP_BASECALL`. -/
def dispatch (env : Env) (run : Run) (fuel : Nat) (op : OpCode) (sig : List Char) (argc : Nat)
    (inst : Nat) (q : Qinterp) : Traced Event (Qinterp × InterpErrors) :=
  match op with
  | .call => q.callInstMethod env run inst sig false
  | .construct =>
      match q.classOf inst with
      | none => .fault
      | some c => q.callConstructors env run inst fuel c argc
  | _ => q.callBaseMethod env run inst sig

/-- `OP_CALL`, `OP_BASECALL` and `OP_CONSTRUCT`: the receiver is below the arguments. -/
def callOp (env : Env) (run : Run) (fuel : Nat) (op : OpCode) (arg1 arg2 : Int) (a : Act)
    (q : Qinterp) : Traced Event Qinterp :=
  match env.constText a.frame.ctx arg1, a.stack[arg2.toNat]? with
  | some sig, some vthis =>
      (match a.store.deref vthis with
        | .inst inst => q.dispatch env run fuel op sig arg2.toNat inst
        | _ => q.callStaticMethod env run (objectSig sig)).bind fun (q, err) => q.resume err
  | _, _ => .fault

/-- The field slots that `loadBaseFields` creates, along the base chain. -/
def loadBaseFields (env : Env) : Nat → Nat → Option Nat
  | 0, _ => none
  | n + 1, c =>
      (env.classes[c]?).bind fun jsp =>
        (match jsp.baseclass with
          | none => some 0
          | some base => loadBaseFields env n base).map fun inherited =>
            inherited + (jsp.fields.filter fun (vdp : Vardef) => !vdp.isstatic).length

/-- The store with one more instance; its fields are unassigned. -/
def addInst (c slots : Nat) (st : Store) : Store where
  mem := fun l =>
    match l with
    | .field i _ => if i = st.insts.length then .void else st.mem l
    | _ => st.mem l
  insts := st.insts ++ [⟨c, slots⟩]

/-- `OP_NEW`: `qinterpCreateJSClassInstance`, and the instance is left on the stack. -/
def newOp (env : Env) (run : Run) (fuel : Nat) (name : List Char) (q : Qinterp) :
    Traced Event Qinterp :=
  match env.qinterpFindClass name with
  | none => .ofOption (q.onAct fun a => some (a.raise .classNotFound))
  | some c =>
      match loadBaseFields env fuel c with
      | none => .timeout
      | some slots =>
          let inst := q.store.insts.length
          ({ q with store := addInst c slots q.store }.callInternalConstructors env run inst fuel
            c).bind fun (q, ok) =>
              .ofOption (q.onAct fun a =>
                some (if ok then a.push (.inst inst) else a.raise .internalError2))

/-- One instruction of `_interp`, after its word and its operands were read. -/
def step (env : Env) (run : Run) (fuel : Nat) (i : Instr) (a : Act) (q : Qinterp) :
    Traced Event Qinterp :=
  match i with
  | .emit2 .call _ _ arg1 arg2 => q.callOp env run fuel .call arg1 arg2 a
  | .emit2 .construct _ _ arg1 arg2 => q.callOp env run fuel .construct arg1 arg2 a
  | .emit2 .basecall _ _ arg1 arg2 => q.callOp env run fuel .basecall arg1 arg2 a
  | .emit1 .scall _ (some arg1) =>
      match env.constText a.frame.ctx arg1 with
      | none => .fault
      | some sig => (q.callStaticMethod env run sig).bind fun (q, err) => q.resume err
  | .emit1 .new mode (some arg1) =>
      match a.resolveValue env mode arg1 with
      | some (.string name) => q.newOp env run fuel name
      | _ => .fault
  | i => .ofOption ((a.exec env i).map q.put)

/-! ## The interpreter -/

def codeOf (f : StackFrame) : List Cell := (f.curmethod.map JsMethod.code).getD []

/-- The program counter behind the instruction that was read. -/
def advance (i : Instr) (a : Act) : Act := a.goto (a.frame.pc + i.size)

/-- The `while` of `_interp`. -/
def loop (env : Env) (run : Run) (fuel base : Nat) : Nat → Qinterp → Traced Event Qinterp
  | 0, _ => .timeout
  | n + 1, q =>
      match q.act? with
      | none => .fault
      | some a =>
          if a.frame.pc < (codeOf a.frame).length ∧ a.frame.err = .none then
            (match fetch (codeOf a.frame) a.frame.pc with
              | none => Traced.fault
              | some i =>
                  (step env run fuel i (advance i a) (q.put (advance i a))).bind
                    (loop env run fuel base n)).note (.fetch base q)
          else .pure q

/-- What is left of the operand stack after the loop: the depth it started with,
and room for a return value. -/
def stackpos (f : StackFrame) (depth : Nat) : Nat :=
  depth + if (f.curmethod.map JsMethod.hasretval).getD false then 1 else 0

/-- The epilogue of `_interp`. -/
def epilogue (pos : Nat) (a : Act) : Act :=
  let a := if a.frame.err = .ret then a.raise .none else a
  { a with stack := popTo pos a.stack }

def activation (env : Env) (run : Run) (fuel : Nat) (q : Qinterp) :
    Traced Event (Qinterp × InterpErrors) :=
  match q.act? with
  | none => .fault
  | some a =>
      let pos := stackpos a.frame a.stack.length
      (loop env run fuel a.stack.length fuel (q.put (a.goto 0))).bind fun q =>
        match q.act? with
        | none => .fault
        | some a =>
            let a := epilogue pos a
            .pure (q.put a, a.frame.err)

end Qinterp

/-- `_interp`. -/
def interp (env : Env) : Nat → Run
  | 0 => fun _ => .timeout
  | n + 1 => Qinterp.activation env (interp env n) n

/-- `qinterpRun`: the call, and the value it leaves on the operand stack. -/
def qinterpRun (env : Env) (fuel : Nat) (startcls mainmethod : List Char) (argcount : Nat)
    (q : Qinterp) : Traced Event (Qinterp × InterpErrors × Option Variant) :=
  let name := startcls ++ ['.'] ++ buildMethodSig mainmethod true ++ List.replicate argcount 'v'
  (q.callStaticMethod env (interp env fuel) name).bind fun (q, err) =>
    match q.stack with
    | [] => .pure (q, err, none)
    | v :: rest => .pure ({ q with stack := rest }, err, some v)

end Jspp.Kernel
