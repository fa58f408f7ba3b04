/-
# Kernel.Machine -- the state of the interpreter

A stack frame's `locals` vector is named by the depth of the frame, so the frame
itself only keeps how many entries it has.  All variants that a pointer can name
sit in one memory (`Store.mem`).  Lists that the C code uses as stacks have
their top first.

`Act` is what one activation of `_interp` works on: the current frame, the
operand stack and the store.  The functions here are the block and operand
operations of `interpinner.c` that stay inside one frame; `none` is a step the C
language does not define (an empty vector is popped, a variant is read under
another tag than its own).

* `enterBlock`, `leaveBlock`, `setBreak`, `breakBlock`, `setTry`, `getCatch`.
* `qinterpResolve`, `qinterpFindField`: where an operand lives.
-/
import Jspp.Compiler.Declare

namespace Jspp.Kernel

open Jspp.Compiler

set_option autoImplicit false

/-- `enum InterpErrors`. -/
inductive InterpErrors where
  | none
  | outOfMem
  | mainClassNotFound
  | classNotFound
  | unknownMethod
  | unknownOpcode
  | fieldNotFound
  | typeMismatch
  | internalError1
  | internalError2
  | badBreak
  | badContinue
  | exception
  | callRequiresThis
  | indexOutOfBounds
  | wrongArrayIndexs
  | ret
  deriving DecidableEq, Repr

/-! ## The store -/

/-- An instance: its class, and the number of its field slots. -/
structure JsInst where
  myclass : Nat
  fields : Nat
  deriving DecidableEq

structure Store where
  mem : Loc → Variant
  insts : List JsInst

namespace Store

def get (st : Store) (l : Loc) : Variant := st.mem l

def set (st : Store) (l : Loc) (v : Variant) : Store :=
  { st with mem := fun l' => if l' = l then v else st.mem l' }

/-- The slots from `lo` up to `hi` of the frame at that depth. -/
def mapSlots (st : Store) (depth lo hi : Nat) (f : Variant → Variant) : Store :=
  { st with
    mem := fun l =>
      match l with
      | .local d slot => if d = depth ∧ lo ≤ slot ∧ slot < hi then f (st.mem l) else st.mem l
      | _ => st.mem l }

/-- The variant behind a pointer, or the variant itself. -/
def deref (st : Store) : Variant → Variant
  | .ptr l => st.get l
  | v => v

@[simp] theorem get_set_self (st : Store) (l : Loc) (v : Variant) : (st.set l v).get l = v := by
  simp [get, set]

theorem get_set_ne (st : Store) {l l' : Loc} (v : Variant) (ne : l' ≠ l) :
    (st.set l v).get l' = st.get l' := by
  simp [get, set, ne]

@[simp] theorem insts_set (st : Store) (l : Loc) (v : Variant) : (st.set l v).insts = st.insts := rfl

@[simp] theorem insts_mapSlots (st : Store) (depth lo hi : Nat) (f : Variant → Variant) :
    (st.mapSlots depth lo hi f).insts = st.insts := rfl

end Store

/-- `VARCLEAR`: only a tag above `TYPE_BOOL` is cleared. -/
def Variant.varclear : Variant → Variant
  | .float _ | .inst _ | .delegate | .string _ | .ptr _ => .void
  | v => v

/-! ## Frames -/

/-- `loop` and `guard` are not fields of the C structure: they record which
`OP_SETBREAK` wrote `breakpc` and which `OP_TRY` wrote `catchpc`, by address. -/
structure BlockFrame where
  localcount : Nat
  breakpc : Int
  blockcount : Nat
  catchpc : Int
  loop : Option Int
  guard : Option Int
  deriving DecidableEq

structure StackFrame where
  ctx : Nat
  curmethod : Option JsMethod
  locals : Nat
  blockframes : List BlockFrame
  err : InterpErrors
  retval : Variant
  stackcount : Nat
  pc : Int

structure Qinterp where
  frames : List StackFrame
  stack : List Variant
  store : Store
  linenum : Int

/-- The part of the interpreter that an instruction other than a call works on. -/
structure Act where
  frame : StackFrame
  depth : Nat
  stack : List Variant
  store : Store
  linenum : Int

namespace Qinterp

/-- `curframe` with what it shares with the other frames. -/
def act? (q : Qinterp) : Option Act :=
  match q.frames with
  | [] => none
  | f :: _ => some ⟨f, q.frames.length, q.stack, q.store, q.linenum⟩

/-- The interpreter after its current frame was worked on. -/
def put (q : Qinterp) (a : Act) : Qinterp where
  frames := a.frame :: q.frames.tail
  stack := a.stack
  store := a.store
  linenum := a.linenum

end Qinterp

namespace Act

def push (v : Variant) (a : Act) : Act := { a with stack := v :: a.stack }

/-- `qip->curframe->err = e`. -/
def raise (e : InterpErrors) (a : Act) : Act := { a with frame := { a.frame with err := e } }

/-- `*pc = target`. -/
def goto (target : Int) (a : Act) : Act := { a with frame := { a.frame with pc := target } }

/-- `stackPeekN`. -/
def peekN (n : Nat) (a : Act) : Option Variant := a.stack[n]?

/-- `stackPop`. -/
def pop (a : Act) : Option Act :=
  match a.stack with
  | [] => none
  | _ :: rest => some { a with stack := rest }

/-- `stackPush`, which fails on a delegate: `varAssign` does not copy one. -/
def stackPush (v : Variant) (a : Act) : Option Act :=
  match v with
  | .delegate => some ((a.push .delegate).raise .outOfMem)
  | v => some (a.push v)

def setRetval (v : Variant) (a : Act) : Act := { a with frame := { a.frame with retval := v } }

/-! ## Blocks -/

def getBreak (f : StackFrame) : Int :=
  match f.blockframes with
  | [] => -1
  | bf :: _ => bf.breakpc

def getBreakBlockCount (f : StackFrame) : Nat :=
  match f.blockframes with
  | [] => 0
  | bf :: _ => bf.blockcount

/-- The block frame that `enterBlock` pushes. -/
def newBlock (localcount : Nat) (f : StackFrame) : BlockFrame where
  localcount := localcount
  breakpc := getBreak f
  blockcount := getBreakBlockCount f
  catchpc := -1
  loop := (f.blockframes.head?).bind BlockFrame.loop
  guard := none

def enterBlock (localcount : Nat) (a : Act) : Act :=
  let f := a.frame
  { a with
    frame := { f with
      locals := f.locals + localcount
      blockframes := newBlock localcount f :: f.blockframes }
    store := a.store.mapSlots a.depth f.locals (f.locals + localcount) fun _ => .void }

/-- `leaveBlock`; on no block at all it does nothing. -/
def leaveBlock (a : Act) : Option Act :=
  match a.frame.blockframes with
  | [] => some a
  | bf :: rest =>
      if bf.localcount ≤ a.frame.locals then
        let locals := a.frame.locals - bf.localcount
        some { a with
          frame := { a.frame with locals := locals, blockframes := rest }
          store := a.store.mapSlots a.depth locals a.frame.locals fun _ => .void }
      else none

/-- `setBreak` by the instruction at address `here`. -/
def setBreak (here : Int) (breakpc : Int) (a : Act) : Option Act :=
  match a.frame.blockframes with
  | [] => none
  | bf :: rest =>
      let bf := { bf with
        blockcount := a.frame.blockframes.length
        breakpc := breakpc
        loop := some here }
      some { a with frame := { a.frame with blockframes := bf :: rest } }

/-- `setTry` by the instruction at address `here`. -/
def setTry (here : Int) (catchpc : Int) (a : Act) : Option Act :=
  match a.frame.blockframes with
  | [] => none
  | bf :: rest =>
      let bf := { bf with catchpc := catchpc, guard := some here }
      some { a with frame := { a.frame with blockframes := bf :: rest } }

/-- The loop of `getCatch`, at most as often as there are blocks. -/
def getCatchLoop : Nat → Act → Option (Int × Act)
  | 0, a => some (-1, a)
  | n + 1, a =>
      match a.frame.blockframes with
      | [] => some (-1, a)
      | bf :: _ =>
          if bf.catchpc ≠ -1 then some (bf.catchpc, a)
          else a.leaveBlock.bind (getCatchLoop n)

def getCatch (a : Act) : Option (Int × Act) := getCatchLoop (a.frame.blockframes.length + 1) a

/-- The loop of `breakBlock`: blocks are left while there are fewer than
`blockcount`, so on a frame that has none left it would not end. -/
def breakLoop (blockcount : Nat) : Nat → Act → Option Act
  | 0, _ => none
  | n + 1, a =>
      if blockcount > a.frame.blockframes.length then
        a.leaveBlock.bind (breakLoop blockcount n)
      else some a

def breakBlock (a : Act) : Option (Int × Act) :=
  match a.frame.blockframes with
  | [] => some (-1, a)
  | bf :: _ =>
      (breakLoop bf.blockcount (bf.blockcount + 1) a).map fun a => (bf.breakpc, a)

end Act

/-! ## The program that runs -/

/-- What a native method did: it reads its arguments from the frame and the
store, and answers with its error code and its return value. -/
structure NativeResult where
  err : InterpErrors
  retval : Variant
  store : Store

/-- The parts of the machine the C code leaves open: the native methods, the low
half of an address, and the payload of a variant that was only tagged
`TYPE_VOID`.  No native method of the repository answers with an exception. -/
structure Host where
  native : JsMethod → Qinterp → NativeResult
  addr : Loc → Int
  stale : Act → Int
  calm : ∀ mp q, (native mp q).err ≠ .exception

/-- A host with the classes by number, and the class table by name. -/
structure Env extends Host where
  classes : List JsClass
  table : Table Nat

namespace Env

/-- `qinterpFindClass`. -/
def qinterpFindClass (env : Env) (name : List Char) : Option Nat := env.table.get name

/-- `jsclassFindMethod` on a class number. -/
def findMethod (env : Env) (c : Nat) (sig : List Char) : Option JsMethod :=
  (env.classes[c]?).bind fun jsp => jsclassFindMethod jsp sig

/-- An entry of `ctx->constdata`. -/
def const (env : Env) (ctx : Nat) (arg : Int) : Option Variant :=
  (env.classes[ctx]?).bind fun jsp =>
    jsp.constdata.bind fun cdata => if arg < 0 then none else cdata[arg.toNat]?

/-- The string constants: signatures and names. -/
def constText (env : Env) (ctx : Nat) (arg : Int) : Option (List Char) :=
  match env.const ctx arg with
  | some (.string text) => some text
  | _ => none

end Env

/-! ## Operands -/

/-- What `qinterpResolve` points at: an immediate or a constant, or a place. -/
inductive Source where
  | value (v : Variant)
  | loc (l : Loc)
  deriving DecidableEq

namespace Act

def qinterpResolve (env : Env) (mode : ArgSource) (arg : Int) (a : Act) : Option Source :=
  match mode with
  | .im => some (.value (.int arg))
  | .const => (env.const a.frame.ctx arg).map .value
  | .class =>
      (env.classes[a.frame.ctx]?).bind fun jsp =>
        if 0 ≤ arg ∧ arg < jsp.staticCount then some (.loc (.static a.frame.ctx arg.toNat))
        else none
  | .inst =>
      if a.frame.locals = 0 then none
      else
        match a.store.get (.local a.depth 0) with
        | .inst ip =>
            (a.store.insts[ip]?).bind fun inst =>
              if 0 ≤ arg ∧ arg < inst.fields then some (.loc (.field ip arg.toNat)) else none
        | _ => none
  | .block =>
      if 0 ≤ arg ∧ arg < a.frame.locals then some (.loc (.local a.depth arg.toNat)) else none

/-- The variant that `qinterpResolve` points at. -/
def resolveValue (env : Env) (mode : ArgSource) (arg : Int) (a : Act) : Option Variant :=
  (a.qinterpResolve env mode arg).map fun
    | .value v => v
    | .loc l => a.store.get l

/-- The place that `qinterpResolve` points at. -/
def resolveLoc (env : Env) (mode : ArgSource) (arg : Int) (a : Act) : Option Loc :=
  match a.qinterpResolve env mode arg with
  | some (.loc l) => some l
  | _ => none

/-- `stackGetThis`. -/
def stackGetThis (a : Act) : Option Nat :=
  if a.frame.locals = 0 then none
  else
    match a.store.deref (a.store.get (.local a.depth 0)) with
    | .inst ip => some ip
    | _ => none

/-- What `qinterpFindField` answered: the place of the field, or none of that name. -/
inductive Found where
  | place (l : Loc)
  | missing

/-- `qinterpFindField`: the field is looked up in the class of the instance, and
its offset is that class's own. -/
def qinterpFindField (env : Env) (pthis : Variant) (fname : List Char) (a : Act) : Option Found :=
  match a.store.deref pthis with
  | .inst ip =>
      (a.store.insts[ip]?).bind fun inst =>
        (env.classes[inst.myclass]?).bind fun jsp =>
          match jsclassFindField jsp fname with
          | none => some .missing
          | some vdp =>
              if vdp.isstatic then
                if vdp.offset < jsp.staticCount then
                  some (.place (.static inst.myclass vdp.offset))
                else none
              else if vdp.offset < inst.fields then some (.place (.field ip vdp.offset))
              else none
  | _ => none

end Act

end Jspp.Kernel
