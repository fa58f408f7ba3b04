/-
# Kernel.Prepare -- loading programs into the interpreter

`qinterpPrepare` links the classes of a parsed program into the interpreter:
their names, base classes, virtual tables and constants, and it runs the static
constructor of each.  A `Session` is what an interpreter holds between two
programs, and `Prepared` are the sessions that loading accepted texts leads to.

* `jsclassInitVtab`, `qinterpPrepare`.
* `Prepared`: from the native classes on, one accepted program after another.
-/
import Jspp.Kernel.Interp

namespace Jspp.Kernel

open Jspp.Compiler Jspp.Theory

set_option autoImplicit false

/-- The classes, the class table, the tables of the programs that were loaded,
and the state of the interpreter. -/
structure Session where
  classes : List JsClass
  table : Table Nat
  programs : List (Table Nat)
  q : Qinterp

def Session.env (host : Host) (s : Session) : Env where
  toHost := host
  classes := s.classes
  table := s.table

/-- The table of a class: its base's, and its own methods over it. -/
def vtableOf (base : Option (Table JsMethod)) (jsp : JsClass) : Table JsMethod :=
  jsp.methods.foldl (fun t mp => t.put mp.sig mp) (base.getD [])

/-- The second half of `jsclassInitVtab`, on the base's table. -/
def addVtab (c : Nat) (base : Option (Table JsMethod)) (classes : List JsClass) : List JsClass :=
  classes.modify c fun jsp =>
    { jsp with
      vtable := some (vtableOf base jsp)
      spare := jsp.spare + (jsp.fields.filter fun vdp => vdp.isstatic).length }

/-- `jsclassInitVtab`; `none` when the base chain does not end. -/
def jsclassInitVtab : Nat → Nat → List JsClass → Option (List JsClass)
  | 0, _, _ => none
  | n + 1, c, classes =>
      (classes[c]?).bind fun (jsp : JsClass) =>
        match jsp.baseclass with
        | none => some (addVtab c none classes)
        | some b =>
            (classes[b]?).bind fun (base : JsClass) =>
              match base.vtable with
              | some vtable => some (addVtab c (some vtable) classes)
              | none =>
                  (jsclassInitVtab n b classes).bind fun classes =>
                    (classes[b]?).map fun (base : JsClass) => addVtab c base.vtable classes

/-- `baseclass` and the virtual table of a class that names a base.  The inner
`none` is an unknown base. -/
def linkBase (pp : Program) (table : Table Nat) (c : Nat) (classes : List JsClass) :
    Option (Option (List JsClass)) :=
  (classes[c]?).bind fun (jsp : JsClass) =>
    if jsp.basename = [] then some (some classes)
    else
      match (pp.findClassNum jsp.basename).or (table.get jsp.basename) with
      | none => some none
      | some b =>
          let classes := classes.modify c fun jsp => { jsp with baseclass := some b }
          (jsclassInitVtab (classes.length + 1) c classes).map some

/-- The constants of the program become those of the class. -/
def setConstdata (cdata : List Variant) (c : Nat) (classes : List JsClass) : List JsClass :=
  classes.modify c fun jsp => { jsp with constdata := some cdata }

/-- One round of the loop of `qinterpPrepare`. -/
def prepareClass (host : Host) (fuel : Nat) (pp : Program) (c : Nat) (s : Session) :
    Traced Event (Session × Bool) :=
  match s.classes[c]? with
  | none => .fault
  | some jsp =>
      let s := { s with table := s.table.put jsp.name c }
      match linkBase pp s.table c s.classes with
      | none => .timeout
      | some none => .pure (s, false)
      | some (some classes) =>
          let s := { s with classes := setConstdata pp.comp.cdata c classes }
          (qinterpRun (s.env host) fuel jsp.name "@@constructor".toList 0 s.q).bind
            fun (q, err, varret) =>
              -- the caller gave no place for a value
              match varret with
              | some _ => .fault
              | none => .pure ({ s with q := q }, decide (err = InterpErrors.none))

def prepareLoop (host : Host) (fuel : Nat) (pp : Program) :
    List Nat → Session → Traced Event (Session × Bool)
  | [], s => .pure (s, true)
  | c :: cs, s =>
      (prepareClass host fuel pp c s).bind fun (s, ok) =>
        if ok then prepareLoop host fuel pp cs s else .pure (s, false)

/-- `qinterpPrepare` on a program that was parsed against this session. -/
def qinterpPrepare (host : Host) (fuel : Nat) (pp : Program) (s : Session) :
    Traced Event (Session × Bool) :=
  (prepareLoop host fuel pp pp.lclasses { s with classes := pp.heap }).bind fun (s, ok) =>
    .pure (if ok then { s with programs := s.programs ++ [pp.classes] } else s, ok)

/-- What a program is parsed against. -/
def Session.intrinsics (s : Session) : Intrinsics := ⟨s.classes, s.programs⟩

/-- A class that `qinterpLoadIntrinsics` defines: its methods have no code, it
has no base, and so preparing it made no virtual table. -/
structure Intrinsic (jsp : JsClass) : Prop where
  codes : ∀ mp ∈ jsp.methods, mp.code = [] ∧ mp.body = .empty
  base : jsp.baseclass = none
  vtable : jsp.vtable = none

/-- The sessions of an interpreter that starts with its intrinsic classes and is
given one accepted text after another. -/
inductive Prepared (host : Host) : Session → Prop where
  | start (s : Session) (natives : ∀ jsp ∈ s.classes, Intrinsic jsp) : Prepared host s
  | load {s s' : Session} {text : List Char} {fuel : Nat} (h : Prepared host s)
      (accepted : (parseChar s.intrinsics text).accepted)
      (prepared : (qinterpPrepare host fuel (parseChar s.intrinsics text) s).ending =
        .done (s', true)) : Prepared host s'

/-! ## The smallest interpreter -/

/-- A host whose natives do nothing. -/
def plainHost : Host where
  native := fun _ q => ⟨.none, .void, q.store⟩
  addr := fun _ => 1
  stale := fun _ => 0
  calm := by simp

/-- `Object` as `qinterpLoadIntrinsics` defines it, without its native methods. -/
def objectClass : JsClass :=
  { jsclassConstruct "Object".toList [] with
    methods :=
      [jsmethodConstruct 0 "@@constructor".toList true .accPrivate,
        jsmethodAddArg (jsmethodConstruct 0 "@@constructor".toList false .accPrivate)
          "this".toList false] }

def objectSession : Session where
  classes := [objectClass]
  table := [("Object".toList, 0)]
  programs := [[("Object".toList, 0)]]
  q := ⟨[], [], ⟨fun _ => .void, []⟩, 0⟩

theorem objectSession_prepared : Prepared plainHost objectSession := by
  refine .start objectSession fun jsp mem => ?_
  rw [List.mem_singleton.mp mem]
  refine ⟨fun mp method => ?_, rfl, rfl⟩
  rcases List.mem_pair.mp method with rfl | rfl <;> exact ⟨rfl, rfl⟩

/-- The session after one accepted text was loaded into the smallest interpreter. -/
def loaded (text : List Char) : Option Session :=
  let pp := parseChar objectSession.intrinsics text
  if pp.accepted then
    match (qinterpPrepare plainHost 64 pp objectSession).ending with
    | .done (s, true) => some s
    | _ => none
  else none

theorem loaded_prepared {text : List Char} {s : Session} (h : loaded text = some s) :
    Prepared plainHost s := by
  simp only [loaded] at h
  split at h
  case isFalse => cases h
  case isTrue accepted =>
      split at h
      case h_2 => cases h
      case h_1 eq =>
          cases h
          exact .load objectSession_prepared accepted eq

/-- The run of the static method `main` of class `A` of a loaded text. -/
def mainRun (text : List Char) (argcount : Nat) (stack : List Variant) :
    Option (Traced Event (Qinterp × InterpErrors × Option Variant)) :=
  (loaded text).map fun s =>
    qinterpRun (s.env plainHost) 200 "A".toList "main".toList argcount { s.q with stack := stack }

/-- A text is computed with as the list of its characters. -/
theorem of_text {P : List Char → Prop} {l : List Char} (computed : P l) :
    P (String.ofList l).toList := by
  rwa [String.toList_ofList]

theorem toList_literals (l m : List Char) :
    (String.ofList l ++ String.ofList m).toList = l ++ m := by
  rw [String.toList_append, String.toList_ofList, String.toList_ofList]

theorem toList_three (l m k : List Char) :
    (String.ofList l ++ String.ofList m ++ String.ofList k).toList = l ++ m ++ k := by
  rw [String.toList_append, toList_literals, String.toList_ofList]

/-- The log of `mainRun` without arguments. -/
def mainLog (text : List Char) : List Event := ((mainRun text 0 []).map Traced.log).getD []

end Jspp.Kernel
