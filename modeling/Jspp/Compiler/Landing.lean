/-
# Compiler.Landing -- where the jumps of a method land

Every target that the compiler patches in is the address of an instruction or of
the end of the code.  Two jumps are never patched: the one behind the clauses of
a `switch` without a `default`, whose operand stays -1, and the one behind the
body of a `for` without a post expression, whose operand is unset.

* `Instr.LandsIn`, `JumpsLand`: the operands of a method that are targets.
* `Body.bare`: the two statements; `jumpsLand_iff`.
* `Spot.Stops`, `Body.stops`: the instruction a `continue` goes to, three cells
  before the target of a `break`.
-/
import Jspp.Compiler.Wired

namespace Jspp.Compiler

open Jspp.Kernel Jspp.Theory

set_option autoImplicit false

/-! ## Targets -/

/-- An instruction of the code starts at that index. -/
def StartsAt (is : List Instr) (k : Nat) : Prop :=
  ∃ pre i post, is = pre ++ i :: post ∧ codeSize pre = k

/-- The target is the start of an instruction, or the length of the code. -/
def TargetIn (is : List Instr) (t : Option Int) : Prop :=
  ∃ k : Nat, t = some ↑k ∧ (StartsAt is k ∨ k = codeSize is)

/-- The operand of a jump, of `OP_TRY` or of `OP_SETBREAK` is a target; -1 is none for
the last one. -/
def Instr.LandsIn (is : List Instr) : Instr → Prop
  | .emit1 .jmp _ t | .emit1 .jmpz _ t | .emit1 .jmpnz _ t | .emit1 .try _ t => TargetIn is t
  | .emit1 .setbreak _ t => t = some (-1) ∨ TargetIn is t
  | _ => True

/-- Every jump of the code lands on an instruction or behind the last one. -/
def JumpsLand (is : List Instr) : Prop := ∀ i ∈ is, i.LandsIn is

theorem startsAt_of_lineAt {ls : List Spot} {k : Nat} {l : Spot} (read : lineAt ls k = some l) :
    StartsAt (ls.map Spot.instr) k := by
  obtain ⟨pre, post, rfl, ext⟩ := lineAt_eq_some read
  refine ⟨pre.map Spot.instr, l.instr, post.map Spot.instr, by simp, ?_⟩
  rw [← extent_eq_codeSize, ext]

theorem LeadsTo.target {ls : List Spot} {last : Ctx} {t : Int} {blocks : List Nat}
    (leads : LeadsTo ls last t blocks) : TargetIn (ls.map Spot.instr) (some t) := by
  obtain ⟨k, rfl, c, point, _⟩ := leads
  rcases point with ⟨l, read, _⟩ | ⟨ends, _⟩
  · exact ⟨k, rfl, .inl (startsAt_of_lineAt read)⟩
  · exact ⟨k, rfl, .inr (ends.trans (extent_eq_codeSize ls))⟩

/-! ## Jumps without a target -/

/-- The operand of a jump was filled in. -/
def Instr.Filled : Instr → Prop
  | .emit1 .jmp _ t => ∃ k : Nat, t = some ↑k
  | .emit1 .jmpz _ t | .emit1 .jmpnz _ t => t ≠ none
  | _ => True

def FilledAll (is : List Instr) : Prop := ∀ i ∈ is, i.Filled

@[simp] theorem filledAll_nil : FilledAll [] := fun _ mem => absurd mem List.not_mem_nil

@[simp] theorem filledAll_cons {i : Instr} {is : List Instr} :
    FilledAll (i :: is) ↔ i.Filled ∧ FilledAll is :=
  List.forall_mem_cons

@[simp] theorem filledAll_append {is js : List Instr} :
    FilledAll (is ++ js) ↔ FilledAll is ∧ FilledAll js :=
  List.forall_mem_append

@[simp] theorem filled_jmp (k : Nat) : (Instr.jmp (some ↑k)).Filled := ⟨k, rfl⟩

@[simp] theorem not_filled_unset : ¬ (Instr.jmp none).Filled := nofun

@[simp] theorem not_filled_none : ¬ (Instr.jmp (some (-1))).Filled := by
  rintro ⟨k, eq⟩
  cases eq

theorem StraightAll.filled {is : List Instr} (h : StraightAll is) : FilledAll is := by
  intro i mem
  have plain := h i mem
  unfold Instr.Filled
  split
  case h_4 => trivial
  all_goals cases plain

/-- There is a `default` clause among the clauses. -/
def Cases.hasDefault : Cases → Bool
  | .nil => false
  | .case _ _ rest => rest.hasDefault
  | .default _ _ => true

mutual

/-- The statement has a `switch` without a `default` clause or a `for` without a
post expression in it. -/
def Stmt.bare : Stmt → Bool
  | .skip | .decl _ | .line _ | .expr _ | .ret _ | .vret | .brk | .cont | .throw _ => false
  | .seq s t => s.bare || t.bare
  | .block _ s => s.bare
  | .ite _ s t => s.bare || t.bare
  | .while _ s => s.bare
  | .for _ post s => post.isNone || s.bare
  | .switch _ _ cases => !cases.hasDefault || cases.bare
  | .try s _ _ handler fin => s.bare || handler.bare || fin.bare

def Cases.bare : Cases → Bool
  | .nil => false
  | .case _ s rest => s.bare || rest.bare
  | .default s rest => s.bare || rest.bare

end

def Body.bare : Body → Bool
  | .empty | .inits _ => false
  | .method _ s => s.bare

theorem Cases.defaultPc_nat (cs : Cases) (b k : Nat) : ∃ n : Nat, cs.defaultPc b k = n := by
  cases cs with
  | nil => exact ⟨k, rfl⟩
  | case v s rest => exact Cases.defaultPc_nat rest _ k
  | default s rest => exact Cases.defaultPc_nat rest _ (b + 3)

theorem Cases.defaultPc_some {cs : Cases} (given : cs.hasDefault = true) (b : Nat) (pc : Int) :
    ∃ n : Nat, cs.defaultPc b pc = n := by
  cases cs with
  | nil => cases given
  | case v s rest => exact @Cases.defaultPc_some rest given _ pc
  | default s rest => exact Cases.defaultPc_nat rest _ (b + 3)

theorem Cases.defaultPc_none {cs : Cases} (missing : cs.hasDefault = false) (b : Nat) (pc : Int) :
    cs.defaultPc b pc = pc := by
  cases cs with
  | nil => rfl
  | case v s rest => exact @Cases.defaultPc_none rest missing _ pc
  | default s rest => cases missing

/-- The jump behind the clauses of a `switch`. -/
theorem filled_default (cs : Cases) (b : Nat) :
    (Instr.jmp (some (cs.defaultPc b (-1)))).Filled ↔ cs.hasDefault = true := by
  cases given : cs.hasDefault with
  | true =>
      obtain ⟨n, eq⟩ := Cases.defaultPc_some given b (-1)
      simp [eq]
  | false => simp [Cases.defaultPc_none given]

/-- The jump behind the body of a `for`. -/
theorem filled_post (b : Nat) (post : Option Expr) :
    (Instr.jmp (postPc b post)).Filled ↔ post.isNone = false := by
  cases post with
  | none => simp [postPc]
  | some e => exact iff_of_true (filled_jmp (b + 3)) rfl

theorem filledAll_post (eval b : Nat) (post : Option Expr) : FilledAll (postCode eval b post) := by
  cases post with
  | none => exact filledAll_nil
  | some e =>
      simp only [postCode, filledAll_cons, filledAll_append, filledAll_nil, and_true]
      exact ⟨filled_jmp _, e.straight.filled, filled_jmp _⟩

@[simp] theorem filled_emit0 (op : OpCode) : (Instr.emit0 op).Filled := by
  cases op <;> trivial

theorem filled_im {op : OpCode} (ne : op ≠ .jmp) (arg : Int) : (Instr.im op arg).Filled := by
  cases op with
  | jmp => exact absurd rfl ne
  | jmpz | jmpnz => exact Option.some_ne_none arg
  | _ => trivial

mutual

/-- The jumps of a statement are filled in unless one of the two statements is in it. -/
theorem Stmt.filled_iff (s : Stmt) (b : Nat) : FilledAll (s.code b) ↔ s.bare = false := by
  have im : ∀ (op : OpCode), op ≠ .jmp → ∀ arg, (Instr.im op arg).Filled := fun _ ne => filled_im ne
  cases s with
  | skip | decl | line | vret | brk | cont => simp [Stmt.code, Stmt.bare, im]
  | expr e => simp [Stmt.code, Stmt.bare, e.straight.filled]
  | ret e | throw e => simp [Stmt.code, Stmt.bare, e.straight.filled]
  | seq s t => simp [Stmt.code, Stmt.bare, Stmt.filled_iff s, Stmt.filled_iff t]
  | block n s => simp [Stmt.code, Stmt.bare, Stmt.filled_iff s, im]
  | ite e s t =>
      simp only [Stmt.code, Stmt.bare, filledAll_append, filledAll_cons, Stmt.filled_iff s,
        Stmt.filled_iff t, e.straight.filled, filled_jmp, im, ne_eq, reduceCtorEq,
        not_false_eq_true, true_and, Bool.or_eq_false_iff]
  | «while» e s =>
      simp only [Stmt.code, Stmt.bare, filledAll_append, filledAll_cons, filledAll_nil,
        Stmt.filled_iff s, e.straight.filled, filled_jmp, im, ne_eq, reduceCtorEq,
        not_false_eq_true, true_and, and_true]
  | «for» cond post s =>
      simp only [Stmt.code, Stmt.bare, filledAll_append, filledAll_cons, filledAll_nil,
        Stmt.filled_iff s, (optCode_straight cond).filled, filledAll_post, filled_post, im, ne_eq,
        reduceCtorEq, not_false_eq_true, true_and, and_true, Bool.or_eq_false_iff]
      exact and_comm
  | switch e n cs =>
      simp only [Stmt.code, Stmt.bare, filledAll_append, filledAll_cons, filledAll_nil,
        Cases.filled_iff cs, e.straight.filled, filled_default, filled_emit0, im, ne_eq,
        reduceCtorEq, not_false_eq_true, true_and, and_true, Bool.or_eq_false_iff,
        Bool.not_eq_false']
      exact and_comm
  | «try» s v n h f =>
      have slot : (Instr.emit1 .lvalue .block (some ↑v.offset)).Filled := trivial
      simp only [Stmt.code, Stmt.bare, filledAll_append, filledAll_cons, filledAll_nil,
        Stmt.filled_iff s, Stmt.filled_iff h, Stmt.filled_iff f, filled_jmp, filled_emit0, slot, im,
        ne_eq, reduceCtorEq, not_false_eq_true, true_and, and_true, Bool.or_eq_false_iff, and_assoc]

theorem Cases.filled_iff (cs : Cases) (b : Nat) : FilledAll (cs.code b) ↔ cs.bare = false := by
  have im : ∀ arg, (Instr.im .jmpz arg).Filled := filled_im (by decide)
  cases cs with
  | nil => simp [Cases.code, Cases.bare]
  | case v s rest =>
      simp only [Cases.code, Cases.bare, filledAll_append, filledAll_cons, Stmt.filled_iff s,
        Cases.filled_iff rest, v.straight.filled, filled_emit0, im, true_and,
        Bool.or_eq_false_iff]
  | default s rest =>
      simp only [Cases.code, Cases.bare, filledAll_append, filledAll_cons, Stmt.filled_iff s,
        Cases.filled_iff rest, filled_jmp, true_and, Bool.or_eq_false_iff]

end

theorem Body.filled_iff (body : Body) : FilledAll body.code ↔ body.bare = false := by
  cases body with
  | empty => simp [Body.code, Body.bare]
  | method n s =>
      have enter : (Instr.im .enter n).Filled := trivial
      simp [Body.code, Body.bare, Stmt.filled_iff s, enter]
  | inits es => simp [Body.code, Body.bare, es.straight.filled]

/-- A wired instruction lands when its jump was filled in. -/
theorem Spot.Wired.landsIn_iff {ls : List Spot} {last : Ctx} {b : Nat} {l : Spot}
    (wired : l.Wired ls last b) : l.instr.LandsIn (ls.map Spot.instr) ↔ l.instr.Filled := by
  obtain ⟨i, c, scope⟩ := l
  cases i with
  | emit0 op => exact iff_of_true (by cases op <;> trivial) (filled_emit0 op)
  | emit2 op mode mode2 arg1 arg2 => exact iff_of_true trivial trivial
  | emit1 op mode arg =>
      cases op with
      | jmp =>
          constructor
          · rintro ⟨k, eq, _⟩
            exact ⟨k, eq⟩
          · rintro ⟨k, rfl⟩
            rcases wired with neg | leads
            · cases neg
            · exact leads.target
      | jmpz | jmpnz =>
          cases arg with
          | none => exact iff_of_false (fun ⟨_, eq, _⟩ => nomatch eq) fun ne => ne rfl
          | some t => exact iff_of_true wired.2.target (Option.some_ne_none t)
      | «try» =>
          cases arg with
          | none => exact False.elim wired
          | some t => exact iff_of_true wired.2.2.target trivial
      | setbreak =>
          cases arg with
          | none => exact False.elim wired
          | some t =>
              refine iff_of_true ?_ trivial
              rcases wired.2.2 with rfl | ⟨leads, _⟩
              · exact .inl rfl
              · exact .inr leads.target
      | _ => exact iff_of_true trivial trivial

/-- All the jumps of a method land, unless one of the two statements is in it. -/
theorem jumpsLand_iff (body : Body) : JumpsLand body.code ↔ body.bare = false := by
  rw [← Body.filled_iff, ← Body.map_spots [] body]
  refine forall₂_congr fun i mem => ?_
  obtain ⟨l, inSpots, rfl⟩ := List.mem_map.mp mem
  obtain ⟨pre, post, eq⟩ := List.append_of_mem inSpots
  have read : lineAt (body.spots []) (extent pre) = some l := by
    rw [eq]
    simpa using lineAt_append pre (l :: post) 0
  exact ((Body.wired [] body).at read).landsIn_iff

/-! ## Three cells before the end of a loop -/

/-- The address is the end of a `switch`. -/
def EndsSwitch (ls : List Spot) (t : Int) : Prop :=
  ∃ l ∈ ls, ∃ loop ∈ l.ctx.loops, t = loop.stop ∧ loop.next = none

/-- Three cells before the target that an instruction sets for `break` another one
starts, unless the target is the end of a `switch`. -/
def Spot.Stops (whole : List Spot) (l : Spot) : Prop :=
  ∀ mode t, l.instr = .emit1 .setbreak mode (some t) →
    t = -1 ∨ EndsSwitch whole t ∨ ∃ (k : Nat) (jump : Spot), t - 3 = k ∧ lineAt whole k = some jump

def StopsAll (whole ls : List Spot) : Prop := ∀ l ∈ ls, l.Stops whole

section

variable {whole : List Spot}

@[simp] theorem stopsAll_nil : StopsAll whole [] := fun _ mem => absurd mem List.not_mem_nil

@[simp] theorem stopsAll_cons {l : Spot} {ls : List Spot} :
    StopsAll whole (l :: ls) ↔ l.Stops whole ∧ StopsAll whole ls :=
  List.forall_mem_cons

@[simp] theorem stopsAll_append {xs ys : List Spot} :
    StopsAll whole (xs ++ ys) ↔ StopsAll whole xs ∧ StopsAll whole ys :=
  List.forall_mem_append

theorem stops_of_ne {i : Instr} {c : Ctx} {scope : List Local} (ne : i.op ≠ .setbreak) :
    Spot.Stops whole ⟨i, c, scope⟩ := by
  intro mode t eq
  rw [show i = _ from eq] at ne
  exact absurd rfl ne

theorem straight_stops {is : List Instr} (plain : StraightAll is) (c : Ctx) (scope : List Local) :
    StopsAll whole (marked c scope is) := by
  intro l mem
  obtain ⟨i, inCode, rfl⟩ := List.mem_map.mp mem
  refine stops_of_ne fun eq => ?_
  have straight := plain i inCode
  rw [eq] at straight
  cases straight

theorem postCode_stops (post : Option Expr) (eval b : Nat) (c : Ctx) (scope : List Local) :
    StopsAll whole (marked c scope (postCode eval b post)) := by
  cases post with
  | none => exact stopsAll_nil
  | some e =>
      rw [postCode, marked, List.map_cons, List.map_append, stopsAll_cons, stopsAll_append]
      exact ⟨stops_of_ne nofun, straight_stops e.straight c scope, stopsAll_cons.mpr
        ⟨stops_of_ne nofun, stopsAll_nil⟩⟩

/-- The end of a loop is behind the jump that closes it. -/
theorem stops_of_jump {k : Nat} {jump : Spot} {ls : List Spot} (placed : Placed whole k (jump :: ls))
    {t : Int} (eq : t - 3 = k) (c : Ctx) (scope : List Local) :
    Spot.Stops whole ⟨.im .setbreak t, c, scope⟩ := by
  intro mode t' same
  cases same
  exact .inr (.inr ⟨k, jump, eq, lineAt_of_placed placed⟩)

theorem stops_none (c : Ctx) (scope : List Local) :
    Spot.Stops whole ⟨.im .setbreak (-1), c, scope⟩ := by
  intro mode t same
  cases same
  exact .inl rfl

mutual

theorem Stmt.stops {s : Stmt} {b : Nat} {c : Ctx} {scope : List Local}
    (placed : Placed whole b (s.spots b c scope)) : StopsAll whole (s.spots b c scope) := by
  cases s with
  | skip | decl => exact stopsAll_nil
  | line | brk | cont => exact stopsAll_cons.mpr ⟨stops_of_ne nofun, stopsAll_nil⟩
  | vret =>
      exact stopsAll_cons.mpr ⟨stops_of_ne nofun, stopsAll_cons.mpr ⟨stops_of_ne nofun, stopsAll_nil⟩⟩
  | expr e => exact straight_stops e.straight c scope
  | ret e | throw e =>
      exact stopsAll_append.mpr ⟨straight_stops e.straight c scope,
        stopsAll_cons.mpr ⟨stops_of_ne nofun, stopsAll_nil⟩⟩
  | seq s t =>
      obtain ⟨first, second⟩ := placed_stmt placed
      exact stopsAll_append.mpr ⟨Stmt.stops first, Stmt.stops second⟩
  | block n s =>
      obtain ⟨body, _⟩ := placed_stmt (Placed.tail placed)
      simp only [Stmt.spots, stopsAll_cons, stopsAll_append, stopsAll_nil, and_true]
      exact ⟨stops_of_ne nofun, Stmt.stops body, stops_of_ne nofun⟩
  | ite e s t =>
      obtain ⟨_, behind⟩ := placed_marked placed
      obtain ⟨body, jump⟩ := placed_stmt behind.tail
      simp only [Stmt.spots, stopsAll_cons, stopsAll_append]
      exact ⟨straight_stops e.straight c scope, stops_of_ne nofun, Stmt.stops body,
        stops_of_ne nofun, Stmt.stops jump.tail⟩
  | «while» e s =>
      obtain ⟨_, behindTest⟩ := placed_marked placed.tail
      obtain ⟨body, behindBody⟩ := placed_stmt behindTest.tail
      simp only [Stmt.spots, stopsAll_cons, stopsAll_append, stopsAll_nil, and_true]
      refine ⟨stops_of_jump behindBody ?_ c scope, straight_stops e.straight _ scope,
        stops_of_ne nofun, Stmt.stops body, stops_of_ne nofun, stops_none _ _⟩
      have same : e.size = codeSize e.code := rfl
      simp only [line_size, Instr.size_im]
      omega
  | «for» cond post s =>
      obtain ⟨_, behindTest⟩ := placed_marked placed.tail
      obtain ⟨_, behindPost⟩ := placed_marked behindTest.tail
      rw [codeSize_postCode] at behindPost
      obtain ⟨body, behindBody⟩ := placed_stmt behindPost
      simp only [Stmt.spots, stopsAll_cons, stopsAll_append, stopsAll_nil, and_true]
      refine ⟨stops_of_jump behindBody ?_ c scope, straight_stops (optCode_straight cond) _ scope,
        stops_of_ne nofun, postCode_stops post _ _ _ _, Stmt.stops body, stops_of_ne nofun,
        stops_none _ _⟩
      simp only [line_size, Instr.size_im]
      omega
  | switch e n cs =>
      obtain ⟨_, behind⟩ := placed_marked placed
      obtain ⟨body, _⟩ := placed_cases behind.tail.tail
      simp only [Stmt.spots, stopsAll_cons, stopsAll_append, stopsAll_nil, and_true]
      refine ⟨straight_stops e.straight c scope, ?_, stops_of_ne nofun, Cases.stops body,
        stops_of_ne nofun, stops_of_ne nofun⟩
      intro mode t same
      cases same
      obtain ⟨pre, post, eq, _⟩ := behind.tail.head
      refine .inr (.inl ⟨_, by rw [eq]; exact List.mem_append_right _ (List.mem_cons_self), ?_⟩)
      exact ⟨_, List.mem_cons_self, rfl, rfl⟩
  | «try» s v n h f =>
      simp only [Stmt.spots, marked, List.map_cons, List.map_nil, List.append_assoc,
        List.cons_append, List.nil_append] at placed ⊢
      obtain ⟨body, behindBody⟩ := placed_stmt placed.tail
      obtain ⟨handled, behind⟩ := placed_stmt
        behindBody.tail.tail.tail.tail.tail.tail.tail.tail
      obtain ⟨final, _⟩ := placed_stmt behind.tail
      simp only [stopsAll_cons, stopsAll_append, stopsAll_nil, and_true]
      exact ⟨stops_of_ne nofun, Stmt.stops body, stops_of_ne nofun, stops_of_ne nofun,
        stops_of_ne nofun, stops_of_ne nofun, stops_of_ne nofun, stops_of_ne nofun,
        stops_of_ne nofun, stops_of_ne nofun, Stmt.stops handled, stops_of_ne nofun,
        Stmt.stops (final.move (by simp; omega)), stops_of_ne nofun⟩

theorem Cases.stops {cs : Cases} {b : Nat} {c : Ctx} {scope : List Local}
    (placed : Placed whole b (cs.spots b c scope)) : StopsAll whole (cs.spots b c scope) := by
  cases cs with
  | nil => exact stopsAll_nil
  | case v s rest =>
      simp only [Cases.spots] at placed ⊢
      obtain ⟨body, behind⟩ := placed_stmt placed.append_right
      have at_body : b + extent (marked c scope (.emit0 .dup :: (v.code ++
          [.emit0 .eq, .im .jmpz ↑(b + 1 + v.size + 4 + s.size)]))) = b + 1 + v.size + 4 := by
        rw [extent_marked]
        simp [Expr.size]
        omega
      refine stopsAll_append.mpr ⟨?_, stopsAll_append.mpr
        ⟨Stmt.stops (body.move at_body), Cases.stops (behind.move (congrArg (· + s.size) at_body))⟩⟩
      intro l mem
      obtain ⟨i, inCode, rfl⟩ := List.mem_map.mp mem
      refine stops_of_ne fun eq => ?_
      rcases List.mem_cons.mp inCode with rfl | inCode
      · cases eq
      · rcases List.mem_append.mp inCode with inValue | inTest
        · have plain := v.straight i inValue
          rw [eq] at plain
          cases plain
        · simp only [List.mem_cons, List.not_mem_nil, or_false] at inTest
          rcases inTest with rfl | rfl <;> cases eq
  | default s rest =>
      obtain ⟨body, behind⟩ := placed_stmt placed.tail
      exact stopsAll_cons.mpr ⟨stops_of_ne nofun,
        stopsAll_append.mpr ⟨Stmt.stops body, Cases.stops behind⟩⟩

end

end

/-- Three cells before the end of a loop another instruction starts. -/
theorem Body.stops (params : List Local) (body : Body) :
    StopsAll (body.spots params) (body.spots params) := by
  have placed := Placed.self (body.spots params)
  cases body with
  | empty => exact stopsAll_nil
  | method n s =>
      obtain ⟨code, _⟩ := placed_stmt placed.tail
      have body := Stmt.stops code
      exact stopsAll_cons.mpr ⟨stops_of_ne nofun, stopsAll_append.mpr
        ⟨body, stopsAll_cons.mpr ⟨stops_of_ne nofun, stopsAll_nil⟩⟩⟩
  | inits es =>
      rw [Body.spots, marked, List.map_append]
      exact stopsAll_append.mpr ⟨straight_stops es.straight .start [],
        stopsAll_cons.mpr ⟨stops_of_ne nofun, stopsAll_nil⟩⟩

end Jspp.Compiler
