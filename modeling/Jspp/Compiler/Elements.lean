/-
# Compiler.Elements -- the elements of an array literal

`arraydef` reads literals until a closing brace.  The comma behind one is skipped where it
stands, and not asked for where it does not.

* `literalValue`, `Expr.IsLiteral`: what a literal means, and the code that has that meaning.
* `Spells`: the tokens are literals, each with a comma behind it or without.
* `array_spells`: what `arraydef` makes of such tokens.
-/
import Jspp.Compiler.EmitsExpr

namespace Jspp.Compiler

open Jspp.Kernel

set_option autoImplicit false

/-! ## Literals -/

/-- The value of the literal at hand. -/
def literalValue (lex : Jspplex) : Option Variant :=
  match lex.token with
  | .int => some (.int (atoi lex.lex))
  | .real => some (.float (atof lex.lex))
  | .string => some (.string lex.lex)
  | .char => some (.char ((lex.lex.head?.map chOf).getD 0))
  | .yytrue => some (.int 1)
  | .yyfalse => some (.int 0)
  | .jnull => some .null
  | _ => none

/-- With these constants the expression is a literal of the value. -/
def Expr.IsLiteral (cdata : List Variant) (e : Expr) (v : Variant) : Prop :=
  match e with
  | .push .im arg => v = .int arg
  | .push .const idx => 0 ≤ idx ∧ cdata[idx.toNat]? = some v ∧ v.isPtr = false ∧ v ≠ .delegate
  | .null => v = .null
  | _ => False

/-- The elements are literals of these values. -/
def Args.AreLiterals (cdata : List Variant) : Args → List Variant → Prop
  | .nil, [] => True
  | .cons e elems, v :: values => e.IsLiteral cdata v ∧ elems.AreLiterals cdata values
  | _, _ => False

theorem getElem?_of_ext {cdata more : List Variant} (ext : cdata <+: more) {i : Nat} {v : Variant}
    (found : cdata[i]? = some v) : more[i]? = some v := by
  obtain ⟨rest, rfl⟩ := ext
  obtain ⟨less, -⟩ := List.getElem?_eq_some_iff.mp found
  rw [List.getElem?_append_left less, found]

theorem Expr.IsLiteral.mono {cdata more : List Variant} {e : Expr} {v : Variant}
    (ext : cdata <+: more) (h : e.IsLiteral cdata v) : e.IsLiteral more v := by
  unfold Expr.IsLiteral at h ⊢
  split at h
  · exact h
  · exact ⟨h.1, getElem?_of_ext ext h.2.1, h.2.2⟩
  · exact h
  · exact h.elim

theorem Args.AreLiterals.mono {cdata more : List Variant} (ext : cdata <+: more) :
    ∀ {elems : Args} {values : List Variant}, elems.AreLiterals cdata values →
      elems.AreLiterals more values
  | .nil, [], h => h
  | .nil, _ :: _, h => h.elim
  | .cons _ _, [], h => h.elim
  | .cons _ _, _ :: _, h => ⟨h.1.mono ext, Args.AreLiterals.mono ext h.2⟩

theorem Args.AreLiterals.snoc {cdata : List Variant} {e : Expr} {v : Variant}
    (last : e.IsLiteral cdata v) :
    ∀ {elems : Args} {values : List Variant}, elems.AreLiterals cdata values →
      (elems.snoc e).AreLiterals cdata (values ++ [v])
  | .nil, [], _ => ⟨last, trivial⟩
  | .nil, _ :: _, h => h.elim
  | .cons _ _, [], h => h.elim
  | .cons _ _, _ :: _, h => ⟨h.1, Args.AreLiterals.snoc last h.2⟩

/-- What was read is a literal of the value; the token behind it was not read yet. -/
structure ReadsLiteral (s : Comp) (r : Comp × Expr) (v : Variant) : Prop where
  scan : r.1.scan = s.scan
  ok : r.1.ok ↔ s.ok
  consts : s.cdata <+: r.1.cdata
  value : r.2.IsLiteral r.1.cdata v

theorem pushArg_value (s : Comp) (arg : Int) : ReadsLiteral s (pushArg .im arg s) (.int arg) :=
  ⟨rfl, Iff.rfl, List.prefix_rfl, rfl⟩

theorem pushConst_value (s : Comp) {v : Variant} (value : v.isPtr = false)
    (copied : v ≠ .delegate) : ReadsLiteral s (pushConst v s) v :=
  ⟨rfl, Iff.rfl, List.prefix_append _ _, Int.natCast_nonneg _, List.getElem?_concat_length, value,
    copied⟩

/-- A literal is compiled to code of its value. -/
theorem literal_value {s : Comp} {v : Variant} (known : literalValue s.lex = some v) :
    ∃ r, literal s = some r ∧ ReadsLiteral s r v := by
  unfold literalValue at known
  split at known
  all_goals rename_i token
  case h_8 => cases known
  all_goals
    cases known
    simp only [literal, Comp.token, token]
  · exact ⟨_, rfl, pushArg_value s _⟩
  · exact ⟨_, rfl, pushConst_value s rfl nofun⟩
  · exact ⟨_, rfl, pushConst_value s rfl nofun⟩
  · exact ⟨_, rfl, pushConst_value s rfl nofun⟩
  · exact ⟨_, rfl, pushArg_value s _⟩
  · exact ⟨_, rfl, pushArg_value s _⟩
  · exact ⟨_, rfl, rfl, Iff.rfl, List.prefix_rfl, rfl⟩

/-! ## Lists of literals -/

/-- From here on the tokens are literals of these values, each with a comma behind it or not,
and then a closing brace. -/
inductive Spells : Scanned → List (Variant × Bool) → Scanned → Prop where
  | done {sc : Scanned} (closed : sc.lex.token = .rbrace) : Spells sc [] sc
  | comma {sc sc' : Scanned} {v : Variant} {lits : List (Variant × Bool)}
      (value : literalValue sc.lex = some v) (separated : sc.next.lex.token = .comma)
      (rest : Spells sc.next.next lits sc') : Spells sc ((v, true) :: lits) sc'
  | bare {sc sc' : Scanned} {v : Variant} {lits : List (Variant × Bool)}
      (value : literalValue sc.lex = some v) (joined : sc.next.lex.token ≠ .comma)
      (rest : Spells sc.next lits sc') : Spells sc ((v, false) :: lits) sc'

/-- A comma stands between every two of them. -/
def Separated (lits : List (Variant × Bool)) : Prop := ∀ lit ∈ lits.dropLast, lit.2 = true

theorem Spells.closed {sc sc' : Scanned} {lits : List (Variant × Bool)}
    (spells : Spells sc lits sc') : sc'.lex.token = .rbrace := by
  induction spells with
  | done closed => exact closed
  | comma _ _ _ ih => exact ih
  | bare _ _ _ ih => exact ih

theorem literalValue_token {lex : Jspplex} {v : Variant} (known : literalValue lex = some v) :
    lex.token ≠ .rbrace ∧ lex.token ≠ .jeof := by
  unfold literalValue at known
  split at known
  all_goals rename_i token
  case h_8 => cases known
  all_goals rw [token]; exact ⟨nofun, nofun⟩

theorem scan_skip (s : Comp) (t : Token) :
    (s.skip t).scan = if s.scan.lex.token = t then s.scan.next else s.scan := by
  unfold Comp.skip
  exact apply_ite Comp.scan _ _ _

/-- One round of `arrayLoop`: a literal, and a comma when there is one. -/
theorem arrayLoop_round (addidx n : Nat) {elems : Args} {values : List Variant} {s : Comp}
    {v : Variant} (known : literalValue s.lex = some v)
    (before : elems.AreLiterals s.cdata values) :
    ∃ s₁ elems₁, arrayLoop addidx (n + 1) elems s = arrayLoop addidx n elems₁ s₁ ∧
      s₁.scan = (if s.scan.next.lex.token = .comma then s.scan.next.next else s.scan.next) ∧
      (s₁.ok ↔ s.ok) ∧ s.cdata <+: s₁.cdata ∧ elems₁.AreLiterals s₁.cdata (values ++ [v]) := by
  obtain ⟨open_, more⟩ := literalValue_token known
  have inside : s.token ≠ .rbrace ∧ s.token ≠ .jeof := ⟨open_, more⟩
  have same : literalValue (s.emit0 .dup).lex = some v := known
  obtain ⟨⟨s₁, e⟩, run, scan, ok, consts, value⟩ := literal_value same
  refine ⟨(((s₁.next.skip .comma).emit2 .call .const .im).emitArg (some addidx)).emitArg (some 1),
    elems.snoc e, ?_, ?_, ?_, ?_, ?_⟩
  · rw [arrayLoop, if_pos inside]
    simp only [run]
  · have moved : s₁.next.scan = s.scan.next := congrArg Scanned.next scan
    have skipped := scan_skip s₁.next .comma
    rw [moved] at skipped
    exact skipped
  · have skipped : (s₁.next.skip .comma).ok ↔ s₁.ok := by simp
    exact skipped.trans ok
  · have skipped : (s₁.next.skip .comma).cdata = s₁.cdata := Comp.cdata_skip _ _
    exact skipped ▸ consts
  · have skipped : (s₁.next.skip .comma).cdata = s₁.cdata := Comp.cdata_skip _ _
    have all := Args.AreLiterals.snoc value (before.mono consts)
    exact skipped ▸ all

theorem arrayLoop_spells (addidx : Nat) {sc sc' : Scanned} {lits : List (Variant × Bool)}
    (spells : Spells sc lits sc') {n : Nat} (room : lits.length < n) {elems : Args}
    {values : List Variant} {s : Comp} (here : s.scan = sc)
    (before : elems.AreLiterals s.cdata values) :
    ∃ s' elems', arrayLoop addidx n elems s = (s', elems', true) ∧ s'.scan = sc' ∧
      (s'.ok ↔ s.ok) ∧ s.cdata <+: s'.cdata ∧
      elems'.AreLiterals s'.cdata (values ++ lits.map Prod.fst) := by
  induction spells generalizing n elems values s with
  | done closed =>
      obtain ⟨m, rfl⟩ : ∃ m, n = m + 1 := ⟨n - 1, by omega⟩
      have outside : ¬(s.token ≠ .rbrace ∧ s.token ≠ .jeof) := fun inside =>
        inside.1 (by rw [Comp.token, Comp.lex, here, closed])
      refine ⟨s, elems, ?_, here, Iff.rfl, List.prefix_rfl, ?_⟩
      · rw [arrayLoop, if_neg outside]
      · rwa [List.map_nil, List.append_nil]
  | comma value separated rest ih =>
      obtain ⟨m, rfl⟩ : ∃ m, n = m + 1 := ⟨n - 1, by omega⟩
      subst here
      obtain ⟨s₁, elems₁, round, scan, ok, consts, all⟩ := arrayLoop_round addidx m value before
      rw [if_pos separated] at scan
      obtain ⟨s', elems', loop, scan', ok', consts', all'⟩ :=
        ih (Nat.lt_of_succ_lt_succ room) scan all
      refine ⟨s', elems', round.trans loop, scan', ok'.trans ok, consts.trans consts', ?_⟩
      rwa [List.append_assoc] at all'
  | bare value joined rest ih =>
      obtain ⟨m, rfl⟩ : ∃ m, n = m + 1 := ⟨n - 1, by omega⟩
      subst here
      obtain ⟨s₁, elems₁, round, scan, ok, consts, all⟩ := arrayLoop_round addidx m value before
      rw [if_neg joined] at scan
      obtain ⟨s', elems', loop, scan', ok', consts', all'⟩ :=
        ih (Nat.lt_of_succ_lt_succ room) scan all
      refine ⟨s', elems', round.trans loop, scan', ok'.trans ok, consts.trans consts', ?_⟩
      rwa [List.append_assoc] at all'

theorem arrayTail_closed {P : Parsers} {clsidx addidx : Nat} {s s' : Comp} {elems : Args}
    (loop : arrayLoop addidx P.rounds .nil (((((s.emit1 .new .const).emitArg
      (some clsidx)).emit2 .construct .const .im).emitArg (some clsidx)).emitArg (some 0)) =
        (s', elems, true)) (closed : s'.token = .rbrace) :
    arrayTail P clsidx addidx s = (s'.next, .array clsidx addidx elems) := by
  simp only [arrayTail, loop, not_true_eq_false, if_false, ne_eq, closed]

/-- An array literal is read with its commas or without, and no error is recorded. -/
theorem array_spells {P : Parsers} {g : Scope} {s : Comp} (brace : s.token = .lbrace)
    (known : (g.findClass "Vector".toList).isSome = true) {sc' : Scanned}
    {lits : List (Variant × Bool)} (spells : Spells s.scan.next lits sc')
    (room : lits.length < P.rounds) :
    ∃ (s' : Comp) (clsidx addidx : Nat) (elems : Args),
      singleton P g s = (s', .array clsidx addidx elems) ∧ s'.scan = sc'.next ∧
      (s'.ok ↔ s.ok) ∧ s.cdata <+: s'.cdata ∧ TextAt s'.cdata clsidx "Vector".toList ∧
      TextAt s'.cdata addidx "add:Ivvv".toList ∧
      elems.AreLiterals s'.cdata (lits.map Prod.fst) := by
  obtain ⟨jsp, found⟩ := Option.isSome_iff_exists.mp known
  obtain ⟨s', elems, loop, scan, ok, consts, all⟩ := arrayLoop_spells
    s.cdata.length spells room (s := (((((((s.next.emitConstChars
      "add:Ivvv".toList).2.emitConstChars "Vector".toList).2.emit1 .new .const).emitArg
        (some (s.cdata.length + 1 : Nat))).emit2 .construct .const .im).emitArg
          (some (s.cdata.length + 1 : Nat))).emitArg (some 0)))
    rfl (show Args.AreLiterals _ .nil [] from trivial)
  have start : s.cdata ++ [.string "add:Ivvv".toList] ++ [.string "Vector".toList] <+: s'.cdata :=
    consts
  have closed : s'.token = .rbrace := by
    rw [Comp.token, Comp.lex, scan]
    exact spells.closed
  have added : TextAt s'.cdata s.cdata.length "add:Ivvv".toList := by
    refine getElem?_of_ext start ?_
    simp
  have classed : TextAt s'.cdata (s.cdata.length + 1) "Vector".toList := by
    refine getElem?_of_ext start ?_
    simp
  refine ⟨s'.next, s.cdata.length + 1, s.cdata.length, elems, ?_, congrArg Scanned.next scan, ok,
    (List.prefix_append _ _).trans ((List.append_assoc _ _ _) ▸ start), classed, added, all⟩
  have lengths : (s.cdata ++ [Variant.string "add:Ivvv".toList]).length = s.cdata.length + 1 :=
    List.length_append
  unfold singleton
  rw [brace]
  simp only [arraydef, Comp.emitConstChars, Comp.emitConst, Comp.cdata_next, found, lengths]
  exact arrayTail_closed loop closed

end Jspp.Compiler
