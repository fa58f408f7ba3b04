/-
# Compiler.Returns -- the parser always returns

The bounds of the model are never what stops it, whatever the text: not those of
the lexer's loops (`Settled`), and not those of the parser's loops and recursion
(`fuelOut`).

* `settled`: the loops of the lexer end by their own tests.
* `parseChar_bounded`.
-/
import Jspp.Compiler.Declare
import Jspp.Compiler.Progress

namespace Jspp.Compiler

open Jspp.Kernel

set_option autoImplicit false

/-! ## The loops of the lexer -/

namespace Jspplex

/-- The loops of the lexer, begun at the state behind the next character: with the
rounds the model gives them they stop by their own tests, and more change nothing. -/
structure Settled (l : Jspplex) : Prop where
  skipWS : ∀ n, l.rounds ≤ n →
    skipWS n l.getch.1 l.getch.2 = skipWS l.rounds l.getch.1 l.getch.2
  collect : ∀ (p : Int → Bool) (acc : List Char) (n : Nat), p (-1) = false → l.rounds ≤ n →
    collect p n l.getch.1 acc l.getch.2 = collect p l.rounds l.getch.1 acc l.getch.2
  stringLiteral : ∀ (acc : List Char) (n : Nat), l.rounds ≤ n →
    stringLiteral n acc l = stringLiteral l.rounds acc l
  eolComment : ∀ n, l.rounds ≤ n →
    eolComment n l.getch.1 l.getch.2 = eolComment l.rounds l.getch.1 l.getch.2
  seekMark : ∀ n, l.rounds ≤ n →
    seekMark n l.getch.1 l.getch.2 = seekMark l.rounds l.getch.1 l.getch.2
  comment : ∀ n opencount, l.rounds ≤ n →
    comment n opencount l.getch.1 l.getch.2 = comment l.rounds opencount l.getch.1 l.getch.2
  jsppLex : ∀ n, l.rounds ≤ n → jsppLexN n l = jsppLex l

/-- A loop over characters: it stops at the end of the text, and goes on behind a
character with the rounds that are left. -/
theorem loop_rounds {α β : Type} {f : Nat → Int → β → Jspplex → α}
    (stops : ∀ n m b l, f (n + 1) (-1) b l = f (m + 1) (-1) b l)
    (goes : ∀ c b l, (∃ b', ∀ n, f (n + 1) c b l = f n l.getch.1 b' l.getch.2) ∨
      ∀ n m, f (n + 1) c b l = f (m + 1) c b l)
    {n m : Nat} (b : β) {l : Jspplex} (enough : l.rest.length < n) (enough' : l.rest.length < m) :
    f n l.getch.1 b l.getch.2 = f m l.getch.1 b l.getch.2 := by
  induction n generalizing m b l with
  | zero => omega
  | succ n ih =>
      obtain ⟨m, rfl⟩ : ∃ k, m = k + 1 := ⟨m - 1, by omega⟩
      cases more : l.rest with
      | nil =>
          rw [rest_nil more]
          exact stops n m b l
      | cons c r =>
          rw [more, List.length_cons] at enough enough'
          rcases goes l.getch.1 b l.getch.2 with ⟨b', round⟩ | same
          · have rest := (rest_cons more).2.1
            rw [round n, round m]
            exact ih b' (by rw [rest]; omega) (by rw [rest]; omega)
          · exact same n m

theorem skipWS_rounds {n m : Nat} {l : Jspplex} (enough : l.rest.length < n)
    (enough' : l.rest.length < m) :
    skipWS n l.getch.1 l.getch.2 = skipWS m l.getch.1 l.getch.2 := by
  refine loop_rounds (f := fun n c (_ : Unit) l => skipWS n c l) ?_ ?_ () enough enough'
  · exact fun _ _ _ _ => rfl
  · intro c _ l
    by_cases white : isws c
    · exact .inl ⟨(), fun n => by rw [skipWS, if_pos white]⟩
    · exact .inr fun n m => by rw [skipWS, skipWS, if_neg white, if_neg white]

theorem collect_rounds {p : Int → Bool} (stop : p (-1) = false) {n m : Nat} {l : Jspplex}
    (acc : List Char) (enough : l.rest.length < n) (enough' : l.rest.length < m) :
    collect p n l.getch.1 acc l.getch.2 = collect p m l.getch.1 acc l.getch.2 := by
  refine loop_rounds (f := fun n c acc l => collect p n c acc l) ?_ ?_ acc enough enough'
  · intro n m acc l
    have stops : ¬ p (-1) = true := by simp [stop]
    simp only [collect, if_neg stops]
  · intro c acc l
    by_cases holds : p c
    · exact .inl ⟨acc ++ [toChar c], fun n => by rw [collect, if_pos holds]⟩
    · exact .inr fun n m => by rw [collect, collect, if_neg holds, if_neg holds]

theorem eolComment_rounds {n m : Nat} {l : Jspplex} (enough : l.rest.length < n)
    (enough' : l.rest.length < m) :
    eolComment n l.getch.1 l.getch.2 = eolComment m l.getch.1 l.getch.2 := by
  refine loop_rounds (f := fun n c (_ : Unit) l => eolComment n c l) ?_ ?_ () enough enough'
  · exact fun _ _ _ _ => rfl
  · intro c _ l
    by_cases inside : c ≠ ch '\n' ∧ c > 0
    · exact .inl ⟨(), fun n => by rw [eolComment, if_pos inside]⟩
    · exact .inr fun n m => by rw [eolComment, eolComment, if_neg inside, if_neg inside]

theorem seekMark_rounds {n m : Nat} {l : Jspplex} (enough : l.rest.length < n)
    (enough' : l.rest.length < m) :
    seekMark n l.getch.1 l.getch.2 = seekMark m l.getch.1 l.getch.2 := by
  refine loop_rounds (f := fun n c (_ : Unit) l => seekMark n c l) ?_ ?_ () enough enough'
  · exact fun _ _ _ _ => rfl
  · intro c _ l
    by_cases inside : c ≠ ch '*' ∧ c ≠ ch '/' ∧ c > 0
    · exact .inl ⟨(), fun n => by rw [seekMark, if_pos inside]⟩
    · exact .inr fun n m => by rw [seekMark, seekMark, if_neg inside, if_neg inside]

theorem comment_rounds {n m opencount : Nat} {l : Jspplex} (enough : l.rest.length < n)
    (enough' : l.rest.length < m) :
    comment n opencount l.getch.1 l.getch.2 = comment m opencount l.getch.1 l.getch.2 := by
  induction n generalizing m opencount l with
  | zero => omega
  | succ n ih =>
      obtain ⟨m, rfl⟩ : ∃ k, m = k + 1 := ⟨m - 1, by omega⟩
      by_cases inside : opencount > 0 ∧ peek l.rest > 0
      · obtain ⟨d, -, rest, run⟩ := comment_step opencount l inside
        have shorter := length_slash_star inside.2 opencount
        rw [← rest] at shorter
        rw [run, run]
        exact ih (by omega) (by omega)
      · rw [comment, comment, getch_char, if_neg inside, if_neg inside]

theorem stringLiteral_rounds {n m : Nat} {l : Jspplex} (acc : List Char)
    (enough : l.rest.length < n) (enough' : l.rest.length < m) :
    stringLiteral n acc l = stringLiteral m acc l := by
  induction n generalizing m acc l with
  | zero => omega
  | succ n ih =>
      obtain ⟨m, rfl⟩ : ∃ k, m = k + 1 := ⟨m - 1, by omega⟩
      cases more : l.rest with
      | nil =>
          simp only [stringLiteral, rest_nil more]
          rfl
      | cons c r =>
          rw [more, List.length_cons] at enough enough'
          have rest := (rest_cons more).2.1
          have short : l.getch.2.getch.2.rest.length ≤ r.length := by
            rw [getch_rest, rest, length_tail]
            omega
          have one := fun acc => ih (m := m) (l := l.getch.2) acc (by rw [rest]; omega)
            (by rw [rest]; omega)
          have two := fun acc => ih (m := m) (l := l.getch.2.getch.2) acc (by omega) (by omega)
          simp only [stringLiteral, getescape_spec, one, two]

end Jspplex

open Jspplex in
/-- Without a comment, `jsppLex` does not call itself. -/
theorem jsppLexN_plain {l m : Jspplex} (stripped : stripWS l = m)
    (plain : comment? m.rest = none) (n k : Nat) :
    jsppLexN (n + 1) l = jsppLexN (k + 1) l := by
  simp only [jsppLexN, stripped]
  rw [getch_char m]
  by_cases slash : peek m.rest = ch '/'
  · rw [getch_char m.getch.2, getch_rest]
    unfold comment? at plain
    rw [if_pos slash] at plain
    split_ifs at plain with line nested
    rw [if_neg line, if_neg line, if_neg nested, if_neg nested]
  · rw [if_neg slash, if_neg slash]

open Jspplex in
theorem jsppLexN_rounds {n m : Nat} {l : Jspplex} (enough : l.rest.length < n)
    (enough' : l.rest.length < m) : jsppLexN n l = jsppLexN m l := by
  induction n generalizing m l with
  | zero => omega
  | succ n ih =>
      obtain ⟨m, rfl⟩ : ∃ k, m = k + 1 := ⟨m - 1, by omega⟩
      obtain ⟨same, rest⟩ := stripWS_spec l
      cases begins : comment? (stripWS l).rest with
      | none => exact jsppLexN_plain rfl begins n m
      | some t =>
          have shorter := length_comment? begins
          have stripped := length_strip l.rest
          rw [rest] at shorter
          obtain ⟨k, -, rest', run⟩ := jsppLexN_comment rfl same begins
          rw [run, run]
          exact ih (by rw [rest']; omega) (by rw [rest']; omega)

/-- The loops of the lexer end by their own tests. -/
theorem settled (l : Jspplex) : l.Settled where
  skipWS := fun _ more => Jspplex.skipWS_rounds (Nat.lt_of_lt_of_le l.length_rest more)
    l.length_rest
  collect := fun _ acc _ stop more => Jspplex.collect_rounds stop acc
    (Nat.lt_of_lt_of_le l.length_rest more) l.length_rest
  stringLiteral := fun acc _ more => Jspplex.stringLiteral_rounds acc
    (Nat.lt_of_lt_of_le l.length_rest more) l.length_rest
  eolComment := fun _ more => Jspplex.eolComment_rounds (Nat.lt_of_lt_of_le l.length_rest more)
    l.length_rest
  seekMark := fun _ more => Jspplex.seekMark_rounds (Nat.lt_of_lt_of_le l.length_rest more)
    l.length_rest
  comment := fun _ _ more => Jspplex.comment_rounds (Nat.lt_of_lt_of_le l.length_rest more)
    l.length_rest
  jsppLex := fun _ more => jsppLexN_rounds (Nat.lt_of_lt_of_le l.length_rest more) l.length_rest

/-! ## Classes -/

namespace Program

def reading (pp : Program) : Reading := pp.comp.reading

variable {pp : Program}

theorem runs_next (pp : Program) : Runs pp.reading pp.next.reading := Comp.runs_next pp.comp

theorem takes_of {t : Token} (token : pp.token = t) (ne : t ≠ .jeof) :
    Takes pp.reading pp.next.reading :=
  Comp.takes_of token ne

theorem runs_skip (t : Token) (pp : Program) : Runs pp.reading (pp.skip t).reading := by
  unfold skip
  split
  · exact runs_next pp
  · exact Runs.refl _

theorem moves_setupError (pp : Program) {e : Int} (ne : e ≠ 0) :
    Moves pp.reading (pp.setupError e).reading :=
  Comp.moves_setupError pp.comp ne

theorem runs_setupError (pp : Program) {e : Int} (ne : e ≠ 0) :
    Runs pp.reading (pp.setupError e).reading :=
  (moves_setupError pp ne).toRuns

theorem runs_lexerror (bad : pp.token = .lexerror) {e : Int} :
    Runs pp.reading (pp.setupError e).reading := by
  refine ⟨id, Nat.le_refl _, fun _ => ?_⟩
  show (errorOf pp.comp.lex e).1 ≠ 0
  unfold errorOf
  split
  · exact pp.comp.scan.coded bad
  · rename_i good
    exact absurd bad good

/-- The state a function of the method body level is run on. -/
def bodyState (pp : Program) : Comp :=
  { pp.comp with
    code := ((pp.method?).map JsMethod.code).getD []
    hasretval := ((pp.method?).map JsMethod.hasretval).getD false }

theorem reading_defineField (name : List Char) (isstatic : Bool) (pp : Program) :
    (pp.defineField name isstatic).1.reading = pp.reading := by
  unfold defineField
  split <;> rfl

end Program

theorem accessOf_ne {pp : Program} {acc : JsAccess} (access : accessOf pp.token = some acc) :
    pp.token ≠ .jeof := by
  intro ended
  rw [ended] at access
  cases access

/-- One parameter, with the mark of a reference before it. -/
theorem argument_takes {pp q : Program} (head : pp.token = .id ∨ pp.token = .ampr)
    (same : q.reading = (pp.skip .ampr).reading) : Takes pp.reading q.next.reading := by
  have next := same ▸ q.runs_next
  by_cases reference : pp.token = .ampr
  · have takes := Program.takes_of reference (by decide)
    rw [Program.skip, if_pos reference] at next
    exact takes.trans next
  · have name := head.resolve_right reference
    rw [Program.skip, if_neg reference] at same
    have token : q.token = .id := (same_token same.symm).trans name
    exact same ▸ Program.takes_of token (by decide)

theorem argLoop_runs {n : Nat} {pp : Program} (enough : pp.reading.ahead < n) :
    Runs pp.reading (argLoop n pp).reading := by
  induction n generalizing pp with
  | zero => omega
  | succ n ih =>
      simp only [argLoop]
      split
      · rename_i head
        generalize noted : Program.setComp _ _ = q
        have same : q.reading = (pp.skip .ampr).reading := by
          rw [← noted]
          exact Comp.reading_symtabNote _ _ _
        have takes := argument_takes head same
        have less := takes.less
        split
        · have next := takes.trans q.next.runs_next
          refine next.toRuns.trans (ih ?_)
          have less := next.less
          omega
        split
        · exact takes.toRuns.trans (Program.runs_setupError _ (by decide))
        · exact takes.toRuns.trans (ih (by omega))
      split
      · exact Program.runs_setupError pp (by decide)
      · exact Program.runs_next pp

section

variable {P : Parsers} {k : Nat} (good : Roomy P k) {pp : Program} {r : Reading}
include good

theorem argdec_runs (here : pp.reading = r) (room : r.ahead < k) :
    Runs r (argdec P pp).reading := by
  subst here
  have one := pp.runs_next
  have two := one.trans pp.next.runs_next
  simp only [argdec]
  split
  · exact one.trans (Program.runs_setupError _ (by decide))
  · exact two.trans (argLoop_runs (Nat.lt_trans (two.room room) good.rounds))

theorem compileBody_runs (here : pp.reading = r) (room : r.ahead < k) :
    Runs r (compileBody P pp).reading := by
  subst here
  show Runs pp.reading (methodbody P pp.scope pp.bodyState).1.reading
  simp only [methodbody]
  split
  · exact Comp.runs_setupError pp.bodyState (by decide)
  · rename_i token
    have next := Comp.takes_of (s := pp.bodyState) (not_not.mp token) (by decide)
    exact next.toRuns.trans (blockRest_runs good rfl (next.block room))

omit good in
theorem reading_thisArg (isstatic : Bool) (pp : Program) :
    (thisArg isstatic pp).reading = pp.reading := by
  unfold thisArg
  split
  · rfl
  · exact Comp.reading_symtabNote _ _ _

theorem method_runs (acc : JsAccess) (isstatic : Bool) (room : pp.reading.ahead < k) :
    Runs pp.reading (method P acc isstatic pp).reading := by
  simp only [method]
  split
  · exact Program.runs_setupError pp (by decide)
  · have args := argdec_runs good (show (thisArg isstatic (enterMethod
      (pp.defineMethod pp.comp.lexeme isstatic acc))).reading = _ from reading_thisArg _ _) room
    split
    · exact args
    · exact args.trans (compileBody_runs good rfl (args.room room))

theorem initField_runs {v : Vardef} (here : pp.reading = r) (room : r.ahead < k) :
    Runs r (initField P v pp).reading := by
  subst here
  have init : Runs pp.reading (pp.inMethod (fieldInit P v)).1.reading := by
    show Runs pp.reading (fieldInit P v pp.scope pp.bodyState).1.reading
    simp only [fieldInit]
    split
    · have next := Comp.runs_next (((pp.bodyState.setRhs true).emit1 .lvalue v.srcmode).emitArg
        (some v.offset))
      exact next.trans (good.expr (g := pp.scope) rfl (next.room room)).toRuns
    · exact Runs.refl _
  unfold initField
  split
  · rename_i eq
    rw [eq] at init
    exact init
  · rename_i eq
    rw [eq] at init
    exact init

theorem cvardef_runs (isstatic : Bool) (room : pp.reading.ahead < k) :
    Runs pp.reading (cvardef P isstatic pp).reading := by
  have one := pp.runs_next
  simp only [cvardef]
  split
  · exact one.trans (Program.runs_setupError _ (by decide))
  · have defined := one.trans (Runs.same (Program.reading_defineField
      pp.next.comp.lexeme isstatic pp.next))
    have two := defined.trans (Program.runs_next _)
    have init := fun c => two.trans (initField_runs good (v :=
      (pp.next.defineField pp.next.comp.lexeme isstatic).2)
      (show (Program.atConstructor c (Program.next
        (pp.next.defineField pp.next.comp.lexeme isstatic).1)).reading = _ from rfl)
      (two.room room))
    split
    · exact (init _).trans (Program.runs_setupError _ (by decide))
    · exact (init _).trans (Program.runs_next _)

theorem classLoop_runs {n : Nat} (room : pp.reading.ahead < k) (enough : pp.reading.ahead < n) :
    Runs pp.reading (classLoop P n pp).reading := by
  induction n generalizing pp with
  | zero => omega
  | succ n ih =>
      simp only [classLoop]
      split
      · split
        · exact Program.runs_setupError pp (by decide)
        · rename_i acc access
          have more := accessOf_ne access
          have next : Takes pp.reading pp.next.reading := Comp.takes_next more
          have head := (next.trans (pp.next.runs_skip .static)).trans (Program.runs_skip .const _)
          have shorter {q : Program} (runs : Runs ((pp.next.skip .static).skip .const).reading
              q.reading) : Runs pp.reading (classLoop P n q).reading := by
            have whole := head.trans runs
            have less := whole.less
            exact whole.toRuns.trans (ih (whole.toRuns.room room) (by omega))
          split
          · exact shorter (cvardef_runs good _ (head.toRuns.room room))
          · exact shorter (method_runs good _ _ (head.toRuns.room room))
          · rename_i bad
            exact head.toRuns.trans (Program.runs_lexerror bad)
          · exact head.toRuns.trans (Program.runs_setupError _ (by decide))
      · exact Runs.refl _

omit good in
theorem reading_openConstructor (isstatic : Bool) (pp : Program) :
    (openConstructor isstatic pp).reading = pp.reading := by
  unfold openConstructor
  simp only
  split <;> rfl

theorem classDeclaration_runs (here : pp.reading = r) (room : r.ahead < k) :
    Runs r (classDeclaration P pp).reading := by
  subst here
  simp only [classDeclaration]
  split
  · exact Program.runs_setupError pp (by decide)
  · generalize opened : openConstructor true (openConstructor false pp) = q
    have same : q.reading = pp.reading := by
      rw [← opened, reading_openConstructor, reading_openConstructor]
    have next := (Runs.same same).trans q.runs_next
    have body : Runs pp.reading (classbody P q).reading := next.trans
      (classLoop_runs good (next.room room) (Nat.lt_trans (next.room room) good.rounds))
    split
    · exact body
    split
    · exact body.trans (Program.runs_setupError _ (by decide))
    · exact body.trans (Program.runs_next _)

theorem declareClass_takes (token : pp.token = .class) (room : pp.reading.ahead < k) :
    Takes pp.reading (declareClass P pp).reading := by
  have one := Program.takes_of token (by decide)
  have two := one.trans pp.next.runs_next
  have three := two.trans pp.next.next.runs_next
  have four := three.trans pp.next.next.next.runs_next
  simp only [declareClass]
  split
  · exact one.trans (Program.runs_setupError _ (by decide))
  split
  · split
    · exact three.trans (Program.runs_setupError _ (by decide))
    · exact four.trans (classDeclaration_runs good rfl (four.toRuns.room room))
  · exact two.trans (classDeclaration_runs good rfl (two.toRuns.room room))

theorem declareMethod_takes (acc : JsAccess) (more : pp.token ≠ .jeof)
    (room : pp.reading.ahead < k) : Takes pp.reading (declareMethod P acc pp).reading := by
  have one : Takes pp.reading pp.next.reading := Comp.takes_next more
  have head := one.trans (pp.next.runs_skip .static)
  simp only [declareMethod]
  split
  · exact head.trans (Program.runs_setupError _ (by decide))
  split
  · exact head.trans (Program.runs_setupError _ (by decide))
  · rename_i c found
    have two := head.trans (Program.runs_next { pp.next.skip .static with curclass := c })
    have three := two.trans (Program.runs_next _)
    split
    · exact two.trans (Program.runs_setupError _ (by decide))
    split
    · exact three.trans (Program.runs_setupError _ (by decide))
    · generalize entered : enterMethod _ = q
      have same : q.reading =
          (Program.next (Program.next { pp.next.skip .static with curclass := c })).reading := by
        rw [← entered]
        rfl
      have args := three.trans (argdec_runs good same (three.toRuns.room room))
      exact args.trans (compileBody_runs good rfl (args.toRuns.room room))

/-- A declaration takes its first token, or it is an error. -/
theorem declaration_moves (room : pp.reading.ahead < k) :
    Moves pp.reading (declaration P pp).reading := by
  unfold declaration
  split
  · rename_i token
    exact (declareClass_takes good token room).moves
  split
  · rename_i acc access
    have more := accessOf_ne access
    exact (declareMethod_takes good acc more room).moves
  · have one : YYER_EXPECTED_CLASS_DEF ≠ 0 := by decide
    exact ⟨⟨id, Nat.le_refl _, fun _ => one⟩, .inl one⟩

theorem fileLoop_runs {n : Nat} (room : pp.reading.ahead < k)
    (enough : pp.errornum = 0 → pp.reading.ahead + 1 < n) (more : 0 < n) :
    Runs pp.reading (fileLoop P n pp).reading := by
  induction n generalizing pp with
  | zero => omega
  | succ n ih =>
      simp only [fileLoop]
      split
      · rename_i goes
        have start := enough goes.2
        split
        · rename_i bad
          exact ⟨id, Nat.le_refl _, fun _ => pp.comp.scan.coded bad⟩
        · have read := declaration_moves good room
          refine read.toRuns.trans (ih (read.toRuns.room room) (fun clear => ?_) (by omega))
          have less := (read.takes clear).less
          omega
      · exact Runs.refl _

end

/-- What a round of each loop of the parser does on a text of at most `k` characters:
it takes a token, or it records an error, which no later step takes back. -/
structure Advancing (P : Parsers) (k : Nat) : Prop where
  /-- `arglist_call`, `arrayIndexCall` and the expression statements. -/
  expr : ∀ (g : Scope) (s : Comp), s.reading.ahead ≤ k → Moves s.reading (P.expr g s).1.reading
  /-- `arraydef`. -/
  element : ∀ (s : Comp) (q : Comp × Expr), literal s = some q → Takes s.reading q.1.next.reading
  /-- `localvar`. -/
  declarator : ∀ (g : Scope) (s : Comp), s.reading.ahead ≤ k →
    Moves s.reading (declarator P g s).1.reading
  /-- `switchblock`. -/
  clause : ∀ (g : Scope) (s : Comp), s.token = .case → s.reading.ahead ≤ k →
    Takes s.reading (caseClause P g s).1.reading
  /-- `stmts`. -/
  stmt : ∀ (g : Scope) (s : Comp), s.reading.ahead ≤ k → (stmt P g s).2.2 = true →
    Moves s.reading (stmt P g s).1.reading
  /-- `argdec`. -/
  parameter : ∀ pp : Program, pp.token = .id ∨ pp.token = .ampr →
    Takes pp.reading (pp.skip .ampr).next.reading
  /-- `classbody`. -/
  member : ∀ (pp : Program) (acc : JsAccess), accessOf pp.token = some acc →
    Takes pp.reading pp.next.reading
  /-- `file`. -/
  declaration : ∀ pp : Program, pp.reading.ahead ≤ k →
    Moves pp.reading (declaration P pp).reading

theorem parsers_advancing {k n : Nat} (levels : k + 3 ≤ n) : Advancing (parsers n) k := by
  have good := parsers_roomy (k + 1) n levels
  constructor
  case expr =>
      rintro g s room
      exact good.expr rfl (Nat.lt_succ_of_le room)
  case element =>
      rintro s q read
      obtain ⟨same, more⟩ := literal_reading read
      exact same ▸ Comp.takes_next (same_token same ▸ more)
  case declarator =>
      rintro g s room
      exact declarator_moves good (Nat.lt_succ_of_le room)
  case clause =>
      rintro g s token room
      exact caseClause_takes good token (Nat.lt_succ_of_le room)
  case stmt =>
      rintro g s room goes
      exact (stmt_runs good rfl (Nat.lt_succ_of_le room)).2 goes
  case parameter => exact fun pp head => argument_takes head rfl
  case member => exact fun pp acc access => Comp.takes_next (accessOf_ne access)
  case declaration =>
      rintro pp room
      exact declaration_moves good (Nat.lt_succ_of_le room)

theorem parseChar_bounded (intrinsics : Intrinsics) (text : List Char) :
    (parseChar intrinsics text).comp.fuelOut = false := by
  have good := parsers_roomy (4 * text.length + 14) (parseFuel text) (by rw [parseFuel])
  have next := (programConstruct (.start text) intrinsics).runs_next
  have short : (programConstruct (.start text) intrinsics).reading.ahead ≤ text.length :=
    List.IsPrefix.length_le (List.takeWhile_prefix _)
  have ahead := next.ahead
  have rounds := good.rounds
  have runs := next.trans (fileLoop_runs good (n := (parsers (parseFuel text)).rounds)
    (by omega) (fun _ => by omega) (by omega))
  exact runs.fuel rfl

end Jspp.Compiler
