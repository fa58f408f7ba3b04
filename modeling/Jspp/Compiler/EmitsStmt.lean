/-
# Compiler.EmitsStmt -- statements: the parser emits the code of what it read

The proofs follow the emitters: `Writes.emit`, `Writes.expr`, `Writes.block` and
`Writes.stmt` append code, `Writes.patch` writes the operand of a jump that is
behind.  Every function of `Compiler.ParseStmt` has one lemma.

* `parsers_good`: the contracts hold for every depth of the recursion.
-/
import Jspp.Compiler.EmitsExpr

namespace Jspp.Compiler

open Jspp.Kernel

set_option autoImplicit false

/-! ## Noting variables -/

namespace Noted

variable {vars more : List Local} {a b c : List Symtab}

theorem refl (st : List Symtab) : Noted [] st st := by
  cases st with
  | nil => exact .none
  | cons stp rest => exact .top rest rfl (List.append_nil _).symm

theorem trans (h : Noted vars a b) (h' : Noted more b c) : Noted (vars ++ more) a c := by
  cases h with
  | none =>
      cases h'
      exact .none
  | top rest patchupPc noted =>
      cases h' with
      | top _ patchupPc' noted' =>
          exact .top rest (patchupPc'.trans patchupPc) (by rw [noted', noted, List.append_assoc])

theorem scope (h : Noted vars a b) (inside : a ≠ []) : scopeOf b = scopeOf a ++ vars := by
  cases h with
  | none => exact absurd rfl inside
  | top rest _ noted => simp [noted]

/-- A variable that was just noted is in scope. -/
theorem known {v : Local} (h : Noted [v] a b) (inside : b ≠ []) :
    ∃ w ∈ scopeOf b, w.offset = v.offset := by
  cases h with
  | none => exact absurd rfl inside
  | top rest _ noted => exact ⟨v, by simp [noted], rfl⟩

theorem inside (h : Noted vars a b) (inside : a ≠ []) : b ≠ [] := by
  cases h with
  | none => exact absurd rfl inside
  | top => exact List.cons_ne_nil _ _

end Noted

/-! ## Appending and patching -/

namespace Writes

variable {s s' s'' : Comp} {pre : List Cell} {new more : List Instr} {vars vars' : List Local}
  {resolved weaker : List Variant → Prop}

theorem start (s : Comp) : Writes s s s.code [] [] fun _ => True :=
  ⟨by simp, .refl _, List.prefix_rfl, fun _ _ _ => trivial⟩

theorem reshape (w : Writes s s' pre new vars resolved) (same : new = more) :
    Writes s s' pre more vars resolved :=
  same ▸ w

theorem rename (w : Writes s s' pre new vars resolved) (same : vars = vars') :
    Writes s s' pre new vars' resolved :=
  same ▸ w

theorem weaken (w : Writes s s' pre new vars resolved)
    (weak : ∀ cdata, resolved cdata → weaker cdata) : Writes s s' pre new vars weaker :=
  ⟨w.code, w.frames, w.consts, fun inside cdata ext => weak cdata (w.resolved inside cdata ext)⟩

theorem pc (w : Writes s s' pre new vars resolved) : s'.pc = pre.length + codeSize new := by
  simp [Comp.pc, w.code]

/-- Instructions behind what was written. -/
theorem emit (w : Writes s s' pre new vars resolved) (code : s''.code = s'.code ++ cells more)
    (frames : s''.symstack = s'.symstack) (consts : s''.cdata = s'.cdata) :
    Writes s s'' pre (new ++ more) vars resolved :=
  ⟨by simp [code, w.code], frames ▸ w.frames, consts ▸ w.consts, consts ▸ w.resolved⟩

theorem emit0 (w : Writes s s' pre new vars resolved) (op : OpCode) :
    Writes s (s'.emit0 op) pre (new ++ [Instr.emit0 op]) vars resolved :=
  w.emit (by simp) rfl rfl

theorem emitIm (w : Writes s s' pre new vars resolved) (op : OpCode) (arg : Option Int) :
    Writes s (s'.emitIm op arg) pre (new ++ [Instr.emit1 op .im arg]) vars resolved :=
  w.emit (by simp) rfl rfl

/-- A step that emits nothing. -/
theorem keep (w : Writes s s' pre new vars resolved) (code : s''.code = s'.code)
    (frames : s''.symstack = s'.symstack) (consts : s''.cdata = s'.cdata) :
    Writes s s'' pre new vars resolved :=
  ⟨by simp [code, w.code], frames ▸ w.frames, consts ▸ w.consts, consts ▸ w.resolved⟩

theorem next (w : Writes s s' pre new vars resolved) : Writes s s'.next pre new vars resolved :=
  w.keep rfl rfl rfl

theorem setRhs (w : Writes s s' pre new vars resolved) (b : Bool) :
    Writes s (s'.setRhs b) pre new vars resolved :=
  w.keep rfl rfl rfl

/-- Two pieces, the second written from where the first ended, in the scope that
the first left. -/
theorem trans (later : List Local → List Variant → Prop) (w : Writes s s' pre new vars resolved)
    (w' : Writes s' s'' s'.code more vars' (later (scopeOf s'.symstack))) :
    Writes s s'' pre (new ++ more) (vars ++ vars')
      fun cdata => resolved cdata ∧ later (scopeOf s.symstack ++ vars) cdata where
  code := by simp [w'.code, w.code]
  frames := w.frames.trans w'.frames
  consts := w.consts.trans w'.consts
  resolved := by
    intro inside cdata ext
    refine ⟨w.resolved inside cdata (w'.consts.trans ext), ?_⟩
    rw [← w.frames.scope inside]
    exact w'.resolved (w.frames.inside inside) cdata ext

/-- An expression that was read, as a piece of a statement. -/
theorem ofReads {g : Scope} {e : Expr} (reads : ReadsExpr g s s.code (s', e)) :
    Writes s s' s.code e.code [] (e.Resolved g.fields (scopeOf s.symstack)) :=
  ⟨reads.code, reads.frames ▸ .refl _, reads.consts, fun _ _ ext => reads.resolved.ext ext⟩

theorem expr {f : Scope → Comp → Comp × Expr} (spec : ExprSpec f) {g : Scope} {e : Expr}
    (w : Writes s s' pre new vars resolved) (run : f g s' = (s'', e)) (ok : s''.ok) :
    Writes s s'' pre (new ++ e.code) vars
      fun cdata => resolved cdata ∧ e.Resolved g.fields (scopeOf s.symstack ++ vars) cdata := by
  obtain ⟨-, reads⟩ := spec g s' (by simpa [run] using ok)
  rw [run] at reads
  exact (w.trans (fun scope cdata => e.Resolved g.fields scope cdata) (ofReads reads)).rename
    (List.append_nil vars)

/-- A statement stands at the address where the code so far ends. -/
theorem stmt {f : Scope → Comp → Comp × Stmt} (spec : StmtSpec f) {g : Scope} {t : Stmt}
    (w : Writes s s' pre new vars resolved) (run : f g s' = (s'', t)) (ok : s''.ok) :
    Writes s s'' pre (new ++ t.code (pre.length + codeSize new)) (vars ++ t.decls)
      fun cdata => resolved cdata ∧ t.Resolved g.fields (scopeOf s.symstack ++ vars) cdata := by
  obtain ⟨-, writes⟩ := spec g s' (by simpa [run] using ok)
  rw [run] at writes
  rw [← w.pc]
  exact w.trans (fun scope cdata => t.Resolved g.fields scope cdata) writes

theorem block {f : Scope → Comp → Comp × Nat × Stmt} (spec : BlockSpec f) {g : Scope}
    {n : Nat} {t : Stmt} (w : Writes s s' pre new vars resolved) (run : f g s' = (s'', n, t))
    (ok : s''.ok) :
    Writes s s'' pre (new ++ (Stmt.block n t).code (pre.length + codeSize new)) vars
      fun cdata => resolved cdata ∧
        (Stmt.block n t).Resolved g.fields (scopeOf s.symstack ++ vars) cdata := by
  obtain ⟨-, writes⟩ := spec g s' (by simpa [run] using ok)
  rw [run] at writes
  rw [← w.pc]
  exact (w.trans (fun scope cdata => (Stmt.block n t).Resolved g.fields scope cdata) writes).rename
    (List.append_nil vars)

/-- The operand of an instruction that is behind. -/
theorem emitArgAt (w : Writes s s' pre new vars resolved) (left : List Instr) (op : OpCode)
    (old : Option Int) (right : List Instr) (shape : new = left ++ Instr.emit1 op .im old :: right)
    {pc : Nat} (placed : pc = pre.length + codeSize left + 1) (arg : Option Int) :
    Writes s (s'.emitArgAt pc arg) pre (left ++ Instr.emit1 op .im arg :: right) vars resolved := by
  refine ⟨?_, w.frames, w.consts, w.resolved⟩
  have at_end : pc = (pre ++ cells left).length + 1 := by simp [placed]
  have patched := set2Element_patch (pre ++ cells left) (cells right)
    (.word (encodeOp op 1 .im .class)) (.lo old) (.hi old) arg
  rw [← at_end] at patched
  simpa [Comp.emitArgAt, w.code, shape, cells, Instr.cells] using patched

theorem patchAt (w : Writes s s' pre new vars resolved) {q : Nat}
    (left : List Instr) (op : OpCode) (old : Option Int) (right : List Instr) (target : Nat)
    (shape : new = left ++ Instr.emit1 op .im old :: right) (placed : q = pre.length + codeSize left)
    (reached : target = pre.length + codeSize new) :
    Writes s (s'.patch (q + 1)) pre (left ++ Instr.im op target :: right) vars resolved := by
  rw [reached, ← w.pc]
  exact w.emitArgAt left op old right shape (by rw [placed]) _

/-- `mark` is what was written when the instruction at `q.pc` came next. -/
theorem patch {q : Comp} {before : List Instr} {earlier : List Variant → Prop}
    (w : Writes s s' pre new vars resolved) (mark : Writes s q pre before vars' earlier)
    (left : List Instr) (op : OpCode) (old : Option Int) (right : List Instr) (target : Nat)
    (shape : new = left ++ Instr.emit1 op .im old :: right) (same : codeSize left = codeSize before)
    (reached : target = pre.length + codeSize new) :
    Writes s (s'.patch (q.pc + 1)) pre (left ++ Instr.im op target :: right) vars resolved :=
  w.patchAt left op old right target shape (by rw [mark.pc, same]) reached

end Writes

theorem ExprSpec.ok {f : Scope → Comp → Comp × Expr} (spec : ExprSpec f) {g : Scope}
    {s s' : Comp} {e : Expr} (run : f g s = (s', e)) (ok : s'.ok) : s.ok :=
  (spec g s (by simpa [run] using ok)).1

theorem StmtSpec.ok {f : Scope → Comp → Comp × Stmt} (spec : StmtSpec f) {g : Scope}
    {s s' : Comp} {t : Stmt} (run : f g s = (s', t)) (ok : s'.ok) : s.ok :=
  (spec g s (by simpa [run] using ok)).1

theorem BlockSpec.ok {f : Scope → Comp → Comp × Nat × Stmt} (spec : BlockSpec f) {g : Scope}
    {s s' : Comp} {n : Nat} {t : Stmt} (run : f g s = (s', n, t)) (ok : s'.ok) : s.ok :=
  (spec g s (by simpa [run] using ok)).1

/-! ## Branches and loops -/

section

variable {P : Parsers} (good : ParsersGood P) {g : Scope}
include good

theorem selse_writes : StmtSpec (selse P) := by
  intro g s
  simp only [selse]
  split
  · split
    · intro h
      obtain ⟨ok, w⟩ := good.sif g s.next h
      exact ⟨by simpa using ok, w.code, w.frames, w.consts, w.resolved⟩
    · intro h
      obtain ⟨ok, w⟩ := good.stmtblock g s.next h
      exact ⟨by simpa using ok, w.code, w.frames, w.consts, w.resolved⟩
  · exact fun h => ⟨h, Writes.start s⟩

theorem sif_writes : StmtSpec (sif P) := by
  intro g s
  simp -iota only [sif]
  split
  · exact fun h => absurd h (Comp.not_ok_setupError _ _ (by decide))
  split
  rename_i s₁ c readCond
  split
  · exact fun h => absurd h (Comp.not_ok_setupError _ _ (by decide))
  split
  rename_i s₂ n body readBody
  split
  rename_i s₃ other readElse
  intro h
  have ok₃ : s₃.ok := by simpa using h
  have ok₂ : s₂.ok := by simpa using (selse_writes good).ok readElse ok₃
  have ok₁ : s₁.ok := by simpa using good.stmtblock.ok readBody ok₂
  refine ⟨by simpa using good.expr.ok readCond ok₁, ?_⟩
  have cond : Writes s s₁.next s.code c.code _ _ :=
    ((Writes.start s).next.next.expr good.expr readCond ok₁).next
  have block : Writes s s₂ s.code
      (c.code ++ Instr.im .jmpz 0 :: (Stmt.block n body).code (s.pc + c.size + 3)) _ _ :=
    ((cond.emitIm .jmpz (some 0)).block good.stmtblock readBody ok₂).reshape
      (by simp [Comp.pc, Expr.size, add_assoc, Instr.im])
  have exits := (block.emitIm .jmp (some 0)).patch cond c.code .jmpz (some 0)
    ((Stmt.block n body).code (s.pc + c.size + 3) ++ [Instr.jmp (some 0)])
    (s.pc + c.size + 3 + (Stmt.block n body).size + 3) (by simp [Instr.jmp, Instr.im]) rfl
    (by simp [Comp.pc, Expr.size, add_assoc])
  have others := exits.stmt (selse_writes good) readElse ok₃
  have ends := others.patch block
    (c.code ++ Instr.im .jmpz ↑(s.pc + c.size + 3 + (Stmt.block n body).size + 3) ::
      (Stmt.block n body).code (s.pc + c.size + 3)) .jmp (some 0)
    (other.code (s.pc + c.size + 3 + (Stmt.block n body).size + 3))
    (s.pc + c.size + 3 + (Stmt.block n body).size + 3 + other.size)
    (by simp [Comp.pc, Expr.size, add_assoc, Instr.jmp]) (by simp)
    (by simp [Comp.pc, Expr.size, add_assoc])
  refine (ends.reshape ?_).weaken ?_
  · simp only [Stmt.code, Instr.jmp, Instr.im, List.append_assoc, List.cons_append]
  · intro cdata h
    simp only [List.append_nil] at h
    exact ⟨h.1.1.2, h.1.2, by simpa [Stmt.decls] using h.2⟩

theorem swhile_writes : StmtSpec (swhile P) := by
  intro g s
  simp -iota only [swhile]
  split
  · exact fun h => absurd h (Comp.not_ok_setupError _ _ (by decide))
  split
  rename_i s₁ c readCond
  split
  · exact fun h => absurd h (Comp.not_ok_setupError _ _ (by decide))
  split
  rename_i s₂ n body readBody
  intro h
  have ok₂ : s₂.ok := by simpa using h
  have ok₁ : s₁.ok := by simpa using good.stmtblock.ok readBody ok₂
  refine ⟨by simpa using good.expr.ok readCond ok₁, ?_⟩
  have opens : Writes s s.next.next s.code [] _ _ := (Writes.start s).next.next
  have cond : Writes s (s₁.setRhs false).next s.code (.im .setbreak 0 :: c.code) _ _ :=
    ((((opens.emitIm .setbreak (some 0)).setRhs true).expr good.expr readCond ok₁).setRhs
      false).next
  have block : Writes s s₂ s.code
      (.im .setbreak 0 :: c.code ++ Instr.im .jmpz 0 ::
        (Stmt.block n body).code (s.pc + 3 + c.size + 3)) _ _ :=
    ((cond.emitIm .jmpz (some 0)).block good.stmtblock readBody ok₂).reshape
      (by simp [Comp.pc, Expr.size, add_assoc, Instr.im])
  have exits := (block.emitIm .jmp (some ↑(s.pc + 3))).patch cond (.im .setbreak 0 :: c.code)
    .jmpz (some 0)
    ((Stmt.block n body).code (s.pc + 3 + c.size + 3) ++ [Instr.jmp (some ↑(s.pc + 3))])
    (s.pc + 3 + c.size + 3 + (Stmt.block n body).size + 3) (by simp [Instr.jmp, Instr.im]) rfl
    (by simp [Comp.pc, Expr.size, add_assoc])
  have breaks := exits.patch opens [] .setbreak (some 0)
    (c.code ++ Instr.im .jmpz ↑(s.pc + 3 + c.size + 3 + (Stmt.block n body).size + 3) ::
      ((Stmt.block n body).code (s.pc + 3 + c.size + 3) ++ [Instr.jmp (some ↑(s.pc + 3))]))
    (s.pc + 3 + c.size + 3 + (Stmt.block n body).size + 3) (by simp [Instr.im]) rfl
    (by simp [Comp.pc, Expr.size, add_assoc])
  have top : ((s.next.next.emitIm .setbreak (some 0)).setRhs true).pc = s.pc + 3 :=
    (opens.emitIm .setbreak (some 0)).pc
  rw [top]
  refine ((breaks.emitIm .setbreak (some (-1))).reshape ?_).weaken ?_
  · simp [Stmt.code, Stmt.size, Instr.im]
  · intro cdata h
    simp only [List.append_nil] at h
    exact ⟨h.1.2, h.2⟩

/-! ## `for` -/

theorem postexpr_writes {evalPc : Nat} {s' s'' : Comp} {pc : Option Int} {post : Option Expr}
    (run : postexpr P g evalPc s' = (s'', pc, post)) (ok : s''.ok) :
    s'.ok ∧ ∀ {s pre new vars} {resolved : List Variant → Prop},
      Writes s s' pre new vars resolved →
      pc = postPc (pre.length + codeSize new) post ∧
      Writes s s'' pre (new ++ postCode evalPc (pre.length + codeSize new) post) vars
        fun cdata => resolved cdata ∧
          ∀ e ∈ post, e.Resolved g.fields (scopeOf s.symstack ++ vars) cdata := by
  simp -iota only [postexpr] at run
  split at run
  · split at run
    rename_i s₁ e readPost
    cases run
    have ok₁ : s₁.ok := by simpa using ok
    refine ⟨by simpa using good.expr.ok readPost ok₁, fun {s pre new vars resolved} w => ⟨?_, ?_⟩⟩
    · simp [postPc, (w.emitIm .jmp (some 0)).pc, add_assoc]
    · have read := ((w.emitIm .jmp (some 0)).expr good.expr readPost ok₁).emitIm .jmp
        (some evalPc)
      have skips := read.patch w new .jmp (some 0) (e.code ++ [Instr.jmp (some evalPc)])
        (pre.length + codeSize new + 3 + e.size + 3) (by simp [Instr.jmp]) rfl
        (by simp [Expr.size, add_assoc])
      exact (skips.reshape rfl).weaken fun cdata h => ⟨h.1, by simpa using h.2⟩
  · cases run
    exact ⟨ok, fun w => ⟨rfl, (w.reshape (by simp [postCode])).weaken fun cdata h =>
      ⟨h, by simp⟩⟩⟩

theorem postfor_writes {evalPc : Nat} {s' s'' : Comp} {post : Option Expr} {body : Stmt}
    (run : postfor P g evalPc s' = (s'', post, body)) (ok : s''.ok) :
    s'.ok ∧ ∀ {s pre new vars} {resolved : List Variant → Prop},
      Writes s s' pre new vars resolved →
      Writes s s'' pre
        (new ++ (postCode evalPc (pre.length + codeSize new) post ++
          (body.code (pre.length + codeSize new + postSize post) ++
            [Instr.jmp (postPc (pre.length + codeSize new) post)])))
        (vars ++ body.decls)
        fun cdata => resolved cdata ∧
          (∀ e ∈ post, e.Resolved g.fields (scopeOf s.symstack ++ vars) cdata) ∧
          body.Resolved g.fields (scopeOf s.symstack ++ vars) cdata := by
  simp -iota only [postfor] at run
  split at run
  rename_i s₁ pc post' readPost
  split at run
  · cases run
    exact absurd ok (Comp.not_ok_setupError _ _ (by decide))
  split at run
  rename_i s₂ n body' readBody
  cases run
  have ok₂ : s₂.ok := by simpa using ok
  have ok₁ : s₁.ok := by simpa using good.stmtblock.ok readBody ok₂
  obtain ⟨okStart, posted⟩ := postexpr_writes good readPost ok₁
  refine ⟨okStart, fun {s pre new vars resolved} w => ?_⟩
  obtain ⟨rfl, wrote⟩ := posted w
  have looped := (wrote.next.block good.stmtblock readBody ok₂).emitIm .jmp
    (postPc (pre.length + codeSize new) post)
  refine ((looped.reshape ?_).rename (List.append_nil vars).symm).weaken fun cdata h =>
    ⟨h.1.1, h.1.2, h.2⟩
  simp [Instr.jmp, add_assoc]

theorem condition_writes {s' s'' : Comp} {cond : Option Expr}
    (run : condition P g s' = (s'', cond)) (ok : s''.ok) :
    s'.ok ∧ ∀ {s pre new vars} {resolved : List Variant → Prop},
      Writes s s' pre new vars resolved →
      Writes s s'' pre (new ++ optCode cond) vars
        fun cdata => resolved cdata ∧
          ∀ e ∈ cond, e.Resolved g.fields (scopeOf s.symstack ++ vars) cdata := by
  simp -iota only [condition] at run
  split at run
  · split at run
    rename_i s₁ e readCond
    cases run
    exact ⟨good.expr.ok readCond ok, fun w =>
      (w.expr good.expr readCond ok).weaken fun cdata h => ⟨h.1, by simpa using h.2⟩⟩
  · cases run
    exact ⟨ok, fun w => (w.reshape (by simp [optCode])).weaken fun cdata h => ⟨h, by simp⟩⟩

/-- `evalfor`, when `SETBREAK` was emitted at `q.pc` just before it. -/
theorem evalfor_writes {q s' s'' : Comp} {t : Stmt}
    (run : evalfor P g (q.pc + 1) s' = (s'', t)) (ok : s''.ok) :
    s'.ok ∧ ∀ {s pre before vars vars'} {earlier resolved : List Variant → Prop},
      Writes s q pre before vars' earlier →
      Writes s s' pre (before ++ [Instr.im .setbreak 0]) vars resolved →
      Writes s (s''.emitIm .setbreak (some (-1))) pre
        (before ++ t.code (pre.length + codeSize before)) (vars ++ t.decls)
        fun cdata => resolved cdata ∧
          t.Resolved g.fields (scopeOf s.symstack ++ vars) cdata := by
  simp -iota only [evalfor] at run
  split at run
  rename_i s₁ cond readCond
  split at run
  · cases run
    exact absurd ok (Comp.not_ok_setupError _ _ (by decide))
  split at run
  rename_i s₂ post body readPost
  cases run
  have ok₂ : s₂.ok := by simpa using ok
  obtain ⟨okFor, posted⟩ := postfor_writes good readPost ok₂
  obtain ⟨okStart, conded⟩ := condition_writes good readCond (by simpa using okFor)
  refine ⟨okStart, fun {s pre before vars vars' _ _} mark w => ?_⟩
  have eval : s'.pc = pre.length + codeSize before + 3 := by simp [w.pc, add_assoc]
  have read := (conded w).next
  have looped := posted (read.emitIm .jmpz (some 0))
  rw [eval] at looped
  obtain ⟨b, at_for⟩ : ∃ b, b = pre.length + codeSize before := ⟨_, rfl⟩
  have after : pre.length + codeSize
      (before ++ [Instr.im .setbreak 0] ++ optCode cond ++ [Instr.emit1 .jmpz .im (some 0)]) =
        b + 3 + codeSize (optCode cond) + 3 := by
    simp [at_for, add_assoc]
  rw [after, ← at_for] at looped
  have exits := looped.patch read (before ++ Instr.im .setbreak 0 :: optCode cond) .jmpz (some 0)
    _ (b + 3 + codeSize (optCode cond) + 3 + postSize post + body.size + 3)
    (by simp only [List.append_assoc, List.cons_append, List.nil_append]; rfl) (by simp)
    (by simp [at_for, add_assoc])
  have breaks := exits.patch mark before .setbreak (some 0)
    _ (b + 3 + codeSize (optCode cond) + 3 + postSize post + body.size + 3)
    (by simp only [List.append_assoc, List.cons_append]; rfl) rfl (by simp [at_for, add_assoc])
  refine ((breaks.emitIm .setbreak (some (-1))).reshape ?_).weaken ?_
  · simp [Stmt.code, Instr.im, ← at_for]
  · exact fun cdata h => ⟨h.1.1, h.1.2, h.2.1, h.2.2⟩

omit good in
/-- Another statement behind those that were read so far. -/
theorem Writes.seq {s s' s'' : Comp} {acc t : Stmt} (w : WritesStmt g s s' acc)
    (w' : WritesStmt g s' s'' t) : WritesStmt g s s'' (acc.seq t) := by
  have both := w.trans (fun scope cdata => t.Resolved g.fields scope cdata) w'
  have there : s'.pc = s.pc + acc.size := by simpa [Comp.pc] using w.pc
  rw [there] at both
  exact (both.reshape (by simp [Stmt.code])).weaken fun cdata h => h

/-- The initialiser of a variable in scope. -/
theorem localinit_writes {vdp : BlockVar} {s s' : Comp} {init : Stmt}
    (run : localinit P g vdp.1 s = (s', init)) (ok : s'.ok)
    (known : s.symstack ≠ [] → ∃ v ∈ scopeOf s.symstack, v.offset = vdp.1.offset) :
    s.ok ∧ WritesStmt g s s' init := by
  simp -iota only [localinit] at run
  split at run
  · split at run
    rename_i s₁ e readInit
    cases run
    have ok₁ : s₁.ok := by simpa using ok
    refine ⟨by simpa using good.expr.ok readInit ok₁, ?_⟩
    have target : Writes s
        (((s.next.setRhs true).emit1 .lvalue vdp.1.srcmode).emitArg (some ↑vdp.1.offset)) s.code
        [.emit1 .lvalue vdp.1.srcmode (some vdp.1.offset)] _ _ :=
      (Writes.start s).emit (by simp [cells, Instr.cells]) rfl rfl
    have value := ((target.expr good.expr readInit ok₁).emit0 .assign).setRhs false
    refine ⟨?_, value.frames, value.consts, fun inside cdata ext => ⟨?_, ?_⟩⟩
    · rw [value.code]
      simp [Stmt.code, Expr.code]
    · exact .inl ⟨vdp.2, known inside⟩
    · simpa using (value.resolved inside cdata ext).2
  · cases run
    exact ⟨ok, Writes.start s⟩

omit good in
/-- Noting a variable is a declaration. -/
theorem symtabNote_writes {name : List Char} {isptr : Bool} {s s' : Comp} {vdp : BlockVar}
    (run : symtabNote name isptr s = (vdp, s')) :
    (s'.ok ↔ s.ok) ∧ WritesStmt g s s' (.decl ⟨name, vdp.1.offset⟩) := by
  unfold symtabNote at run
  split at run
  · rename_i empty
    cases run
    refine ⟨Iff.rfl, by simp [Stmt.code], ?_, List.prefix_rfl, fun inside => absurd empty inside⟩
    rw [empty]
    exact .none
  · rename_i stp rest stack
    have frames : ∀ var : BlockVar, Noted [⟨name, var.1.offset⟩] s.symstack
        (stp.put name var :: rest) := by
      rw [stack]
      exact fun var => .top rest rfl (Symtab.vars_put name var stp)
    have next : stp.cumulative = (scopeOf s.symstack).length := by
      have tables := s.tables
      rw [stack] at tables ⊢
      exact tables.cumulative
    cases run
    exact ⟨Iff.rfl, by simp [Stmt.code], frames _, List.prefix_rfl, fun _ _ _ => next⟩

theorem declarator_writes {s s' : Comp} {t : Stmt} {more : Bool}
    (run : declarator P g s = (s', t, more)) (ok : s'.ok) :
    s.ok ∧ more = true ∧ WritesStmt g s s' t := by
  simp -iota only [declarator] at run
  split at run
  · cases run
    exact absurd ok (Comp.not_ok_setupError _ _ (by decide))
  split at run
  rename_i vdp s₁ note
  split at run
  rename_i s₂ init' readInit
  obtain ⟨okNote, noted⟩ := symtabNote_writes (g := g) note
  have declared : WritesStmt g s s₁.next (.decl ⟨s.next.lexeme, vdp.1.offset⟩) :=
    ⟨noted.code, noted.frames, noted.consts, noted.resolved⟩
  have read : s₂.ok → s.ok ∧ WritesStmt g s s₂
      (.seq (.decl ⟨s.next.lexeme, vdp.1.offset⟩) init') := by
    intro ok₂
    have known : s₁.symstack ≠ [] → ∃ v ∈ scopeOf s₁.symstack, v.offset = vdp.1.offset :=
      fun inside => noted.frames.known inside
    obtain ⟨ok₁, wrote⟩ := localinit_writes good readInit ok₂ known
    exact ⟨by simpa using okNote.mp ok₁, declared.seq wrote⟩
  split at run
  · rename_i err
    cases run
    exact absurd ok.1 err
  split at run
  · cases run
    obtain ⟨okStart, wrote⟩ := read (by simpa using ok)
    exact ⟨okStart, rfl, wrote.next⟩
  split at run
  · cases run
    exact absurd ok (Comp.not_ok_setupError _ _ (by decide))
  · cases run
    obtain ⟨okStart, wrote⟩ := read ok
    exact ⟨okStart, rfl, wrote⟩

/-- The declarators, from the initialisers read so far. -/
theorem localvarLoop_writes (n : Nat) (acc : Stmt) (s' : Comp) {s'' : Comp} {t : Stmt}
    (run : localvarLoop P g n acc s' = (s'', t)) (ok : s''.ok) :
    s'.ok ∧ ∀ {s}, WritesStmt g s s' acc → WritesStmt g s s'' t := by
  induction n generalizing acc s' with
  | zero =>
      cases run
      exact absurd ok (Comp.not_ok_giveUp s')
  | succ n ih =>
      simp -iota only [localvarLoop] at run
      split at run
      · split at run
        rename_i s₁ init more readDecl
        split at run
        · obtain ⟨ok₁, rest⟩ := ih _ _ run
          obtain ⟨okStart, -, wrote⟩ := declarator_writes good readDecl ok₁
          exact ⟨okStart, fun w => rest (w.seq wrote)⟩
        · rename_i done
          cases run
          exact absurd (declarator_writes good readDecl ok).2.1 done
      · cases run
        exact ⟨ok, id⟩

theorem localvar_writes : StmtSpec (localvar P) := by
  intro g s h
  obtain ⟨ok, wrote⟩ := localvarLoop_writes good P.rounds .skip s rfl h
  exact ⟨ok, wrote (Writes.start s)⟩

theorem initfor_writes : StmtSpec (initfor P) := by
  intro g s
  simp -iota only [initfor]
  split
  · split
    · exact localvar_writes good g s
    · split
      rename_i s₁ e readInit
      exact fun h => ⟨good.expr.ok readInit h,
        ((Writes.start s).expr good.expr readInit h).weaken fun cdata h => by
          simpa [Stmt.Resolved] using h.2⟩
  · exact fun h => ⟨h, Writes.start s⟩

theorem sfor_writes : StmtSpec (sfor P) := by
  intro g s
  simp -iota only [sfor]
  split
  · exact fun h => absurd h (Comp.not_ok_setupError _ _ (by decide))
  split
  rename_i s₁ init readInit
  split
  · exact fun h => absurd h (Comp.not_ok_setupError _ _ (by decide))
  split
  rename_i s₂ loop readLoop
  intro h
  have ok₂ : s₂.ok := by simpa using h
  obtain ⟨okLoop, looped⟩ := evalfor_writes good readLoop ok₂
  have ok₁ : s₁.ok := by simpa using okLoop
  refine ⟨by simpa using (initfor_writes good).ok readInit ok₁, ?_⟩
  have first := ((Writes.start s).next.next.stmt (initfor_writes good) readInit ok₁).next
  refine ((looped first (first.emitIm .setbreak (some 0))).reshape ?_).weaken ?_
  · simp [Stmt.code, Comp.pc]
  · intro cdata h
    simp only [List.append_nil] at h
    exact ⟨h.1.2, h.2⟩

/-! ## `switch` -/

omit good in
theorem reads_of_literal {s s' : Comp} {e : Expr} (found : literal s = some (s', e))
    (ok : s'.ok) : s.ok ∧ ReadsExpr g s s.code (s', e) := by
  obtain ⟨okLit, reads⟩ := literal_reads (g := g) found
  exact ⟨okLit.mp ok, reads⟩

theorem caseValue_writes {s' s'' : Comp} {v : Expr} {legal : Bool}
    (run : caseValue P g s' = (s'', v, legal)) (ok : s''.ok) :
    s'.ok ∧ legal = true ∧ ∀ {s pre new vars} {resolved : List Variant → Prop},
      Writes s s' pre new vars resolved → Writes s s'' pre (new ++ v.code) vars
        fun cdata => resolved cdata ∧ v.Resolved g.fields (scopeOf s.symstack ++ vars) cdata := by
  unfold caseValue at run
  split at run
  · cases run
    exact ⟨(singleton_reads good g s' ok).1, rfl, fun w => w.expr (singleton_reads good) rfl ok⟩
  all_goals try
    split at run
    · rename_i found
      cases run
      obtain ⟨okStart, reads⟩ := reads_of_literal (g := g) found (by simpa using ok)
      exact ⟨okStart, rfl, fun {s pre new vars resolved} w =>
        ((w.trans (fun scope cdata => v.Resolved g.fields scope cdata)
          (.ofReads reads)).rename (List.append_nil vars)).next⟩
    · rename_i missed
      cases run
      simp_all [literal]
  cases run
  exact absurd ok (Comp.not_ok_setupError _ _ (by decide))

theorem caseClause_writes {s' s'' : Comp} {v : Expr} {body : Stmt} {legal : Bool}
    (run : caseClause P g s' = (s'', v, body, legal)) (ok : s''.ok) :
    s'.ok ∧ legal = true ∧ ∀ {s pre new vars} {resolved : List Variant → Prop},
      Writes s s' pre new vars resolved →
      let b := s'.pc + 1 + v.size + 4
      Writes s s'' pre (new ++ Instr.emit0 .dup :: (v.code ++
          .emit0 .eq :: Instr.im .jmpz ↑(b + body.size) :: body.code b)) (vars ++ body.decls)
        fun cdata => resolved cdata ∧ v.Resolved g.fields (scopeOf s.symstack ++ vars) cdata ∧
          body.Resolved g.fields (scopeOf s.symstack ++ vars) cdata := by
  simp -iota only [caseClause] at run
  split at run
  rename_i s₁ v' legal' readValue
  split at run
  · rename_i illegal
    cases run
    exact absurd (caseValue_writes good readValue ok).2.1 illegal
  split at run
  · cases run
    exact absurd ok (Comp.not_ok_setupError _ _ (by decide))
  split at run
  rename_i s₂ body' readBody
  cases run
  have ok₂ : s₂.ok := by simpa using ok
  have ok₁ : s₁.ok := by simpa using good.stmts.ok readBody ok₂
  obtain ⟨okStart, -, read⟩ := caseValue_writes good readValue ok₁
  refine ⟨by simpa using okStart, rfl, fun {s pre new vars resolved} w => ?_⟩
  have compared := (read (w.emit0 .dup).next).next.emit0 .eq
  have bodied := (compared.emitIm .jmpz (some 0)).stmt good.stmts readBody ok₂
  have exits := bodied.patch compared (new ++ Instr.emit0 .dup :: (v.code ++ [Instr.emit0 .eq])) .jmpz
    (some 0) (body.code (s'.pc + 1 + v.size + 4)) (s'.pc + 1 + v.size + 4 + body.size)
    (by simp [w.pc, Expr.size, add_assoc]) (by simp) (by simp [w.pc, Expr.size]; omega)
  exact (exits.reshape (by simp)).weaken fun cdata h => ⟨h.1.1, h.1.2, h.2⟩

theorem defaultClause_writes {s' s'' : Comp} {pc pc' : Int} {other : Option Stmt} {legal : Bool}
    (run : defaultClause P g pc s' = (s'', other, pc', legal)) (ok : s''.ok) :
    s'.ok ∧ legal = true ∧ ∀ {s pre new vars} {resolved : List Variant → Prop},
      Writes s s' pre new vars resolved →
      pc' = Cases.defaultPc s'.pc pc (.withDefault other .nil) ∧
      Writes s s'' pre (new ++ Cases.code s'.pc (.withDefault other .nil))
        (vars ++ (Cases.withDefault other .nil).decls)
        fun cdata => resolved cdata ∧
          ∀ t ∈ other, t.Resolved g.fields (scopeOf s.symstack ++ vars) cdata := by
  simp -iota only [defaultClause] at run
  split at run
  · split at run
    · cases run
      exact absurd ok (Comp.not_ok_setupError _ _ (by decide))
    split at run
    rename_i s₁ body readBody
    cases run
    have ok₁ : s₁.ok := by simpa using ok
    refine ⟨by simpa using good.stmts.ok readBody ok₁, rfl, fun {s pre new vars resolved} w => ?_⟩
    have jumped := w.next.next.emitIm .jmp (some 0)
    refine ⟨by simp [Cases.withDefault, Cases.defaultPc, jumped.pc, w.pc, add_assoc], ?_⟩
    have bodied := jumped.stmt good.stmts readBody ok₁
    have exits := bodied.patch w.next.next new .jmp (some 0) (body.code (s'.pc + 3))
      (s'.pc + 3 + body.size) (by simp [w.pc, add_assoc]) rfl (by simp [w.pc, add_assoc])
    exact ((exits.reshape (by simp [Cases.withDefault, Cases.code, Instr.jmp, Instr.im])).rename
      (by simp [Cases.withDefault, Cases.decls])).weaken fun cdata h => ⟨h.1, by simpa using h.2⟩
  · cases run
    exact ⟨ok, rfl, fun w => ⟨rfl, ((w.reshape (by simp [Cases.withDefault, Cases.code])).rename
      (by simp [Cases.withDefault, Cases.decls])).weaken fun cdata h => ⟨h, by simp⟩⟩⟩

omit good in
theorem Cases.code_withDefault (b : Nat) (other : Option Stmt) (rest : Cases) :
    (Cases.withDefault other rest).code b =
      (Cases.withDefault other .nil).code b ++
        rest.code (b + (Cases.withDefault other .nil).size) := by
  cases other <;> simp [Cases.withDefault, Cases.code, Cases.size, add_assoc]

omit good in
theorem Cases.decls_withDefault (other : Option Stmt) (rest : Cases) :
    (Cases.withDefault other rest).decls = (Cases.withDefault other .nil).decls ++ rest.decls := by
  cases other <;> simp [Cases.withDefault, Cases.decls]

omit good in
theorem Cases.defaultPc_withDefault (b : Nat) (pc : Int) (other : Option Stmt) (rest : Cases) :
    (Cases.withDefault other rest).defaultPc b pc =
      rest.defaultPc (b + (Cases.withDefault other .nil).size)
        ((Cases.withDefault other .nil).defaultPc b pc) := by
  cases other <;> simp [Cases.withDefault, Cases.defaultPc, Cases.size, add_assoc]

theorem caseLoop_writes (n : Nat) {pc pc' : Int} {s' s'' : Comp} {cs : Cases} {legal : Bool}
    (run : caseLoop P g n pc s' = (s'', cs, pc', legal)) (ok : s''.ok) :
    s'.ok ∧ legal = true ∧ ∀ {s pre new vars} {resolved : List Variant → Prop},
      Writes s s' pre new vars resolved →
      pc' = cs.defaultPc s'.pc pc ∧
      Writes s s'' pre (new ++ cs.code s'.pc) (vars ++ cs.decls)
        fun cdata => resolved cdata ∧ cs.Resolved g.fields (scopeOf s.symstack ++ vars) cdata := by
  induction n generalizing pc s' s'' cs pc' legal with
  | zero =>
      cases run
      exact absurd ok (Comp.not_ok_giveUp s')
  | succ n ih =>
      simp -iota only [caseLoop] at run
      split at run
      · split at run
        rename_i s₁ v body legal₁ readCase
        split at run
        · rename_i illegal
          cases run
          exact absurd (caseClause_writes good readCase ok).2.1 illegal
        split at run
        rename_i s₂ other pc₂ legal₂ readDefault
        split at run
        · rename_i illegal
          cases run
          exact absurd (defaultClause_writes good readDefault ok).2.1 illegal
        split at run
        rename_i s₃ rest pc₃ legal₃ readRest
        cases run
        obtain ⟨ok₂, legal, rests⟩ := ih readRest ok
        obtain ⟨ok₁, -, defaults⟩ := defaultClause_writes good readDefault ok₂
        obtain ⟨okStart, -, clause⟩ := caseClause_writes good readCase ok₁
        refine ⟨okStart, legal, fun {s pre new vars resolved} w => ?_⟩
        have first := clause w
        obtain ⟨pcDefault, second⟩ := defaults first
        obtain ⟨pcRest, third⟩ := rests second
        have at₁ : s₁.pc = s'.pc + 1 + v.size + 4 + body.size := by
          simp [first.pc, w.pc, Expr.size]; omega
        have at₂ : s₂.pc = s₁.pc + (Cases.withDefault other .nil).size := by
          simp [first.pc, second.pc, add_assoc]
        refine ⟨?_, ((third.reshape ?_).rename ?_).weaken ?_⟩
        · rw [pcRest, pcDefault, at₂, at₁]
          exact (Cases.defaultPc_withDefault _ _ other rest).symm
        · rw [at₂, at₁, Cases.code, Cases.code_withDefault _ other rest]
          simp
        · simp [Cases.decls, Cases.decls_withDefault other rest]
        · intro cdata h
          refine ⟨h.1.1.1, h.1.1.2.1, h.1.1.2.2, ?_⟩
          cases other with
          | none => simpa [Cases.withDefault, Cases.decls] using h.2
          | some t =>
              refine ⟨?_, ?_⟩
              · simpa using h.1.2 t rfl
              · simpa [Cases.withDefault, Cases.decls] using h.2
      · cases run
        exact ⟨ok, rfl, fun w => ⟨rfl, ((w.reshape (by simp [Cases.code])).rename
          (by simp [Cases.decls])).weaken fun cdata h => ⟨h, trivial⟩⟩⟩

omit good in
/-- Closing a block: the number of its variables is written into its `ENTER`. -/
theorem symtabExit_code {s₁ s₂ s₃ : Comp} {n : Nat} {pre : List Cell} {top : Symtab}
    {outer : List Symtab} {more : List Instr} {vars : List Local} {inner : List Variant → Prop}
    (code : s₁.code = pre ++ cells [.im .enter 0]) (stack : s₁.symstack = top :: outer)
    (opened : top.patchupPc = pre.length + 1) (body : Writes s₁ s₂ s₁.code more vars inner)
    (run : symtabExit s₂ = (n, s₃)) :
    (s₃.ok ↔ s₂.ok) ∧ s₃.code = pre ++ cells (.im .enter n :: more) ∧ s₃.symstack = outer ∧
      s₃.cdata = s₂.cdata ∧ n = (top.vars ++ vars).length := by
  have frames := body.frames
  have tables := s₂.tables
  rw [stack] at frames
  generalize stack₂ : s₂.symstack = st at frames tables
  cases frames with
  | @top _ top' _ patchupPc noted =>
      unfold symtabExit at run
      split at run
      · rename_i empty
        rw [stack₂] at empty
        cases empty
      · rename_i rest stack'
        rw [stack₂] at stack'
        cases stack'
        cases run
        refine ⟨Iff.rfl, ?_, rfl, rfl, noted ▸ tables.1⟩
        have code₂ : s₂.code = pre ++ .word (encodeOp .enter 1 .im .class) :: .lo (some 0) ::
            .hi (some 0) :: cells more := by
          simp [body.code, code, Instr.im, Instr.cells]
        have patched := set2Element_patch pre (cells more) (.word (encodeOp .enter 1 .im .class))
          (.lo (some 0)) (.hi (some 0)) (some ↑top'.count)
        rw [← code₂, ← opened, ← patchupPc] at patched
        exact patched

omit good in
/-- A block: its `ENTER`, what is written inside, and the number of its variables. -/
theorem symtabExit_writes {s s' s₂ s₃ : Comp} {n : Nat} {pre : List Cell}
    {new more : List Instr} {vars inside : List Local} {resolved : List Variant → Prop}
    (inner : List Local → List Variant → Prop) (w : Writes s s' pre new vars resolved)
    (body : Writes (symtabEnter (s'.pc + 1) (s'.emitIm .enter (some 0))) s₂
      (s'.emitIm .enter (some 0)).code more inside (inner (scopeOf s'.symstack)))
    (run : symtabExit s₂ = (n, s₃)) :
    Writes s s₃ pre (new ++ Instr.im .enter n :: more) vars
      fun cdata => resolved cdata ∧ n = inside.length ∧ inner (scopeOf s.symstack ++ vars) cdata := by
  have opened : (symtabEnter (s'.pc + 1) (s'.emitIm .enter (some 0))).code =
      s'.code ++ cells [.im .enter 0] := s'.code_emitIm .enter (some 0)
  obtain ⟨-, code, frames, consts, count⟩ := symtabExit_code opened rfl rfl body run
  have block : Writes s' s₃ s'.code (Instr.im .enter n :: more) []
      fun cdata => n = inside.length ∧ inner (scopeOf s'.symstack) cdata :=
    ⟨code, frames ▸ .refl _, consts ▸ body.consts, fun _ cdata ext =>
      ⟨count, body.resolved (List.cons_ne_nil _ _) cdata (consts ▸ ext)⟩⟩
  exact (w.trans (fun scope cdata => n = inside.length ∧ inner scope cdata) block).rename
    (List.append_nil vars)

theorem switchblock_writes {s' s'' : Comp} {n : Nat} {cs : Cases}
    (run : switchblock P g s' = (s'', n, cs)) (ok : s''.ok) :
    s'.ok ∧ ∀ {s pre new vars} {resolved : List Variant → Prop},
      Writes s s' pre new vars resolved →
      Writes s s'' pre (new ++ Instr.im .enter n :: (cs.code (s'.pc + 3) ++
          [Instr.jmp (some (cs.defaultPc (s'.pc + 3) (-1))), Instr.emit0 .leave])) vars
        fun cdata => resolved cdata ∧ n = cs.decls.length ∧
          cs.Resolved g.fields (scopeOf s.symstack ++ vars) cdata := by
  simp -iota only [switchblock] at run
  split at run
  · cases run
    exact absurd ok (Comp.not_ok_setupError _ _ (by decide))
  split at run
  rename_i s₁ cs' pc legal readCases
  split at run
  · rename_i illegal
    cases run
    exact absurd (caseLoop_writes good _ readCases ok).2.1 illegal
  split at run
  rename_i n' s₂ exit
  have read : s₂.ok → s'.ok ∧ ∀ {s pre new vars} {resolved : List Variant → Prop},
      Writes s s' pre new vars resolved →
      Writes s s₂ pre (new ++ Instr.im .enter n' :: (cs'.code (s'.pc + 3) ++
          [Instr.jmp (some (cs'.defaultPc (s'.pc + 3) (-1))), Instr.emit0 .leave])) vars
        fun cdata => resolved cdata ∧ n' = cs'.decls.length ∧
          cs'.Resolved g.fields (scopeOf s.symstack ++ vars) cdata := by
    intro ok₂
    have ok₁ : s₁.ok := by
      unfold symtabExit at exit
      split at exit <;> (cases exit; exact ok₂)
    obtain ⟨okCases, -, cased⟩ := caseLoop_writes good _ readCases ok₁
    obtain ⟨pcEq, wrote⟩ := cased (Writes.start _)
    refine ⟨okCases, fun w => ?_⟩
    have body := ((wrote.emitIm .jmp (some pc)).emit0 .leave).weaken fun cdata h => h.2
    rw [scopeOf_symtabEnter, List.append_nil] at body
    have closed := symtabExit_writes (fun scope cdata => cs'.Resolved g.fields scope cdata)
      w.next body exit
    have first : (symtabEnter (s'.next.pc + 1) (s'.next.emitIm .enter (some 0))).pc =
        s'.pc + 3 := ((Writes.start s').next.emitIm .enter (some 0)).pc
    rw [first] at closed pcEq
    exact closed.reshape (by simp [pcEq, Instr.jmp])
  split at run
  · cases run
    exact absurd ok (Comp.not_ok_setupError _ _ (by decide))
  · cases run
    obtain ⟨okStart, wrote⟩ := read (by simpa using ok)
    exact ⟨okStart, fun w => (wrote w).next⟩

theorem sswitch_writes : StmtSpec (sswitch P) := by
  intro g s
  simp -iota only [sswitch]
  split
  · exact fun h => absurd h (Comp.not_ok_setupError _ _ (by decide))
  split
  rename_i s₁ e readValue
  split
  · exact fun h => absurd h (Comp.not_ok_setupError _ _ (by decide))
  split
  rename_i s₂ n cs readBlock
  intro h
  have ok₂ : s₂.ok := by simpa using h
  obtain ⟨okBlock, block⟩ := switchblock_writes good readBlock ok₂
  have ok₁ : s₁.ok := by simpa using okBlock
  refine ⟨by simpa using good.expr.ok readValue ok₁, ?_⟩
  have value : Writes s s₁.next s.code e.code _ _ :=
    ((Writes.start s).next.next.expr good.expr readValue ok₁).next
  have opened := value.emitIm .setbreak (some 0)
  have wrote := block opened
  have first : (s₁.next.emitIm .setbreak (some 0)).pc + 3 = s.pc + e.size + 3 + 3 := by
    rw [opened.pc]
    simp [Comp.pc, Expr.size, add_assoc]
  rw [first] at wrote
  have breaks := wrote.patch value e.code .setbreak (some 0)
    (.im .enter n :: (cs.code (s.pc + e.size + 3 + 3) ++
      [.jmp (some (cs.defaultPc (s.pc + e.size + 3 + 3) (-1))), Instr.emit0 .leave]))
    (s.pc + e.size + 3 + 3 + cs.size + 4) (by simp) rfl
    (by simp [Comp.pc, Expr.size]; omega)
  refine (breaks.reshape ?_).weaken ?_
  · simp [Stmt.code, Instr.im]
  · intro cdata h
    simp only [List.append_nil] at h
    exact ⟨h.1.2, h.2⟩

/-! ## `return` and `try` -/

theorem sreturn_writes : StmtSpec (sreturn P) := by
  intro g s
  simp -iota only [sreturn]
  split
  · split
    rename_i s₁ e readValue
    intro h
    have ok₁ : s₁.ok := by simpa using h
    have okStart := good.expr.ok readValue ok₁
    refine ⟨okStart, ?_⟩
    have start : Writes s { s.next.setRhs true with hasretval := true } s.code [] _ _ :=
      (Writes.start s).keep rfl rfl rfl
    have value := ((start.expr good.expr readValue ok₁).emit0 .ret).setRhs false
    exact (value.reshape (by simp [Stmt.code])).weaken fun cdata h => by
      simpa [Stmt.Resolved] using h.2
  · split
    · exact fun h => absurd h (Comp.not_ok_setupError _ _ (by decide))
    · exact fun h => ⟨by simpa using h, (((Writes.start s).next.emit0 .leave).emit0 .vret).weaken
        fun cdata h => trivial⟩

omit good in
theorem catchHead_writes {s s' : Comp} {v : Option Local} (run : catchHead s = (s', v))
    (ok : s'.ok) : s.ok ∧ ∃ w, v = some w ∧ WritesStmt g s s' (.decl w) := by
  simp -iota only [catchHead] at run
  split at run
  · cases run
    exact absurd ok (Comp.not_ok_setupError _ _ (by decide))
  split at run
  · cases run
    exact absurd ok (Comp.not_ok_setupError _ _ (by decide))
  split at run
  · cases run
    exact absurd ok (Comp.not_ok_setupError _ _ (by decide))
  split at run
  rename_i vdp' s₁ note
  obtain ⟨okNote, noted⟩ := symtabNote_writes (g := g) note
  split at run
  · cases run
    exact absurd ok (Comp.not_ok_setupError _ _ (by decide))
  · cases run
    have same : (s.next.next.skip .var).code = s.code ∧
        (s.next.next.skip .var).symstack = s.symstack ∧
        (s.next.next.skip .var).cdata = s.cdata := by simp
    refine ⟨by simpa using okNote.mp ok, _, rfl, ?_, ?_, ?_, ?_⟩
    · exact same.1 ▸ noted.code
    · exact same.2.1 ▸ noted.frames
    · exact same.2.2 ▸ noted.consts
    · exact same.2.1 ▸ noted.resolved

theorem finallyblock_writes : StmtSpec (finallyblock P) := by
  intro g s
  simp -iota only [finallyblock]
  split
  · split
    rename_i s₁ n body readBody
    intro h
    have ok₁ : s₁.ok := by simpa using h
    exact ⟨by simpa using good.stmtblock.ok readBody ok₁,
      ((Writes.start s).next.block good.stmtblock readBody ok₁).weaken fun cdata h => by
        simpa using h.2⟩
  · exact fun h => ⟨h, Writes.start s⟩

/-- `dotry` behind the catch variable, when what was written so far is the `TRY`,
the block, and at `q` the jump to the `finally`. -/
theorem catchblock_writes {q n : Nat} {s' s'' : Comp} {v : Local} {handler fin : Stmt}
    (run : catchblock P g (q + 1) v s' = (s'', n, handler, fin)) (ok : s''.ok) :
    s'.ok ∧ ∀ {s pre before vars} {resolved : List Variant → Prop},
      q = pre.length + codeSize before →
      Writes s s' pre (before ++ [Instr.jmp (some 0)]) vars resolved →
      let finpc := q + 3 + 11 + (3 + handler.size + 1)
      Writes s s'' pre
        (before ++ Instr.jmp (some ↑finpc) :: Instr.emit1 .lvalue .block (some v.offset) ::
          Instr.emit0 .rot :: Instr.emit0 .assign :: Instr.im .push 1 ::
          Instr.jmp (some ↑finpc) :: Instr.im .enter n ::
          (handler.code (q + 3 + 11 + 3) ++ Instr.emit0 .leave ::
            (fin.code finpc ++ [Instr.im .jmpnz ↑(q + 3 + 11)]))) (vars ++ fin.decls)
        fun cdata => resolved cdata ∧ n = handler.decls.length ∧
          handler.Resolved g.fields (scopeOf s.symstack ++ vars) cdata ∧
          fin.Resolved g.fields (scopeOf s.symstack ++ vars) cdata := by
  simp -iota only [catchblock] at run
  split at run
  rename_i s₁ n' handler' readHandler
  split at run
  rename_i s₂ fin' readFin
  cases run
  have ok₂ : s₂.ok := by simpa only [Comp.ok_emitIm, Comp.ok_patch] using ok
  have ok₁ : s₁.ok := by simpa using (finallyblock_writes good).ok readFin ok₂
  refine ⟨by simpa using good.stmtblock.ok readHandler ok₁, fun {s pre before vars _} at_jump w => ?_⟩
  have target : Writes _ ((s'.emit1 .lvalue .block).emitArg (some ↑v.offset)) _
      (before ++ [Instr.jmp (some 0)] ++ [Instr.emit1 .lvalue .block (some ↑v.offset)]) _ _ :=
    w.emit (by simp [cells, Instr.cells]) rfl rfl
  have pushed := ((target.emit0 .rot).emit0 .assign).emitIm .push (some 1)
  have start := (pushed.emitIm .jmp (some 0)).pc
  have startcatch : pre.length + codeSize (before ++ [Instr.jmp (some 0)] ++
      [Instr.emit1 .lvalue .block (some ↑v.offset)] ++ [Instr.emit0 .rot] ++
      [Instr.emit0 .assign] ++ [Instr.emit1 .push .im (some 1)] ++
      [Instr.emit1 .jmp .im (some 0)]) = q + 3 + 11 := by
    simp [at_jump, add_assoc]
  have handled := (pushed.emitIm .jmp (some 0)).block good.stmtblock readHandler ok₁
  rw [startcatch] at start handled
  have ends := handled.patchAt before .jmp (some 0)
    (.emit1 .lvalue .block (some v.offset) :: Instr.emit0 .rot :: Instr.emit0 .assign ::
      .im .push 1 :: Instr.jmp (some 0) :: (Stmt.block n handler).code (q + 3 + 11))
    (q + 3 + 11 + (3 + handler.size + 1)) (by simp [Instr.jmp, Instr.im]) at_jump
    (by simp [at_jump, Stmt.size]; omega)
  have both := ends.patch pushed
    (before ++ Instr.jmp (some ↑(q + 3 + 11 + (3 + handler.size + 1))) ::
      Instr.emit1 .lvalue .block (some v.offset) :: Instr.emit0 .rot :: Instr.emit0 .assign ::
      [Instr.im .push 1]) .jmp (some 0) ((Stmt.block n handler).code (q + 3 + 11))
    (q + 3 + 11 + (3 + handler.size + 1)) (by simp [Instr.jmp, Instr.im]) (by simp)
    (by simp [at_jump, Stmt.size]; omega)
  have placed : pre.length + codeSize (before ++ Instr.jmp (some ↑(q + 3 + 11 +
      (3 + handler.size + 1))) :: Instr.emit1 .lvalue .block (some v.offset) ::
      Instr.emit0 .rot :: Instr.emit0 .assign :: [Instr.im .push 1] ++
      Instr.im .jmp ↑(q + 3 + 11 + (3 + handler.size + 1)) ::
        (Stmt.block n handler).code (q + 3 + 11)) = q + 3 + 11 + (3 + handler.size + 1) := by
    simp [at_jump, Stmt.size]; omega
  have closed := both.stmt (finallyblock_writes good) readFin ok₂
  rw [placed] at closed
  rw [start]
  refine ((closed.emitIm .jmpnz (some ↑(q + 3 + 11))).reshape ?_).weaken
    fun cdata h => ⟨h.1.1, h.1.2.1, h.1.2.2, h.2⟩
  simp [Stmt.code, Instr.im, Instr.jmp]

theorem dotry_writes : StmtSpec (dotry P) := by
  intro g s
  simp -iota only [dotry]
  split
  rename_i s₁ n body readBody
  split
  · rename_i s₂ head
    intro h
    obtain ⟨-, w, named, -⟩ := catchHead_writes (g := g) head h
    cases named
  rename_i s₂ v head
  split
  rename_i s₃ m handler fin readCatch
  intro h
  have ok₃ : s₃.ok := by simpa using h
  obtain ⟨okCatch, caught⟩ := catchblock_writes good readCatch ok₃
  obtain ⟨okHead, w, named, headed⟩ := catchHead_writes (g := g) head okCatch
  cases named
  have ok₁ : s₁.ok := by simpa using okHead
  refine ⟨by simpa using good.stmtblock.ok readBody ok₁, ?_⟩
  have start := Writes.start s
  have guarded := ((start.emitIm .try (some (-1))).block good.stmtblock readBody
    ok₁).emitIm .push (some 0)
  have sized : s.code.length + codeSize ([] ++ [Instr.emit1 .try .im (some (-1))]) = s.pc + 3 := by
    simp [Comp.pc]
  rw [sized] at guarded
  have at_jump : (s₁.emitIm .push (some 0)).pc = s.pc + 3 + (Stmt.block n body).size + 3 := by
    rw [guarded.pc]
    simp [Comp.pc, add_assoc]
  have tried := (guarded.emitIm .jmp (some 0)).patch start [] .try (some (-1))
    ((Stmt.block n body).code (s.pc + 3) ++ [Instr.im .push 0, Instr.jmp (some 0)])
    (s.pc + 3 + (Stmt.block n body).size + 6) (by simp [Instr.im, Instr.jmp]) rfl
    (by simp [Comp.pc]; omega)
  rw [at_jump] at caught
  have shaped : Writes s _ s.code (.im .try ↑(s.pc + 3 + (Stmt.block n body).size + 6) ::
      ((Stmt.block n body).code (s.pc + 3) ++ [Instr.im .push 0]) ++ [Instr.jmp (some 0)]) [v] _ :=
    (tried.trans (fun scope cdata => (Stmt.decl v).Resolved g.fields scope cdata) headed).reshape
      (by simp only [Stmt.code, List.append_nil, List.nil_append, List.append_assoc,
        List.cons_append])
  have wrote := caught (by simp [Comp.pc]; omega) shaped
  refine (wrote.reshape ?_).weaken ?_
  · simp [Stmt.code, Instr.im, Instr.jmp, add_assoc]
  · intro cdata h
    simp only [List.append_nil] at h
    obtain ⟨⟨⟨-, bodied⟩, slot⟩, count, handled, final⟩ := h
    refine ⟨bodied, ?_, count, ?_, ?_⟩
    · simpa [Stmt.decls, Stmt.Resolved] using slot
    · simpa [Stmt.decls] using handled
    · simpa [Stmt.decls] using final

/-! ## Statement lists and blocks -/

/-- One statement of a list; the flag is only false in front of a `default`. -/
theorem stmt_writes {s s' : Comp} {t : Stmt} {more : Bool} (run : stmt P g s = (s', t, more))
    (ok : s'.ok) : s.ok ∧ WritesStmt g s s' t := by
  have pass : ∀ {f : Scope → Comp → Comp × Stmt}, StmtSpec f → ((f g s).1, (f g s).2, true) =
      (s', t, more) → s.ok ∧ WritesStmt g s s' t := by
    intro f spec same
    cases same
    exact spec g s ok
  simp -iota only [stmt] at run
  split at run
  · exact pass (sif_writes good) run
  · exact pass (swhile_writes good) run
  · exact pass (sfor_writes good) run
  · exact pass (sswitch_writes good) run
  · exact pass (sreturn_writes good) run
  · exact pass (localvar_writes good) run
  · cases run
    exact ⟨by simpa using ok, (Writes.start s).next⟩
  · cases run
    exact ⟨by simpa using ok, ((Writes.start s).emit0 .break).next⟩
  · cases run
    exact ⟨by simpa using ok, ((Writes.start s).emit0 .continue).next⟩
  · cases run
    unfold delop at ok ⊢
    split at ok
    · exact absurd ok (Comp.not_ok_setupError _ _ (by decide))
    · rename_i named
      rw [if_neg named]
      exact ⟨by simpa using ok, (Writes.start s).next.next⟩
  · cases run
    obtain ⟨okStart, wrote⟩ := dotry_writes good g s.next ok
    exact ⟨by simpa using okStart, wrote.code, wrote.frames, wrote.consts, wrote.resolved⟩
  · split at run
    rename_i s₁ e readValue
    cases run
    have ok₁ : s₁.ok := by simpa using ok
    refine ⟨by simpa using good.expr.ok readValue ok₁, ?_⟩
    exact (((Writes.start s).next.expr good.expr readValue ok₁).emit0 .throw).weaken
      fun cdata h => by simpa [Stmt.Resolved] using h.2
  · cases run
    exact absurd ok (Comp.not_ok_setupError _ _ (by decide))
  · cases run
    exact ⟨ok, Writes.start s⟩
  · split at run
    rename_i s₁ e readValue
    cases run
    exact ⟨good.expr.ok readValue ok,
      ((Writes.start s).expr good.expr readValue ok).weaken fun cdata h => by
        simpa [Stmt.Resolved] using h.2⟩

/-- The `OP_LINE` in front of a statement, when the program is debugged. -/
theorem stmtsLoop_writes (n : Nat) (acc : Stmt) (s' : Comp) {s'' : Comp} {t : Stmt}
    (run : stmtsLoop P g n acc s' = (s'', t)) (ok : s''.ok) :
    s'.ok ∧ ∀ {s}, WritesStmt g s s' acc → WritesStmt g s s'' t := by
  induction n generalizing acc s' with
  | zero =>
      cases run
      exact absurd ok (Comp.not_ok_giveUp s')
  | succ n ih =>
      simp -iota only [stmtsLoop] at run
      split at run
      · split at run
        rename_i s₁ acc₁ line
        have lined : (s₁.ok → s'.ok) ∧ ∀ {s},
            WritesStmt g s s' acc → WritesStmt g s s₁ acc₁ := by
          split at line
          · cases line
            exact ⟨id, fun w => w.seq (((Writes.start s').emitIm .line _).weaken
              fun cdata h => trivial)⟩
          · cases line
            exact ⟨id, id⟩
        split at run
        rename_i s₂ t₂ more readStmt
        split at run
        · obtain ⟨ok₂, rest⟩ := ih _ _ run
          obtain ⟨ok₁, wrote⟩ := stmt_writes good readStmt ok₂
          exact ⟨lined.1 ok₁, fun w => rest ((lined.2 w).seq wrote)⟩
        · cases run
          obtain ⟨ok₁, wrote⟩ := stmt_writes good readStmt ok
          exact ⟨lined.1 ok₁, fun w => (lined.2 w).seq wrote⟩
      · cases run
        exact ⟨ok, id⟩

theorem stmts_writes : StmtSpec (stmts P) := by
  intro g s h
  obtain ⟨ok, wrote⟩ := stmtsLoop_writes good P.rounds .skip s rfl h
  exact ⟨ok, wrote (Writes.start s)⟩

/-- The rest of a block, behind its `OP_ENTER` and with its symbol table on top. -/
theorem blockRest_code {s s' : Comp} {n : Nat} {body : Stmt}
    (run : blockRest P g s = (s', n, body)) (ok : s'.ok) :
    s.ok ∧ ∀ {pre top outer}, s.code = pre ++ cells [.im .enter 0] → s.symstack = top :: outer →
      top.patchupPc = pre.length + 1 →
      s'.code = pre ++ cells ((Stmt.block n body).code pre.length) ∧ s'.symstack = outer ∧
        s.cdata <+: s'.cdata ∧ n = (top.vars ++ body.decls).length ∧
          body.Resolved g.fields (scopeOf s.symstack) s'.cdata := by
  simp -iota only [blockRest] at run
  split at run
  rename_i s₁ body' readBody
  split at run
  · rename_i err
    cases run
    exact absurd ok.1 err
  split at run
  rename_i n' s₂ exit
  have read : s₂.ok → s.ok ∧ ∀ {pre top outer}, s.code = pre ++ cells [.im .enter 0] →
      s.symstack = top :: outer → top.patchupPc = pre.length + 1 →
      s₂.code = pre ++ cells ((Stmt.block n' body').code pre.length) ∧ s₂.symstack = outer ∧
        s.cdata <+: s₂.cdata ∧ n' = (top.vars ++ body'.decls).length ∧
          body'.Resolved g.fields (scopeOf s.symstack) s₂.cdata := by
    intro ok₂
    have ok₁ : s₁.ok := by
      unfold symtabExit at exit
      split at exit <;> (cases exit; exact ok₂)
    refine ⟨good.stmts.ok readBody ok₁, fun {pre top outer} code stack opened => ?_⟩
    have inner := ((Writes.start s).stmt good.stmts readBody ok₁).emit0 .leave
    obtain ⟨-, closed, below, consts, count⟩ := symtabExit_code code stack opened inner exit
    have inside : s.symstack ≠ [] := by simp [stack]
    have resolved := (inner.resolved inside s₂.cdata (by simp [consts])).2
    refine ⟨?_, below, ?_, count, by simpa using resolved⟩
    · simp [closed, code, Stmt.code, Instr.length_cells]
    · rw [consts]
      exact inner.consts
  split at run
  · cases run
    exact absurd ok (Comp.not_ok_setupError _ _ (by decide))
  · cases run
    exact read (by simpa using ok)

theorem stmtblock_writes : BlockSpec (stmtblock P) := by
  intro g s
  simp -iota only [stmtblock]
  split
  · exact fun h => absurd h (Comp.not_ok_setupError _ _ (by decide))
  generalize run : blockRest P g _ = r
  obtain ⟨s', n, body⟩ := r
  intro h
  obtain ⟨ok, closed⟩ := blockRest_code good run h
  obtain ⟨code, frames, consts, count, resolved⟩ :=
    closed (s.next.code_emitIm .enter (some 0)) rfl rfl
  have same : s'.symstack = s.symstack := frames
  rw [scopeOf_symtabEnter] at resolved
  exact ⟨ok, code, same ▸ .refl _, consts, fun _ cdata ext =>
    ⟨count, Stmt.Resolved.mono (fun _ mem => mem) ext resolved⟩⟩

end

/-- The contracts of the recursive entries, by induction on the depth. -/
theorem parsers_good (n : Nat) : ParsersGood (parsers n) := by
  induction n with
  | zero =>
      exact ⟨fun _ s h => absurd h s.not_ok_giveUp, fun _ _ s h => absurd h s.not_ok_giveUp,
        fun _ _ s h => absurd h s.not_ok_giveUp, fun _ _ s h => absurd h s.not_ok_giveUp,
        fun _ _ s h => absurd h s.not_ok_giveUp, fun _ _ s h => absurd h s.not_ok_giveUp,
        fun _ s h => absurd h s.not_ok_giveUp, fun _ s h => absurd h s.not_ok_giveUp,
        fun _ s h => absurd h s.not_ok_giveUp⟩
  | succ n good =>
      exact ⟨expr_reads good, derefTail_cont good, morefactors_cont good, moreterms_cont good,
        morerelops_cont good, morelogop_cont good, stmts_writes good, stmtblock_writes good,
        sif_writes good⟩

end Jspp.Compiler
