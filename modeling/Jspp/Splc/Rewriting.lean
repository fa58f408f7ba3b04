/-
# Splc.Rewriting -- the text of a body around its references

A reference to a parameter is to be replaced by its question mark form, with the
indicator that stands directly behind it, and all other text is to be kept.
`Rewrites` says this of a text; the parameter of a reference is the one that the
lookup finds.

The copy of the buffer loses its last character.  What stands in it before that
is the rewritten text only as long as no white space follows a reference: it is
appended in front of the question mark.

* `reference`, `Rewrites`: a text with its references replaced.
* `reference_bare`: a reference without white space behind it.
* `ends_copied`: the buffer at the end against the rewritten text.
* `preserved_iff`: the body is preserved exactly if it is empty.
* `far_not_preserved`: a text of which a part is skipped.
-/
import Jspp.Splc.Sources

namespace Jspp.Splc

open Jspp.Theory

set_option autoImplicit false

namespace Source

variable (src : Source)

/-! ## A text with its references replaced -/

/-- The record of a field, behind OF, and what follows it. -/
def ofBehind (rest : Bytes) : Option (Bytes × Bytes) :=
  match rest.dropWhile iswhitespace with
  | o :: f :: 32 :: rest =>
      if sameText true [o, f] (lit "OF") then some (wordOf rest, afterWord rest) else none
  | _ => none

/-- The text behind an indicator that stands directly here. -/
def ownIndicator (rest : Bytes) : Option Bytes :=
  let rest := rest.dropWhile iswhitespace
  if startsText true rest (lit "INDICATOR") then
    match (rest.drop 9).dropWhile iswhitespace with
    | mark :: rest =>
        if mark = 58 ∨ mark = 63 then
          some (((ofBehind (afterWord rest)).map (·.2)).getD (afterWord rest))
        else none
    | [] => none
  else none

section Rewriting

variable [Copying]

/-- The parameter of a reference whose mark stands in front of `rest`, and the text behind it. -/
def referred (rest : Bytes) : Option (Sqlparam × Bytes) :=
  match ofBehind (afterWord rest) with
  | none => (sqlprocFindParam src.past src.prms (nameOf rest)).map fun prm => (prm, afterWord rest)
  | some (word2, after) =>
      let name2Raw := Packet.stringbufferToString word2
      let find (special : Bool) :=
        sqlprocFindParam2 src.past src.prms (nameOf rest) (_sqlprocConvert name2Raw special).m_cstr
      ((find false).or (find true)).map fun prm => (prm, after)

/-- The form of a reference, with its indicator, and the text behind them. -/
def reference (rest : Bytes) : Option (Bytes × Bytes) :=
  (src.referred rest).map fun (prm, after) =>
    match ownIndicator after with
    | none => (formOf prm, after)
    | some after => (formOf prm ++ lit "INDICATOR ?", after)

/-- The text with each reference replaced, and everything else as it is. -/
inductive Rewrites : Bytes → Bytes → Prop where
  | done : Rewrites [] []
  | plain {c : UInt8} {rest out : Bytes} (plain : plainCh c = true) (behind : Rewrites rest out) :
      Rewrites (c :: rest) (c :: out)
  | quoted {quote : UInt8} {text rest out : Bytes} (quotes : quote = 39 ∨ quote = 34)
      (inside : quote ∉ text) (behind : Rewrites rest out) :
      Rewrites (quote :: text ++ quote :: rest) (quote :: text ++ quote :: out)
  | unclosed {quote : UInt8} {text : Bytes} (quotes : quote = 39 ∨ quote = 34)
      (inside : quote ∉ text) : Rewrites (quote :: text) (quote :: text)
  | reference {mark : UInt8} {rest form after out : Bytes} (marks : mark = 58 ∨ mark = 63)
      (refers : src.reference rest = some (form, after)) (behind : Rewrites after out) :
      Rewrites (mark :: rest) (form ++ out)

end Rewriting

variable {src : Source}

section Reading

variable [Copying]

/-! ## The form of a reference -/

omit [Copying] in
/-- A letter is wanted where a comma or a parenthesis stands. -/
theorem startsText_bare {rest : Bytes} {letter : UInt8} (word : Bytes)
    (bare : ∀ c ∈ rest.head?, c = 44 ∨ c = 41) (other : toupper letter ≠ 44 ∧ toupper letter ≠ 41) :
    startsText true rest (letter :: word) = false := by
  cases rest with
  | nil => rfl
  | cons c rest =>
      have same : sameCh true c letter = false := by
        rcases bare c rfl with rfl | rfl
        · exact beq_false_of_ne other.1.symm
        · exact beq_false_of_ne other.2.symm
      rw [startsText, same, Bool.false_and]

omit [Copying] in
theorem ofBehind_bare {rest : Bytes} (bare : ∀ c ∈ rest.head?, c = 44 ∨ c = 41) :
    ofBehind rest = none := by
  rw [ofBehind, dropWhile_bare bare]
  split
  case h_1 o f tail =>
    have wrong : sameText true [o, f] (lit "OF") = false := by
      rcases bare o rfl with rfl | rfl <;> rfl
    rw [wrong, if_neg Bool.false_ne_true]
  case h_2 => rfl

omit [Copying] in
theorem ownIndicator_bare {rest : Bytes} (bare : ∀ c ∈ rest.head?, c = 44 ∨ c = 41) :
    ownIndicator rest = none := by
  have wrong : startsText true rest (lit "INDICATOR") = false :=
    startsText_bare _ bare (by decide)
  rw [ownIndicator, dropWhile_bare bare]
  exact if_neg (by rw [wrong]; exact Bool.false_ne_true)

theorem reference_bare {rest : Bytes} (bare : ∀ c ∈ (afterWord rest).head?, c = 44 ∨ c = 41) :
    src.reference rest = (sqlprocFindParam src.past src.prms (nameOf rest)).map fun prm =>
      (formOf prm, afterWord rest) := by
  rw [reference, referred, ofBehind_bare bare]
  cases sqlprocFindParam src.past src.prms (nameOf rest) with
  | none => rfl
  | some prm => simp only [Option.map_some, ownIndicator_bare bare]

theorem reference_mark {rest form after : Bytes}
    (refers : src.reference rest = some (form, after)) : ∃ more, form = 63 :: more := by
  obtain ⟨⟨prm, rest'⟩, -, refers⟩ := Option.map_eq_some_iff.mp refers
  simp only at refers
  split at refers
  · cases refers
    exact ⟨_, rfl⟩
  · cases refers
    exact ⟨_, rfl⟩

/-! ## The buffer at the end -/

/-- The two differ, and not only in the last place of the first. -/
def Differs (one other : Bytes) : Prop :=
  ∃ front c d more rest, one = front ++ c :: more ∧ more ≠ [] ∧ other = front ++ d :: rest ∧ c ≠ d

omit [Copying] in
theorem Differs.dropLast_ne {one other : Bytes} (differs : Differs one other) :
    one.dropLast ≠ other := by
  obtain ⟨front, c, d, more, rest, rfl, some, rfl, apart⟩ := differs
  intro same
  rw [List.dropLast_append_of_ne_nil (List.cons_ne_nil _ _), List.dropLast_cons_of_ne_nil some]
    at same
  exact apart (List.cons.inj (List.append_cancel_left same)).1

/-- Up to its end the buffer is the rewritten text, or it differs in front of its last place. -/
theorem ends_copied {rest out : Bytes} (rewrites : src.Rewrites rest out) :
    ∀ {s e : Parse}, src.text.drop s.pos = rest → 0 ∉ s.buf → src.loop.Ends s e →
      cstr e.buf = s.buf ++ out ∨ Differs (cstr e.buf) (s.buf ++ out) := by
  induction rewrites with
  | done =>
      intro s e left whole ends
      rw [List.append_nil]
      exact .inl (ends_text left whole ends)
  | @plain c rest out plain _ ih =>
      intro s e left whole ends
      have whole' : 0 ∉ s.buf ++ [c] := by
        rw [List.mem_append, not_or]
        refine ⟨whole, fun zero => whole_of_left left ?_⟩
        rw [← List.mem_singleton.mp zero]
        exact List.mem_cons_self
      have step := ih (drop_next left) whole' (ends_plain left plain ends)
      rwa [List.append_assoc] at step
  | @quoted quote text rest out quotes inside _ ih =>
      intro s e left whole ends
      obtain ⟨s', ran, behind⟩ := ends_quote left quotes ends
      have stops : src.body.run (· != quote) (s.pos + 1) = text :=
        run_cons (drop_next left) (fun d mem => bne_iff_ne.mpr fun same => inside (same ▸ mem))
          (bne_self_eq_false quote)
      have closing : src.text.drop (s.pos + 1 + text.length) = quote :: rest :=
        drop_further (drop_next left)
      simp only [parseQuoted, stops, (char_cons closing).2, Option.bind_eq_bind,
        Option.bind_some] at ran
      cases Option.some.inj ran
      have whole' : 0 ∉ s.buf ++ quote :: text ++ [quote] := by
        have free := whole_of_left left
        simp only [List.mem_append, List.mem_cons, not_or] at free ⊢
        tauto
      have step := ih (drop_next closing) whole' behind
      rwa [show s.buf ++ quote :: text ++ [quote] ++ out =
        s.buf ++ (quote :: text ++ quote :: out) by simp] at step
  | unclosed quotes inside =>
      intro s e left whole ends
      exact .inl (ends_unclosed left quotes inside whole ends)
  | @reference mark rest form after out marks refers _ ih =>
      intro s e left whole ends
      obtain ⟨s', ran, behind⟩ := ends_mark left marks ends
      obtain ⟨ref, prm, tail, read, found, buf, -⟩ := parseReference_buf ran
      obtain ⟨white', lookup, after'⟩ := readReference_text left read
      rcases bare_or_white rest with bare | ⟨c, more, after, white⟩
      · simp only [resolved_bare bare] at lookup after'
        rw [reference_bare bare, ← lookup, found] at refers
        cases Option.some.inj refers
        have none : ref.white = [] := by
          rw [white']
          cases after : afterWord rest with
          | nil => rfl
          | cons c more =>
              rw [after] at bare
              rcases bare c rfl with rfl | rfl <;> rfl
        rw [parseReference_quiet read found after' bare, none, List.append_nil] at ran
        cases Option.some.inj ran
        have whole' : 0 ∉ s.buf ++ formOf prm := by
          have free := (name_free (List.mem_of_find?_eq_some (lookup.symm.trans found))).1
          simp only [formOf, List.mem_append, not_or]
          exact ⟨whole, ⟨by decide, free⟩, by decide⟩
        have step := ih after' whole' behind
        rwa [List.append_assoc] at step
      · -- the white space stands where the question mark belongs
        right
        rw [white', after, List.takeWhile_cons_of_pos white] at buf
        obtain ⟨more', is⟩ := reaches_buf behind.1
        rw [buf, List.append_assoc _ _ more'] at is
        generalize src.body.run iswhitespace ref.pos ++ tail ++ more' = tail at is
        obtain ⟨form', rfl⟩ := reference_mark refers
        have blank : ∀ d ∈ c :: more.takeWhile iswhitespace, iswhitespace d = true := by
          intro d mem
          rcases List.mem_cons.mp mem with rfl | mem
          · exact white
          · exact List.mem_takeWhile_imp mem
        have free : 0 ∉ s.buf ++ (c :: more.takeWhile iswhitespace) ++ [63] := by
          simp only [List.mem_append, not_or]
          exact ⟨⟨whole, fun zero => absurd (blank 0 zero) (by decide)⟩, by decide⟩
        refine ⟨s.buf, c, 63, more.takeWhile iswhitespace ++ 63 ::
          cstr (prm.m_name.m_cstr ++ lit " " ++ tail), form' ++ out, ?_, by simp, rfl, ?_⟩
        · rw [← is, show s.buf ++ (c :: more.takeWhile iswhitespace) ++ formOf prm ++ tail =
            s.buf ++ (c :: more.takeWhile iswhitespace) ++ [63] ++
              (prm.m_name.m_cstr ++ lit " " ++ tail) by simp [formOf, lit], cstr_front free]
          simp
        · rintro rfl
          cases white

theorem Rewrites.of_mark {rest out : Bytes} (rewrites : src.Rewrites (58 :: rest) out) :
    ∃ more, out = 63 :: more := by
  generalize text : 58 :: rest = front at rewrites
  cases rewrites with
  | done => cases text
  | plain plain =>
      cases text
      cases plain
  | quoted quotes =>
      cases text
      exact absurd quotes (by decide)
  | unclosed quotes =>
      cases text
      exact absurd quotes (by decide)
  | reference _ refers _ =>
      obtain ⟨more, rfl⟩ := reference_mark refers
      exact ⟨_, rfl⟩

theorem Rewrites.of_empty {rest : Bytes} (rewrites : src.Rewrites rest []) : rest = [] := by
  generalize empty : ([] : Bytes) = out at rewrites
  cases rewrites with
  | done => rfl
  | plain => cases empty
  | quoted => cases empty
  | unclosed => cases empty
  | reference _ refers _ =>
      obtain ⟨more, rfl⟩ := reference_mark refers
      cases empty

end Reading

/-- The body of an accepted parse is the rewritten text exactly if the text is empty. -/
theorem preserved_iff (src : Source) {e : Parse} (accepted : src.loop.Ends start e) :
    src.Rewrites src.text e.m_body.m_cstr ↔ src.text = [] := by
  have body : e.m_body.m_cstr = (cstr e.buf).dropLast := stringNew_cstr _
  have whole : 0 ∉ start.buf := List.not_mem_nil
  constructor
  · intro rewrites
    rcases @ends_copied src _ _ _ rewrites start e rfl whole accepted with same | differs
    · have empty : cstr e.buf = [] := by
        rw [body] at same
        have size := congrArg List.length same
        rw [List.length_append, List.length_dropLast] at size
        exact List.eq_nil_of_length_eq_zero (by simp [start] at size; omega)
      rw [body, empty] at rewrites
      exact rewrites.of_empty
    · exact absurd body.symm differs.dropLast_ne
  · intro empty
    rw [body, @ends_text src _ start e (by rw [empty]; rfl) whole accepted, empty]
    exact .done

/-- An empty body. -/
def nothing : Source where
  past := false
  prms := []
  text := []
  copied := none
  named := fun _ mem => nomatch mem
  whole := List.not_mem_nil

/-! ## A text that is skipped -/

/-- `:abc IN x INDICATOR:abc e`. -/
def indicatorFar : Source where
  past := false
  prms := [paramAbc]
  text := lit ":abc IN x INDICATOR:abc e"
  copied := none
  named := fun prm mem => by
    cases List.mem_singleton.mp mem
    exact List.all_eq_true.mp (show paramAbc.m_name.m_cstr.all _ = true by decide)
  whole := by decide

/-- Behind the reference the search leads to the last word. -/
def farSkipped : Parse where
  pos := 23
  buf := lit " ?abc INDICATOR ?"
  indicators := [(paramAbc, { m_cstr := lit "a", m_len := 2 })]

def farEnd : Parse := { farSkipped with pos := 25, buf := farSkipped.buf ++ lit " e" }

theorem far_ends : indicatorFar.loop.Ends start farEnd := by
  have skips : indicatorFar.loop.round start = some farSkipped := rfl
  have ends : indicatorFar.loop.round farSkipped = some farEnd := rfl
  refine ⟨.next (.next .start ?_ skips) ?_ ends, ?_⟩
  · show 0 < indicatorFar.body.m_len
    decide
  · show 23 < indicatorFar.body.m_len
    decide
  · show ¬ 25 < indicatorFar.body.m_len
    decide

/-- Of an empty text the body is the rewritten text; of this one it is not. -/
theorem preserved_iff_nothing :
    nothing.Rewrites nothing.text start.m_body.m_cstr ∧ indicatorFar.loop.Ends start farEnd ∧
      ¬ indicatorFar.Rewrites indicatorFar.text farEnd.m_body.m_cstr :=
  ⟨(preserved_iff nothing ⟨.start, Nat.lt_irrefl 0⟩).mpr rfl, far_ends,
    fun rewrites => nomatch (preserved_iff indicatorFar far_ends).mp rewrites⟩

/-- ` ?abc INDICATOR ? ` comes out. -/
theorem far_not_preserved : indicatorFar.loop.Ends start farEnd ∧
    ¬ indicatorFar.Rewrites indicatorFar.text farEnd.m_body.m_cstr := by
  refine ⟨far_ends, fun rewrites => ?_⟩
  obtain ⟨more, is⟩ : ∃ more, farEnd.m_body.m_cstr = 63 :: more := rewrites.of_mark
  cases is

end Source

end Jspp.Splc
