/-
# Splc.References -- the parameter a reference is bound to

The name of a reference goes through two copies before it is looked up, and each
takes its last character.  What is left is looked for inside the declared names,
in their order, and the first name it is a part of is taken, whatever else it is.
A reference that no name contains is not rejected; its parameter is NULL.

* `Onset`, `Refers`: the references of a text, outside its quotes.
* `Parses`, `Bound`: what the parse returns, and each reference replaced by its parameter.
* `Selects`: the first parameter that the lookup hits has the name of the reference.
* `Steady`: a round that neither goes back nor passes over a reference, by the state it
  begins in.
* `reaches_whole`: no NUL comes into the buffer before the end of the text.
* `steady_comes`: where all rounds are steady, the parse comes to each reference.
* `bound_iff`: when each reference of such a body is bound to the parameter it names.
* `another_bound`: a reference bound to a name that is declared before its own.
-/
import Jspp.Splc.Rewriting

namespace Jspp.Splc

open Jspp.Theory

set_option autoImplicit false

namespace Source

/-! ## The references of a text -/

/-- The text behind a reference, with its OF and its own indicator. -/
def behindReference (rest : Bytes) : Bytes :=
  let after := ((ofBehind (afterWord rest)).map (·.2)).getD (afterWord rest)
  (ownIndicator after).getD after

/-- What is left of a text where something begins that is not quoted and no part of a
reference. -/
inductive Onset (text : Bytes) : Bytes → Prop where
  | start : Onset text text
  | plain {c : UInt8} {rest : Bytes} (before : Onset text (c :: rest)) (plain : plainCh c = true) :
      Onset text rest
  | quoted {quote : UInt8} {inside rest : Bytes}
      (before : Onset text (quote :: inside ++ quote :: rest)) (quotes : quote = 39 ∨ quote = 34)
      (free : quote ∉ inside) : Onset text rest
  | reference {mark : UInt8} {rest : Bytes} (before : Onset text (mark :: rest))
      (marks : mark = 58 ∨ mark = 63) : Onset text (behindReference rest)

/-- A reference with a name, in front of `rest`. -/
structure Refers (text rest : Bytes) : Prop where
  mark : Onset text (58 :: rest) ∨ Onset text (63 :: rest)
  named : wordOf rest ≠ []

variable (src : Source)

/-- The position of its mark. -/
def place (rest : Bytes) : Nat := src.text.length - (rest.length + 1)

section Binding

variable [Copying]

/-! ## Binding -/

/-- The name of the parameter is the name of the reference, up to letter case. -/
def Names (prm : Sqlparam) (rest : Bytes) : Prop :=
  sameText true prm.m_name.m_cstr (wordOf rest) = true

def Declared (rest : Bytes) : Prop := ∃ prm ∈ src.prms, Names prm rest

/-- A round that reads the reference. -/
structure Comes (rest : Bytes) (s : Parse) : Prop where
  reached : src.loop.Reaches start s
  more : s.pos < src.body.m_len
  mark : s.mark src.body = src.place rest

/-- At the place that the parse comes to with the reference, `m_body` goes on with the form of
the parameter. -/
def Replaced (rest : Bytes) (prm : Sqlparam) (e : Parse) : Prop :=
  ∃ s ref, src.Comes rest s ∧
    readReference src.past src.prms src.body (src.place rest) = some ref ∧
    s.buf ++ src.body.run plainCh s.pos ++ ref.white ++ formOf prm <+: e.m_body.m_cstr

/-- What `_sqlprocParseBody` returns; `none` is its `false`. -/
inductive Parses : Option Parse → Prop where
  | accepted {e : Parse} (ends : src.loop.Ends start e) : Parses (some e)

/-- Each reference is replaced by the parameter it names, and a body with another is rejected. -/
structure Bound : Prop where
  replaced : (∀ rest, Refers src.text rest → src.Declared rest) →
    ∃ e, src.Parses (some e) ∧ ∀ rest, Refers src.text rest →
      ∃ prm ∈ src.prms, Names prm rest ∧ src.Replaced rest prm e
  rejected : ¬ (∀ rest, Refers src.text rest → src.Declared rest) → src.Parses none

/-! ## The lookup -/

/-- The first parameter of which `hit` holds. -/
def First (hit : Sqlparam → Bool) (prm : Sqlparam) : Prop :=
  ∃ front behind, src.prms = front ++ prm :: behind ∧ (∀ other ∈ front, hit other = false) ∧
    hit prm = true

/-- The name holds what is looked up of the reference, and with OF what is of the record. -/
def hits (rest : Bytes) (record : Option Bytes) (special : Bool) (prm : Sqlparam) : Bool :=
  occurs src.past prm.m_name (nameOf rest) && (record.all fun record =>
    occurs src.past prm.m_name
      (_sqlprocConvert (Packet.stringbufferToString record) special).m_cstr)

/-- The word behind what the code takes for OF, and the text behind the reference. -/
def recordOf (rest : Bytes) : Option Bytes × Bytes :=
  match ofTail ((afterWord rest).dropWhile iswhitespace) with
  | none => (none, (afterWord rest).dropWhile iswhitespace)
  | some tail => (some (wordOf tail), afterWord tail)

/-- The first parameter that is hit has the name of the reference; some text follows. -/
structure Selects (rest : Bytes) : Prop where
  first : ∃ prm, Names prm rest ∧
    (src.First (src.hits rest (recordOf rest).1 false) prm ∨
      (recordOf rest).1.isSome ∧
        (∀ other ∈ src.prms, src.hits rest (recordOf rest).1 false other = false) ∧
        src.First (src.hits rest (recordOf rest).1 true) prm)
  follows : (recordOf rest).2 ≠ []

/-! ## Rounds that come to every reference -/

/-- Where a round that begins at a position ends. -/
def roundEnd (pos : Nat) : Option Nat :=
  (bodyRound src.past src.prms src.body ⟨pos, [], []⟩).map (·.pos)

/-- The state at the head of a round: a reference at its mark has a parameter and no search
for its indicator goes back, and no reference behind the mark is passed over, neither by
that search nor as a part of what is taken for a quoted text, a word or a record. -/
structure Steady (s : Parse) : Prop where
  calm : Calm src.past src.prms src.body s
  passes : ∀ e, src.roundEnd s.pos = some e → ∀ rest, Refers src.text rest →
    s.mark src.body < src.place rest → e ≤ src.place rest

end Binding

/-! ## Places -/

theorem afterWord_suffix (rest : Bytes) : afterWord rest <:+ rest :=
  (List.dropWhile_suffix _).trans (List.dropWhile_suffix _)

theorem ofBehind_suffix {rest : Bytes} {found : Bytes × Bytes} (of : ofBehind rest = some found) :
    found.2 <:+ rest := by
  unfold ofBehind at of
  split at of
  case h_1 o f tail begins =>
    split at of
    · cases Option.some.inj of
      have front : tail <:+ rest.dropWhile iswhitespace := by
        rw [begins]
        exact ⟨[o, f, 32], rfl⟩
      exact (afterWord_suffix tail).trans (front.trans (List.dropWhile_suffix _))
    · cases of
  case h_2 => cases of

/-- Behind a word, with the record that follows OF. -/
theorem behindOf_suffix (rest : Bytes) :
    ((ofBehind (afterWord rest)).map (·.2)).getD (afterWord rest) <:+ rest := by
  cases of : ofBehind (afterWord rest) with
  | none => exact afterWord_suffix rest
  | some found => exact (ofBehind_suffix of).trans (afterWord_suffix rest)

theorem ownIndicator_suffix {rest after : Bytes} (own : ownIndicator rest = some after) :
    after <:+ rest := by
  simp only [ownIndicator] at own
  split at own
  case isFalse => cases own
  case isTrue =>
    split at own
    case h_2 => cases own
    case h_1 mark tail begins =>
      split at own
      · cases Option.some.inj own
        have front : tail <:+ ((rest.dropWhile iswhitespace).drop 9).dropWhile iswhitespace := by
          rw [begins]
          exact List.suffix_cons mark tail
        exact (behindOf_suffix tail).trans (front.trans ((List.dropWhile_suffix _).trans
          ((List.drop_suffix 9 _).trans (List.dropWhile_suffix _))))
      · cases own

theorem behindReference_suffix (rest : Bytes) : behindReference rest <:+ rest := by
  simp only [behindReference]
  cases own : ownIndicator (((ofBehind (afterWord rest)).map (·.2)).getD (afterWord rest)) with
  | none => exact behindOf_suffix rest
  | some after => exact (ownIndicator_suffix own).trans (behindOf_suffix rest)

theorem Onset.suffix {text rest : Bytes} (onset : Onset text rest) : rest <:+ text := by
  induction onset with
  | start => exact List.suffix_rfl
  | plain _ _ ih => exact (List.suffix_cons _ _).trans ih
  | quoted _ _ _ ih => exact (List.suffix_cons _ _).trans ((List.suffix_append _ _).trans ih)
  | reference _ _ ih => exact (behindReference_suffix _).trans ((List.suffix_cons _ _).trans ih)

variable {src : Source}

/-- At the place of a reference stands its mark. -/
theorem Refers.left {rest : Bytes} (refers : Refers src.text rest) :
    ∃ mark, (mark = 58 ∨ mark = 63) ∧ src.text.drop (src.place rest) = mark :: rest := by
  have at_ : ∀ mark, Onset src.text (mark :: rest) →
      src.text.drop (src.place rest) = mark :: rest := by
    intro mark onset
    obtain ⟨front, text⟩ := onset.suffix
    have size : src.place rest = front.length := by
      rw [place, ← text, List.length_append, List.length_cons]
      omega
    rw [size, ← text, List.drop_left]
  rcases refers.mark with onset | onset
  · exact ⟨58, .inl rfl, at_ 58 onset⟩
  · exact ⟨63, .inr rfl, at_ 63 onset⟩

section Binding

variable [Copying]

/-! ## The lookup -/

omit [Copying] in
theorem first_iff {hit : Sqlparam → Bool} {prm : Sqlparam} :
    src.prms.find? hit = some prm ↔ src.First hit prm := by
  rw [List.find?_eq_some_iff_append, First]
  constructor
  · rintro ⟨holds, front, behind, split, none⟩
    exact ⟨front, behind, split, fun other mem => by simpa using none other mem, holds⟩
  · rintro ⟨front, behind, split, none, holds⟩
    exact ⟨holds, front, behind, split, fun other mem => by simpa using none other mem⟩

omit [Copying] in
theorem First.mem {hit : Sqlparam → Bool} {prm : Sqlparam} (first : src.First hit prm) :
    prm ∈ src.prms := List.mem_of_find?_eq_some (first_iff.mpr first)

theorem resolved_iff {rest : Bytes} {prm : Sqlparam} :
    (src.resolved rest).1 = some prm ↔ src.First (src.hits rest (recordOf rest).1 false) prm ∨
      (recordOf rest).1.isSome ∧
        (∀ other ∈ src.prms, src.hits rest (recordOf rest).1 false other = false) ∧
        src.First (src.hits rest (recordOf rest).1 true) prm := by
  rw [← first_iff, ← first_iff]
  unfold resolved recordOf
  cases ofTail ((afterWord rest).dropWhile iswhitespace) with
  | none =>
      have same : src.hits rest none false =
          fun prm => occurs src.past prm.m_name (nameOf rest) := by
        funext prm
        simp [hits]
      simp only [Option.isSome_none, Bool.false_eq_true, false_and, or_false, same]
      rfl
  | some tail =>
      have none : (∀ other ∈ src.prms, src.hits rest (some (wordOf tail)) false other = false) ↔
          src.prms.find? (src.hits rest (some (wordOf tail)) false) = none := by
        simp
      simp only [Option.isSome_some, true_and, none]
      have found (special : Bool) : sqlprocFindParam2 src.past src.prms (nameOf rest)
          (_sqlprocConvert (Packet.stringbufferToString (wordOf tail)) special).m_cstr =
            src.prms.find? (src.hits rest (some (wordOf tail)) special) := rfl
      rw [found, found, Option.or_eq_some_iff]

theorem resolved_behind (rest : Bytes) : (src.resolved rest).2 = (recordOf rest).2 := by
  unfold resolved recordOf
  cases ofTail ((afterWord rest).dropWhile iswhitespace) <;> rfl

theorem resolved_mem {rest : Bytes} {prm : Sqlparam} (found : (src.resolved rest).1 = some prm) :
    prm ∈ src.prms := by
  rcases resolved_iff.mp found with first | ⟨-, -, first⟩
  · exact first.mem
  · exact first.mem

/-! ## The buffer -/

omit [Copying] in
theorem run_whole {takes : UInt8 → Bool} {pos : Nat}
    (inside : pos + (src.body.run takes pos).length ≤ src.text.length) :
    0 ∉ src.body.run takes pos := by
  have front : src.body.run takes pos <+: src.text.drop pos ++ src.pad := by
    rw [← drop_inside rfl (by omega)]
    exact ⟨_, List.takeWhile_append_dropWhile⟩
  have front : src.body.run takes pos <+: src.text.drop pos :=
    List.prefix_of_prefix_length_le front (List.prefix_append _ _) (by
      rw [List.length_drop]
      omega)
  exact fun zero => src.whole (List.mem_of_mem_drop (front.subset zero))

omit [Copying] in
/-- A round stops in the text, or at its end. -/
theorem mark_inside {s : Parse} {c : UInt8} (here : src.body.chars[s.mark src.body]? = some c) :
    s.mark src.body < src.text.length ∧ src.text.drop (s.mark src.body) =
      c :: src.text.drop (s.mark src.body + 1) := by
  have stops := mark_stops here
  have padded : (src.text ++ src.pad)[s.mark src.body]? = some c := here
  by_cases inside : s.mark src.body < src.text.length
  · refine ⟨inside, ?_⟩
    rw [List.getElem?_append_left inside] at padded
    obtain ⟨_, rfl⟩ := List.getElem?_eq_some_iff.mp padded
    exact List.drop_eq_getElem_cons inside
  · rw [List.getElem?_append_right (by omega)] at padded
    rw [pad_zero c (List.mem_of_getElem? padded)] at stops
    cases stops

omit [Copying] in
theorem formOf_whole {prm : Sqlparam} (mem : prm ∈ src.prms) : 0 ∉ formOf prm := by
  simp only [formOf, List.mem_append, not_or]
  exact ⟨⟨by decide, (name_free mem).1⟩, by decide⟩

omit [Copying] in
theorem white_whole {text : Bytes} : 0 ∉ text.takeWhile iswhitespace := fun zero =>
  absurd (List.mem_takeWhile_imp zero) (by decide)

omit [Copying] in
theorem white_first {text more : Bytes} {w : UInt8}
    (white : text.takeWhile iswhitespace = w :: more) : w ≠ 0 := by
  rintro rfl
  refine @white_whole text ?_
  rw [white]
  exact List.mem_cons_self

/-- No NUL comes into the buffer, unless the round ends the text. -/
theorem bodyRound_whole {s s' : Parse} (whole : 0 ∉ s.buf)
    (ran : bodyRound src.past src.prms src.body s = some s') (more : s'.pos < src.body.m_len) :
    0 ∉ s'.buf := by
  simp only [bodyRound] at ran
  rw [show s.pos + (src.body.run plainCh s.pos).length = s.mark src.body from rfl] at ran
  cases here : src.body.chars[s.mark src.body]? with
  | none =>
      rw [here] at ran
      cases Option.some.inj ran
      exact absurd more (Nat.not_lt.mpr (List.getElem?_eq_none_iff.mp here))
  | some c =>
      obtain ⟨inside, left⟩ := mark_inside here
      have plain : 0 ∉ src.body.run plainCh s.pos := run_whole (Nat.le_of_lt inside)
      simp only [here] at ran
      split at ran
      case isTrue quote =>
        obtain ⟨last, is, ran⟩ := Option.bind_eq_some_iff.mp ran
        cases Option.some.inj ran
        have short : src.pad.length ≤ 1 := pad_short
        dsimp only at is more
        rw [body_len] at more
        have closes : s.mark src.body + 1 + (src.body.run (· != c) (s.mark src.body + 1)).length <
            src.text.length := by omega
        have text : 0 ∉ src.body.run (· != c) (s.mark src.body + 1) :=
          run_whole (Nat.le_of_lt closes)
        have first : c ≠ 0 := by rcases quote with rfl | rfl <;> decide
        have final : last ≠ 0 := by
          rw [(char_cons (List.drop_eq_getElem_cons closes)).2] at is
          rw [← Option.some.inj is]
          exact fun zero => src.whole (zero ▸ List.getElem_mem closes)
        simp only [List.mem_append, List.mem_cons, List.not_mem_nil, or_false, not_or]
        exact ⟨⟨⟨whole, plain⟩, first.symm, text⟩, final.symm⟩
      case isFalse =>
        obtain ⟨ref, prm, tail, read, found, buf, ends⟩ := parseReference_buf ran
        obtain ⟨white, lookup, behind⟩ := readReference_text left read
        have form := formOf_whole (resolved_mem (lookup.symm.trans found))
        have tail_whole : 0 ∉ tail := by
          rcases ends with ⟨rfl, -⟩ | rfl
          · exact List.not_mem_nil
          · decide
        rw [buf, white, run_stops rfl behind]
        simp only [List.mem_append, not_or]
        exact ⟨⟨⟨⟨whole, plain⟩, white_whole⟩, form⟩, white_whole, tail_whole⟩

/-- In front of the end of the text the buffer has no NUL. -/
theorem reaches_whole {s : Parse} (reached : src.loop.Reaches start s)
    (more : s.pos < src.body.m_len) : 0 ∉ s.buf :=
  reached.invariant (I := fun t => t.pos < src.body.m_len → 0 ∉ t.buf)
    (fun _ => List.not_mem_nil) (fun _ _ whole more ran => bodyRound_whole (whole more) ran) more

/-! ## The round of a reference -/

omit [Copying] in
/-- The state at its mark. -/
def atMark (src : Source) (rest : Bytes) (s : Parse) : Parse where
  pos := src.place rest
  buf := s.buf ++ src.body.run plainCh s.pos
  indicators := s.indicators

theorem Comes.goes {rest : Bytes} {s e : Parse} (comes : src.Comes rest s)
    (refers : Refers src.text rest) (ends : src.loop.Ends start e) :
    ∃ s', parseReference src.past src.prms src.body (src.atMark rest s) = some s' ∧
      src.loop.Ends s' e := by
  obtain ⟨mark, marks, left⟩ := refers.left
  obtain ⟨s', ran, behind⟩ := (ends.from comes.reached).of_more comes.more
  refine ⟨s', ?_, behind⟩
  have ran : bodyRound src.past src.prms src.body s = some s' := ran
  have place : s.pos + (src.body.run plainCh s.pos).length = src.place rest := comes.mark
  simp only [bodyRound, place, (char_cons left).1] at ran
  rwa [if_neg (by rcases marks with rfl | rfl <;> decide)] at ran

theorem Comes.whole {rest : Bytes} {s : Parse} (comes : src.Comes rest s) :
    0 ∉ (src.atMark rest s).buf := by
  have inside : s.pos + (src.body.run plainCh s.pos).length ≤ src.text.length := by
    rw [show s.pos + (src.body.run plainCh s.pos).length = src.place rest from comes.mark]
    exact Nat.sub_le _ _
  rw [atMark, List.mem_append, not_or]
  exact ⟨reaches_whole comes.reached comes.more, run_whole inside⟩

/-- Up to the form of the reference the buffer has no NUL. -/
theorem Comes.form_whole {rest : Bytes} {s : Parse} {ref : Reference} {prm : Sqlparam}
    (comes : src.Comes rest s) (refers : Refers src.text rest)
    (read : readReference src.past src.prms src.body (src.place rest) = some ref)
    (found : ref.prm = some prm) :
    0 ∉ (src.atMark rest s).buf ++ ref.white ++ formOf prm := by
  obtain ⟨mark, -, left⟩ := refers.left
  obtain ⟨white, lookup, -⟩ := readReference_text left read
  have form := formOf_whole (resolved_mem (lookup.symm.trans found))
  rw [white]
  simp only [List.mem_append, not_or]
  exact ⟨⟨comes.whole, white_whole⟩, form⟩

/-- What is left of the text leaves something in the buffer. -/
theorem ends_follow {s e : Parse} {c : UInt8} {rest : Bytes}
    (left : src.text.drop s.pos = c :: rest) (ends : src.loop.Ends s e) :
    ∃ d more, d ≠ 0 ∧ e.buf = s.buf ++ d :: more := by
  have first : c ≠ 0 := fun zero => whole_of_left left (zero ▸ List.mem_cons_self)
  have appended : ∀ {s' : Parse} {d : UInt8} {more : Bytes}, d ≠ 0 → s'.buf = s.buf ++ d :: more →
      src.loop.Ends s' e → ∃ d more, d ≠ 0 ∧ e.buf = s.buf ++ d :: more := by
    intro s' d more some buf behind
    obtain ⟨more', is⟩ := reaches_buf behind.1
    exact ⟨d, more ++ more', some, by rw [← is, buf]; simp⟩
  cases plain : plainCh c with
  | true => exact appended first rfl (ends_plain left plain ends)
  | false =>
      have other : (c = 39 ∨ c = 34) ∨ c = 58 ∨ c = 63 := by
        simp only [plainCh, Bool.and_eq_false_iff, bne_eq_false_iff_eq] at plain
        tauto
      rcases other with quotes | marks
      · obtain ⟨s', ran, behind⟩ := ends_quote left quotes ends
        obtain ⟨last, -, ran⟩ := Option.bind_eq_some_iff.mp ran
        have buf : s'.buf = s.buf ++ c :: (src.body.run (· != c) (s.pos + 1) ++ [last]) := by
          rw [← Option.some.inj ran, List.append_assoc, List.cons_append]
        exact appended first buf behind
      · obtain ⟨s', ran, behind⟩ := ends_mark left marks ends
        obtain ⟨ref, prm, tail, read, -, buf, -⟩ := parseReference_buf ran
        have white := (readReference_text left read).1
        rw [List.append_assoc, List.append_assoc] at buf
        cases blank : ref.white with
        | nil => exact appended (show (63 : UInt8) ≠ 0 by decide) (by rw [buf, blank]; rfl) behind
        | cons w more =>
            exact appended (white_first (white.symm.trans blank)) (by rw [buf, blank]; rfl) behind

/-- Where text follows a reference, its form is not at the end of the buffer. -/
theorem Comes.follows {rest : Bytes} {s s' e : Parse} {ref : Reference} {prm : Sqlparam}
    (comes : src.Comes rest s) (refers : Refers src.text rest)
    (ran : parseReference src.past src.prms src.body (src.atMark rest s) = some s')
    (ends : src.loop.Ends s' e)
    (read : readReference src.past src.prms src.body (src.place rest) = some ref)
    (found : ref.prm = some prm) (follows : (recordOf rest).2 ≠ []) :
    ∃ d more, cstr e.buf = (src.atMark rest s).buf ++ ref.white ++ formOf prm ++ d :: more := by
  obtain ⟨mark, -, left⟩ := refers.left
  obtain ⟨ref', prm', tail, read', found', buf, last⟩ := parseReference_buf ran
  cases read.symm.trans read'
  cases found.symm.trans found'
  obtain ⟨-, -, behind⟩ := readReference_text left read
  rw [resolved_behind] at behind
  have whole := comes.form_whole refers read found
  obtain ⟨d, more, some, is⟩ : ∃ d more, d ≠ 0 ∧
      e.buf = (src.atMark rest s).buf ++ ref.white ++ formOf prm ++ d :: more := by
    obtain ⟨more', grown⟩ := reaches_buf ends.1
    cases blank : src.body.run iswhitespace ref.pos with
    | cons w more =>
        have some : w ≠ 0 := white_first ((run_stops rfl behind).symm.trans blank)
        exact ⟨w, more ++ tail ++ more', some, by rw [← grown, buf, blank]; simp⟩
    | nil =>
        rcases last with ⟨rfl, place⟩ | rfl
        · obtain ⟨c, rest', text⟩ := List.exists_cons_of_ne_nil follows
          rw [blank, List.length_nil, Nat.add_zero] at place
          rw [text, ← place] at behind
          have step := ends_follow behind ends
          rwa [buf, blank, List.append_nil, List.append_nil] at step
        · refine ⟨73, lit "NDICATOR ?" ++ more', by decide, ?_⟩
          rw [← grown, buf, blank, List.nil_append, List.append_assoc]
          rfl
  refine ⟨d, cstr more, ?_⟩
  rw [is, cstr_front whole, cstr, List.takeWhile_cons_of_pos (by simpa using some)]
  rfl

/-- Where nothing follows it, it is. -/
theorem Comes.last {rest : Bytes} {s s' e : Parse} {ref : Reference} {prm : Sqlparam}
    (comes : src.Comes rest s) (refers : Refers src.text rest)
    (ran : parseReference src.past src.prms src.body (src.atMark rest s) = some s')
    (ends : src.loop.Ends s' e)
    (read : readReference src.past src.prms src.body (src.place rest) = some ref)
    (found : ref.prm = some prm) (none : (recordOf rest).2 = []) :
    cstr e.buf = (src.atMark rest s).buf ++ ref.white ++ formOf prm := by
  obtain ⟨mark, -, left⟩ := refers.left
  obtain ⟨-, -, behind⟩ := readReference_text left read
  rw [resolved_behind, none] at behind
  have quiet := @parseReference_quiet src _ (src.atMark rest s) _ _ _ read found behind
    fun _ mem => nomatch mem
  rw [quiet] at ran
  cases Option.some.inj ran
  exact ends_text behind (comes.form_whole refers read found) ends

end Binding

/-! ## The references of a body -/

/-- A form is known by the text it begins. -/
theorem formOf_known {one other : Sqlparam} {front text : Bytes}
    (free : 32 ∉ one.m_name.m_cstr) (free' : 32 ∉ other.m_name.m_cstr)
    (begins : front ++ formOf one <+: text) (begins' : front ++ formOf other <+: text) :
    one.m_name.m_cstr = other.m_name.m_cstr := by
  have name : ∀ {name tail : Bytes}, 32 ∉ name →
      (name ++ 32 :: tail).takeWhile (· ≠ 32) = name := by
    intro name tail free
    rw [List.takeWhile_append_of_pos fun c mem => ?_, List.takeWhile_cons_of_neg (by simp),
      List.append_nil]
    have apart : c ≠ 32 := fun blank => free (blank ▸ mem)
    simpa using apart
  obtain ⟨tail, is⟩ := begins
  obtain ⟨tail', is'⟩ := begins'
  have same := is.trans is'.symm
  rw [List.append_assoc, List.append_assoc] at same
  have same := List.append_cancel_left same
  have split (prm : Sqlparam) (tail : Bytes) :
      formOf prm ++ tail = 63 :: (prm.m_name.m_cstr ++ 32 :: tail) := by simp [formOf, lit]
  rw [split, split] at same
  rw [← name free, ← name free', (List.cons.inj same).2]

/-- The body holds the text in front of the last character of the buffer. -/
theorem begins_body {front : Bytes} {d : UInt8} {more : Bytes} {e : Parse}
    (buf : cstr e.buf = front ++ d :: more) : front <+: e.m_body.m_cstr := by
  have body : e.m_body.m_cstr = (cstr e.buf).dropLast := stringNew_cstr _
  rw [body, buf, List.dropLast_append_of_ne_nil (List.cons_ne_nil _ _)]
  exact List.prefix_append _ _

theorem body_begins (e : Parse) : e.m_body.m_cstr <+: cstr e.buf ∧
    (cstr e.buf ≠ [] → e.m_body.m_cstr.length < (cstr e.buf).length) := by
  have body : e.m_body.m_cstr = (cstr e.buf).dropLast := stringNew_cstr _
  rw [body, List.dropLast_eq_take]
  refine ⟨⟨_, List.take_append_drop _ _⟩, fun some => ?_⟩
  rw [← List.dropLast_eq_take, List.length_dropLast]
  exact Nat.sub_lt (List.length_pos_iff.mpr some) Nat.one_pos

/-- A bound body is parsed, and with each reference the lookup selects its parameter. -/
theorem Bound.selects {src : Source} (bound : src.Bound) : src.loop.Returns start ∧
    ∀ rest, Refers src.text rest → (∃ s, src.Comes rest s) ∧ src.Selects rest := by
  have declared : ∀ rest, Refers src.text rest → src.Declared rest := by
    by_contra undeclared
    cases bound.rejected undeclared
  obtain ⟨e, parses, replaced⟩ := bound.replaced declared
  obtain ⟨ends⟩ := parses
  refine ⟨⟨e, ends⟩, fun rest refers => ?_⟩
  obtain ⟨prm, mem, names, s, ref, comes, read, begins⟩ := replaced rest refers
  obtain ⟨s', ran, ends'⟩ := comes.goes refers ends
  obtain ⟨ref', prm', tail, read', found, buf, -⟩ := parseReference_buf ran
  cases read.symm.trans read'
  obtain ⟨mark, -, left⟩ := refers.left
  obtain ⟨-, lookup, -⟩ := readReference_text left read
  have chosen := lookup.symm.trans found
  have same : prm.m_name.m_cstr = prm'.m_name.m_cstr := by
    have whole : e.m_body.m_cstr <+: e.buf :=
      (body_begins e).1.trans ⟨_, List.takeWhile_append_dropWhile⟩
    refine formOf_known (name_free mem).2 (name_free (resolved_mem chosen)).2
      (begins.trans whole) (List.IsPrefix.trans ?_ (reaches_buf ends'.1))
    rw [buf]
    exact List.prefix_append _ _
  refine ⟨⟨s, comes⟩, ⟨prm', ?_, resolved_iff.mp chosen⟩, fun none => ?_⟩
  · rw [Names, ← same]
    exact names
  · -- the blank of the last form is lost in the copy
    have last := comes.last refers ran ends' read found none
    have form : formOf prm = formOf prm' := by rw [formOf, same, formOf]
    have short := (body_begins e).2 (by rw [last]; simp [formOf, lit])
    have long := begins.length_le
    rw [last, ← form] at short
    exact absurd long (Nat.not_le.mpr short)

/-- At a reference that the parse comes to, the selected parameter is put into the body. -/
theorem Selects.replaced {src : Source} {rest : Bytes} {s e : Parse} (selects : src.Selects rest)
    (comes : src.Comes rest s) (refers : Refers src.text rest) (ends : src.loop.Ends start e) :
    ∃ prm ∈ src.prms, Names prm rest ∧ src.Replaced rest prm e := by
  obtain ⟨prm, names, first⟩ := selects.first
  have chosen := resolved_iff.mpr first
  obtain ⟨s', ran, ends'⟩ := comes.goes refers ends
  obtain ⟨ref, prm', tail, read, found, -, -⟩ := parseReference_buf ran
  obtain ⟨mark, -, left⟩ := refers.left
  obtain ⟨-, lookup, -⟩ := readReference_text left read
  cases chosen.symm.trans (lookup.symm.trans found)
  obtain ⟨d, more, buf⟩ := comes.follows refers ran ends' read found selects.follows
  exact ⟨prm, resolved_mem chosen, names, s, ref, comes, read, begins_body buf⟩

/-- A round ends where one does that begins at the same position. -/
theorem roundEnd_eq {s : Parse} : src.roundEnd s.pos =
    (bodyRound src.past src.prms src.body s).map (·.pos) :=
  bodyRound_pos (s := ⟨s.pos, [], []⟩) rfl

/-- The first loop of a round does not run over a mark. -/
theorem mark_le {s : Parse} {p : Nat} {c : UInt8} (behind : s.pos ≤ p)
    (here : src.body.chars[p]? = some c) (stops : plainCh c = false) : s.mark src.body ≤ p := by
  by_contra further
  have inside : p - s.pos < (src.body.run plainCh s.pos).length := by
    unfold Parse.mark at further
    omega
  have char : (src.body.run plainCh s.pos)[p - s.pos]? = some c := by
    have whole : (src.body.chars.drop s.pos)[p - s.pos]? = some c := by
      rw [List.getElem?_drop, Nat.add_sub_cancel' behind]
      exact here
    rw [← List.takeWhile_append_dropWhile (p := plainCh) (l := src.body.chars.drop s.pos)] at whole
    exact (List.getElem?_append_left inside).symm.trans whole
  have plain : plainCh c = true := List.mem_takeWhile_imp (List.mem_of_getElem? char)
  rw [stops] at plain
  cases plain

/-- From a state in front of a reference the steady rounds come to it: each of them ends
further on, and none behind it. -/
theorem steady_comes {rest : Bytes} (refers : Refers src.text rest)
    (steady : ∀ s, src.loop.Reaches start s → s.pos < src.body.m_len → src.Steady s) :
    ∃ s, src.Comes rest s := by
  obtain ⟨mark, marks, left⟩ := refers.left
  have here := (char_cons left).1
  have stops : plainCh mark = false := by rcases marks with rfl | rfl <;> rfl
  have inside : src.place rest < src.body.m_len := (List.getElem?_eq_some_iff.mp here).1
  suffices comes : ∀ n s, src.loop.Reaches start s → s.pos ≤ src.place rest →
      src.place rest - s.pos = n → ∃ s, src.Comes rest s from
    comes _ start .start (Nat.zero_le _) rfl
  intro n
  induction n using Nat.strong_induction_on with
  | _ n ih =>
    intro s reached behind distance
    have more : s.pos < src.body.m_len := Nat.lt_of_le_of_lt behind inside
    rcases Nat.lt_or_eq_of_le (mark_le behind here stops) with before | there
    · obtain ⟨calm, passes⟩ := steady s reached more
      obtain ⟨s', ran, forward⟩ := (round_iff more).mpr calm
      have ends : src.roundEnd s.pos = some s'.pos := roundEnd_eq.trans (by rw [ran]; rfl)
      have short := passes _ ends rest refers before
      exact ih _ (by omega) s' (.next reached more ran) short rfl
    · exact ⟨s, reached, more, there⟩

/-- In a body whose references are all bound each of them is selected.  And where the rounds
are steady, this is all: they are bound exactly if each is selected. -/
theorem bound_iff (src : Source) : (src.Bound → ∀ rest, Refers src.text rest → src.Selects rest) ∧
    ((∀ s, src.loop.Reaches start s → s.pos < src.body.m_len → src.Steady s) →
      (src.Bound ↔ ∀ rest, Refers src.text rest → src.Selects rest)) := by
  have selects : src.Bound → ∀ rest, Refers src.text rest → src.Selects rest :=
    fun bound rest refers => (bound.selects.2 rest refers).2
  refine ⟨selects, fun steady => ⟨selects, fun all => ?_⟩⟩
  have declared : ∀ rest, Refers src.text rest → src.Declared rest := by
    intro rest refers
    obtain ⟨prm, names, first⟩ := (all rest refers).first
    exact ⟨prm, resolved_mem (resolved_iff.mpr first), names⟩
  obtain ⟨e, ends⟩ := ((behaves_iff src.past src.prms src.body).mpr fun s reached more =>
    (steady s reached more).calm).returns
  refine ⟨fun _ => ⟨e, .accepted ends, fun rest refers => ?_⟩, fun un => absurd declared un⟩
  obtain ⟨s, comes⟩ := steady_comes refers steady
  exact (all rest refers).replaced comes refers ends

/-- A round is steady by where it ends. -/
theorem steady_of_end {s : Parse} {e : Nat} (more : s.pos < src.body.m_len)
    (ends : src.roundEnd s.pos = some e) (forward : s.pos < e)
    (passes : ∀ rest, Refers src.text rest → s.mark src.body < src.place rest →
      e ≤ src.place rest) : src.Steady s := by
  refine ⟨(round_iff more).mp ?_, fun e' ends' => ?_⟩
  · obtain ⟨s', ran, rfl⟩ := Option.map_eq_some_iff.mp (roundEnd_eq.symm.trans ends)
    exact ⟨s', ran, forward⟩
  · cases ends.symm.trans ends'
    exact passes

/-- The reference at a place is read off the text. -/
theorem refers_place {rest : Bytes} (refers : Refers src.text rest) :
    (src.text[src.place rest]? = some 58 ∨ src.text[src.place rest]? = some 63) ∧
      rest = src.text.drop (src.place rest + 1) := by
  obtain ⟨mark, marks, left⟩ := refers.left
  have here : src.text[src.place rest]? = some mark := by
    rw [← List.head?_drop, left]
    rfl
  refine ⟨?_, (drop_next left).symm⟩
  rw [here]
  rcases marks with rfl | rfl
  · exact .inl rfl
  · exact .inr rfl

/-! ## Another name that contains it -/

def paramOf (name : Bytes) : Sqlparam := { paramAbc with m_name := stringTakeOwnership name }

/-- `:FIRST, :SECOND x` with the parameters `SECOND` and `FIRST`. -/
def firstAndSecond : Source where
  past := false
  prms := [paramOf (lit "SECOND"), paramOf (lit "FIRST")]
  text := lit ":FIRST, :SECOND x"
  copied := none
  named := fun prm mem => by
    rcases List.mem_pair.mp mem with rfl | rfl
    · exact List.all_eq_true.mp (show (paramOf (lit "SECOND")).m_name.m_cstr.all _ = true by decide)
    · exact List.all_eq_true.mp (show (paramOf (lit "FIRST")).m_name.m_cstr.all _ = true by decide)
  whole := by decide

theorem firstAndSecond_places {rest : Bytes} (refers : Refers firstAndSecond.text rest) :
    firstAndSecond.place rest = 0 ∧ rest = lit "FIRST, :SECOND x" ∨
      firstAndSecond.place rest = 8 ∧ rest = lit "SECOND x" := by
  obtain ⟨marks, is⟩ := refers_place refers
  have inside : firstAndSecond.place rest < 17 := by
    rcases marks with mark | mark <;> exact (List.getElem?_eq_some_iff.mp mark).1
  generalize firstAndSecond.place rest = p at marks is inside
  have only : ∀ p < 17, (firstAndSecond.text[p]? = some 58 ∨ firstAndSecond.text[p]? = some 63) →
      p = 0 ∨ p = 8 := by decide
  rcases only p inside marks with rfl | rfl
  · exact .inl ⟨rfl, is⟩
  · exact .inr ⟨rfl, is⟩

theorem firstAndSecond_rounds :
    firstAndSecond.roundEnd 0 = some 6 ∧ firstAndSecond.roundEnd 6 = some 16 ∧
      firstAndSecond.roundEnd 16 = some 17 := by decide +kernel

theorem firstAndSecond_steady : ∀ s, firstAndSecond.loop.Reaches start s →
    s.pos < firstAndSecond.body.m_len → firstAndSecond.Steady s := by
  obtain ⟨first, second, third⟩ := firstAndSecond_rounds
  intro s reached more
  have inside : s.pos < 17 := more
  have there : s.pos = 0 ∨ s.pos = 6 ∨ s.pos = 16 ∨ s.pos = 17 := by
    refine reached.invariant (I := fun s => s.pos = 0 ∨ s.pos = 6 ∨ s.pos = 16 ∨ s.pos = 17)
      (.inl rfl) ?_
    intro t t' places more ran
    have inside : t.pos < 17 := more
    have ends : firstAndSecond.roundEnd t.pos = some t'.pos :=
      roundEnd_eq.trans (by rw [show bodyRound _ _ _ t = some t' from ran]; rfl)
    rcases places with at_ | at_ | at_ | at_ <;> rw [at_] at ends inside
    · exact .inr (.inl (Option.some.inj (ends.symm.trans first)))
    · exact .inr (.inr (.inl (Option.some.inj (ends.symm.trans second))))
    · exact .inr (.inr (.inr (Option.some.inj (ends.symm.trans third))))
    · exact absurd inside (by decide)
  have mark : s.mark firstAndSecond.body =
      s.pos + (firstAndSecond.body.run plainCh s.pos).length := rfl
  rcases there with at_ | at_ | at_ | at_ <;> rw [at_] at mark inside
  · refine steady_of_end more (by rw [at_]; exact first) (by omega) fun rest refers before => ?_
    rcases firstAndSecond_places refers with ⟨place, -⟩ | ⟨place, -⟩ <;> omega
  · refine steady_of_end more (by rw [at_]; exact second) (by omega) fun rest refers before => ?_
    have at_mark : s.mark firstAndSecond.body = 8 := mark
    rcases firstAndSecond_places refers with ⟨place, -⟩ | ⟨place, -⟩ <;> omega
  · refine steady_of_end more (by rw [at_]; exact third) (by omega) fun rest refers before => ?_
    have at_mark : s.mark firstAndSecond.body = 17 := mark
    rcases firstAndSecond_places refers with ⟨place, -⟩ | ⟨place, -⟩ <;> omega
  · exact absurd inside (by decide)

/-- Each reference is bound to its parameter, though they are declared the other way round. -/
theorem firstAndSecond_bound : firstAndSecond.Bound := by
  refine ((bound_iff firstAndSecond).2 firstAndSecond_steady).mpr fun rest refers => ?_
  rcases firstAndSecond_places refers with ⟨-, rfl⟩ | ⟨-, rfl⟩
  · have names : sameText true (lit "FIRST") (wordOf (lit "FIRST, :SECOND x")) = true := by decide
    exact ⟨⟨paramOf (lit "FIRST"), names, resolved_iff.mp rfl⟩, by decide⟩
  · have names : sameText true (lit "SECOND") (wordOf (lit "SECOND x")) = true := by decide
    exact ⟨⟨paramOf (lit "SECOND"), names, resolved_iff.mp rfl⟩, by decide⟩

/-- `:NUM, x` with the parameters `NAME` and `NUM`. -/
def nameAndNum : Source where
  past := false
  prms := [paramOf (lit "NAME"), paramOf (lit "NUM")]
  text := lit ":NUM, x"
  copied := none
  named := fun prm mem => by
    rcases List.mem_pair.mp mem with rfl | rfl
    · exact List.all_eq_true.mp (show (paramOf (lit "NAME")).m_name.m_cstr.all _ = true by decide)
    · exact List.all_eq_true.mp (show (paramOf (lit "NUM")).m_name.m_cstr.all _ = true by decide)
  whole := by decide

/-- Of `NUM` an `N` is looked up, and `NAME` is the first name with an `N`. -/
theorem another_bound : ¬ nameAndNum.Bound := by
  intro bound
  have refers : Refers nameAndNum.text (lit "NUM, x") := ⟨.inl .start, by decide⟩
  obtain ⟨prm, names, first⟩ := (bound.selects.2 _ refers).2.first
  have found : (nameAndNum.resolved (lit "NUM, x")).1 = some (paramOf (lit "NAME")) := rfl
  cases found.symm.trans (resolved_iff.mpr first)
  have same : sameText true (lit "NAME") (wordOf (lit "NUM, x")) = true := names
  exact absurd same (by decide)

end Source

end Jspp.Splc
