/-
# Splc.Sources -- bodies as their text

The string of a body is one of exact size, or a copy, whose last place holds the
NUL.  Either way the parse reads the text and then a NUL, and what it reads and
writes can be said of the text alone.

* `Source`: the parameters and the text of a body, as a string holds them.
* `run_stops`, `run_cons`, `run_name`: what the loops take, of the text that is left.
* `readReference_text`: the words of a reference and its parameter, on the text.
* `parseReference_quiet`, `bodyRound_buf`: what a round appends.
* `ends_plain`, `ends_mark`, `ends_quote`, `ends_text`: how the parse goes on from a place.
-/
import Jspp.Splc.Bodies

namespace Jspp.Splc

open Jspp.Theory

set_option autoImplicit false

/-! ## Bodies -/

/-- What `_sqlprocParseBody` is handed.  A name is a lexeme of `sqllex`.  The string of the text
is one of exact size, or a copy: its last place holds the NUL, and the byte behind that was never
written. -/
structure Source where
  past : Bool
  prms : List Sqlparam
  text : Bytes
  copied : Option UInt8
  named : ∀ prm ∈ prms, ∀ c ∈ prm.m_name.m_cstr, (isalnum c || ispunct c) = true
  whole : 0 ∉ text

namespace Source

variable (src : Source)

def pad : Bytes := if src.copied.isSome then [0] else []

def body : Body where
  chars := src.text ++ src.pad
  behind := src.copied.getD 0

/-! ## Words -/

/-- The word behind a mark. -/
def wordOf (rest : Bytes) : Bytes := (rest.dropWhile iswhitespace).takeWhile nameCh

def afterWord (rest : Bytes) : Bytes := (rest.dropWhile iswhitespace).dropWhile nameCh

section Names

variable [Copying]

/-- The name behind a mark, as it is looked up. -/
def nameOf (rest : Bytes) : Bytes :=
  (_sqlprocConvert (Packet.stringbufferToString (wordOf rest)) false).m_cstr

/-- `?N`, and a blank. -/
def formOf (prm : Sqlparam) : Bytes := lit "?" ++ prm.m_name.m_cstr ++ lit " "

def loop : Loop Parse := bodyLoop src.past src.prms src.body

end Names

end Source

/-- `sp->m_body` of a parse that ends so. -/
def Parse.m_body [Copying] (s : Parse) : Str := Packet.stringbufferToString s.buf

namespace Source

variable {src : Source}

/-! ## What is left of the text -/

theorem name_free {prm : Sqlparam} (mem : prm ∈ src.prms) :
    0 ∉ prm.m_name.m_cstr ∧ 32 ∉ prm.m_name.m_cstr :=
  ⟨fun zero => absurd (src.named prm mem 0 zero) (by decide),
    fun blank => absurd (src.named prm mem 32 blank) (by decide)⟩

theorem pad_zero : ∀ c ∈ src.pad, c = 0 := by
  unfold pad
  split
  · simp
  · simp

theorem body_len : src.body.m_len = src.text.length + src.pad.length := List.length_append

theorem drop_inside {pos : Nat} {rest : Bytes} (left : src.text.drop pos = rest)
    (inside : pos ≤ src.text.length) : src.body.chars.drop pos = rest ++ src.pad := by
  show (src.text ++ src.pad).drop pos = _
  rw [List.drop_append_of_le_length inside, left]

theorem inside_of_cons {pos : Nat} {c : UInt8} {rest : Bytes}
    (left : src.text.drop pos = c :: rest) : pos < src.text.length := by
  by_contra outside
  rw [List.drop_eq_nil_of_le (by omega)] at left
  cases left

theorem drop_further {pos : Nat} {front rest : Bytes} (left : src.text.drop pos = front ++ rest) :
    src.text.drop (pos + front.length) = rest := by
  rw [← List.drop_drop, left, List.drop_left]

theorem drop_next {pos : Nat} {c : UInt8} {rest : Bytes} (left : src.text.drop pos = c :: rest) :
    src.text.drop (pos + 1) = rest :=
  drop_further (show src.text.drop pos = [c] ++ rest from left)

theorem char_cons {pos : Nat} {c : UInt8} {rest : Bytes} (left : src.text.drop pos = c :: rest) :
    src.body.chars[pos]? = some c ∧ src.body.charAt pos = some c := by
  have inside := inside_of_cons left
  have here : src.body.chars[pos]? = some c := by
    rw [← List.head?_drop, drop_inside left inside.le]
    rfl
  refine ⟨here, ?_⟩
  rw [Body.charAt, List.getElem?_append_left (List.getElem?_eq_some_iff.mp here).1, here]

theorem pad_short : src.pad.length ≤ 1 := by
  unfold pad
  split <;> decide

theorem drop_outside {pos : Nat} (outside : src.text.length < pos) :
    src.body.chars.drop pos = [] := by
  refine List.drop_eq_nil_of_le ?_
  have few : src.pad.length ≤ 1 := pad_short
  show (src.text ++ src.pad).length ≤ pos
  rw [List.length_append]
  omega

/-- What a loop takes that stops at a NUL. -/
theorem run_stops {takes : UInt8 → Bool} (stops : takes 0 = false) {pos : Nat} {rest : Bytes}
    (left : src.text.drop pos = rest) : src.body.run takes pos = rest.takeWhile takes := by
  by_cases inside : pos ≤ src.text.length
  · rw [Body.run, drop_inside left inside, List.takeWhile_append]
    split
    case isTrue all =>
      have none : src.pad.takeWhile takes = [] := by
        unfold pad
        split
        · simp [stops]
        · rfl
      rw [none, List.append_nil]
      exact (List.takeWhile_sublist takes).eq_of_length all |>.symm
    case isFalse some => rfl
  · rw [← left, Body.run, drop_outside (by omega), List.drop_eq_nil_of_le (by omega)]

/-- What a loop takes that stops in the text. -/
theorem run_cons {takes : UInt8 → Bool} {pos : Nat} {front rest : Bytes} {c : UInt8}
    (left : src.text.drop pos = front ++ c :: rest) (all : ∀ d ∈ front, takes d = true)
    (stops : takes c = false) : src.body.run takes pos = front := by
  have inside : pos ≤ src.text.length := by
    by_contra outside
    rw [List.drop_eq_nil_of_le (by omega)] at left
    simp at left
  rw [Body.run, drop_inside left inside, List.append_assoc, List.takeWhile_append_of_pos all,
    List.cons_append, List.takeWhile_cons_of_neg (by simp [stops]), List.append_nil]

theorem run_none {takes : UInt8 → Bool} {pos : Nat} {c : UInt8} {rest : Bytes}
    (left : src.text.drop pos = c :: rest) (stops : takes c = false) :
    src.body.run takes pos = [] :=
  run_cons (show src.text.drop pos = [] ++ c :: rest from left) (fun _ mem => nomatch mem) stops

/-- What a loop takes that goes on to the end. -/
theorem run_all {takes : UInt8 → Bool} {pos : Nat} {rest : Bytes}
    (left : src.text.drop pos = rest) (inside : pos ≤ src.text.length)
    (all : ∀ d ∈ rest, takes d = true) (zero : takes 0 = true) :
    src.body.run takes pos = rest ++ src.pad := by
  rw [Body.run, drop_inside left inside]
  refine List.takeWhile_eq_self_iff.mpr fun c mem => ?_
  rcases List.mem_append.mp mem with mem | mem
  · exact all c mem
  · rw [pad_zero c mem]
    exact zero

theorem cstr_pad (word : Bytes) : cstr (word ++ src.pad) = cstr word := by
  rw [cstr, List.takeWhile_append]
  split
  case isTrue all =>
    have none : src.pad.takeWhile (· ≠ 0) = [] := by
      unfold pad
      split <;> rfl
    rw [none, List.append_nil]
    exact (List.takeWhile_sublist _).eq_of_length all |>.symm
  case isFalse => rfl

/-- What the loop of a name takes: it goes on through the NUL of a copy. -/
theorem run_name {pos : Nat} {rest : Bytes} (left : src.text.drop pos = rest) :
    cstr (src.body.run nameCh pos) = cstr (rest.takeWhile nameCh) ∧
      src.text.drop (pos + (src.body.run nameCh pos).length) = rest.dropWhile nameCh := by
  have both : rest.takeWhile nameCh ++ rest.dropWhile nameCh = rest :=
    List.takeWhile_append_dropWhile
  cases after : rest.dropWhile nameCh with
  | cons c more =>
      have first := List.head?_dropWhile_not nameCh rest
      rw [after] at first both
      have run : src.body.run nameCh pos = rest.takeWhile nameCh :=
        run_cons (left.trans both.symm) (fun d mem => List.mem_takeWhile_imp mem) first
      rw [run]
      exact ⟨rfl, drop_further (left.trans both.symm)⟩
  | nil =>
      rw [after, List.append_nil] at both
      by_cases inside : pos ≤ src.text.length
      · have run : src.body.run nameCh pos = rest ++ src.pad :=
          run_all left inside (List.dropWhile_eq_nil_iff.mp after) rfl
        refine ⟨by rw [run, both, cstr_pad], List.drop_eq_nil_of_le ?_⟩
        rw [run, List.length_append, ← left, List.length_drop]
        omega
      · have run : src.body.run nameCh pos = [] := by
          rw [Body.run, drop_outside (by omega), List.takeWhile_nil]
        have empty : rest = [] := left.symm.trans (List.drop_eq_nil_of_le (by omega))
        rw [run, empty]
        exact ⟨rfl, List.drop_eq_nil_of_le (by omega)⟩

theorem charAt_behind {pos : Nat} (left : src.text.drop pos = []) (inside : pos < src.body.m_len) :
    src.body.charAt pos = some 0 := by
  have outside := List.drop_eq_nil_iff.mp left
  obtain ⟨c, here⟩ : ∃ c, src.body.chars[pos]? = some c := ⟨_, List.getElem?_eq_getElem inside⟩
  rw [Body.charAt, List.getElem?_append_left inside, here]
  have padded : (src.text ++ src.pad)[pos]? = some c := here
  rw [List.getElem?_append_right outside] at padded
  exact congrArg some (pad_zero c (List.mem_of_getElem? padded))

/-- Behind the text stands a NUL. -/
theorem charAt_text : src.body.charAt src.text.length = some 0 := by
  cases copied : src.copied with
  | none => simp [Body.charAt, body, pad, copied]
  | some behind => simp [Body.charAt, body, pad, copied]

/-! ## A reference -/

/-- What the code takes for OF: two letters, and any character behind them. -/
def ofTail : Bytes → Option Bytes
  | o :: f :: tail =>
      if (o = 79 ∨ o = 111) ∧ (f = 70 ∨ f = 102) then some (tail.drop 1) else none
  | _ => none

theorem ofAt_end {body : Body} {of : Bool} (found : body.ofAt body.m_len = some of) :
    of = false := by
  have none : body.charAt (body.m_len + 1) = none :=
    List.getElem?_eq_none (by rw [List.length_append]; exact Nat.le_refl _)
  obtain ⟨c, -, found⟩ := Option.bind_eq_some_iff.mp found
  split at found
  case isTrue => simp only [none, Option.bind_eq_bind, Option.bind_none, reduceCtorEq] at found
  case isFalse => exact (Option.some.inj found).symm

theorem ofTail_drop {pos : Nat} {rest tail : Bytes} (left : src.text.drop pos = rest)
    (of : ofTail rest = some tail) : src.text.drop (pos + 3) = tail := by
  unfold ofTail at of
  split at of
  case h_1 o f more =>
    split at of
    · rw [← Option.some.inj of, ← drop_next (drop_next left), List.drop_drop]
    · cases of
  case h_2 => cases of

/-- The test for OF, on the text. -/
theorem ofAt_text {pos : Nat} {rest : Bytes} {of : Bool} (left : src.text.drop pos = rest)
    (found : src.body.ofAt pos = some of) : of = (ofTail rest).isSome := by
  cases rest with
  | nil =>
      obtain ⟨c, here, -⟩ := Option.bind_eq_some_iff.mp found
      have inside : pos ≤ src.body.m_len := by
        have some := (List.getElem?_eq_some_iff.mp here).1
        rw [List.length_append, List.length_singleton] at some
        exact Nat.le_of_lt_succ some
      rcases Nat.lt_or_eq_of_le inside with inside | rfl
      · rw [Body.ofAt, charAt_behind left inside] at found
        exact (Option.some.inj found).symm
      · exact ofAt_end found
  | cons o rest =>
      rw [Body.ofAt, (char_cons left).2] at found
      simp only [Option.bind_eq_bind, Option.bind_some] at found
      have next : src.body.charAt (pos + 1) = some (rest.headD 0) := by
        cases rest with
        | cons f tail => exact (char_cons (drop_next left)).2
        | nil =>
            have last : pos + 1 = src.text.length := by
              have size := congrArg List.length left
              rw [List.length_drop, List.length_singleton] at size
              omega
            rw [last]
            exact charAt_text
      rw [next, Option.bind_some] at found
      split at found
      case isFalse other =>
        rw [← Option.some.inj found]
        cases rest with
        | nil => rfl
        | cons f tail => simp [ofTail, other]
      case isTrue letter =>
        rw [← Option.some.inj found]
        cases rest with
        | nil => rfl
        | cons f tail =>
            by_cases second : f = 70 ∨ f = 102
            · rcases second with rfl | rfl <;> simp [ofTail, letter]
            · simp only [ofTail, letter, second, and_false, if_false, List.headD_cons]
              rw [not_or] at second
              simp [second]

section Reading

variable [Copying]

/-- The parameter that is found for a reference in front of `rest`, and the text behind. -/
def resolved (src : Source) (rest : Bytes) : Option Sqlparam × Bytes :=
  match ofTail ((afterWord rest).dropWhile iswhitespace) with
  | none => (sqlprocFindParam src.past src.prms (nameOf rest),
      (afterWord rest).dropWhile iswhitespace)
  | some tail =>
      let name2Raw := Packet.stringbufferToString (wordOf tail)
      let find (special : Bool) :=
        sqlprocFindParam2 src.past src.prms (nameOf rest) (_sqlprocConvert name2Raw special).m_cstr
      ((find false).or (find true), afterWord tail)

/-- A reference as it is read, on the text. -/
theorem readReference_text {pos : Nat} {mark : UInt8} {rest : Bytes} {ref : Reference}
    (left : src.text.drop pos = mark :: rest)
    (read : readReference src.past src.prms src.body pos = some ref) :
    ref.white = (afterWord rest).takeWhile iswhitespace ∧ ref.prm = (src.resolved rest).1 ∧
      src.text.drop ref.pos = (src.resolved rest).2 := by
  have white : src.body.run iswhitespace (pos + 1) = rest.takeWhile iswhitespace :=
    run_stops rfl (drop_next left)
  simp only [readReference, white, Option.bind_eq_bind] at read
  have begins : src.text.drop (pos + 1 + (rest.takeWhile iswhitespace).length) =
      rest.dropWhile iswhitespace :=
    drop_further (by rw [drop_next left, List.takeWhile_append_dropWhile])
  generalize pos + 1 + (rest.takeWhile iswhitespace).length = first at begins read
  obtain ⟨word, ends⟩ := run_name begins
  have name : Packet.stringbufferToString (src.body.run nameCh first) =
      Packet.stringbufferToString (wordOf rest) := congrArg stringNew word
  rw [name] at read
  generalize first + (src.body.run nameCh first).length = last at ends read
  have ends : src.text.drop last = afterWord rest := ends
  have white' : src.body.run iswhitespace last = (afterWord rest).takeWhile iswhitespace :=
    run_stops rfl ends
  rw [white'] at read
  have behind : src.text.drop (last + ((afterWord rest).takeWhile iswhitespace).length) =
      (afterWord rest).dropWhile iswhitespace :=
    drop_further (by rw [ends, List.takeWhile_append_dropWhile])
  generalize last + ((afterWord rest).takeWhile iswhitespace).length = place at behind read
  obtain ⟨of, is, read⟩ := Option.bind_eq_some_iff.mp read
  have known := ofAt_text behind is
  rw [resolved]
  cases tail : ofTail ((afterWord rest).dropWhile iswhitespace) with
  | none =>
      rw [tail] at known
      subst known
      cases read
      exact ⟨rfl, rfl, behind⟩
  | some tail' =>
      rw [tail] at known
      subst known
      have third : src.text.drop (place + 3) = tail' := ofTail_drop behind tail
      have white2 : src.body.run iswhitespace (place + 3) = tail'.takeWhile iswhitespace :=
        run_stops rfl third
      rw [white2] at read
      have begins2 : src.text.drop (place + 3 + (tail'.takeWhile iswhitespace).length) =
          tail'.dropWhile iswhitespace :=
        drop_further (by rw [third, List.takeWhile_append_dropWhile])
      generalize place + 3 + (tail'.takeWhile iswhitespace).length = first2 at begins2 read
      obtain ⟨word2, ends2⟩ := run_name begins2
      have name2 : Packet.stringbufferToString (src.body.run nameCh first2) =
          Packet.stringbufferToString (wordOf tail') := congrArg stringNew word2
      rw [name2] at read
      cases read
      exact ⟨rfl, rfl, ends2⟩

omit [Copying] in
theorem head_afterWord {rest more : Bytes} {c : UInt8} (after : afterWord rest = c :: more) :
    nameCh c = false := by
  have first := List.head?_dropWhile_not nameCh (rest.dropWhile iswhitespace)
  rw [show (rest.dropWhile iswhitespace).dropWhile nameCh = c :: more from after] at first
  exact first

omit [Copying] in
/-- Behind a word stands white space, a comma, a parenthesis or nothing. -/
theorem bare_or_white (rest : Bytes) : (∀ c ∈ (afterWord rest).head?, c = 44 ∨ c = 41) ∨
    ∃ c more, afterWord rest = c :: more ∧ iswhitespace c = true := by
  cases after : afterWord rest with
  | nil => exact .inl fun _ mem => nomatch mem
  | cons c more =>
      have ends := head_afterWord after
      cases white : iswhitespace c with
      | true => exact .inr ⟨c, more, rfl, white⟩
      | false =>
          refine .inl fun d mem => ?_
          cases Option.some.inj mem
          simp only [nameCh, white, Bool.not_false, Bool.true_and, Bool.and_eq_false_iff,
            bne_eq_false_iff_eq] at ends
          exact ends

omit [Copying] in
theorem dropWhile_bare {rest : Bytes} (bare : ∀ c ∈ rest.head?, c = 44 ∨ c = 41) :
    rest.dropWhile iswhitespace = rest := by
  cases rest with
  | nil => rfl
  | cons c rest => rcases bare c rfl with rfl | rfl <;> rfl

omit [Copying] in
theorem ofTail_bare {rest : Bytes} (bare : ∀ c ∈ rest.head?, c = 44 ∨ c = 41) :
    ofTail rest = none := by
  unfold ofTail
  split
  case h_1 o f tail =>
    refine if_neg fun letters => ?_
    rcases bare o rfl with rfl | rfl <;> exact absurd letters.1 (by decide)
  case h_2 => rfl

theorem resolved_bare {rest : Bytes} (bare : ∀ c ∈ (afterWord rest).head?, c = 44 ∨ c = 41) :
    src.resolved rest = (sqlprocFindParam src.past src.prms (nameOf rest), afterWord rest) := by
  rw [resolved, dropWhile_bare bare, ofTail_bare bare]

/-! ## Rounds -/

omit [Copying] in
theorem formOf_append (front : Bytes) (prm : Sqlparam) :
    front ++ lit "?" ++ prm.m_name.m_cstr ++ lit " " = front ++ formOf prm := by
  simp [formOf]

/-- Nothing more is read where no white space follows, and no I. -/
theorem parseReference_quiet {s : Parse} {ref : Reference} {prm : Sqlparam} {rest : Bytes}
    (read : readReference src.past src.prms src.body s.pos = some ref)
    (found : ref.prm = some prm) (behind : src.text.drop ref.pos = rest)
    (quiet : ∀ c ∈ rest.head?, c = 44 ∨ c = 41) :
    parseReference src.past src.prms src.body s = some {
      pos := ref.pos
      buf := s.buf ++ ref.white ++ formOf prm
      indicators := s.indicators } := by
  have stops : src.body.run iswhitespace ref.pos = [] := by
    rw [run_stops rfl behind]
    cases rest with
    | nil => rfl
    | cons c rest => rcases quiet c rfl with rfl | rfl <;> rfl
  simp only [parseReference, read, found, stops, List.length_nil, Nat.add_zero, List.append_nil,
    Option.bind_eq_bind, Option.bind_some, formOf_append]
  split
  case isTrue => rfl
  case isFalse inside =>
    obtain ⟨c, is, other⟩ : ∃ c, src.body.charAt ref.pos = some c ∧ c ≠ 73 ∧ c ≠ 105 := by
      cases rest with
      | nil => exact ⟨0, charAt_behind behind (Nat.lt_of_not_le inside), by decide⟩
      | cons c rest =>
          refine ⟨c, (char_cons behind).2, ?_⟩
          rcases quiet c rfl with rfl | rfl <;> decide
    rw [is, Option.bind_some, if_pos other]

theorem readIndicator_buf {body : Body} {prm : Sqlparam} {s s' : Parse}
    (ran : readIndicator body prm s = some s') : s'.buf = s.buf ++ lit "INDICATOR ?" := by
  obtain ⟨of, -, ran⟩ := Option.bind_eq_some_iff.mp ran
  cases of with
  | false =>
      cases Option.some.inj ran
      rfl
  | true =>
      cases Option.some.inj ran
      rfl

/-- The state behind a reference and the white space that follows it. -/
def afterForm (body : Body) (ref : Reference) (prm : Sqlparam) (s : Parse) : Parse where
  pos := ref.pos + (body.run iswhitespace ref.pos).length
  buf := s.buf ++ ref.white ++ formOf prm ++ body.run iswhitespace ref.pos
  indicators := s.indicators

/-- A reference is over there, or its indicator is read. -/
theorem parseReference_cases {past : Bool} {prms : List Sqlparam} {body : Body} {s s' : Parse}
    (ran : parseReference past prms body s = some s') :
    ∃ ref prm, readReference past prms body s.pos = some ref ∧ ref.prm = some prm ∧
      (s' = afterForm body ref prm s ∨
        readIndicator body prm (afterForm body ref prm s) = some s') := by
  obtain ⟨ref, read, ran⟩ := Option.bind_eq_some_iff.mp ran
  obtain ⟨prm, found, ran⟩ := Option.bind_eq_some_iff.mp ran
  refine ⟨ref, prm, read, found, ?_⟩
  dsimp only at ran
  rw [formOf_append] at ran
  split at ran
  · exact .inl (Option.some.inj ran).symm
  · obtain ⟨c, -, ran⟩ := Option.bind_eq_some_iff.mp ran
    split at ran
    · exact .inl (Option.some.inj ran).symm
    · split at ran
      · exact .inr ran
      · exact .inl (Option.some.inj ran).symm

/-- What a reference appends: the white space behind its word, its form, the white space
behind it, and the indicator if one is read. -/
theorem parseReference_buf {past : Bool} {prms : List Sqlparam} {body : Body} {s s' : Parse}
    (ran : parseReference past prms body s = some s') :
    ∃ ref prm tail, readReference past prms body s.pos = some ref ∧ ref.prm = some prm ∧
      s'.buf = s.buf ++ ref.white ++ formOf prm ++ (body.run iswhitespace ref.pos ++ tail) ∧
      (tail = [] ∧ s'.pos = ref.pos + (body.run iswhitespace ref.pos).length ∨
        tail = lit "INDICATOR ?") := by
  obtain ⟨ref, prm, read, found, ends⟩ := parseReference_cases ran
  rcases ends with rfl | reads
  · exact ⟨ref, prm, [], read, found, by rw [List.append_nil]; rfl, .inl ⟨rfl, rfl⟩⟩
  · refine ⟨ref, prm, lit "INDICATOR ?", read, found, ?_, .inr rfl⟩
    rw [readIndicator_buf reads, afterForm, List.append_assoc _ _ (lit "INDICATOR ?")]

/-- A round only appends to the buffer. -/
theorem bodyRound_buf {past : Bool} {prms : List Sqlparam} {body : Body} {s s' : Parse}
    (ran : bodyRound past prms body s = some s') : s.buf <+: s'.buf := by
  refine (List.prefix_append s.buf (body.run plainCh s.pos)).trans ?_
  simp only [bodyRound] at ran
  split at ran
  · cases Option.some.inj ran
    exact List.prefix_rfl
  · split at ran
    · obtain ⟨last, -, ran⟩ := Option.bind_eq_some_iff.mp ran
      cases Option.some.inj ran
      rw [List.append_assoc]
      exact List.prefix_append _ _
    · obtain ⟨ref, prm, tail, -, -, buf, -⟩ := parseReference_buf ran
      rw [buf, List.append_assoc, List.append_assoc]
      exact List.prefix_append _ _

theorem reaches_buf {past : Bool} {prms : List Sqlparam} {body : Body} {s e : Parse}
    (reached : (bodyLoop past prms body).Reaches s e) : s.buf <+: e.buf :=
  reached.invariant (I := fun t => s.buf <+: t.buf) List.prefix_rfl
    fun _ _ grown _ ran => grown.trans (bodyRound_buf ran)

/-! ## From a place on -/

omit [Copying] in
theorem cstr_front {front : Bytes} (whole : 0 ∉ front) (tail : Bytes) :
    cstr (front ++ tail) = front ++ cstr tail :=
  List.takeWhile_append_of_pos fun c mem => by
    have other : c ≠ 0 := fun zero => whole (zero ▸ mem)
    simpa using other

omit [Copying] in
theorem cstr_end {front : Bytes} (whole : 0 ∉ front) :
    cstr (front ++ src.pad ++ [src.body.behind]) = front := by
  rw [List.append_assoc, cstr_front whole]
  have none : cstr (src.pad ++ [src.body.behind]) = [] := by
    cases copied : src.copied with
    | none => simp [pad, body, copied, cstr]
    | some behind => simp [pad, copied, cstr]
  rw [none, List.append_nil]

omit [Copying] in
theorem whole_of_left {pos : Nat} {rest : Bytes} (left : src.text.drop pos = rest) : 0 ∉ rest :=
  fun mem => src.whole (List.mem_of_mem_drop (left ▸ mem))

/-- The loop may be begun again behind a plain character. -/
theorem ends_plain {s e : Parse} {c : UInt8} {rest : Bytes} (left : src.text.drop s.pos = c :: rest)
    (plain : plainCh c = true) (ends : src.loop.Ends s e) :
    src.loop.Ends { s with pos := s.pos + 1, buf := s.buf ++ [c] } e := by
  have inside := inside_of_cons left
  have more : s.pos < src.body.m_len := by rw [body_len]; omega
  have run : src.body.run plainCh s.pos = c :: src.body.run plainCh (s.pos + 1) := by
    have here : src.body.chars.drop s.pos = c :: src.body.chars.drop (s.pos + 1) := by
      rw [drop_inside left inside.le,
        drop_inside (drop_next left) inside, List.cons_append]
    rw [Body.run, here, List.takeWhile_cons_of_pos plain]
    rfl
  by_cases further : s.pos + 1 < src.body.m_len
  · refine ends.of_same ?_ more further
    show bodyRound src.past src.prms src.body _ = bodyRound src.past src.prms src.body s
    simp only [bodyRound, run, List.length_cons, List.append_assoc, List.singleton_append]
    rw [show s.pos + 1 + (src.body.run plainCh (s.pos + 1)).length =
      s.pos + ((src.body.run plainCh (s.pos + 1)).length + 1) by omega]
  · have none : src.body.run plainCh (s.pos + 1) = [] := by
      rw [Body.run, List.drop_eq_nil_of_le (Nat.le_of_not_lt further), List.takeWhile_nil]
    obtain ⟨s', ran, behind⟩ := ends.of_more more
    have ran : bodyRound src.past src.prms src.body s = some s' := ran
    simp only [bodyRound, run, none, List.length_cons, List.length_nil, Nat.zero_add,
      List.getElem?_eq_none_iff.mpr (Nat.le_of_not_lt further)] at ran
    rw [Option.some.inj ran]
    exact behind

/-- At a mark the round reads a reference. -/
theorem ends_mark {s e : Parse} {c : UInt8} {rest : Bytes} (left : src.text.drop s.pos = c :: rest)
    (mark : c = 58 ∨ c = 63) (ends : src.loop.Ends s e) :
    ∃ s', parseReference src.past src.prms src.body s = some s' ∧ src.loop.Ends s' e := by
  have inside := inside_of_cons left
  obtain ⟨s', ran, behind⟩ := ends.of_more (show s.pos < src.body.m_len by rw [body_len]; omega)
  have ran : bodyRound src.past src.prms src.body s = some s' := ran
  have stops : src.body.run plainCh s.pos = [] :=
    run_none left (by rcases mark with rfl | rfl <;> rfl)
  simp only [bodyRound, stops, List.length_nil, Nat.add_zero, List.append_nil,
    (char_cons left).1] at ran
  rw [if_neg (by rcases mark with rfl | rfl <;> decide)] at ran
  exact ⟨s', ran, behind⟩

/-- At a quote it reads up to the next one. -/
theorem ends_quote {s e : Parse} {c : UInt8} {rest : Bytes} (left : src.text.drop s.pos = c :: rest)
    (quotes : c = 39 ∨ c = 34) (ends : src.loop.Ends s e) :
    ∃ s', parseQuoted src.body c s = some s' ∧ src.loop.Ends s' e := by
  have inside := inside_of_cons left
  obtain ⟨s', ran, behind⟩ := ends.of_more (show s.pos < src.body.m_len by rw [body_len]; omega)
  have ran : bodyRound src.past src.prms src.body s = some s' := ran
  have stops : src.body.run plainCh s.pos = [] :=
    run_none left (by rcases quotes with rfl | rfl <;> rfl)
  simp only [bodyRound, stops, List.length_nil, Nat.add_zero, List.append_nil,
    (char_cons left).1] at ran
  rw [if_pos quotes] at ran
  exact ⟨s', ran, behind⟩

/-- Behind the text nothing is appended but NULs. -/
theorem ends_text {s e : Parse} (left : src.text.drop s.pos = []) (whole : 0 ∉ s.buf)
    (ends : src.loop.Ends s e) : cstr e.buf = s.buf := by
  by_cases more : s.pos < src.body.m_len
  · obtain ⟨s', ran, behind⟩ := ends.of_more more
    have ran : bodyRound src.past src.prms src.body s = some s' := ran
    have outside := List.drop_eq_nil_iff.mp left
    have only : src.pad = [0] := by
      rw [body_len] at more
      unfold pad at more ⊢
      split
      · rfl
      · rename_i exact_
        rw [if_neg exact_, List.length_nil] at more
        omega
    have at_ : s.pos = src.text.length := by
      rw [body_len, only, List.length_singleton] at more
      omega
    have run : src.body.run plainCh s.pos = [0] := by
      rw [Body.run, drop_inside left at_.le, only]
      rfl
    have len : src.body.m_len = s.pos + 1 := by
      rw [body_len, only, at_]
      rfl
    simp only [bodyRound, run, List.length_singleton] at ran
    rw [List.getElem?_eq_none_iff.mpr (show src.body.chars.length ≤ s.pos + 1 from len.le)] at ran
    cases Option.some.inj ran
    rw [behind.1.of_end (Nat.not_lt.mpr len.le), cstr_front whole]
    exact List.append_nil _
  · rw [ends.1.of_end more, cstr_whole whole]

/-- An unclosed quote is copied to the end. -/
theorem ends_unclosed {s e : Parse} {quote : UInt8} {text : Bytes}
    (left : src.text.drop s.pos = quote :: text) (quotes : quote = 39 ∨ quote = 34)
    (inside : quote ∉ text) (whole : 0 ∉ s.buf) (ends : src.loop.Ends s e) :
    cstr e.buf = s.buf ++ quote :: text := by
  obtain ⟨s', ran, behind⟩ := ends_quote left quotes ends
  have begun := inside_of_cons left
  have run : src.body.run (· != quote) (s.pos + 1) = text ++ src.pad := by
    refine run_all (drop_next left) begun (fun d mem => ?_) ?_
    · exact bne_iff_ne.mpr fun same => inside (same ▸ mem)
    · rcases quotes with rfl | rfl <;> rfl
  have size : (quote :: text).length = src.text.length - s.pos := by
    rw [← left, List.length_drop]
  have last : s.pos + 1 + (text ++ src.pad).length = src.body.m_len := by
    rw [body_len, List.length_append]
    rw [List.length_cons] at size
    omega
  have charAt : src.body.charAt src.body.m_len = some src.body.behind :=
    List.getElem?_concat_length
  simp only [parseQuoted, run, last, charAt, Option.bind_eq_bind, Option.bind_some] at ran
  cases Option.some.inj ran
  rw [behind.1.of_end (Nat.not_lt.mpr (Nat.le_succ _))]
  have zero : 0 ∉ s.buf ++ quote :: text := by
    rw [List.mem_append, not_or]
    exact ⟨whole, whole_of_left left⟩
  refine (congrArg cstr ?_).trans (@cstr_end src _ zero)
  simp

end Reading

end Source

end Jspp.Splc
