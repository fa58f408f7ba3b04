/-
# Splc.Bodies -- when the body of a procedure is read to its end

Behind a reference that the word INDICATOR follows anywhere, the position is set
to the next colon.  Without one it is set to the first question mark of the whole
text, or to the beginning.  The loop then reads a part of the text again, and the
same reference with it, without an end.

* `bodyRound_pos`: where a round ends depends on where it begins alone.
* `Calm`: a round that does not jump back, and whose reference names a parameter.
* `round_iff`: these are the rounds that end behind where they began, inside the text.
* `behaves_iff`: a body is read to its end exactly if all its rounds are calm.
* `jumps_back_for_ever`: a text that is never read to its end.
-/
import Jspp.Splc.Procbody

namespace Jspp.Splc

open Jspp.Theory

set_option autoImplicit false

/-! ## Positions inside the text -/

namespace Body

variable {body : Body}

theorem run_le (takes : UInt8 → Bool) {pos : Nat} (inside : pos ≤ body.m_len) :
    pos + (body.run takes pos).length ≤ body.m_len := by
  have size := (List.takeWhile_sublist (l := body.chars.drop pos) takes).length_le
  rw [List.length_drop] at size
  unfold run m_len at *
  omega

theorem charAt_inside {pos : Nat} (inside : pos ≤ body.m_len) : ∃ c, body.charAt pos = some c :=
  ⟨_, List.getElem?_eq_getElem (by
    rw [List.length_append]
    exact Nat.lt_succ_of_le inside)⟩

end Body

variable {past : Bool} {prms : List Sqlparam} {body : Body}

/-- Where the first loop of a round stops. -/
def Parse.mark (s : Parse) (body : Body) : Nat := s.pos + (body.run plainCh s.pos).length

/-- A reference stands there. -/
def Parse.Refers (s : Parse) (body : Body) : Prop :=
  body.chars[s.mark body]? = some 58 ∨ body.chars[s.mark body]? = some 63

/-- The first loop stops at a mark or a quote. -/
theorem mark_stops {s : Parse} {c : UInt8} (here : body.chars[s.mark body]? = some c) :
    plainCh c = false := by
  have split := List.takeWhile_append_dropWhile (p := plainCh) (l := body.chars.drop s.pos)
  have first : (body.chars.drop s.pos)[(body.run plainCh s.pos).length]? = some c := by
    rw [List.getElem?_drop]
    exact here
  rw [← split, Body.run, List.getElem?_append_right (Nat.le_refl _), Nat.sub_self,
    ← List.head?_eq_getElem?] at first
  simpa [first] using List.head?_dropWhile_not plainCh (body.chars.drop s.pos)

theorem parseQuoted_forward (exitch : UInt8) {s : Parse} (inside : s.pos < body.m_len) :
    ∃ s', parseQuoted body exitch s = some s' ∧ s.pos < s'.pos := by
  have text := body.run_le (· != exitch) (show s.pos + 1 ≤ body.m_len by omega)
  obtain ⟨last, is⟩ := Body.charAt_inside text
  simp only [parseQuoted, is, Option.bind_eq_bind, Option.bind_some]
  exact ⟨_, rfl, by simp only; omega⟩

section Rounds

variable [Copying]

/-! ## Positions alone -/

theorem readIndicator_pos (prm : Sqlparam) {s t : Parse} (same : s.pos = t.pos) :
    (readIndicator body prm s).map (·.pos) = (readIndicator body prm t).map (·.pos) := by
  simp only [readIndicator, same, Option.bind_eq_bind]
  rcases body.ofAt _ with _ | _ | _ <;> rfl

theorem parseReference_pos {s t : Parse} (same : s.pos = t.pos) :
    (parseReference past prms body s).map (·.pos) =
      (parseReference past prms body t).map (·.pos) := by
  simp only [parseReference, same, Option.bind_eq_bind]
  cases readReference past prms body t.pos with
  | none => rfl
  | some ref =>
      simp only [Option.bind_some]
      cases ref.prm with
      | none => rfl
      | some prm =>
          simp only [Option.bind_some]
          generalize ref.pos + (body.run iswhitespace ref.pos).length = pos
          split
          · rfl
          · cases body.charAt pos with
            | none => rfl
            | some c =>
                simp only [Option.bind_some]
                split
                · rfl
                · split
                  · exact readIndicator_pos prm rfl
                  · rfl

/-- Where a round ends depends on where it begins alone. -/
theorem bodyRound_pos {s t : Parse} (same : s.pos = t.pos) :
    (bodyRound past prms body s).map (·.pos) = (bodyRound past prms body t).map (·.pos) := by
  simp only [bodyRound, same]
  cases body.chars[t.pos + (body.run plainCh t.pos).length]? with
  | none => rfl
  | some c =>
      simp only
      split
      · simp only [parseQuoted, Option.bind_eq_bind]
        cases body.charAt _ <;> rfl
      · exact parseReference_pos rfl

/-! ## Calm rounds -/

/-- The indicator of a reference is looked for from `pos` on. -/
def Indicated (body : Body) (pos : Nat) : Prop :=
  pos < body.m_len ∧ (body.charAt pos = some 73 ∨ body.charAt pos = some 105) ∧
    body.indicatorBehind pos = true

/-- Where the word of the indicator ends, with the word behind its OF; `none` is read behind
the text. -/
def indicatorEnd (body : Body) (pos : Nat) : Option Nat := do
  let pos := indicatorPos body pos
  let pos := pos + (body.run nameCh pos).length
  if ← body.ofAt pos then some (pos + 3 + (body.run nameCh (pos + 3)).length) else some pos

/-- A reference at `mark`, in a round that began at `first`: it is read inside the text and a
parameter is found for it, and the search for its indicator, if there is one, leads behind
`first`. -/
def CalmAt (past : Bool) (prms : List Sqlparam) (body : Body) (first mark : Nat) : Prop :=
  ∃ ref, readReference past prms body mark = some ref ∧ ref.prm ≠ none ∧
    (Indicated body (ref.pos + (body.run iswhitespace ref.pos).length) →
      ∃ pos, indicatorEnd body (ref.pos + (body.run iswhitespace ref.pos).length) = some pos ∧
        first < pos)

/-- The round reads no reference, or a calm one. -/
def Calm (past : Bool) (prms : List Sqlparam) (body : Body) (s : Parse) : Prop :=
  s.Refers body → CalmAt past prms body s.pos (s.mark body)

theorem readReference_forward {pos : Nat} {ref : Reference}
    (read : readReference past prms body pos = some ref) : pos < ref.pos := by
  simp only [readReference, Option.bind_eq_bind, Option.bind_eq_some_iff] at read
  obtain ⟨of, -, read⟩ := read
  cases of with
  | false =>
      cases Option.some.inj read
      simp only
      omega
  | true =>
      cases Option.some.inj read
      simp only
      omega

theorem readIndicator_end (prm : Sqlparam) (s : Parse) :
    (readIndicator body prm s).map (·.pos) = indicatorEnd body s.pos := by
  simp only [readIndicator, indicatorEnd, Option.bind_eq_bind]
  rcases body.ofAt _ with _ | _ | _ <;> rfl

/-- A reference ends behind the beginning of its round exactly if it is calm. -/
theorem parseReference_iff {s : Parse} {first : Nat} (behind : first ≤ s.pos) :
    (∃ s', parseReference past prms body s = some s' ∧ first < s'.pos) ↔
      CalmAt past prms body first s.pos := by
  cases read : readReference past prms body s.pos with
  | none =>
      refine iff_of_false ?_ ?_
      · rintro ⟨s', ran, -⟩
        rw [parseReference, read] at ran
        cases ran
      · rintro ⟨ref, other, -⟩
        cases read.symm.trans other
  | some ref =>
      have forward := readReference_forward read
      have only : CalmAt past prms body first s.pos ↔ ref.prm ≠ none ∧
          (Indicated body (ref.pos + (body.run iswhitespace ref.pos).length) →
            ∃ pos, indicatorEnd body (ref.pos + (body.run iswhitespace ref.pos).length) =
              some pos ∧ first < pos) := by
        rw [CalmAt, read]
        simp
      rw [only]
      cases found : ref.prm with
      | none =>
          refine iff_of_false ?_ fun calm => calm.1 rfl
          rintro ⟨s', ran, -⟩
          simp only [parseReference, read, found, Option.bind_eq_bind, Option.bind_some,
            Option.bind_none] at ran
          cases ran
      | some prm =>
          simp only [parseReference, read, found, Option.bind_eq_bind, Option.bind_some]
          have further : first < ref.pos + (body.run iswhitespace ref.pos).length := by omega
          generalize ref.pos + (body.run iswhitespace ref.pos).length = pos at further ⊢
          split
          case isTrue ends =>
            refine iff_of_true ⟨_, rfl, further⟩ ⟨Option.some_ne_none _, fun indicated => ?_⟩
            exact absurd indicated.1 (by omega)
          case isFalse inside =>
            obtain ⟨c, is⟩ := Body.charAt_inside (show pos ≤ body.m_len by omega)
            simp only [is, Option.bind_some]
            split
            case isTrue other =>
              refine iff_of_true ⟨_, rfl, further⟩ ⟨Option.some_ne_none _, fun indicated => ?_⟩
              have letter := indicated.2.1
              rw [is, Option.some_inj, Option.some_inj] at letter
              exact absurd letter (by tauto)
            case isFalse letter =>
              split
              case isFalse never =>
                refine iff_of_true ⟨_, rfl, further⟩ ⟨Option.some_ne_none _, fun indicated => ?_⟩
                exact absurd indicated.2.2 never
              case isTrue word =>
                have indicated : Indicated body pos := by
                  refine ⟨by omega, ?_, word⟩
                  rw [is, Option.some_inj, Option.some_inj]
                  tauto
                rw [and_iff_right (Option.some_ne_none prm), imp_iff_right indicated]
                constructor
                · rintro ⟨s', ran, behind⟩
                  refine ⟨s'.pos, ?_, behind⟩
                  rw [← readIndicator_end prm { pos := pos, buf := _, indicators := _ }, ran]
                  rfl
                · rintro ⟨e, ends, behind⟩
                  rw [← readIndicator_end prm { pos := pos, buf := _, indicators := _ }] at ends
                  obtain ⟨s', ran, rfl⟩ := Option.map_eq_some_iff.mp ends
                  exact ⟨s', ran, behind⟩

/-- A round is defined and ends behind where it began exactly if it is calm. -/
theorem round_iff {s : Parse} (more : s.pos < body.m_len) :
    (∃ s', bodyRound past prms body s = some s' ∧ s.pos < s'.pos) ↔ Calm past prms body s := by
  have first : s.pos ≤ s.mark body := Nat.le_add_right _ _
  cases here : body.chars[s.mark body]? with
  | none =>
      have ends : body.m_len ≤ s.mark body := List.getElem?_eq_none_iff.mp here
      refine iff_of_true ⟨{ s with pos := s.mark body, buf := s.buf ++ body.run plainCh s.pos },
        ?_, Nat.lt_of_lt_of_le more ends⟩ fun refers => ?_
      · simp only [bodyRound]
        rw [show s.pos + (body.run plainCh s.pos).length = s.mark body from rfl, here]
      · rw [Parse.Refers, here] at refers
        rcases refers with mark | mark <;> cases mark
  | some c =>
      have inside : s.mark body < body.m_len := (List.getElem?_eq_some_iff.mp here).1
      let t : Parse := { s with pos := s.mark body, buf := s.buf ++ body.run plainCh s.pos }
      have round : bodyRound past prms body s =
          if c = 39 ∨ c = 34 then parseQuoted body c t else parseReference past prms body t := by
        simp only [bodyRound]
        rw [show s.pos + (body.run plainCh s.pos).length = s.mark body from rfl, here]
      rw [round]
      by_cases quote : c = 39 ∨ c = 34
      · rw [if_pos quote]
        obtain ⟨s', ran, forward⟩ := @parseQuoted_forward body c t inside
        refine iff_of_true ⟨s', ran, Nat.lt_of_le_of_lt first forward⟩ fun refers => ?_
        rw [Parse.Refers, here, Option.some_inj, Option.some_inj] at refers
        rcases quote with rfl | rfl <;> exact absurd refers (by decide)
      · rw [if_neg quote]
        have refers : s.Refers body := by
          have stops := mark_stops here
          simp only [plainCh, Bool.and_eq_false_iff, bne_eq_false_iff_eq] at stops
          rw [Parse.Refers, here]
          simp only [Option.some_inj]
          tauto
        rw [Calm, imp_iff_right refers]
        exact parseReference_iff (s := t) first

/-! ## A run -/

/-- The parse returns, no round reads behind `m_len` or uses a parameter that is not there, and
none ends in front of where it began. -/
structure Behaves (past : Bool) (prms : List Sqlparam) (body : Body) : Prop where
  returns : (bodyLoop past prms body).Returns start
  rounds : ∀ s, (bodyLoop past prms body).Reaches start s → s.pos < body.m_len →
    ∃ s', bodyRound past prms body s = some s' ∧ s.pos ≤ s'.pos

/-- A round that ends where it began is made again and again. -/
theorem stays_for_ever {s s' : Parse} (more : s.pos < body.m_len)
    (ran : bodyRound past prms body s = some s') (same : s'.pos = s.pos) :
    ¬ (bodyLoop past prms body).Returns s := by
  refine Loop.Returns.not_of_invariant (I := fun t => t.pos = s.pos) rfl ?_ ?_
  · intro t t' at_ _ ran'
    have ends : (bodyRound past prms body t).map (·.pos) = _ := bodyRound_pos at_
    rw [show bodyRound past prms body t = some t' from ran', ran] at ends
    exact (Option.some.inj ends).trans same
  · intro t at_
    show t.pos < body.m_len
    rw [show t.pos = s.pos from at_]
    exact more

/-- A body is read to its end exactly if the rounds it comes to are calm. -/
theorem behaves_iff (past : Bool) (prms : List Sqlparam) (body : Body) :
    Behaves past prms body ↔ ∀ s, (bodyLoop past prms body).Reaches start s →
      s.pos < body.m_len → Calm past prms body s := by
  constructor
  · intro behaves s reached more
    obtain ⟨s', ran, forward⟩ := behaves.rounds s reached more
    refine (round_iff more).mp ⟨s', ran, Nat.lt_of_le_of_ne forward fun same => ?_⟩
    exact stays_for_ever more ran same.symm (behaves.returns.from reached)
  · intro calm
    refine ⟨Loop.Returns.of_measure (fun s => body.m_len - s.pos) fun s reached more => ?_,
      fun s reached more => ?_⟩
    · have more : s.pos < body.m_len := more
      obtain ⟨s', ran, forward⟩ := (round_iff more).mpr (calm s reached more)
      exact ⟨s', ran, by omega⟩
    · obtain ⟨s', ran, forward⟩ := (round_iff more).mpr (calm s reached more)
      exact ⟨s', ran, Nat.le_of_lt forward⟩

end Rounds

/-- The parameter `abc`. -/
def paramAbc : Sqlparam where
  m_name := stringTakeOwnership [97, 98, 99]
  m_sqltyperaw := stringTakeOwnership [73, 78, 84]
  m_sqltype := stringTakeOwnership [73, 78, 84]
  m_length := 0
  m_scale := 0
  m_isout := false
  m_indicator := none

/-- `x :abc INDICATOR`, with a NUL behind. -/
def indicatorAlone : Body where
  chars := [120, 32, 58, 97, 98, 99, 32, 73, 78, 68, 73, 67, 65, 84, 79, 82]
  behind := 0

theorem alone_round (past : Bool) {s : Parse} (low : s.pos ≤ 1) :
    (bodyRound past [paramAbc] indicatorAlone s).map (·.pos) = some 1 := by
  have same : s.pos = ({ pos := s.pos, buf := [], indicators := [] } : Parse).pos := rfl
  refine (bodyRound_pos same).trans ?_
  generalize s.pos = pos at low
  match pos, past, low with
  | 0, true, _ => decide +kernel
  | 0, false, _ => decide +kernel
  | 1, true, _ => decide +kernel
  | 1, false, _ => decide +kernel

/-- The search restarts in front of the reference, each time, and the parse does not return. -/
theorem jumps_back_for_ever (past : Bool) :
    ¬ (bodyLoop past [paramAbc] indicatorAlone).Returns start := by
  refine Loop.Returns.not_of_invariant (I := fun s => s.pos ≤ 1) (Nat.zero_le 1) ?_ ?_
  · intro s s' low _ ran
    have ends := alone_round past low
    rw [show bodyRound past [paramAbc] indicatorAlone s = some s' from ran] at ends
    exact (Option.some.inj ends).le
  · intro s low
    exact Nat.lt_of_le_of_lt low (by decide)

theorem never_returns : ¬ Behaves true [paramAbc] indicatorAlone ∧
    ¬ Behaves false [paramAbc] indicatorAlone :=
  ⟨fun behaves => jumps_back_for_ever true behaves.returns,
    fun behaves => jumps_back_for_ever false behaves.returns⟩

end Jspp.Splc
