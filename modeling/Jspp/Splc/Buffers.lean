/-
# Splc.Buffers -- string buffers in memory

A `stringbuffer` keeps its bytes in a block with a NUL behind them and doubles
the block until there is room.  A write outside of the block and a number that
no `int` holds are undefined; a block is new with any bytes in it.

* `Stringbuffer`, `AppendBuf`: the buffer, and an append with its loop.
* `Call`, `Runs`: the calls of the interface, one behind another.
* `Stringbuffer.Holds`: the invariant.
* `step_holds`: a call keeps it exactly where an `int` holds the length it needs.
* `buffer_iff`: all calls do, from a block of the first size.
* `doubles_for_ever`: a block of no bytes is doubled for ever.

Allocation is taken to succeed.
-/
import Jspp.Splc.Text
import Jspp.Theory.Block
import Jspp.Theory.Loop
import Mathlib.Algebra.Order.Group.Nat
import Mathlib.Tactic.Linarith

namespace Jspp.Splc

open Jspp.Theory

set_option autoImplicit false

/-- The greatest `int`. -/
def intMax : Nat := 2 ^ 31 - 1

/-- A `stringbuffer`: its block, the length it was allocated with, and the bytes in use. -/
structure Stringbuffer where
  m_buf : Bytes
  m_len : Nat
  m_used : Nat

namespace Stringbuffer

/-! ## stringbuffer.c -/

section Source

-- What is in a new block, by its size and the place in it.
variable (junk : Nat → Nat → UInt8)

def malloc (n : Nat) : Bytes := (List.range n).map (junk n)

def stringbufferInit (size : Nat) : Option Stringbuffer :=
  (store (malloc junk size) 0 0).map fun m_buf => ⟨m_buf, size, 0⟩

def stringbufferNew : Option Stringbuffer := stringbufferInit junk 32

def stringbufferSizeNew (size : Nat) : Option Stringbuffer := stringbufferInit junk size

def stringbufferExtend (buf : Stringbuffer) : Option Stringbuffer :=
  let newlen := buf.m_len * 2
  if newlen ≤ intMax then
    (storeAll (malloc junk newlen) 0 (buf.m_buf.take buf.m_len)).map fun newbuf =>
      { buf with m_buf := newbuf, m_len := newlen }
  else none

/-- The loop of `stringbufferAppendBuf`. -/
def growing (len : Nat) : Loop Stringbuffer where
  more buf := buf.m_len < len + buf.m_used + 1
  round buf := stringbufferExtend junk buf

/-- What `stringbufferAppendBuf` writes, behind its loop. -/
def written (buf : Stringbuffer) (cp : Bytes) : Option Stringbuffer :=
  (storeAll buf.m_buf buf.m_used cp).bind fun m_buf =>
    (store m_buf (buf.m_used + cp.length) 0).map fun m_buf =>
      { buf with m_buf := m_buf, m_used := buf.m_used + cp.length }

/-- `stringbufferAppendBuf( buf, cp, len )` comes to its end, with the buffer `buf'`. -/
def AppendBuf (buf : Stringbuffer) (cp : Bytes) (buf' : Stringbuffer) : Prop :=
  if cp.length = 0 then buf' = buf
  else cp.length + buf.m_used + 1 ≤ intMax ∧
    ∃ grown, (growing junk cp.length).Ends buf grown ∧ written grown cp = some buf'

def stringbufferClear (buf : Stringbuffer) : Option Stringbuffer :=
  (store buf.m_buf 0 0).map fun m_buf => { buf with m_buf := m_buf, m_used := 0 }

end Source

/-- The calls that change a buffer. -/
inductive Call where
  | appendBuf (cp : Bytes)
  | append (cp : Bytes)
  | appendCh (cp : UInt8)
  | appendEx (cp : Bytes) (start len : Nat) (inside : start + len ≤ cp.length)
  | clear

/-- The bytes that a call hands to `stringbufferAppendBuf`. -/
def Call.bytes : Call → Bytes
  | appendBuf cp => cp
  | append cp => cp
  | appendCh cp => [cp]
  | appendEx cp start len _ => (cp.drop start).take len
  | clear => []

/-- The bytes appended since the last `stringbufferClear`. -/
def Call.contents (bytes : Bytes) : Call → Bytes
  | clear => []
  | call => bytes ++ call.bytes

section Source

variable (junk : Nat → Nat → UInt8)

def Call.Run (buf : Stringbuffer) : Call → Stringbuffer → Prop
  | clear, buf' => buf.stringbufferClear = some buf'
  | call, buf' => buf.AppendBuf junk call.bytes buf'

/-- The calls come to their ends, one behind another. -/
inductive Runs : Stringbuffer → List Call → Stringbuffer → Prop where
  | nil (buf : Stringbuffer) : Runs buf [] buf
  | cons {buf buf' buf'' : Stringbuffer} {call : Call} {calls : List Call}
      (run : call.Run junk buf buf') (more : Runs buf' calls buf'') : Runs buf (call :: calls) buf''

end Source

/-! ## The invariant -/

/-- The buffer is of the bytes: they are in its block, with a NUL behind them. -/
structure IsOf (buf : Stringbuffer) (bytes : Bytes) : Prop where
  block : buf.m_buf.length = buf.m_len
  used : buf.m_used = bytes.length
  text : ∃ rest, buf.m_buf = bytes ++ 0 :: rest
  room : buf.m_used + 1 ≤ buf.m_len

/-- Its block was doubled from one of `size` bytes. -/
structure Holds (size : Nat) (buf : Stringbuffer) (bytes : Bytes) : Prop
    extends buf.IsOf bytes where
  doubled : ∃ k, buf.m_len = size * 2 ^ k
  int : buf.m_len ≤ intMax

variable {junk : Nat → Nat → UInt8} {size : Nat} {buf buf' : Stringbuffer} {bytes : Bytes}

@[simp] theorem length_malloc (n : Nat) : (malloc junk n).length = n := by
  simp [malloc]

theorem stringbufferInit_holds (some : size ≠ 0) (int : size ≤ intMax) :
    ∃ buf, stringbufferInit junk size = .some buf ∧ buf.Holds size [] := by
  have inside : 0 < (malloc junk size).length := by
    rw [length_malloc]
    omega
  refine ⟨⟨(malloc junk size).set 0 0, size, 0⟩, ?_, ?_⟩
  · rw [stringbufferInit, store_inside inside, Option.map_some]
  · obtain ⟨c, rest, block⟩ := List.exists_cons_of_length_pos inside
    exact ⟨⟨by rw [List.length_set, length_malloc], rfl, ⟨rest, by rw [block]; rfl⟩,
      Nat.pos_of_ne_zero some⟩, ⟨0, (Nat.mul_one size).symm⟩, int⟩

/-- The old block is copied to the front of the new one. -/
theorem stringbufferExtend_holds (holds : buf.Holds size bytes) (int : buf.m_len * 2 ≤ intMax) :
    ∃ buf', stringbufferExtend junk buf = some buf' ∧ buf'.Holds size bytes ∧
      buf'.m_len = buf.m_len * 2 := by
  have whole : buf.m_buf.take buf.m_len = buf.m_buf :=
    List.take_of_length_le (Nat.le_of_eq holds.block)
  have copied := @storeAll_eq _ (malloc junk (buf.m_len * 2)) 0 buf.m_buf
    (by rw [length_malloc, holds.block]; omega)
  rw [List.take_zero, List.nil_append, Nat.zero_add] at copied
  obtain ⟨rest, text⟩ := holds.text
  obtain ⟨k, doubled⟩ := holds.doubled
  have room := holds.room
  refine ⟨⟨buf.m_buf ++ (malloc junk (buf.m_len * 2)).drop buf.m_buf.length, buf.m_len * 2,
    buf.m_used⟩, ?_, ⟨⟨?_, holds.used, ?_, ?_⟩, ?_, int⟩, rfl⟩
  · simp only [stringbufferExtend, if_pos int, whole, copied, Option.map_some]
  · show (buf.m_buf ++ (malloc junk (buf.m_len * 2)).drop buf.m_buf.length).length = buf.m_len * 2
    rw [List.length_append, List.length_drop, length_malloc, holds.block]
    omega
  · refine ⟨rest ++ (malloc junk (buf.m_len * 2)).drop buf.m_buf.length, ?_⟩
    rw [text, List.append_assoc, List.cons_append]
  · show buf.m_used + 1 ≤ buf.m_len * 2
    omega
  · exact ⟨k + 1, by rw [doubled, Nat.pow_succ, Nat.mul_assoc]⟩

/-- With room for the bytes and the NUL, they are written behind those in use. -/
theorem written_holds (holds : buf.Holds size bytes) {cp : Bytes}
    (room : cp.length + buf.m_used + 1 ≤ buf.m_len) :
    ∃ buf', buf.written cp = some buf' ∧ buf'.Holds size (bytes ++ cp) := by
  obtain ⟨rest, text⟩ := holds.text
  have length := holds.block
  have used := holds.used
  have stored := @storeAll_eq _ buf.m_buf buf.m_used cp (by rw [length]; omega)
  have front : buf.m_buf.take buf.m_used = bytes := by
    rw [text, used, List.take_left]
  have behind : (buf.m_buf.drop (buf.m_used + cp.length)).length =
      buf.m_len - (buf.m_used + cp.length) := by
    rw [List.length_drop, length]
  have more : 0 < (buf.m_buf.drop (buf.m_used + cp.length)).length := by
    rw [behind]
    omega
  obtain ⟨old, left, back⟩ := List.exists_cons_of_length_pos more
  rw [front, back] at stored
  have seam := store_seam (bytes ++ cp) old left (0 : UInt8)
  have position : (bytes ++ cp).length = buf.m_used + cp.length := by
    rw [List.length_append, used]
  rw [position] at seam
  refine ⟨⟨bytes ++ cp ++ 0 :: left, buf.m_len, buf.m_used + cp.length⟩, ?_,
    ⟨⟨?_, position.symm, ⟨left, rfl⟩, ?_⟩, holds.doubled, holds.int⟩⟩
  · simp only [written, stored, Option.bind_some, seam, Option.map_some]
  · have size := congrArg List.length back
    rw [behind, List.length_cons] at size
    show (bytes ++ cp ++ 0 :: left).length = buf.m_len
    rw [List.length_append, position, List.length_cons]
    omega
  · show buf.m_used + cp.length + 1 ≤ buf.m_len
    omega

theorem stringbufferClear_holds (holds : buf.Holds size bytes) :
    ∃ buf', buf.stringbufferClear = some buf' ∧ buf'.Holds size [] := by
  have room := holds.room
  have inside : 0 < buf.m_buf.length := by
    rw [holds.block]
    omega
  obtain ⟨c, rest, block⟩ := List.exists_cons_of_length_pos inside
  refine ⟨⟨buf.m_buf.set 0 0, buf.m_len, 0⟩, ?_,
    ⟨⟨?_, rfl, ⟨rest, by rw [block]; rfl⟩, by dsimp only; omega⟩, holds.doubled, holds.int⟩⟩
  · rw [stringbufferClear, store_inside inside, Option.map_some]
  · exact List.length_set.trans holds.block

/-! ## The loop -/

/-- Some doubling of `size` that an `int` holds is a length for `need` bytes. -/
def FitsLen (size need : Nat) : Prop := ∃ k, need ≤ size * 2 ^ k ∧ size * 2 ^ k ≤ intMax

theorem growing_holds {len : Nat} {grown : Stringbuffer} (holds : buf.Holds size bytes)
    (reached : (growing junk len).Reaches buf grown) : grown.Holds size bytes := by
  refine Loop.Reaches.invariant (I := fun t => t.Holds size bytes) holds
    (fun t t' holds _ ran => ?_) reached
  by_cases int : t.m_len * 2 ≤ intMax
  · obtain ⟨t'', doubled, holds', -⟩ := @stringbufferExtend_holds junk size t bytes holds int
    have same : t'' = t' := Option.some.inj (doubled.symm.trans ran)
    exact same ▸ holds'
  · have none : stringbufferExtend junk t = none := if_neg int
    cases none.symm.trans ran

theorem growing_ends (holds : buf.Holds size bytes) {len k : Nat}
    (need : len + buf.m_used + 1 ≤ buf.m_len * 2 ^ k) (int : buf.m_len * 2 ^ k ≤ intMax) :
    ∃ grown, (growing junk len).Ends buf grown := by
  induction k generalizing buf with
  | zero =>
      refine ⟨buf, .start, ?_⟩
      show ¬ buf.m_len < len + buf.m_used + 1
      omega
  | succ k ih =>
      by_cases more : buf.m_len < len + buf.m_used + 1
      · have split : buf.m_len * 2 ^ (k + 1) = buf.m_len * 2 * 2 ^ k := by
          rw [Nat.pow_succ', Nat.mul_assoc]
        have once : buf.m_len * 2 ≤ intMax :=
          (Nat.le_mul_of_pos_right _ (Nat.two_pow_pos k)).trans (split ▸ int)
        obtain ⟨next, ran, holds', len'⟩ := @stringbufferExtend_holds junk size buf bytes holds once
        have used : next.m_used = buf.m_used := holds'.used.trans holds.used.symm
        obtain ⟨grown, reached, ends⟩ := ih holds' (by rw [used, len', ← split]; exact need)
          (by rw [len', ← split]; exact int)
        exact ⟨grown, (Loop.Reaches.next .start more ran).trans reached, ends⟩
      · exact ⟨buf, .start, more⟩

theorem appendBuf_holds {cp : Bytes} (holds : buf.Holds size bytes)
    (appended : buf.AppendBuf junk cp buf') : buf'.Holds size (bytes ++ cp) := by
  unfold AppendBuf at appended
  split at appended
  case isTrue none =>
    rw [appended, List.length_eq_zero_iff.mp none, List.append_nil]
    exact holds
  case isFalse some =>
    obtain ⟨-, grown, ⟨reached, ends⟩, ran⟩ := appended
    have holds' := growing_holds holds reached
    obtain ⟨last, wrote, holds''⟩ := written_holds holds' (Nat.le_of_not_lt ends)
    have same : last = buf' := Option.some.inj (wrote.symm.trans ran)
    exact same ▸ holds''

theorem appendBuf_iff (holds : buf.Holds size bytes) (cp : Bytes) :
    (∃ buf', buf.AppendBuf junk cp buf') ↔
      cp = [] ∨ FitsLen size (cp.length + bytes.length + 1) := by
  unfold AppendBuf
  by_cases none : cp.length = 0
  · simp only [if_pos none]
    exact iff_of_true ⟨buf, rfl⟩ (.inl (List.length_eq_zero_iff.mp none))
  · simp only [if_neg none]
    constructor
    · rintro ⟨_, int, grown, ⟨reached, ends⟩, -⟩
      have holds' := growing_holds holds reached
      obtain ⟨k, doubled⟩ := holds'.doubled
      have enough : cp.length + grown.m_used + 1 ≤ grown.m_len := Nat.le_of_not_lt ends
      rw [holds'.used, doubled] at enough
      exact .inr ⟨k, enough, doubled ▸ holds'.int⟩
    · intro fits
      obtain ⟨k, need, int⟩ := fits.resolve_left fun empty => none (by rw [empty]; rfl)
      obtain ⟨j, doubled⟩ := holds.doubled
      have ends : ∃ grown, (growing junk cp.length).Ends buf grown := by
        rw [← holds.used] at need
        rcases Nat.le_total k j with less | less
        · have le : size * 2 ^ k ≤ buf.m_len :=
            doubled ▸ Nat.mul_le_mul_left _ (Nat.pow_le_pow_right (by decide) less)
          exact growing_ends (k := 0) holds (by rw [Nat.pow_zero]; omega)
            (by rw [Nat.pow_zero, Nat.mul_one]; exact holds.int)
        · obtain ⟨i, rfl⟩ := Nat.exists_eq_add_of_le less
          have split : size * 2 ^ (j + i) = buf.m_len * 2 ^ i := by
            rw [doubled, Nat.pow_add, Nat.mul_assoc]
          exact growing_ends holds (split ▸ need) (split ▸ int)
      obtain ⟨grown, reached, done⟩ := ends
      obtain ⟨last, wrote, -⟩ := written_holds (growing_holds holds reached) (Nat.le_of_not_lt done)
      exact ⟨last, by rw [holds.used]; omega, grown, ⟨reached, done⟩, wrote⟩

/-- A block of no bytes stays one. -/
theorem doubles_for_ever (len : Nat) (empty : buf.m_len = 0) :
    ¬ (growing junk len).Returns buf := by
  refine Loop.Returns.not_of_invariant (I := fun t => t.m_len = 0) empty ?_ ?_
  · intro t t' none _ ran
    have doubled : stringbufferExtend junk t = some t' := ran
    unfold stringbufferExtend at doubled
    dsimp only at doubled
    split at doubled
    · obtain ⟨newbuf, -, rfl⟩ := Option.map_eq_some_iff.mp doubled
      show t.m_len * 2 = 0
      rw [none]
    · cases doubled
  · intro t none
    show t.m_len < len + t.m_used + 1
    omega

/-! ## Calls -/

/-- An `int` holds the length that the call needs. -/
def Call.Fits (size : Nat) (bytes : Bytes) (call : Call) : Prop :=
  call.bytes = [] ∨ FitsLen size (call.bytes.length + bytes.length + 1)

theorem step_holds (holds : buf.Holds size bytes) (call : Call) :
    ((∃ buf', call.Run junk buf buf') ↔ call.Fits size bytes) ∧
      ∀ buf', call.Run junk buf buf' → buf'.Holds size (call.contents bytes) := by
  cases call with
  | clear =>
      obtain ⟨cleared, ran, holds'⟩ := stringbufferClear_holds holds
      refine ⟨iff_of_true ⟨cleared, ran⟩ (.inl rfl), fun buf' ran' => ?_⟩
      have same : cleared = buf' := Option.some.inj (ran.symm.trans ran')
      exact same ▸ holds'
  | appendBuf cp => exact ⟨appendBuf_iff holds _, fun buf' ran => appendBuf_holds holds ran⟩
  | append cp => exact ⟨appendBuf_iff holds _, fun buf' ran => appendBuf_holds holds ran⟩
  | appendCh cp => exact ⟨appendBuf_iff holds _, fun buf' ran => appendBuf_holds holds ran⟩
  | appendEx cp start len inside =>
      exact ⟨appendBuf_iff holds _, fun buf' ran => appendBuf_holds holds ran⟩

/-- Every call fits behind the calls before it. -/
def AllFit (size : Nat) : Bytes → List Call → Prop
  | _, [] => True
  | bytes, call :: calls => call.Fits size bytes ∧ AllFit size (call.contents bytes) calls

theorem runs_holds {calls : List Call} (holds : buf.Holds size bytes)
    (runs : Runs junk buf calls buf') : buf'.Holds size (calls.foldl Call.contents bytes) := by
  induction runs generalizing bytes with
  | nil => exact holds
  | cons run _ ih => exact ih ((step_holds holds _).2 _ run)

theorem runs_iff {calls : List Call} (holds : buf.Holds size bytes) :
    (∃ buf', Runs junk buf calls buf') ↔ AllFit size bytes calls := by
  induction calls generalizing buf bytes with
  | nil => exact iff_of_true ⟨buf, .nil buf⟩ trivial
  | cons call calls ih =>
      constructor
      · rintro ⟨_, run⟩
        cases run with
        | cons first more =>
            exact ⟨(step_holds holds call).1.mp ⟨_, first⟩,
              (ih ((step_holds holds call).2 _ first)).mp ⟨_, more⟩⟩
      · rintro ⟨fits, all⟩
        obtain ⟨next, first⟩ := (@step_holds junk size buf bytes holds call).1.mpr fits
        obtain ⟨last, more⟩ := (ih ((step_holds holds call).2 _ first)).mpr all
        exact ⟨last, .cons first more⟩

/-- From a block of `size` bytes every call comes to its end, without a write outside of the
block, and after each of them the buffer is of the bytes appended since the last
`stringbufferClear`. -/
def Behaves (junk : Nat → Nat → UInt8) (size : Nat) (calls : List Call) : Prop :=
  ∃ buf, stringbufferSizeNew junk size = some buf ∧ (∃ buf', Runs junk buf calls buf') ∧
    ∀ front buf', front <+: calls → Runs junk buf front buf' →
      buf'.IsOf (front.foldl Call.contents [])

theorem not_behaves_zero (calls : List Call) : ¬ Behaves junk 0 calls := by
  rintro ⟨buf, made, -⟩
  have outside : stringbufferSizeNew junk 0 = none := by
    rw [stringbufferSizeNew, stringbufferInit, store_outside (by simp), Option.map_none]
  cases outside.symm.trans made

/-- The calls behave if and only if the first block has a byte and each call needs a length that
is a doubling of the first one and an `int`. -/
theorem buffer_iff (int : size ≤ intMax) (calls : List Call) :
    Behaves junk size calls ↔ size ≠ 0 ∧ AllFit size [] calls := by
  by_cases zero : size = 0
  · subst zero
    exact iff_of_false (not_behaves_zero calls) fun fits => fits.1 rfl
  · obtain ⟨first, made, holds⟩ := @stringbufferInit_holds junk size zero int
    constructor
    · rintro ⟨buf, made', ends, -⟩
      have same : first = buf := Option.some.inj (made.symm.trans made')
      exact ⟨zero, (runs_iff (same ▸ holds)).mp ends⟩
    · rintro ⟨-, fits⟩
      exact ⟨first, made, (runs_iff holds).mpr fits, fun front buf' _ runs =>
        (runs_holds holds runs).toIsOf⟩

theorem behaves_letter : Behaves (fun _ _ => 7) 1 [.appendCh 65] :=
  (buffer_iff (by decide) [.appendCh 65]).mpr
    ⟨by decide, .inr ⟨1, by decide, by decide⟩, trivial⟩

/-- A buffer that is made for an empty string is written to outside of its block, and the first
byte appended to a block of no bytes is appended never. -/
theorem empty_misbehaves :
    (¬ ∀ junk size calls, size ≤ intMax → Behaves junk size calls) ∧
      ∀ junk (buf : Stringbuffer), buf.m_len = 0 → ¬ (growing junk 1).Returns buf :=
  ⟨fun behaves => not_behaves_zero [] (behaves (fun _ _ => 0) 0 [] (by decide)),
    fun _ _ empty => doubles_for_ever 1 empty⟩

end Stringbuffer

end Jspp.Splc
