/-
# Splc.Bindings -- character inputs and their host variables

`_preparedstatementSetInput` copies a string into the buffer of its parameter,
pads it with blanks, and for VARCHAR writes its length in front.  The three loops
meet at a NUL: `StrCpyLen` needs room for one, `_padbuf` looks for it and writes
blanks on it, and `strlen` is then asked for the length of a text that has none,
and begins at the length itself.

* `setInputChar`: the calls, on a buffer of bytes; `none` is a byte outside it.
* `Binding`: a parameter with the string bound to it, and the buffer as it was allocated.
* `reached_iff`: when the string reaches the host variable.
-/
import Jspp.Splc.Names

namespace Jspp.Splc

set_option autoImplicit false

/-! ## The loops -/

/-- `buf[ p ] = c`. -/
def poke (buf : Bytes) (p : Nat) (c : UInt8) : Option Bytes :=
  if p < buf.length then some (buf.set p c) else none

/-- `StrCpyLen( &buf[ p ], from, maxlen )`. -/
def pokeText (buf : Bytes) (p : Nat) : Bytes → Nat → Option Bytes
  | [], _ => poke buf p 0
  | c :: source, maxlen =>
      if maxlen ≤ 1 then poke buf p 0
      else do pokeText (← poke buf p c) (p + 1) source (maxlen - 1)

/-- `strlen( &buf[ p ] )`. -/
def strlenAt (buf : Bytes) (p : Nat) : Option Nat := (buf.drop p).findIdx? (· == 0)

/-- The second loop of `_padbuf`. -/
def fill (ch : UInt8) (buf : Bytes) (p : Nat) : Nat → Option Bytes
  | 0 => some buf
  | n + 1 => do fill ch (← poke buf p ch) (p + 1) n

/-- `_padbuf( &buf[ p ], len, ch )`. -/
def _padbuf (buf : Bytes) (p len : Nat) (ch : UInt8) : Option Bytes := do
  let pos ← strlenAt buf p
  fill ch buf (p + pos) (len - pos)

/-- `*(short *)&buf[ p ] = n`. -/
def pokeShort (big : Bool) (buf : Bytes) (p n : Nat) : Option Bytes := do
  match shortBytes big n with
  | [b0, b1] => poke (← poke buf p b0) (p + 1) b1
  | _ => none

/-- The layouts of a character input. -/
inductive Layout where
  | char
  | varchar
  deriving DecidableEq

/-- The bytes in front of the text. -/
def Layout.front : Layout → Nat
  | char => 0
  | varchar => 2

/-- The memory `_setupvarbuffers` allocates for a parameter. -/
def Layout.mem_reqd (layout : Layout) (data_len : Nat) : Nat := data_len + layout.front

/-- The cases of `_preparedstatementSetInput` for a character input. -/
def setInputChar (big : Bool) (layout : Layout) (data_len : Nat) (text var_ptr : Bytes) :
    Option Bytes := do
  let var_ptr ← pokeText var_ptr layout.front text data_len
  let var_ptr ← _padbuf var_ptr layout.front data_len 32
  match layout with
  | .char => some var_ptr
  | .varchar => pokeShort big var_ptr 0 (← strlenAt var_ptr 0)

/-! ## A parameter and its string -/

/-- A parameter of length `data_len`, its buffer as it was allocated or left, and a string that
fits. -/
structure Binding where
  layout : Layout
  data_len : Nat
  text : Bytes
  var_ptr : Bytes
  pos : 1 ≤ data_len
  fits : text.length ≤ data_len
  whole : 0 ∉ text
  allocated : var_ptr.length = layout.mem_reqd data_len

namespace Binding

/-- The string with blanks behind it. -/
def blanks (b : Binding) (n : Nat) : Bytes := b.text ++ List.replicate n 32

/-- The host variable holds the string, and no byte outside the buffer is touched. -/
def Reached (big : Bool) (b : Binding) : Prop :=
  ∃ var_ptr, setInputChar big b.layout b.data_len b.text b.var_ptr = some var_ptr ∧
    match b.layout with
    | .char => var_ptr = b.blanks (b.data_len - b.text.length)
    | .varchar => ∃ n, shortAt big var_ptr 0 = some ((b.text.length + n : Nat) : Int) ∧
        b.text.length + n ≤ b.data_len ∧
        (var_ptr.drop 2).take (b.text.length + n) = b.blanks n

end Binding

/-! ## What the loops write -/

theorem poke_front (front rest : Bytes) (old c : UInt8) :
    poke (front ++ old :: rest) front.length c = some (front ++ c :: rest) := by
  rw [poke, if_pos (by simp), List.set_append_right _ _ (Nat.le_refl _), Nat.sub_self]
  rfl

/-- The copy, its NUL, and what is left of the buffer. -/
theorem pokeText_spec (text front room : Bytes) (maxlen : Nat)
    (fits : min text.length (maxlen - 1) < room.length) :
    pokeText (front ++ room) front.length text maxlen =
      some (front ++ (StrCpyLen text maxlen ++
        0 :: room.drop (min text.length (maxlen - 1) + 1))) := by
  induction text generalizing front room maxlen with
  | nil =>
      cases room with
      | nil => exact absurd fits (Nat.not_lt_zero _)
      | cons old room =>
          rw [pokeText, poke_front]
          simp [StrCpyLen]
  | cons c text ih =>
      cases room with
      | nil => exact absurd fits (Nat.not_lt_zero _)
      | cons old room =>
          by_cases last : maxlen ≤ 1
          · have none : maxlen - 1 = 0 := by omega
            rw [pokeText, if_pos last, poke_front, StrCpyLen, none]
            rfl
          · obtain ⟨n, rfl⟩ : ∃ n, maxlen = n + 2 := ⟨maxlen - 2, by omega⟩
            have more : front ++ c :: room = (front ++ [c]) ++ room := by simp
            have size : front.length + 1 = (front ++ [c]).length := by simp
            have fits' : min text.length (n + 1 - 1) < room.length := by
              rw [List.length_cons, List.length_cons] at fits
              omega
            rw [pokeText, if_neg last, poke_front, Option.bind_eq_bind, Option.bind_some, more,
              size]
            show pokeText (front ++ [c] ++ room) (front ++ [c]).length text (n + 1) = _
            rw [ih (front ++ [c]) room (n + 1) fits']
            have next : min (c :: text).length (n + 2 - 1) = min text.length (n + 1 - 1) + 1 := by
              rw [List.length_cons]
              omega
            rw [next]
            simp [StrCpyLen]

theorem strlenAt_spec {text : Bytes} (whole : 0 ∉ text) (front rest : Bytes) :
    strlenAt (front ++ (text ++ 0 :: rest)) front.length = some text.length := by
  rw [strlenAt, List.drop_left, List.findIdx?_append]
  have none : text.findIdx? (· == 0) = none :=
    List.findIdx?_eq_none_iff.mpr fun c mem => by
      simpa using fun zero : c = 0 => whole (zero ▸ mem)
  rw [none]
  simp [List.findIdx?_cons]

theorem fill_spec (ch : UInt8) (front old rest : Bytes) :
    fill ch (front ++ (old ++ rest)) front.length old.length =
      some (front ++ (List.replicate old.length ch ++ rest)) := by
  induction old generalizing front with
  | nil => rfl
  | cons c old ih =>
      have more : front ++ ch :: (old ++ rest) = (front ++ [ch]) ++ (old ++ rest) := by simp
      have size : front.length + 1 = (front ++ [ch]).length := by simp
      rw [List.cons_append, List.length_cons, fill, poke_front, Option.bind_eq_bind,
        Option.bind_some, more, size, ih]
      simp [List.replicate_succ]

/-- Behind both loops the buffer holds the copy and blanks. -/
theorem _padbuf_spec {text : Bytes} (whole : 0 ∉ text) (front rest : Bytes) (ch : UInt8) :
    _padbuf (front ++ (text ++ 0 :: rest)) front.length (text.length + (rest.length + 1)) ch =
      some (front ++ (text ++ List.replicate (rest.length + 1) ch)) := by
  have more : front ++ (text ++ 0 :: rest) = (front ++ text) ++ ((0 :: rest) ++ []) := by simp
  have size : front.length + text.length = (front ++ text).length := by simp
  have left : text.length + (rest.length + 1) - text.length = (0 :: rest).length := by
    rw [List.length_cons]
    omega
  rw [_padbuf, strlenAt_spec whole, Option.bind_eq_bind, Option.bind_some, left, size, more,
    fill_spec]
  simp

/-! ## When the string is there -/

namespace Binding

/-- What the loops leave behind the length. -/
def content (b : Binding) : Bytes :=
  StrCpyLen b.text b.data_len ++
    List.replicate (b.data_len - min b.text.length (b.data_len - 1)) 32

/-- The string reaches its variable if there is room for a NUL behind it, or if its last
character is a blank anyway.  The length of a VARCHAR is read off its own two bytes as they
were before: it is right only for the empty string and for one character. -/
def Holds (b : Binding) : Prop :=
  match b.layout with
  | .char => b.text.length < b.data_len ∨ b.text.getLast? = some 32
  | .varchar => (b.var_ptr[0]? = some 0 ∧ b.text = []) ∨
      (b.var_ptr[0]? ≠ some 0 ∧ b.var_ptr[1]? = some 0 ∧ b.text.length ≤ 1 ∧
        (b.text = [] ∨ 2 ≤ b.data_len ∨ b.text = [32]))

theorem loops_spec (b : Binding) :
    ((pokeText b.var_ptr b.layout.front b.text b.data_len).bind fun var_ptr =>
      _padbuf var_ptr b.layout.front b.data_len 32) =
        some (b.var_ptr.take b.layout.front ++ b.content) := by
  have pos := b.pos
  have size := b.allocated
  have front : (b.var_ptr.take b.layout.front).length = b.layout.front := by
    rw [List.length_take, size, Layout.mem_reqd]
    omega
  have room : (b.var_ptr.drop b.layout.front).length = b.data_len := by
    rw [List.length_drop, size, Layout.mem_reqd]
    omega
  have copied := pokeText_spec b.text (b.var_ptr.take b.layout.front)
    (b.var_ptr.drop b.layout.front) b.data_len (by omega)
  rw [List.take_append_drop, front] at copied
  have whole : 0 ∉ StrCpyLen b.text b.data_len := fun mem => b.whole (List.mem_of_mem_take mem)
  have padded := _padbuf_spec whole (b.var_ptr.take b.layout.front)
    ((b.var_ptr.drop b.layout.front).drop (min b.text.length (b.data_len - 1) + 1)) 32
  have left : ((b.var_ptr.drop b.layout.front).drop
      (min b.text.length (b.data_len - 1) + 1)).length + 1 =
        b.data_len - min b.text.length (b.data_len - 1) := by
    rw [List.length_drop, room]
    omega
  have all : (StrCpyLen b.text b.data_len).length +
      (b.data_len - min b.text.length (b.data_len - 1)) = b.data_len := by
    rw [StrCpyLen, List.length_take]
    omega
  rw [left, front, all] at padded
  rw [copied, Option.bind_some, padded, content]

theorem content_eq_iff (b : Binding) :
    b.content = b.blanks (b.data_len - b.text.length) ↔
      b.text.length < b.data_len ∨ b.text.getLast? = some 32 := by
  have fits := b.fits
  have pos := b.pos
  by_cases room : b.text.length < b.data_len
  · refine iff_of_true ?_ (.inl room)
    have all : StrCpyLen b.text b.data_len = b.text := List.take_of_length_le (by omega)
    rw [content, all, blanks, Nat.min_eq_left (by omega)]
  · have size : b.text.length = b.data_len := by omega
    have some : b.text ≠ [] := List.ne_nil_of_length_pos (by omega)
    have cut : StrCpyLen b.text b.data_len = b.text.dropLast := by
      rw [StrCpyLen, List.dropLast_eq_take, size]
    have one : b.data_len - min b.text.length (b.data_len - 1) = 1 := by omega
    rw [content, cut, one, blanks, size, Nat.sub_self]
    rw [List.getLast?_eq_getLast_of_ne_nil some, Option.some_inj]
    simp only [List.replicate_one, List.replicate_zero, List.append_nil, Nat.lt_irrefl, false_or]
    constructor
    · intro same
      have whole := List.dropLast_concat_getLast some
      exact (List.cons.inj (List.append_cancel_left (whole.trans same.symm))).1
    · intro blank
      rw [← blank, List.dropLast_concat_getLast]

theorem content_whole (b : Binding) : 0 ∉ b.content := by
  intro mem
  rcases List.mem_append.mp mem with mem | mem
  · exact b.whole (List.mem_of_mem_take mem)
  · exact absurd (List.eq_of_mem_replicate mem) (by decide)

/-- The loops, and then the length. -/
theorem setInputChar_eq (big : Bool) (b : Binding) :
    setInputChar big b.layout b.data_len b.text b.var_ptr =
      match b.layout with
      | .char => some b.content
      | .varchar => (strlenAt (b.var_ptr.take 2 ++ b.content) 0).bind fun n =>
          pokeShort big (b.var_ptr.take 2 ++ b.content) 0 n := by
  have loops := b.loops_spec
  obtain ⟨var_ptr, copied, filled⟩ := Option.bind_eq_some_iff.mp loops
  simp only [setInputChar, Option.bind_eq_bind, copied, Option.bind_some, filled]
  cases b.layout <;> rfl

theorem pokeShort_front (big : Bool) (b0 b1 : UInt8) (rest : Bytes) (n : Nat) :
    pokeShort big (b0 :: b1 :: rest) 0 n = some (shortBytes big n ++ rest) := by
  cases big <;> simp [pokeShort, shortBytes, poke]

/-- The length that is written, and the text it covers. -/
theorem reached_length (big : Bool) (b : Binding) {len : Nat} (small : len ≤ 240) :
    (∃ n, shortAt big (shortBytes big len ++ b.content) 0 = some ((b.text.length + n : Nat) : Int) ∧
        b.text.length + n ≤ b.data_len ∧
        ((shortBytes big len ++ b.content).drop 2).take (b.text.length + n) = b.blanks n) ↔
      len ≤ b.data_len ∧ b.content.take len = b.blanks (len - b.text.length) ∧
        b.text.length ≤ len := by
  have front : (shortBytes big len).length = 2 := by cases big <;> rfl
  have read := shortAt_length big small [] b.content
  rw [List.nil_append] at read
  rw [show ([] : Bytes).length = 0 from rfl] at read
  simp only [read, ← front, List.drop_left, Option.some_inj]
  constructor
  · rintro ⟨n, same, room, text⟩
    have same : len = b.text.length + n := by omega
    refine ⟨by omega, ?_, by omega⟩
    rw [same, text, Nat.add_sub_cancel_left]
  · rintro ⟨room, text, fits⟩
    refine ⟨len - b.text.length, by omega, by omega, ?_⟩
    rw [Nat.add_sub_cancel' fits, text]

/-- The first character behind the length. -/
theorem content_take_one (b : Binding) (short : b.text.length ≤ 1) :
    b.content.take 1 = b.blanks (1 - b.text.length) ↔
      b.text = [] ∨ 2 ≤ b.data_len ∨ b.text = [32] := by
  have pos := b.pos
  match text : b.text, short with
  | [], _ =>
      refine iff_of_true ?_ (.inl rfl)
      obtain ⟨n, size⟩ : ∃ n, b.data_len = n + 1 := ⟨b.data_len - 1, by omega⟩
      simp [content, blanks, text, size, StrCpyLen, List.replicate_succ]
  | [c], _ =>
      by_cases room : 2 ≤ b.data_len
      · refine iff_of_true ?_ (.inr (.inl room))
        obtain ⟨n, size⟩ : ∃ n, b.data_len = n + 2 := ⟨b.data_len - 2, by omega⟩
        simp [content, blanks, text, size, StrCpyLen]
      · have one : b.data_len = 1 := by omega
        simp [content, blanks, text, one, StrCpyLen, eq_comm]

/-- The length asked for ends at a NUL of the length itself, or runs off the buffer. -/
theorem strlenAt_front (b : Binding) (b0 b1 : UInt8) :
    strlenAt (b0 :: b1 :: b.content) 0 =
      if b0 = 0 then some 0 else if b1 = 0 then some 1 else none := by
  have none : b.content.findIdx? (· == 0) = none :=
    List.findIdx?_eq_none_iff.mpr fun c mem => by
      simpa using fun zero : c = 0 => b.content_whole (zero ▸ mem)
  rw [strlenAt, List.drop_zero, List.findIdx?_cons, List.findIdx?_cons, none]
  by_cases first : b0 = 0
  · simp [first]
  · by_cases second : b1 = 0 <;> simp [first, second]

theorem reached_iff (big : Bool) (b : Binding) : b.Reached big ↔ b.Holds := by
  rw [Reached, setInputChar_eq, Holds]
  cases layout : b.layout with
  | char =>
      simp only [Option.some_inj, exists_eq_left', content_eq_iff]
  | varchar =>
      have size : b.var_ptr.length = b.data_len + 2 := by rw [b.allocated, layout]; rfl
      obtain ⟨b0, b1, rest, buffer⟩ : ∃ b0 b1 rest, b.var_ptr = b0 :: b1 :: rest := by
        match b.var_ptr, size with
        | b0 :: b1 :: rest, _ => exact ⟨b0, b1, rest, rfl⟩
      have front : b.var_ptr.take 2 ++ b.content = b0 :: b1 :: b.content := by rw [buffer]; rfl
      have pos := b.pos
      have first : b.var_ptr[0]? = some b0 := by rw [buffer]; rfl
      have second : b.var_ptr[1]? = some b1 := by rw [buffer]; rfl
      simp only [front, strlenAt_front, first, second, Option.some_inj, ne_eq]
      by_cases zero : b0 = 0
      · simp only [zero, if_true, Option.bind_some, pokeShort_front, Option.some_inj,
          exists_eq_left', true_and, not_true_eq_false, false_and, or_false]
        rw [reached_length big b (by omega)]
        constructor
        · rintro ⟨-, -, fits⟩
          exact List.length_eq_zero_iff.mp (by omega)
        · intro empty
          simp [blanks, empty]
      · simp only [zero, if_false, false_and, not_false_eq_true, true_and, false_or]
        by_cases one : b1 = 0
        · simp only [one, if_true, Option.bind_some, pokeShort_front, Option.some_inj,
            exists_eq_left', true_and]
          rw [reached_length big b (by omega)]
          constructor
          · rintro ⟨-, text, fits⟩
            exact ⟨fits, (b.content_take_one fits).mp text⟩
          · rintro ⟨fits, text⟩
            exact ⟨pos, (b.content_take_one fits).mpr text, fits⟩
        · simp only [one, if_false, Option.bind_none, false_and, exists_false, reduceCtorEq]

/-- `AB` for a CHAR(2). -/
def fullChar : Binding where
  layout := .char
  data_len := 2
  text := [65, 66]
  var_ptr := [0, 0]
  pos := by decide
  fits := by decide
  whole := by decide
  allocated := rfl

/-- `AB` for a VARCHAR(4), in memory that is not clear. -/
def unclear : Binding where
  layout := .varchar
  data_len := 4
  text := [65, 66]
  var_ptr := [1, 1, 0, 0, 0, 0]
  pos := by decide
  fits := by decide
  whole := by decide
  allocated := rfl

/-- The first loses its last character, and the second is read behind its end. -/
theorem full_not_reached :
    setInputChar true .char 2 [65, 66] [0, 0] = some [65, 32] ∧
      setInputChar true .varchar 4 [65, 66] [1, 1, 0, 0, 0, 0] = none ∧
      ¬ fullChar.Reached true ∧ ¬ unclear.Reached true := by
  have cut : setInputChar true .char 2 [65, 66] [0, 0] = some [65, 32] := by decide
  have off : setInputChar true .varchar 4 [65, 66] [1, 1, 0, 0, 0, 0] = none := by decide
  refine ⟨cut, off, fun reached => ?_, fun reached => ?_⟩
  · obtain ⟨var_ptr, written, same⟩ := reached
    have same : var_ptr = [65, 66] := same
    rw [same] at written
    exact absurd (Option.some.inj (cut.symm.trans written)) (by decide)
  · obtain ⟨var_ptr, written, -⟩ := reached
    cases off.symm.trans written

end Binding

end Jspp.Splc
