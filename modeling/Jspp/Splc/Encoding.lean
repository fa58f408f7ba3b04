/-
# Splc.Encoding -- request messages as bytes

A `Message` is what a client means to send, `Message.bytes` how it is written.
Character sizes are left open here, as in the reader; `Message.Exact` asks for
1, 2 or 4.

* `requestNew_reads`: the reader accepts exactly the buffers that are a message
  with some of its last component's trailing zero bytes missing (`Cut`).
* `requestNew_exact_iff`: what it returns is the encoded message if and only if
  nothing is missing and all its strings are empty, since every string loses
  its last character to `stringNew`.
-/
import Jspp.Splc.Packet

namespace Jspp.Splc

set_option autoImplicit false

/-! ## Reading behind the end yields zeros -/

/-- The first `n` bytes, zeros where there are none. -/
def padded (n : Nat) (r : Bytes) : Bytes := (r ++ List.replicate n 0).take n

@[simp] theorem padded_zero (r : Bytes) : padded 0 r = [] := rfl

@[simp] theorem padded_succ (n : Nat) (r : Bytes) :
    padded (n + 1) r = r.headD 0 :: padded n (r.drop 1) := by
  cases r with
  | nil => simp [padded, List.replicate_succ]
  | cons c r =>
      have more : List.replicate (n + 1) (0 : UInt8) = List.replicate n 0 ++ [0] :=
        List.replicate_succ'
      simp only [padded, List.cons_append, List.take_succ_cons, List.headD_cons, List.drop_succ_cons,
        List.drop_zero, List.cons.injEq, true_and]
      rw [more, ← List.append_assoc, List.take_append_of_le_length (by simp)]

@[simp] theorem length_padded (n : Nat) (r : Bytes) : (padded n r).length = n := by
  simp [padded]

theorem padded_add (m n : Nat) (r : Bytes) : padded (m + n) r = padded m r ++ padded n (r.drop m) := by
  induction m generalizing r with
  | zero => simp
  | succ m ih =>
      have split : m + 1 + n = (m + n) + 1 := by omega
      rw [split, padded_succ, padded_succ, ih, List.drop_drop, Nat.add_comm 1 m, List.cons_append]

theorem padded_append_drop (n : Nat) (r : Bytes) :
    padded n r ++ r.drop n = r ++ List.replicate (n - r.length) 0 := by
  induction n generalizing r with
  | zero => simp
  | succ n ih =>
      cases r with
      | nil =>
          have := ih []
          simp only [List.drop_nil, List.append_nil, List.length_nil, List.nil_append,
            Nat.sub_zero] at this ⊢
          simp [this, List.replicate_succ]
      | cons c r =>
          have := ih r
          simp only [padded_succ, List.headD_cons, List.drop_succ_cons, List.drop_zero,
            List.cons_append, List.length_cons, Nat.add_sub_add_right]
          rw [this]

/-- The buffer, continued by zeros, begins with the text. -/
def Begins (r text : Bytes) : Prop := padded text.length r = text

theorem Begins.eq {r text : Bytes} (begins : Begins r text) : padded text.length r = text := begins

theorem begins_append {r a b : Bytes} :
    Begins r (a ++ b) ↔ Begins r a ∧ Begins (r.drop a.length) b := by
  unfold Begins
  rw [List.length_append, padded_add]
  constructor
  · intro same
    exact List.append_inj same (length_padded _ _)
  · rintro ⟨front, back⟩
    rw [front, back]

theorem begins_iff {r text : Bytes} :
    Begins r text ↔ text ++ r.drop text.length = r ++ List.replicate (text.length - r.length) 0 := by
  rw [← padded_append_drop]
  constructor
  · intro begins
    rw [begins]
  · intro same
    exact (List.append_inj_left' same rfl).symm

theorem begins_cons {r text : Bytes} {c : UInt8} :
    Begins r (c :: text) ↔ r.headD 0 = c ∧ Begins (r.drop 1) text := by
  simp only [Begins, List.length_cons, padded_succ, List.cons.injEq]

theorem begins_head {r text : Bytes} (begins : Begins r text) (some : text ≠ []) :
    r.headD 0 = text.headD 0 := by
  cases text with
  | nil => exact absurd rfl some
  | cons c text =>
      exact (begins_cons.mp begins).1

theorem begins_unique {r a b : Bytes} (left : Begins r a) (right : Begins r b)
    (size : a.length = b.length) : a = b := by
  unfold Begins at left right
  rw [← left, ← right, size]

/-- A text cut of trailing zeros still begins with the text. -/
theorem begins_of_cut {r text : Bytes} {n : Nat} (cut : r ++ List.replicate n 0 = text) :
    Begins r text := by
  have size : text.length = r.length + n := by rw [← cut]; simp
  have missing : text.length - r.length = n := by omega
  rw [begins_iff, missing, cut, List.drop_eq_nil_of_le (by omega), List.append_nil]

/-! ## The readers on what is left of the buffer -/

namespace Packet

def rest (pkt : Packet) : Bytes := pkt.m_buf.drop pkt.m_readpos

def advance (pkt : Packet) (n : Nat) : Packet := { pkt with m_readpos := pkt.m_readpos + n }

@[simp] theorem rest_advance (pkt : Packet) (n : Nat) : (pkt.advance n).rest = pkt.rest.drop n := by
  simp [rest, advance, List.drop_drop]

@[simp] theorem advance_advance (pkt : Packet) (m n : Nat) :
    (pkt.advance m).advance n = pkt.advance (m + n) := by
  simp [advance, Nat.add_assoc]

@[simp] theorem advance_isError (pkt : Packet) (n : Nat) :
    (pkt.advance n).m_isError = pkt.m_isError := rfl

theorem packetIsEof_iff (pkt : Packet) : pkt.packetIsEof = true ↔ pkt.rest = [] := by
  simp [packetIsEof, rest]

theorem packetPeekByte_eq (pkt : Packet) : pkt.packetPeekByte = pkt.rest.headD 0 := by
  unfold packetPeekByte
  split
  case isTrue eof =>
    rw [(packetIsEof_iff pkt).mp eof]
    rfl
  case isFalse more =>
    have inside : pkt.m_readpos < pkt.m_buf.length := by simpa [packetIsEof] using more
    simp [rest, List.getD_eq_getElem?_getD, List.headD_eq_head?_getD, List.head?_drop]

@[simp] theorem packetNextByte_eq (pkt : Packet) :
    pkt.packetNextByte = (pkt.rest.headD 0, pkt.advance 1) := by
  simp [packetNextByte, packetPeekByte_eq, advance]

theorem nextBytes_eq (n : Nat) (pkt : Packet) :
    nextBytes n pkt = (padded n pkt.rest, pkt.advance n) := by
  induction n generalizing pkt with
  | zero => rfl
  | succ n ih => simp [nextBytes, ih, Nat.add_comm 1 n]

end Packet

/-- The first byte of each of `n` characters of `k` bytes. -/
def firsts (k : Nat) : Nat → Bytes → Bytes
  | 0, _ => []
  | n + 1, body => body.headD 0 :: firsts k n (body.drop k)

@[simp] theorem length_firsts (k n : Nat) (body : Bytes) : (firsts k n body).length = n := by
  induction n generalizing body with
  | zero => rfl
  | succ n ih => simp [firsts, ih]

theorem Packet.readChars_eq (skip n : Nat) (pkt : Packet) :
    readChars skip n pkt =
      (firsts (skip + 1) n (padded (n * (skip + 1)) pkt.rest), pkt.advance (n * (skip + 1))) := by
  induction n generalizing pkt with
  | zero => simp [readChars, firsts, advance]
  | succ n ih =>
      have size : (n + 1) * (skip + 1) = (skip + 1) + n * (skip + 1) := by
        rw [Nat.add_mul, Nat.one_mul, Nat.add_comm]
      have front : (padded (skip + 1) pkt.rest).length = skip + 1 := length_padded _ _
      simp only [readChars, packetNextByte_eq, nextBytes_eq, ih, rest_advance, advance_advance, size,
        firsts, padded_add (skip + 1)]
      rw [Nat.add_comm 1 skip, List.drop_left' front]
      simp

theorem Packet.width_pos (charsize : UInt8) : width charsize - 1 + 1 = width charsize := by
  unfold width
  by_cases one : charsize = 1
  · simp [one]
  · by_cases two : charsize = 2 <;> simp [one, two]

/-! ## Encoded strings and values -/

/-- An encoded string: its 16-bit length, its character size and the bytes of its characters. -/
structure WireString where
  count : Nat
  charsize : UInt8
  body : Bytes
  count_lt : count < 65536
  body_length : body.length = count * Packet.width charsize

namespace WireString

def bytes (w : WireString) : Bytes :=
  tagS :: (w.count / 256).toUInt8 :: (w.count % 256).toUInt8 :: w.charsize :: w.body

/-- The characters; of a wide one the low byte, which comes first. -/
def chars (w : WireString) : Bytes := firsts (Packet.width w.charsize) w.count w.body

/-- The string that starts with the tag at the head of the buffer. -/
def read (r : Bytes) : WireString where
  count := (r.getD 1 0).toNat * 256 + (r.getD 2 0).toNat
  charsize := r.getD 3 0
  body :=
    padded (((r.getD 1 0).toNat * 256 + (r.getD 2 0).toNat) * Packet.width (r.getD 3 0)) (r.drop 4)
  count_lt := by
    have hi := (r.getD 1 0).toNat_lt
    have lo := (r.getD 2 0).toNat_lt
    omega
  body_length := length_padded _ _

theorem bytes_read {r : Bytes} (tag : r.headD 0 = tagS) : Begins r (read r).bytes := by
  have hi : (r[1]?.getD 0).toNat < 256 := UInt8.toNat_lt _
  have lo : (r[2]?.getD 0).toNat < 256 := UInt8.toNat_lt _
  have upper : ((read r).count / 256).toUInt8 = r.getD 1 0 := by
    apply UInt8.toNat_inj.mp
    simp [read]
    omega
  have lower : ((read r).count % 256).toUInt8 = r.getD 2 0 := by
    apply UInt8.toNat_inj.mp
    simp [read]
  have size : (read r).bytes.length = 4 + (read r).body.length := by
    simp [bytes]
    omega
  unfold Begins
  rw [size, padded_add]
  rw [show padded (read r).body.length (r.drop 4) = (read r).body by
    rw [(read r).body_length]; rfl]
  simp only [bytes, upper, lower, padded_succ, padded_zero, List.drop_drop, tag, List.cons_append,
    List.nil_append]
  simp [read, List.getD_eq_getElem?_getD, List.headD_eq_head?_getD, List.head?_drop]

/-- A buffer that begins with an encoded string reads as that string. -/
theorem read_bytes {r : Bytes} {w : WireString} (begins : Begins r w.bytes) : read r = w := by
  obtain ⟨count, charsize, body, count_lt, body_length⟩ := w
  have size : (bytes ⟨count, charsize, body, count_lt, body_length⟩).length = 4 + body.length := by
    simp [bytes]
    omega
  unfold Begins at begins
  rw [size, padded_add] at begins
  simp only [bytes, padded_succ, padded_zero, List.drop_drop, List.cons_append, List.nil_append,
    List.cons.injEq] at begins
  obtain ⟨-, hi, lo, kind, text⟩ := begins
  have hi : r.getD 1 0 = (count / 256).toUInt8 := by
    simpa [List.getD_eq_getElem?_getD, List.headD_eq_head?_getD, List.head?_drop] using hi
  have lo : r.getD 2 0 = (count % 256).toUInt8 := by
    simpa [List.getD_eq_getElem?_getD, List.headD_eq_head?_getD, List.head?_drop] using lo
  have kind : r.getD 3 0 = charsize := by
    simpa [List.getD_eq_getElem?_getD, List.headD_eq_head?_getD, List.head?_drop] using kind
  have same : (r.getD 1 0).toNat * 256 + (r.getD 2 0).toNat = count := by
    rw [hi, lo]
    simp
    omega
  simp only [read, same, kind, ← body_length, text]

theorem unique {r : Bytes} {w w' : WireString} (left : Begins r w.bytes)
    (right : Begins r w'.bytes) : w = w' :=
  (read_bytes left).symm.trans (read_bytes right)

end WireString

/-- An encoded value. -/
inductive WireValue where
  | str (w : WireString)
  | real (body : Bytes) (size : body.length < 256)
  | int (body : Bytes) (size : body.length = 4)
  | long (body : Bytes) (size : body.length = 8)

namespace WireValue

def bytes : WireValue → Bytes
  | .str w => w.bytes
  | .real body _ => tagD :: body.length.toUInt8 :: body
  | .int body _ => tagI :: body
  | .long body _ => tagL :: body

/-- What the server makes of an encoded value. -/
def value : WireValue → Value
  | .str w => .str (Packet.stringbufferToString w.chars)
  | .real body _ => .real body
  | .int body _ => .int (Int.bmod (Packet.bigEndian body) (2 ^ 32))
  | .long body _ => .long (Int.bmod (Packet.bigEndian body) (2 ^ 64))

theorem bytes_ne (v : WireValue) : v.bytes ≠ [] := by
  cases v <;> exact List.cons_ne_nil _ _

theorem head_bytes (v : WireValue) : v.bytes.headD 0 = v.value.m_type := by
  cases v <;> rfl

theorem unique {r : Bytes} {v v' : WireValue} (left : Begins r v.bytes)
    (right : Begins r v'.bytes) : v = v' := by
  have tags : v.value.m_type = v'.value.m_type := by
    rw [← head_bytes, ← head_bytes, ← begins_head left v.bytes_ne, begins_head right v'.bytes_ne]
  cases v <;> cases v' <;> simp only [value, Value.m_type] at tags <;>
    try exact absurd tags (by decide)
  case str.str w w' => rw [WireString.unique left right]
  case real.real body size body' size' =>
    obtain ⟨-, left⟩ := begins_cons.mp left
    obtain ⟨len, left⟩ := begins_cons.mp left
    obtain ⟨-, right⟩ := begins_cons.mp right
    obtain ⟨len', right⟩ := begins_cons.mp right
    have lengths : body.length = body'.length := by
      have := congrArg UInt8.toNat (len.symm.trans len')
      simp at this
      omega
    have same : body = body' := begins_unique left right lengths
    subst same
    rfl
  case int.int body size body' size' =>
    have same : body = body' :=
      begins_unique (begins_cons.mp left).2 (begins_cons.mp right).2 (size.trans size'.symm)
    subst same
    rfl
  case long.long body size body' size' =>
    have same : body = body' :=
      begins_unique (begins_cons.mp left).2 (begins_cons.mp right).2 (size.trans size'.symm)
    subst same
    rfl

end WireValue

/-! ## The readers return what is encoded -/

namespace Packet

theorem packetReadString_eq {pkt : Packet} {w : WireString} (begins : Begins pkt.rest w.bytes) :
    pkt.packetReadString =
      (some (stringbufferToString w.chars), pkt.advance w.bytes.length) := by
  have tag : pkt.rest.headD 0 = tagS := begins_head begins (List.cons_ne_nil _ _)
  have same := WireString.read_bytes begins
  have size : w.bytes.length = 4 + w.count * width w.charsize := by
    simp [WireString.bytes, w.body_length]
    omega
  have heads (n : Nat) : (pkt.rest.drop n).headD 0 = pkt.rest.getD n 0 := by
    simp [List.getD_eq_getElem?_getD, List.headD_eq_head?_getD, List.head?_drop]
  have count : (pkt.rest.getD 1 0).toNat * 256 + (pkt.rest.getD 2 0).toNat = w.count :=
    congrArg WireString.count same
  have charsize : pkt.rest.getD 3 0 = w.charsize := congrArg WireString.charsize same
  have body := congrArg WireString.body same
  simp only [WireString.read, count, charsize] at body
  simp only [packetReadString, packetNextByte_eq, tag, ne_eq, not_true_eq_false, if_false,
    rest_advance, advance_advance, Nat.reduceAdd, heads, count, charsize, readChars_eq, width_pos,
    body, size]
  rfl

theorem packetReadString_none {pkt : Packet} (tag : pkt.rest.headD 0 ≠ tagS) :
    pkt.packetReadString.1 = none := by
  simp only [packetReadString, packetNextByte_eq]
  rw [if_pos tag]

theorem readValue_eq {pkt : Packet} {v : WireValue} (begins : Begins pkt.rest v.bytes) :
    pkt.readValue = some (v.value, pkt.advance v.bytes.length) := by
  have tag := begins_head begins v.bytes_ne
  rw [v.head_bytes] at tag
  unfold readValue
  simp only [packetNextType, packetPeekByte_eq, tag]
  cases v with
  | str w =>
      have tagged : (WireValue.str w).value.m_type = tagS := rfl
      simp only [tagged, if_true, packetReadString_eq (w := w) begins]
      rfl
  | real body size =>
      obtain ⟨-, begins⟩ := begins_cons.mp begins
      obtain ⟨len, text⟩ := begins_cons.mp begins
      have len' : body.length.toUInt8.toNat = body.length := by simp [Nat.mod_eq_of_lt size]
      rw [List.drop_drop] at text
      have tagged : (WireValue.real body size).value.m_type = tagD := rfl
      have ne : tagD ≠ tagS := by decide
      simp only [tagged] at tag
      simp only [tagged, ne, if_false, if_true, packetReadDouble, packetNextByte_eq, tag, ne_eq,
        not_true_eq_false, rest_advance, len, len', nextBytes_eq, advance_advance, text.eq]
      simp [WireValue.value, WireValue.bytes, Nat.add_comm, Nat.add_left_comm]
  | int body size =>
      have text := size ▸ (begins_cons.mp begins).2.eq
      have tagged : (WireValue.int body size).value.m_type = tagI := rfl
      have ne : tagI ≠ tagS := by decide
      have ne' : tagI ≠ tagD := by decide
      simp only [tagged] at tag
      simp only [tagged, ne, ne', if_false, if_true, packetReadInt, packetNextByte_eq, tag, ne_eq,
        not_true_eq_false, rest_advance, nextBytes_eq, advance_advance, text]
      simp only [WireValue.value, WireValue.bytes, List.length_cons, size]
  | long body size =>
      have text := size ▸ (begins_cons.mp begins).2.eq
      have tagged : (WireValue.long body size).value.m_type = tagL := rfl
      have ne : tagL ≠ tagS := by decide
      have ne' : tagL ≠ tagD := by decide
      have ne'' : tagL ≠ tagI := by decide
      simp only [tagged] at tag
      simp only [tagged, ne, ne', ne'', if_false, if_true, packetReadLong, packetNextByte_eq, tag,
        ne_eq, not_true_eq_false, rest_advance, nextBytes_eq, advance_advance, text]
      simp only [WireValue.value, WireValue.bytes, List.length_cons, size]

theorem wireString_of_tag {r : Bytes} (tag : r.headD 0 = tagS) : ∃ w : WireString, Begins r w.bytes :=
  ⟨WireString.read r, WireString.bytes_read tag⟩

/-- What `readValue` accepts is an encoded value. -/
theorem readValue_some {pkt pkt' : Packet} {data : Value}
    (read : pkt.readValue = some (data, pkt')) : ∃ v : WireValue, Begins pkt.rest v.bytes := by
  unfold readValue at read
  simp only [packetNextType, packetPeekByte_eq] at read
  by_cases str : pkt.rest.headD 0 = tagS
  · obtain ⟨w, begins⟩ := wireString_of_tag str
    exact ⟨.str w, begins⟩
  by_cases real : pkt.rest.headD 0 = tagD
  · let size := ((pkt.rest.drop 1).headD 0).toNat
    have lt : size < 256 := UInt8.toNat_lt _
    refine ⟨.real (padded size (pkt.rest.drop 2)) (by rw [length_padded]; exact lt), ?_⟩
    have len : size.toUInt8 = (pkt.rest.drop 1).headD 0 := UInt8.ofNat_toNat
    refine begins_cons.mpr ⟨real, begins_cons.mpr ⟨?_, ?_⟩⟩
    · rw [length_padded, len]
    · rw [Begins, length_padded, List.drop_drop]
  by_cases int : pkt.rest.headD 0 = tagI
  · refine ⟨.int (padded 4 (pkt.rest.drop 1)) (length_padded _ _), begins_cons.mpr ⟨int, ?_⟩⟩
    rw [Begins, length_padded]
  by_cases long : pkt.rest.headD 0 = tagL
  · refine ⟨.long (padded 8 (pkt.rest.drop 1)) (length_padded _ _), begins_cons.mpr ⟨long, ?_⟩⟩
    rw [Begins, length_padded]
  · rw [if_neg str, if_neg real, if_neg int, if_neg long] at read
    cases read

end Packet

/-! ## Messages -/

/-- `r` is the text with at most `slack` of its trailing zero bytes missing. -/
def CutBy (slack : Nat) (text r : Bytes) : Prop :=
  ∃ n ≤ slack, r ++ List.replicate n 0 = text

theorem cutBy_append {slack : Nat} {front text r : Bytes} (room : slack < text.length) :
    CutBy slack (front ++ text) r ↔ Begins r front ∧ CutBy slack text (r.drop front.length) := by
  constructor
  · rintro ⟨n, le, cut⟩
    have sizes := congrArg List.length cut
    simp only [List.length_append, List.length_replicate] at sizes
    refine ⟨(begins_append.mp (begins_of_cut cut)).1, n, le, ?_⟩
    have dropped := congrArg (List.drop front.length) cut
    rwa [List.drop_append_of_le_length (by omega), List.drop_left] at dropped
  · rintro ⟨begins, n, le, cut⟩
    have sizes := congrArg List.length cut
    simp only [List.length_append, List.length_replicate, List.length_drop] at sizes
    have whole := begins_iff.mp begins
    rw [show front.length - r.length = 0 by omega, List.replicate_zero, List.append_nil] at whole
    exact ⟨n, le, by rw [← cut, ← List.append_assoc, whole]⟩

theorem cutBy_last {text r : Bytes} (more : r ≠ []) :
    CutBy (text.length - 1) text r ↔ Begins r text ∧ r.drop text.length = [] := by
  constructor
  · rintro ⟨n, -, cut⟩
    have sizes := congrArg List.length cut
    simp only [List.length_append, List.length_replicate] at sizes
    exact ⟨begins_of_cut cut, List.drop_eq_nil_of_le (by omega)⟩
  · rintro ⟨begins, ended⟩
    have size : r.length ≤ text.length := List.drop_eq_nil_iff.mp ended
    have some : r.length ≠ 0 := fun zero => more (List.length_eq_zero_iff.mp zero)
    have whole := begins_iff.mp begins
    rw [ended, List.append_nil] at whole
    exact ⟨text.length - r.length, by omega, whole.symm⟩

theorem WireString.more {r : Bytes} {w : WireString} (begins : Begins r w.bytes) : r ≠ [] := by
  rintro rfl
  exact absurd (begins_cons.mp begins).1 (by decide)

theorem WireValue.more {r : Bytes} {v : WireValue} (begins : Begins r v.bytes) : r ≠ [] := by
  rintro rfl
  have tag := begins_head begins v.bytes_ne
  rw [v.head_bytes] at tag
  exact v.value.m_type_ne tag.symm

abbrev WireItem := WireString × WireValue

def WireItem.bytes (item : WireItem) : Bytes := item.1.bytes ++ item.2.bytes

/-- The bytes that may be missing: the last value but its tag. -/
def itemsSlack : List WireItem → Nat
  | [] => 0
  | [item] => item.2.bytes.length - 1
  | _ :: next :: rest => itemsSlack (next :: rest)

def itemsBytes (items : List WireItem) : Bytes := items.flatMap WireItem.bytes

theorem itemsSlack_lt (item : WireItem) (rest : List WireItem) :
    itemsSlack (item :: rest) < (itemsBytes (item :: rest)).length := by
  have pos : 0 < item.2.bytes.length := List.length_pos_iff.mpr item.2.bytes_ne
  induction rest generalizing item with
  | nil => simp [itemsSlack, itemsBytes, WireItem.bytes]; omega
  | cons next rest ih =>
      have := ih next (List.length_pos_iff.mpr next.2.bytes_ne)
      simp only [itemsSlack, itemsBytes, List.flatMap_cons, List.length_append] at this ⊢
      omega

theorem cutBy_nil {r : Bytes} : CutBy 0 [] r ↔ r = [] := by
  constructor
  · rintro ⟨n, -, cut⟩
    exact (List.append_eq_nil_iff.mp cut).1
  · rintro rfl
    exact ⟨0, Nat.le_refl 0, rfl⟩

/-- A list of items is read from its front. -/
theorem cutBy_items_cons {item : WireItem} {rest : List WireItem} {r : Bytes} :
    CutBy (itemsSlack (item :: rest)) (itemsBytes (item :: rest)) r ↔
      Begins r item.1.bytes ∧ Begins (r.drop item.1.bytes.length) item.2.bytes ∧
        CutBy (itemsSlack rest) (itemsBytes rest)
          ((r.drop item.1.bytes.length).drop item.2.bytes.length) := by
  have pos : 0 < item.2.bytes.length := List.length_pos_iff.mpr item.2.bytes_ne
  cases rest with
  | nil =>
      simp only [itemsSlack, itemsBytes, List.flatMap_cons, List.flatMap_nil, List.append_nil,
        WireItem.bytes]
      rw [cutBy_append (by omega), cutBy_nil]
      by_cases more : r.drop item.1.bytes.length = []
      · constructor
        · rintro ⟨-, n, le, cut⟩
          rw [more] at cut
          have sizes := congrArg List.length cut
          simp only [List.length_append, List.length_replicate, List.length_nil] at sizes
          omega
        · rintro ⟨-, begins, -⟩
          exact absurd more (WireValue.more begins)
      · rw [cutBy_last more]
  | cons next rest =>
      have room := itemsSlack_lt next rest
      have bytes : itemsBytes (item :: next :: rest) =
          item.1.bytes ++ (item.2.bytes ++ itemsBytes (next :: rest)) := by
        simp [itemsBytes, WireItem.bytes]
      rw [bytes, show itemsSlack (item :: next :: rest) = itemsSlack (next :: rest) from rfl,
        cutBy_append (by rw [List.length_append]; omega), cutBy_append room]

/-- A request message. -/
structure Message where
  name : WireString
  userId : WireString
  password : WireString
  items : List WireItem

namespace Message

def bytes (e : Message) : Bytes :=
  e.name.bytes ++ (e.userId.bytes ++ (e.password.bytes ++ itemsBytes e.items))

def slack (e : Message) : Nat :=
  if e.items = [] then e.password.bytes.length - 1 else itemsSlack e.items

/-- The buffer is the message up to trailing zeros of its last component. -/
def Cut (e : Message) (buf : Bytes) : Prop := CutBy e.slack e.bytes buf

theorem cut_iff (e : Message) (buf : Bytes) :
    e.Cut buf ↔
      Begins buf e.name.bytes ∧ Begins (buf.drop e.name.bytes.length) e.userId.bytes ∧
        Begins ((buf.drop e.name.bytes.length).drop e.userId.bytes.length) e.password.bytes ∧
          CutBy (itemsSlack e.items) (itemsBytes e.items)
            (((buf.drop e.name.bytes.length).drop e.userId.bytes.length).drop
              e.password.bytes.length) := by
  obtain ⟨name, userId, password, items⟩ := e
  have pos : 0 < password.bytes.length := Nat.succ_pos _
  cases items with
  | nil =>
      simp only [Cut, slack, bytes, itemsBytes, itemsSlack, List.flatMap_nil, List.append_nil, if_true]
      rw [cutBy_append (by rw [List.length_append]; omega), cutBy_append (by omega), cutBy_nil]
      generalize (buf.drop name.bytes.length).drop userId.bytes.length = r
      by_cases more : r = []
      · constructor
        · rintro ⟨-, -, n, le, cut⟩
          rw [more] at cut
          have sizes := congrArg List.length cut
          simp only [List.length_append, List.length_replicate, List.length_nil] at sizes
          omega
        · rintro ⟨-, -, begins, -⟩
          exact absurd more (WireString.more begins)
      · rw [cutBy_last more]
  | cons item rest =>
      have room := itemsSlack_lt item rest
      simp only [Cut, slack, bytes, List.cons_ne_nil, if_false]
      rw [cutBy_append (by simp only [List.length_append]; omega),
        cutBy_append (by simp only [List.length_append]; omega), cutBy_append room]

/-- Messages are told apart by what a buffer begins with. -/
theorem items_unique {items items' : List WireItem} {r : Bytes}
    (left : CutBy (itemsSlack items) (itemsBytes items) r)
    (right : CutBy (itemsSlack items') (itemsBytes items') r) : items = items' := by
  induction items generalizing items' r with
  | nil =>
      have ended := cutBy_nil.mp left
      cases items' with
      | nil => rfl
      | cons item rest => exact absurd ended (WireString.more (cutBy_items_cons.mp right).1)
  | cons item rest ih =>
      obtain ⟨name, data, more⟩ := cutBy_items_cons.mp left
      cases items' with
      | nil => exact absurd (cutBy_nil.mp right) (WireString.more name)
      | cons item' rest' =>
          obtain ⟨name', data', more'⟩ := cutBy_items_cons.mp right
          have names := WireString.unique name name'
          rw [← names] at data' more'
          have values := WireValue.unique data data'
          rw [← values] at more'
          rw [ih more more', Prod.ext names values]

theorem cut_unique {e e' : Message} {buf : Bytes} (left : e.Cut buf) (right : e'.Cut buf) :
    e = e' := by
  obtain ⟨name, userId, password, items⟩ := (e.cut_iff buf).mp left
  obtain ⟨name', userId', password', items'⟩ := (e'.cut_iff buf).mp right
  have names := WireString.unique name name'
  rw [← names] at userId' password' items'
  have users := WireString.unique userId userId'
  rw [← users] at password' items'
  have passwords := WireString.unique password password'
  rw [← passwords] at items'
  have all := items_unique items items'
  cases e
  cases e'
  simp only at names users passwords all
  subst names users passwords all
  rfl

end Message

/-! ## The reader accepts messages, whole or cut -/

open Packet (stringbufferToString)

/-- An item as the server keeps it. -/
def WireItem.item (item : WireItem) : RequestItem where
  m_name := some (stringbufferToString item.1.chars)
  m_data := item.2.value

namespace Packet

theorem packetReadString_some {pkt : Packet} {s : Str} (read : pkt.packetReadString.1 = some s) :
    ∃ w : WireString, Begins pkt.rest w.bytes := by
  by_cases tag : pkt.rest.headD 0 = tagS
  · exact wireString_of_tag tag
  · rw [packetReadString_none tag] at read
    cases read

theorem packetIsValidNext_of_tag {pkt : Packet} (tag : pkt.rest.headD 0 = tagS) :
    pkt.packetIsValidNext = true := by
  unfold packetIsValidNext
  rw [packetPeekByte_eq, tag]
  rfl

theorem readItems_iff (n : Nat) (acc : List RequestItem) (pkt : Packet)
    (fuel : pkt.rest.length < n) (ok : pkt.m_isError = false) (its : List RequestItem) :
    readItems n acc pkt = some its ↔
      ∃ items, CutBy (itemsSlack items) (itemsBytes items) pkt.rest ∧
        its = (items.map WireItem.item).reverse ++ acc := by
  induction n generalizing acc pkt with
  | zero => omega
  | succ n ih =>
      by_cases ended : pkt.rest = []
      · have eof : pkt.packetIsEofOrError = true := by
          simp [packetIsEofOrError, (packetIsEof_iff pkt).mpr ended]
        rw [readItems, if_pos eof, ended]
        constructor
        · intro done
          exact ⟨[], cutBy_nil.mpr rfl, (Option.some.inj done).symm⟩
        · rintro ⟨items, cut, rfl⟩
          cases items with
          | nil => rfl
          | cons item rest => exact absurd rfl (WireString.more (cutBy_items_cons.mp cut).1)
      · have more : ¬ pkt.packetIsEofOrError = true := by
          simp [packetIsEofOrError, ok, packetIsEof_iff, ended]
        -- one round: the name, the value, and the rounds behind them
        have round (w : WireString) (v : WireValue) (name : Begins pkt.rest w.bytes)
            (data : Begins (pkt.rest.drop w.bytes.length) v.bytes) :
            readItems (n + 1) acc pkt = some its ↔
              ∃ items, CutBy (itemsSlack items) (itemsBytes items)
                  ((pkt.rest.drop w.bytes.length).drop v.bytes.length) ∧
                its = (items.map WireItem.item).reverse ++ (WireItem.item (w, v) :: acc) := by
          have tag : pkt.rest.headD 0 = tagS := begins_head name (List.cons_ne_nil _ _)
          have data' : Begins (pkt.advance w.bytes.length).rest v.bytes := by
            rw [rest_advance]
            exact data
          have shorter : ((pkt.rest.drop w.bytes.length).drop v.bytes.length).length < n := by
            have pos : 0 < pkt.rest.length := List.length_pos_iff.mpr ended
            have used : 0 < w.bytes.length := Nat.succ_pos _
            simp only [List.length_drop]
            omega
          rw [readItems, if_neg more, if_neg (by simp [packetIsValidNext_of_tag tag]),
            packetReadString_eq name]
          simp only [readValue_eq data']
          have loop := ih (WireItem.item (w, v) :: acc)
            ((pkt.advance w.bytes.length).advance v.bytes.length)
            (by rw [rest_advance, rest_advance]; exact shorter) ok
          rw [rest_advance, rest_advance] at loop
          exact loop
        constructor
        · intro read
          obtain ⟨w, name⟩ : ∃ w : WireString, Begins pkt.rest w.bytes := by
            apply Classical.byContradiction
            intro none
            rw [readItems, if_neg more] at read
            split at read
            · cases read
            · split at read
              · cases read
              case h_2 s pkt' found =>
                exact none (packetReadString_some (s := s) (by rw [found]))
          obtain ⟨v, data⟩ : ∃ v : WireValue, Begins (pkt.rest.drop w.bytes.length) v.bytes := by
            apply Classical.byContradiction
            intro none
            rw [readItems, if_neg more, packetReadString_eq name] at read
            split at read
            · cases read
            · simp only at read
              split at read
              · cases read
              case h_2 data pkt' found =>
                have := readValue_some found
                rw [rest_advance] at this
                exact none this
          obtain ⟨items, cut, same⟩ := (round w v name data).mp read
          refine ⟨(w, v) :: items, cutBy_items_cons.mpr ⟨name, data, cut⟩, ?_⟩
          rw [same]
          simp
        · rintro ⟨items, cut, same⟩
          cases items with
          | nil => exact absurd (cutBy_nil.mp cut) ended
          | cons item rest =>
              obtain ⟨name, data, cut⟩ := cutBy_items_cons.mp cut
              refine (round item.1 item.2 name data).mpr ⟨rest, cut, ?_⟩
              rw [same]
              simp

end Packet

namespace Message

/-- The request the server makes of a message. -/
def request (pun : Value → Int) (size : Nat) (e : Message) : Request :=
  let items := (e.items.map WireItem.item).reverse
  { m_name := stringbufferToString e.name.chars
    m_transid :=
      match getItem items TRANSACTION_ID with
      | none => 0
      | some item => item.m_data.m_long pun
    m_userId := stringbufferToString e.userId.chars
    m_password := stringbufferToString e.password.chars
    m_items := items
    m_itemCount := items.length
    m_bytes := size }

end Message

open Packet in
/-- The reader accepts exactly the messages that lack at most trailing zeros. -/
theorem requestNew_reads (pun : Value → Int) (buf : Bytes) (req : Request) :
    requestNew pun buf = some req ↔ ∃ e : Message, e.Cut buf ∧ req = e.request pun buf.length := by
  have start : (packetNew buf).rest = buf := rfl
  -- with the three strings in place the item loop decides
  have round (name userId password : WireString) (begins : Begins buf name.bytes)
      (user : Begins (buf.drop name.bytes.length) userId.bytes)
      (word : Begins ((buf.drop name.bytes.length).drop userId.bytes.length) password.bytes) :
      requestNew pun buf = some req ↔
        ∃ items, CutBy (itemsSlack items) (itemsBytes items)
            (((buf.drop name.bytes.length).drop userId.bytes.length).drop password.bytes.length) ∧
          req = Message.request pun buf.length ⟨name, userId, password, items⟩ := by
    have tag : (packetNew buf).packetPeekByte = tagS := by
      rw [packetPeekByte_eq]
      exact begins_head begins (List.cons_ne_nil _ _)
    obtain ⟨first, hfirst⟩ : ∃ p, p = (packetNew buf).advance name.bytes.length := ⟨_, rfl⟩
    obtain ⟨second, hsecond⟩ : ∃ p, p = first.advance userId.bytes.length := ⟨_, rfl⟩
    obtain ⟨third, hthird⟩ : ∃ p, p = second.advance password.bytes.length := ⟨_, rfl⟩
    have rest₁ : first.rest = buf.drop name.bytes.length := by rw [hfirst, rest_advance, start]
    have rest₂ : second.rest = (buf.drop name.bytes.length).drop userId.bytes.length := by
      rw [hsecond, rest_advance, rest₁]
    have rest₃ : third.rest =
        ((buf.drop name.bytes.length).drop userId.bytes.length).drop password.bytes.length := by
      rw [hthird, rest_advance, rest₂]
    have ok : third.m_isError = false := by
      rw [hthird, hsecond, hfirst]
      rfl
    rw [← rest₁] at user
    rw [← rest₂] at word
    have fuel : third.rest.length < buf.length := by
      have pos : 0 < buf.length := List.length_pos_iff.mpr (WireString.more begins)
      have used : 0 < name.bytes.length := Nat.succ_pos _
      simp only [rest₃, List.length_drop]
      omega
    have validNext : first.packetIsValidNext = true :=
      packetIsValidNext_of_tag (begins_head user (List.cons_ne_nil _ _))
    have named := packetReadString_eq (show Begins (packetNew buf).rest name.bytes from begins)
    have loop := readItems_iff buf.length [] third fuel ok
    unfold requestNew
    simp only [packetNextType, tag, ne_eq, not_true_eq_false, if_false,
      named, ← hfirst, validNext,
      packetReadString_eq user, ← hsecond, packetReadString_eq word, ← hthird]
    rw [← rest₃]
    simp only [List.append_nil] at loop
    constructor
    · intro read
      split at read
      · cases read
      case h_2 its found =>
        obtain ⟨items, cut, rfl⟩ := (loop its).mp found
        exact ⟨items, cut, (Option.some.inj read).symm⟩
    · rintro ⟨items, cut, rfl⟩
      rw [(loop _).mpr ⟨items, cut, rfl⟩]
      rfl
  constructor
  · intro read
    have parts := read
    unfold requestNew at parts
    simp only [packetNextType, packetPeekByte_eq] at parts
    by_cases tag : (packetNew buf).rest.headD 0 = tagS
    case neg => rw [if_pos tag] at parts; cases parts
    obtain ⟨name, begins⟩ := wireString_of_tag tag
    rw [if_neg (not_not.mpr tag), packetReadString_eq begins] at parts
    simp only at parts
    split at parts
    case isTrue => cases parts
    split at parts
    case h_1 => cases parts
    case h_2 s pkt found =>
      obtain ⟨userId, user⟩ := packetReadString_some (s := s) (by rw [found])
      rw [packetReadString_eq user] at found
      cases found
      split at parts
      case h_1 => cases parts
      case h_2 s' pkt' found' =>
        obtain ⟨password, word⟩ := packetReadString_some (s := s') (by rw [found'])
        simp only [rest_advance, start] at user word
        obtain ⟨items, cut, same⟩ := (round name userId password begins user word).mp read
        exact ⟨⟨name, userId, password, items⟩,
          (Message.cut_iff _ _).mpr ⟨begins, user, word, cut⟩, same⟩
  · rintro ⟨e, cut, rfl⟩
    obtain ⟨begins, user, word, cut⟩ := (e.cut_iff buf).mp cut
    exact (round e.name e.userId e.password begins user word).mpr ⟨e.items, cut, rfl⟩

/-! ## When the request is the message -/

/-- A kept string is the encoded one only if that is empty. -/
theorem stringbufferToString_whole (chars : Bytes) :
    (stringbufferToString chars).m_cstr = chars ↔ chars = [] := by
  constructor
  · intro whole
    have short : (cstr chars).length ≤ chars.length := (List.takeWhile_sublist _).length_le
    have sizes := congrArg List.length whole
    rw [stringbufferToString, stringNew_cstr, List.length_dropLast] at sizes
    exact List.length_eq_zero_iff.mp (by omega)
  · rintro rfl
    rfl

/-- A kept value is the encoded one; numbers written as text are left open. -/
def WireValue.Holds : WireValue → Value → Prop
  | .str w, .str s => s.m_cstr = w.chars
  | .real _ _, .real _ => True
  | .int body _, .int n => n = Int.bmod (Packet.bigEndian body) (2 ^ 32)
  | .long body _, .long n => n = Int.bmod (Packet.bigEndian body) (2 ^ 64)
  | _, _ => False

/-- The strings of a value. -/
def WireValue.strings : WireValue → List WireString
  | .str w => [w]
  | _ => []

theorem WireValue.holds_value (v : WireValue) :
    v.Holds v.value ↔ ∀ w ∈ v.strings, w.chars = [] := by
  cases v with
  | str w => simp [Holds, value, strings, stringbufferToString_whole]
  | real body size => simp [Holds, value, strings]
  | int body size => simp [Holds, value, strings]
  | long body size => simp [Holds, value, strings]

def WireItem.strings (item : WireItem) : List WireString := item.1 :: item.2.strings

/-- A kept item is the encoded one. -/
def WireItem.Holds (item : WireItem) (kept : RequestItem) : Prop :=
  (∃ name, kept.m_name = some name ∧ name.m_cstr = item.1.chars) ∧ item.2.Holds kept.m_data

theorem WireItem.holds_item (item : WireItem) :
    item.Holds item.item ↔ ∀ w ∈ item.strings, w.chars = [] := by
  simp [Holds, WireItem.item, strings, stringbufferToString_whole, WireValue.holds_value]

namespace Message

def strings (e : Message) : List WireString :=
  e.name :: e.userId :: e.password :: e.items.flatMap WireItem.strings

/-- The buffer is the whole message, and every character size is one of the format. -/
def Exact (e : Message) (buf : Bytes) : Prop :=
  e.bytes = buf ∧ ∀ w ∈ e.strings, w.charsize = 1 ∨ w.charsize = 2 ∨ w.charsize = 4

/-- The request holds what the message encodes. -/
def Encodes (e : Message) (req : Request) : Prop :=
  req.m_name.m_cstr = e.name.chars ∧ req.m_userId.m_cstr = e.userId.chars ∧
    req.m_password.m_cstr = e.password.chars ∧
      List.Forall₂ WireItem.Holds e.items req.m_items.reverse

theorem items_hold (items : List WireItem) :
    List.Forall₂ WireItem.Holds items (items.map WireItem.item) ↔
      ∀ w ∈ items.flatMap WireItem.strings, w.chars = [] := by
  induction items with
  | nil => simp
  | cons item rest ih =>
      simp only [List.map_cons, List.forall₂_cons, ih, WireItem.holds_item, List.flatMap_cons,
        List.mem_append]
      constructor
      · rintro ⟨here, there⟩ w (mem | mem)
        · exact here w mem
        · exact there w mem
      · intro all
        exact ⟨fun w mem => all w (.inl mem), fun w mem => all w (.inr mem)⟩

/-- What the server makes of a message is the message exactly if all its strings are empty. -/
theorem encodes_request (pun : Value → Int) (size : Nat) (e : Message) :
    e.Encodes (e.request pun size) ↔ ∀ w ∈ e.strings, w.chars = [] := by
  simp only [Encodes, request, stringbufferToString_whole, List.reverse_reverse, items_hold, strings,
    List.mem_cons, forall_eq_or_imp]

theorem cut_of_exact {e : Message} {buf : Bytes} (whole : e.bytes = buf) : e.Cut buf :=
  ⟨0, Nat.zero_le _, by rw [← whole]; simp⟩

end Message

/-- A request is returned only for a whole message, and holds what it encodes. -/
def MalformedRejected (pun : Value → Int) (buf : Bytes) : Prop :=
  ∀ req, requestNew pun buf = some req → ∃ e : Message, e.Exact buf ∧ e.Encodes req

/-- The buffer is no message that lacks trailing zeros and none with a text in it. -/
def WholeAndEmpty (buf : Bytes) : Prop :=
  ∀ e : Message, e.Cut buf → e.Exact buf ∧ ∀ w ∈ e.strings, w.chars = []

theorem requestNew_exact_iff (pun : Value → Int) (buf : Bytes) :
    MalformedRejected pun buf ↔ WholeAndEmpty buf := by
  constructor
  · intro rejected e cut
    obtain ⟨e', exact', encodes⟩ :=
      rejected _ ((requestNew_reads pun buf _).mpr ⟨e, cut, rfl⟩)
    have same := Message.cut_unique cut (Message.cut_of_exact exact'.1)
    rw [← same] at exact' encodes
    exact ⟨exact', (Message.encodes_request pun _ e).mp encodes⟩
  · intro whole req read
    obtain ⟨e, cut, rfl⟩ := (requestNew_reads pun buf req).mp read
    obtain ⟨exact', empty⟩ := whole e cut
    exact ⟨e, exact', (Message.encodes_request pun _ e).mpr empty⟩

/-- Two empty strings and the tag of a third: the password's length is read behind the end. -/
theorem requestNew_accepts_cut : ¬ ∀ pun buf, MalformedRejected pun buf := by
  intro rejected
  have accepted : (requestNew (fun _ => 0) [83, 0, 0, 1, 83, 0, 0, 1, 83]).isSome = true := by decide
  obtain ⟨req, read⟩ := Option.isSome_iff_exists.mp accepted
  obtain ⟨e, ⟨whole, -⟩, -⟩ := rejected _ _ req read
  have sizes := congrArg List.length whole
  simp [Message.bytes, WireString.bytes] at sizes
  omega

end Jspp.Splc
