import Mathlib.Data.List.Basic
import Mathlib.Tactic.Ring
import Mathlib.Algebra.Order.Ring.Int

/-! # `ByteArray`

A `ByteArray` owns a heap block `buf_` (or is null), with a length `len_` and a capacity `cap_`
of type `int`. The block is modelled by the list of its bytes, its own size being the length of the
list, so that `cap_` and the true size of the block are two things. Operations that can go wrong in
C++ (an `assert`, a signed overflow, a `malloc` of a negative size, a `memcpy` outside a block)
return a `Fault`. `WellFormed` is the invariant of the class, and under it no operation used as
documented faults. -/

namespace LibMumble

/-- What ends the process or is undefined behaviour. -/
inductive Fault
  | assertion
  | overflow
  | allocation
  | outOfBounds
  | nullPointer
  deriving DecidableEq, Repr

/-- The result of a computation in the range of a 32-bit `int`. -/
def int32 (n : ℤ) : Except Fault ℤ :=
  if -2 ^ 31 ≤ n ∧ n < 2 ^ 31 then .ok n else .error .overflow

theorem int32_ok {n : ℤ} (h1 : -2 ^ 31 ≤ n) (h2 : n < 2 ^ 31) : int32 n = .ok n := if_pos ⟨h1, h2⟩

/-- The conversion to a 32-bit `int`, of a `ssize_t` or a `size_t`. -/
def castInt (n : ℤ) : ℤ := n.bmod (2 ^ 32)

/-- A proper length is kept. -/
theorem castInt_eq {n : ℤ} (h0 : 0 < n) (h1 : n < 2 ^ 31) : castInt n = n := by
  rw [castInt]
  exact Int.bmod_eq_of_le_mul_two (by push_cast; omega) (by push_cast; omega)

/-- `malloc(n)`: a block of `n` bytes with the contents the heap happens to have there. -/
def malloc (junk : ℕ → UInt8) (n : ℤ) : Except Fault (List UInt8) :=
  if n < 0 then .error .allocation else .ok ((List.range n.toNat).map junk)

/-- `n` bytes at `src + off`. -/
def readBlock (src : List UInt8) (off n : ℤ) : Except Fault (List UInt8) :=
  if 0 ≤ off ∧ 0 ≤ n ∧ off + n ≤ src.length then .ok ((src.drop off.toNat).take n.toNat)
  else .error .outOfBounds

/-- `malloc(size)` and a `memcpy` of the `n` bytes at `src + off` to its start. With `n < size` the
rest of the block would be left as it was; no caller has that. -/
def mallocMemcpy (size : ℤ) (src : List UInt8) (off n : ℤ) : Except Fault (List UInt8) :=
  if size < 0 then .error .allocation
  else if size < n then .error .outOfBounds
  else readBlock src off n

theorem readBlock_ok {src : List UInt8} {off n : ℤ} (h0 : 0 ≤ off) (h1 : 0 ≤ n)
    (h2 : off + n ≤ src.length) :
    readBlock src off n = .ok ((src.drop off.toNat).take n.toNat) := if_pos ⟨h0, h1, h2⟩

theorem mallocMemcpy_ok {src : List UInt8} {off n : ℤ} (h0 : 0 ≤ off) (h1 : 0 ≤ n)
    (h2 : off + n ≤ src.length) :
    mallocMemcpy n src off n = .ok ((src.drop off.toNat).take n.toNat) := by
  rw [mallocMemcpy, if_neg (by omega), if_neg (by omega), readBlock_ok h0 h1 h2]

/-- The class `ByteArray`. -/
structure ByteArray where
  buf : Option (List UInt8)
  len : ℤ
  cap : ℤ
  deriving DecidableEq, Repr

namespace ByteArray

/-- `ByteArray::ByteArray()`. -/
def null : ByteArray := ⟨none, 0, 0⟩

/-- `ByteArray::ByteArray(int len)`. -/
def ofLength (junk : ℕ → UInt8) (len : ℤ) : Except Fault ByteArray := do
  let buf ← malloc junk len
  return ⟨some buf, len, len⟩

/-- `ByteArray::ByteArray(char *buf, int len, int cap)`, where `cap` is `-1` unless given; the list is
the memory readable at `buf`. -/
def ofBuffer (buf : Option (List UInt8)) (len cap : ℤ) : Except Fault ByteArray :=
  match buf with
  | none => .ok null
  | some src =>
    if cap = -1 then do
      let dst ← mallocMemcpy len src 0 len
      return ⟨some dst, len, len⟩
    else if cap < len then .ok null
    else do
      let dst ← mallocMemcpy cap src 0 cap
      return ⟨some dst, len, cap⟩

/-- `ByteArray::ByteArray(const ByteArray &ba)`. -/
def copy (ba : ByteArray) : Except Fault ByteArray :=
  match ba.buf with
  | some src => do
    let dst ← mallocMemcpy ba.cap src 0 ba.cap
    return ⟨some dst, ba.len, ba.cap⟩
  | none => .ok null

/-- `ByteArray::IsNull`. -/
def isNull (ba : ByteArray) : Bool := ba.buf.isNone

/-- `ByteArray::Length`. -/
def length (ba : ByteArray) : ℤ := ba.len

/-- `ByteArray::Capacity`. -/
def capacity (ba : ByteArray) : ℤ := ba.cap

/-- The memory readable at `ByteArray::Data()`; nothing is readable at a null pointer. -/
def data (ba : ByteArray) : List UInt8 := ba.buf.getD []

/-- `ByteArray::Slice`, where `len` is `-1` unless given. The amount copied is `remain`, whatever
`len` was asked for. -/
def slice (ba : ByteArray) (off len : ℤ) : Except Fault ByteArray := do
  let remain ← int32 (ba.len - off)
  let len := if len = -1 then remain else len
  if remain < len then .error .assertion
  else do
    let tmp ← mallocMemcpy len ba.data off remain
    ofBuffer (some tmp) remain (-1)

/-- `ByteArray::Truncate`. -/
def truncate (ba : ByteArray) (len : ℤ) : Except Fault ByteArray :=
  if ba.cap < len then .error .assertion else .ok { ba with len := len }

/-- **The invariant of the class**: a null array is empty, and any other has
`0 ≤ len_ ≤ cap_ = size of the block`, the size being an `int`. -/
structure WellFormed (ba : ByteArray) : Prop where
  null : ba.buf = none → ba.len = 0 ∧ ba.cap = 0
  cap_eq : ∀ b, ba.buf = some b → ba.cap = b.length
  len_nonneg : 0 ≤ ba.len
  len_le : ba.len ≤ ba.cap
  cap_lt : ba.cap < 2 ^ 31

/-- The bytes an array stands for: the first `Length()` bytes of its block. -/
def content (ba : ByteArray) : List UInt8 := ba.data.take ba.len.toNat

theorem wellFormed_null : WellFormed null :=
  ⟨fun _ => ⟨rfl, rfl⟩, fun _ h => (by cases h), le_rfl, le_rfl, by decide⟩

section WellFormed
variable {ba : ByteArray} (h : WellFormed ba)
include h

theorem WellFormed.cap_eq_data : ba.cap = ba.data.length := by
  unfold data
  cases hb : ba.buf with
  | none => simp [(h.null hb).2]
  | some b => simpa using h.cap_eq b hb

theorem WellFormed.length_content : (ba.content.length : ℤ) = ba.len := by
  have h1 := h.cap_eq_data
  have h2 := h.len_nonneg
  have h3 := h.len_le
  rw [content, List.length_take]
  omega

theorem WellFormed.content_ne_nil : ba.content ≠ [] ↔ 0 < ba.len := by
  rw [← h.length_content, ← List.length_pos_iff]
  omega

/-- A copy is the same array. -/
theorem WellFormed.copy_eq : ba.copy = .ok ba := by
  unfold copy
  cases hb : ba.buf with
  | none =>
    obtain ⟨h1, h2⟩ := h.null hb
    rcases ba with ⟨buf, len, cap⟩
    simp only at hb h1 h2
    subst hb h1 h2
    rfl
  | some b =>
    have hc := h.cap_eq b hb
    simp only
    rw [mallocMemcpy_ok le_rfl (by omega) (by omega)]
    have hcap : ba.cap.toNat = b.length := by omega
    rcases ba with ⟨buf, len, cap⟩
    simp only at hb hcap ⊢
    subst hb
    simp [hcap, bind, Except.bind, pure, Except.pure]

/-- `Slice(off)` is the array of the bytes from `off` on, with no spare capacity. -/
theorem WellFormed.slice_eq {off : ℤ} (h0 : 0 ≤ off) (h1 : off ≤ ba.len) :
    ba.slice off (-1) = .ok ⟨some (ba.content.drop off.toNat), ba.len - off, ba.len - off⟩ := by
  have hc := h.cap_eq_data
  have h2 := h.len_le
  have h3 := h.cap_lt
  have htake : (ba.data.drop off.toNat).take (ba.len - off).toNat =
      ba.content.drop off.toNat := by
    rw [content, List.drop_take]
    congr 1
    omega
  have hlen : ((ba.content.drop off.toNat).length : ℤ) = ba.len - off := by
    have := h.length_content
    rw [List.length_drop]
    omega
  unfold slice
  rw [int32_ok (by omega) (by omega)]
  simp only [bind, Except.bind, if_true, lt_irrefl, if_false]
  rw [mallocMemcpy_ok h0 (by omega) (by omega), htake]
  simp only [ofBuffer, if_true]
  rw [mallocMemcpy_ok le_rfl (by omega) (by omega)]
  have hn : (ba.len - off).toNat = (ba.content.drop off.toNat).length := by omega
  simp only [bind, Except.bind, pure, Except.pure, hn, Int.toNat_zero, List.drop_zero,
    List.take_length]

end WellFormed

/-- An array with no spare capacity. -/
theorem wellFormed_exact (b : List UInt8) (h : (b.length : ℤ) < 2 ^ 31) :
    WellFormed ⟨some b, b.length, b.length⟩ :=
  ⟨fun hn => (by cases hn), fun _ hb => (by cases hb; rfl), by simp, le_rfl, h⟩

theorem content_exact (b : List UInt8) : content ⟨some b, b.length, b.length⟩ = b := by
  simp [content, data]

/-- The constructor makes one of a whole buffer. -/
theorem ofBuffer_exact (b : List UInt8) :
    ofBuffer (some b) b.length (-1) = .ok ⟨some b, b.length, b.length⟩ := by
  simp only [ofBuffer, if_true]
  rw [mallocMemcpy_ok le_rfl (by omega) (by omega)]
  simp [bind, Except.bind, pure, Except.pure]

end ByteArray

end LibMumble
