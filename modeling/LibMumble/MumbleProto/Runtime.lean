import Mathlib.Algebra.Ring.Nat
import Mathlib.Data.List.Basic

/-! # The runtime of the messages

The messages of `Mumble.pb.cc` read and write through the runtime of protocol buffers, which is a parameter
here: its streams, its functions for one value, and what its headers say of them. A stream is meant without
`last_tag_`, at which the messages do not look, and within its limits on total size and on nesting. Repeated
strings and messages are in a `RepeatedPtrField`, which keeps elements that were cleared. -/

namespace LibMumble.MumbleProto

/-- The values that `ReadPrimitive` reads. A `float` is its 32 bits, and an enumerator is still an `int`. -/
inductive Primitive
  | uint32
  | uint64
  | int32
  | bool
  | float
  | enum

namespace Primitive

abbrev Val : Primitive → Type
  | uint32 | float => UInt32
  | uint64 => UInt64
  | int32 | enum => Int32
  | bool => Bool

/-- `WIRETYPE_VARINT` or `WIRETYPE_FIXED32`. -/
def wireType : Primitive → ℕ
  | uint32 | uint64 | int32 | bool | enum => 0
  | float => 5

end Primitive

/-- What a method that reads leaves: the value that it was given, changed, and the stream if it returns
`true`. -/
inductive Outcome (σ α : Type)
  | done (a : α) (s : σ)
  | failed (a : α)

namespace Outcome

variable {σ α β : Type}

def value : Outcome σ α → α
  | done a _ | failed a => a

def map (f : α → β) : Outcome σ α → Outcome σ β
  | done a s => done (f a) s
  | failed a => failed (f a)

@[simp] theorem value_map (f : α → β) (o : Outcome σ α) : (o.map f).value = f o.value := by
  cases o <;> rfl

theorem map_eq_done {f : α → β} {o : Outcome σ α} {b : β} {s : σ} (h : o.map f = done b s) :
    ∃ a, o = done a s ∧ f a = b := by
  cases o with
  | done a s' =>
    cases h
    exact ⟨a, rfl, rfl⟩
  | failed a => cases h

end Outcome

/-- `CodedInputStream`, with the reading of one value. -/
structure InputStream where
  Stream : Type
  /-- the bytes that are left -/
  bytes : Stream → List UInt8
  consumedEntireMessage : Stream → Bool
  readTag : Stream → ℕ × Stream
  expectTag : ℕ → Stream → Option Stream
  expectAtEnd : Stream → Option Stream
  readPrimitive : (k : Primitive) → Stream → Option (k.Val × Stream)

/-- `CodedOutputStream`: what is written for one value, and how much it is said to be. -/
structure OutputStream where
  writeTag : ℕ → List UInt8
  writePrimitive : (k : Primitive) → k.Val → List UInt8
  primitiveSize : (k : Primitive) → k.Val → ℕ
  writeVarint32 : ℕ → List UInt8
  varintSize32 : ℕ → ℕ

/-- A value of `WIRETYPE_LENGTH_DELIMITED`, as `WireFormatLite::WriteString` and `WriteBytes` write it: its
length and its bytes. -/
def OutputStream.lengthDelimited (W : OutputStream) (b : List UInt8) : List UInt8 :=
  W.writeVarint32 b.length ++ b

/-- **What `ReadRepeatedPrimitive` may do**: it reads a value, and may go on as long as the next tag is the
same. -/
inductive Repeats (I : InputStream) (k : Primitive) (t : ℕ) :
    I.Stream → Outcome I.Stream (List k.Val) → Prop
  | failed {s} (h : I.readPrimitive k s = none) : Repeats I k t s (.failed [])
  | last {s s' v} (h : I.readPrimitive k s = some (v, s')) : Repeats I k t s (.done [v] s')
  | more {s s' s'' v o} (h : I.readPrimitive k s = some (v, s')) (ht : I.expectTag t s' = some s'')
    (ho : Repeats I k t s'' o) : Repeats I k t s (o.map (v :: ·))

/-- What may follow a tag with this wire type, apart from groups. -/
inductive Payload (W : OutputStream) : ℕ → List UInt8 → Prop
  | varint (v : UInt64) : Payload W 0 (W.writePrimitive .uint64 v)
  | fixed64 {b} (h : b.length = 8) : Payload W 1 b
  | lengthDelimited {b} (h : b.length < 2 ^ 31) : Payload W 2 (W.lengthDelimited b)
  | fixed32 {b} (h : b.length = 4) : Payload W 5 b

/-- **The runtime.** -/
structure Runtime extends InputStream, OutputStream where
  skipField : Stream → ℕ → Option Stream
  readRepeatedPrimitive : (k : Primitive) → ℕ → Stream → Outcome Stream (List k.Val)
  readPackedPrimitive : (k : Primitive) → Stream → Outcome Stream (List k.Val)
  /-- `ReadString` and `ReadBytes`, into a string that holds something -/
  readString : List UInt8 → Stream → Outcome Stream (List UInt8)
  /-- `ReadMessageNoVirtual`, by the `MergePartialFromCodedStream` of the message -/
  readMessage : {M : Type} → (M → Stream → Outcome Stream M) → M → Stream → Outcome Stream M
  -- nothing is put back into a stream, and a tag takes a byte
  readTag_le : ∀ s, (bytes (readTag s).2).length ≤ (bytes s).length
  readTag_lt : ∀ s, (readTag s).1 ≠ 0 → (bytes (readTag s).2).length < (bytes s).length
  skipField_le : ∀ {s t s'}, skipField s t = some s' → (bytes s').length ≤ (bytes s).length
  readPrimitive_le : ∀ {k s v s'}, readPrimitive k s = some (v, s') →
    (bytes s').length ≤ (bytes s).length
  readPackedPrimitive_le : ∀ {k s vs s'}, readPackedPrimitive k s = .done vs s' →
    (bytes s').length ≤ (bytes s).length
  readString_le : ∀ {old s b s'}, readString old s = .done b s' → (bytes s').length ≤ (bytes s).length
  readMessage_le : ∀ {M : Type} {parse : M → Stream → Outcome Stream M} {m s m' s'},
    (∀ {m s m' s'}, parse m s = .done m' s' → (bytes s').length ≤ (bytes s).length) →
    readMessage parse m s = .done m' s' → (bytes s').length ≤ (bytes s).length
  -- what is expected is what would be read
  readTag_of_expectTag : ∀ {t s s'}, expectTag t s = some s' → readTag s = (t, s')
  readTag_of_expectAtEnd : ∀ {s s'}, expectAtEnd s = some s' → readTag s = (0, s')
  repeats : ∀ k t s, Repeats toInputStream k t s (readRepeatedPrimitive k t s)
  -- a message is only changed by its own method
  readMessage_value : ∀ {M : Type} (parse : M → Stream → Outcome Stream M) (m s),
    (readMessage parse m s).value = m ∨ ∃ s', (readMessage parse m s).value = (parse m s').value
  -- what was written is read
  readTag_nil : ∀ {s}, bytes s = [] → ∃ s', readTag s = (0, s') ∧ bytes s' = [] ∧
    consumedEntireMessage s' = true
  readTag_write : ∀ {t s r}, 0 < t → t < 2 ^ 32 → bytes s = writeTag t ++ r →
    ∃ s', readTag s = (t, s') ∧ bytes s' = r
  skipField_write : ∀ {t p s r}, 8 ≤ t → Payload toOutputStream (t % 8) p → bytes s = p ++ r →
    ∃ s', skipField s t = some s' ∧ bytes s' = r
  readPrimitive_write : ∀ {k v s r}, bytes s = writePrimitive k v ++ r →
    ∃ s', readPrimitive k s = some (v, s') ∧ bytes s' = r
  readPackedPrimitive_write : ∀ {k vs s r}, (vs.flatMap (writePrimitive k)).length < 2 ^ 31 →
    bytes s = toOutputStream.lengthDelimited (vs.flatMap (writePrimitive k)) ++ r →
    ∃ s', readPackedPrimitive k s = .done vs s' ∧ bytes s' = r
  readString_write : ∀ {old b s r}, b.length < 2 ^ 31 →
    bytes s = toOutputStream.lengthDelimited b ++ r →
    ∃ s', readString old s = .done b s' ∧ bytes s' = r
  readMessage_write : ∀ {b s r}, b.length < 2 ^ 31 → bytes s = toOutputStream.lengthDelimited b ++ r →
    ∃ s', bytes s' = b ∧ ∀ {M : Type} {parse : M → Stream → Outcome Stream M} {m m' s''},
      parse m s' = .done m' s'' → bytes s'' = [] → consumedEntireMessage s'' = true →
      ∃ s3, readMessage parse m s = .done m' s3 ∧ bytes s3 = r
  -- sizes
  length_writeTag : ∀ t, t < 2 ^ 14 → (writeTag t).length = if t < 128 then 1 else 2
  length_writePrimitive : ∀ k v, (writePrimitive k v).length = primitiveSize k v
  length_writeVarint32 : ∀ n, n < 2 ^ 31 → (writeVarint32 n).length = varintSize32 n
  primitiveSize_bool : ∀ v, primitiveSize .bool v = 1
  primitiveSize_float : ∀ v, primitiveSize .float v = 4

namespace Runtime

variable {R : Runtime} {k : Primitive} {t : ℕ} {s s' : R.Stream} {o : Outcome R.Stream (List k.Val)}

theorem expectTag_lt (ht : t ≠ 0) (h : R.expectTag t s = some s') :
    (R.bytes s').length < (R.bytes s).length := by
  have hread := R.readTag_of_expectTag h
  have hlt := R.readTag_lt s (by rwa [hread])
  rwa [hread] at hlt

theorem repeats_le (ht : t ≠ 0) (h : Repeats R.toInputStream k t s o) {vs : List k.Val}
    (ho : o = .done vs s') : (R.bytes s').length ≤ (R.bytes s).length := by
  induction h generalizing vs with
  | failed h => cases ho
  | last h =>
    cases ho
    exact R.readPrimitive_le h
  | more h hexp _ ih =>
    obtain ⟨ws, rfl, -⟩ := Outcome.map_eq_done ho
    have hrest := ih rfl
    have htag := expectTag_lt ht hexp
    have hfirst := R.readPrimitive_le h
    omega

theorem readRepeatedPrimitive_le (ht : t ≠ 0) {vs : List k.Val}
    (h : R.readRepeatedPrimitive k t s = .done vs s') : (R.bytes s').length ≤ (R.bytes s).length :=
  repeats_le ht (R.repeats k t s) h

end Runtime

/-! ### Repeated fields -/

/-- `RepeatedPtrField`: the elements up to `current_size_`, and those behind it that are kept for reuse. -/
structure RepeatedPtrField (α : Type) where
  elements : List α
  cleared : List α

namespace RepeatedPtrField

variable {α β : Type}

/-- `Clear`, which clears the elements and keeps them. -/
def clear (clr : α → α) (c : RepeatedPtrField α) : RepeatedPtrField α :=
  ⟨[], c.elements.map clr ++ c.cleared⟩

/-- The element that `Add` returns: the first of those that are kept, or else a new one. -/
def next (c : RepeatedPtrField α) (new : α) : α := c.cleared.head?.getD new

/-- `Add`, with what becomes of the element that it returns. -/
def add (c : RepeatedPtrField α) (a : α) : RepeatedPtrField α := ⟨c.elements ++ [a], c.cleared.tail⟩

/-- `MergeFrom`, where `merge` is that of an element. -/
def mergeFrom (new : α) (merge : α → β → α) (c : RepeatedPtrField α) (other : RepeatedPtrField β) :
    RepeatedPtrField α :=
  other.elements.foldl (fun c b => c.add (merge (c.next new) b)) c

variable {new : α} {merge : α → β → α} {c : RepeatedPtrField α} {P : α → Prop}

/-- What holds of a new element and of those that are kept holds of the next one. -/
theorem holds_next (hnew : P new) (hc : ∀ a ∈ c.cleared, P a) : P (c.next new) := by
  unfold next
  cases h : c.cleared with
  | nil => exact hnew
  | cons a rest => exact hc a (by simp [h])

/-- **What is merged into a field**: for each element of the other one, an element that was new or kept is
added, and nothing comes to those that are kept. -/
theorem exists_mergeFrom (hnew : P new) (hc : ∀ a ∈ c.cleared, P a) (other : RepeatedPtrField β) :
    ∃ l : List (α × β), l.map (·.2) = other.elements ∧ (∀ p ∈ l, P p.1) ∧
      (c.mergeFrom new merge other).elements = c.elements ++ l.map (fun p => merge p.1 p.2) ∧
      ∀ a ∈ (c.mergeFrom new merge other).cleared, a ∈ c.cleared := by
  obtain ⟨bs, kept⟩ := other
  unfold mergeFrom
  dsimp only
  induction bs generalizing c with
  | nil => exact ⟨[], rfl, by simp, by simp, fun a ha => ha⟩
  | cons b bs ih =>
    have htail : ∀ a ∈ (c.add (merge (c.next new) b)).cleared, a ∈ c.cleared := fun a ha =>
      List.mem_of_mem_tail ha
    obtain ⟨l, hl, hP, hel, hcl⟩ := ih fun a ha => hc a (htail a ha)
    refine ⟨(c.next new, b) :: l, by rw [List.map_cons, hl], ?_, ?_, fun a ha => htail a (hcl a ha)⟩
    · exact List.forall_mem_cons.mpr ⟨holds_next hnew hc, hP⟩
    · rw [List.foldl_cons, hel, add, List.append_assoc, List.singleton_append, List.map_cons]

end RepeatedPtrField

end LibMumble.MumbleProto
