import LibMumble.MumbleProto.Runtime
import Mathlib.Algebra.Ring.Nat
import Mathlib.Logic.Relation

/-! # The fields of a message

The code that `protoc` writes for a message is put together from one piece for each field, and there are
seven kinds of pieces. A `Field` names the kind with what varies in it, and each method of a message is a
loop over its fields with the functions here. A field that holds messages knows their class by its virtual
methods (`MessageLite`), as the generated code does. -/

namespace LibMumble.MumbleProto

variable {R : Runtime}

/-- **A class of messages**: what its constructor makes and its methods do. -/
structure MessageLite (R : Runtime) where
  Val : Type
  new : Val
  clear : Val → Val
  /-- a message that the first one is merged into, and the other one -/
  mergeFrom : Val → Val → Val
  /-- the size, and the message with its cached sizes -/
  byteSize : Val → ℕ × Val
  getCachedSize : Val → ℕ
  serializeWithCachedSizes : Val → List UInt8
  /-- a field of it, or of a message in it, is required -/
  hasRequired : Bool
  isInitialized : Val → Bool
  mergePartialFromCodedStream : Val → R.Stream → Outcome R.Stream Val
  parse_le : ∀ {v s v' s'}, mergePartialFromCodedStream v s = .done v' s' →
    (R.bytes s').length ≤ (R.bytes s).length
  /-- what an accessor of a field may do -/
  Access : Val → Val → Prop

/-- `CopyFrom`, of another message. -/
def MessageLite.copyFrom (C : MessageLite R) (v other : C.Val) : C.Val := C.mergeFrom (C.clear v) other

/-- **What may happen to a message.** -/
inductive MessageLite.Step (C : MessageLite R) : C.Val → C.Val → Prop
  | clear (v) : Step C v (C.clear v)
  | mergeFrom (v w) : Step C v (C.mergeFrom v w)
  | byteSize (v) : Step C v (C.byteSize v).2
  | parse (v s) : Step C v (C.mergePartialFromCodedStream v s).value
  | access {v w} (h : C.Access v w) : Step C v w

/-- A message to which all this has happened since it was made. -/
def MessageLite.Usable (C : MessageLite R) (v : C.Val) : Prop := Relation.ReflTransGen C.Step C.new v

/-- A message that may be kept for reuse: it is new, or has been cleared. -/
def MessageLite.Cleared (C : MessageLite R) (v : C.Val) : Prop :=
  v = C.new ∨ ∃ u, C.Usable u ∧ v = C.clear u

/-- The enumerators. -/
def Enumerator (values : List Int32) : Type := { v : Int32 // v ∈ values }

/-- The enumerator with this value, if it `_IsValid`. -/
def Enumerator.ofInt (values : List Int32) (v : Int32) : Option (Enumerator values) :=
  if h : v ∈ values then some ⟨v, h⟩ else none

/-- A field, by the kind of its code. -/
inductive Field (R : Runtime)
  | scalar (number : ℕ) (required : Bool) (k : Primitive) (default : k.Val)
  | enum (number : ℕ) (values : List Int32) (default : Enumerator values)
  | text (number : ℕ) (required : Bool)
  | message (number : ℕ) (C : MessageLite R)
  | scalars (number : ℕ) (k : Primitive)
  | texts (number : ℕ)
  | messages (number : ℕ) (C : MessageLite R)

/-- The member of a field that is not repeated, with its bit in `_has_bits_`. -/
structure Member (α : Type) where
  has : Bool
  value : α

/-- `WireFormatLite::MakeTag`, by the rule of the wire format: the wire type is in the lowest three bits. -/
def makeTag (number wireType : ℕ) : ℕ := 8 * number + wireType

/-- What the generated code counts for the tag. -/
def tagSize (number : ℕ) : ℕ := if number < 16 then 1 else 2

/-- What is written for a value with its tag. -/
def writeField (R : Runtime) (number wireType : ℕ) (b : List UInt8) : List UInt8 :=
  R.writeTag (makeTag number wireType) ++ b

namespace Field

def number : Field R → ℕ
  | scalar n _ _ _ | enum n _ _ | text n _ | message n _ | scalars n _ | texts n | messages n _ => n

def repeated : Field R → Bool
  | scalar _ _ _ _ | enum _ _ _ | text _ _ | message _ _ => false
  | scalars _ _ | texts _ | messages _ _ => true

def required : Field R → Bool
  | scalar _ required _ _ | text _ required => required
  | enum _ _ _ | message _ _ | scalars _ _ | texts _ | messages _ _ => false

/-- A field of the messages in it is required. -/
def elementsRequired : Field R → Bool
  | message _ C | messages _ C => C.hasRequired
  | scalar _ _ _ _ | enum _ _ _ | text _ _ | scalars _ _ | texts _ => false

/-- The class of the messages in the field. -/
def messageClass : Field R → Option (MessageLite R)
  | message _ C | messages _ C => some C
  | scalar _ _ _ _ | enum _ _ _ | text _ _ | scalars _ _ | texts _ => none

/-- The wire type under which the field is written. -/
def wireType : Field R → ℕ
  | scalar _ _ k _ | scalars _ k => k.wireType
  | enum _ _ _ => Primitive.enum.wireType
  | text _ _ | texts _ | message _ _ | messages _ _ => 2

def tag (f : Field R) : ℕ := makeTag f.number f.wireType

/-- The members of the field. A string is empty where it is `kEmptyString`, and a message where its pointer
is null is the default instance. -/
abbrev Cell : Field R → Type
  | scalar _ _ k _ => Member k.Val
  | enum _ values _ => Member (Enumerator values)
  | text _ _ => Member (List UInt8)
  | message _ C => Member C.Val
  | scalars _ k => List k.Val
  | texts _ => RepeatedPtrField (List UInt8)
  | messages _ C => RepeatedPtrField C.Val

/-! ### The pieces of the methods -/

/-- In `SharedCtor`. -/
def new : (f : Field R) → f.Cell
  | scalar _ _ _ default => ⟨false, default⟩
  | enum _ _ default => ⟨false, default⟩
  | text _ _ => ⟨false, []⟩
  | message _ C => ⟨false, C.new⟩
  | scalars _ _ => []
  | texts _ | messages _ _ => ⟨[], []⟩

/-- The bit of the field in `_has_bits_`; a repeated field has one that is never set. -/
def has : (f : Field R) → f.Cell → Bool
  | scalar _ _ _ _, c => c.has
  | enum _ _ _, c => c.has
  | text _ _, c => c.has
  | message _ _, c => c.has
  | scalars _ _, _ | texts _, _ | messages _ _, _ => false

/-- In `Clear`, if a bit of its group is set. -/
def clear : (f : Field R) → f.Cell → f.Cell
  | scalar _ _ _ default, c => ⟨c.has, default⟩
  | enum _ _ default, c => ⟨c.has, default⟩
  | text _ _, c => if c.has then ⟨true, []⟩ else c
  | message _ C, c => if c.has then ⟨true, C.clear c.value⟩ else c
  | scalars _ _, _ => []
  | texts _, c => c.clear fun _ => []
  | messages _ C, c => c.clear C.clear

/-- `memset` of `_has_bits_`. -/
def clearHas : (f : Field R) → f.Cell → f.Cell
  | scalar _ _ _ _, c => ⟨false, c.value⟩
  | enum _ _ _, c => ⟨false, c.value⟩
  | text _ _, c => ⟨false, c.value⟩
  | message _ _, c => ⟨false, c.value⟩
  | scalars _ _, c | texts _, c | messages _ _, c => c

/-- In `MergeFrom`. -/
def mergeFrom : (f : Field R) → f.Cell → f.Cell → f.Cell
  | scalar _ _ _ _, c, o => if o.has then ⟨true, o.value⟩ else c
  | enum _ _ _, c, o => if o.has then ⟨true, o.value⟩ else c
  | text _ _, c, o => if o.has then ⟨true, o.value⟩ else c
  | message _ C, c, o => if o.has then ⟨true, C.mergeFrom c.value o.value⟩ else c
  | scalars _ _, c, o => c ++ o
  | texts _, c, o => c.mergeFrom [] (fun _ b => b) o
  | messages _ C, c, o => c.mergeFrom C.new C.mergeFrom o

end Field

/-- `UInt32Size` and so on; for some types the generated code has a number instead. -/
def scalarSize (R : Runtime) : (k : Primitive) → k.Val → ℕ
  | .bool, _ => 1
  | .float, _ => 4
  | .uint32, v => R.primitiveSize .uint32 v
  | .uint64, v => R.primitiveSize .uint64 v
  | .int32, v => R.primitiveSize .int32 v
  | .enum, v => R.primitiveSize .enum v

/-- `WireFormatLite::StringSize` and `BytesSize`, by their headers: the length as a varint, and the bytes. -/
def stringSize (R : Runtime) (b : List UInt8) : ℕ := R.varintSize32 b.length + b.length

/-- `WireFormatLite::MessageSizeNoVirtual`, which sizes the message, by its header. -/
def MessageLite.messageSize (C : MessageLite R) (v : C.Val) : ℕ :=
  R.varintSize32 (C.byteSize v).1 + (C.byteSize v).1

/-- What `WireFormatLite::WriteMessage` writes after the tag, by its header: the cached size, and the
message. -/
def MessageLite.write (C : MessageLite R) (v : C.Val) : List UInt8 :=
  R.writeVarint32 (C.getCachedSize v) ++ C.serializeWithCachedSizes v

/-- `DO_(ReadPrimitive(input, &value))`, and what is done with the value. -/
def readValue {α : Type} (R : Runtime) (k : Primitive) (a : α) (store : k.Val → α) (s : R.Stream) :
    Outcome R.Stream α :=
  match R.readPrimitive k s with
  | some (v, s) => .done (store v) s
  | none => .failed a

namespace Field

/-- In `ByteSize`. -/
def byteSize : (f : Field R) → f.Cell → ℕ × f.Cell
  | scalar n _ k _, c => (if c.has then tagSize n + scalarSize R k c.value else 0, c)
  | enum n _ _, c => (if c.has then tagSize n + scalarSize R .enum c.value.val else 0, c)
  | text n _, c => (if c.has then tagSize n + stringSize R c.value else 0, c)
  | message n C, c =>
    if c.has then (tagSize n + C.messageSize c.value, ⟨true, (C.byteSize c.value).2⟩) else (0, c)
  | scalars n k, c => (tagSize n * c.length + (c.map (scalarSize R k)).sum, c)
  | texts n, c => (tagSize n * c.elements.length + (c.elements.map (stringSize R)).sum, c)
  | messages n C, c => (tagSize n * c.elements.length + (c.elements.map C.messageSize).sum,
    ⟨c.elements.map fun v => (C.byteSize v).2, c.cleared⟩)

/-- In `SerializeWithCachedSizes`. -/
def write : (f : Field R) → f.Cell → List UInt8
  | scalar n _ k _, c =>
    if c.has then writeField R n k.wireType (R.writePrimitive k c.value) else []
  | enum n _ _, c =>
    if c.has then writeField R n Primitive.enum.wireType (R.writePrimitive .enum c.value.val) else []
  | text n _, c => if c.has then writeField R n 2 (R.lengthDelimited c.value) else []
  | message n C, c => if c.has then writeField R n 2 (C.write c.value) else []
  | scalars n k, c => c.flatMap fun v => writeField R n k.wireType (R.writePrimitive k v)
  | texts n, c => c.elements.flatMap fun b => writeField R n 2 (R.lengthDelimited b)
  | messages n C, c => c.elements.flatMap fun v => writeField R n 2 (C.write v)

/-- In `IsInitialized`, which looks into the messages of a class with required fields. In `Mumble.pb.cc` no
field that holds one message has such a class. -/
def isInitialized : (f : Field R) → f.Cell → Bool
  | scalar _ required _ _, c => !required || c.has
  | text _ required, c => !required || c.has
  | message _ C, c => !C.hasRequired || !c.has || C.isInitialized c.value
  | messages _ C, c => !C.hasRequired || c.elements.all C.isInitialized
  | enum _ _ _, _ | scalars _ _, _ | texts _, _ => true

/-- In `MergePartialFromCodedStream`, at the label of the field. -/
def read : (f : Field R) → f.Cell → R.Stream → Outcome R.Stream f.Cell
  | scalar _ _ k _, c, s => readValue R k c (fun v => ⟨true, v⟩) s
  | enum _ values _, c, s =>
    readValue R .enum c (fun v => ((Enumerator.ofInt values v).map fun e => ⟨true, e⟩).getD c) s
  -- `mutable_` sets the bit before anything is read
  | text _ _, c, s => (R.readString c.value s).map fun b => ⟨true, b⟩
  | message _ C, c, s =>
    (R.readMessage C.mergePartialFromCodedStream c.value s).map fun v => ⟨true, v⟩
  | scalars n k, c, s => (R.readRepeatedPrimitive k (makeTag n k.wireType) s).map fun vs => c ++ vs
  -- and `add_` adds an element
  | texts _, c, s => (R.readString (c.next []) s).map c.add
  | messages _ C, c, s =>
    (R.readMessage C.mergePartialFromCodedStream (c.next C.new) s).map c.add

/-- There, where the values of a repeated field are packed. -/
def readPacked : (f : Field R) → f.Cell → R.Stream → Option (Outcome R.Stream f.Cell)
  | scalars _ k, c, s => some ((R.readPackedPrimitive k s).map fun vs => c ++ vs)
  | scalar _ _ _ _, _, _ | enum _ _ _, _, _ | text _ _, _, _ | message _ _, _, _ | texts _, _, _
  | messages _ _, _, _ => none

/-- `set_`, `mutable_`, `clear_`, `release_`, `set_allocated_` and, of a repeated field, all its functions,
of which `AddCleared` asks for an element that has been cleared. -/
def Access : (f : Field R) → f.Cell → f.Cell → Prop
  | scalar _ _ _ default, _, d => d.has = true ∨ d = ⟨false, default⟩
  | enum _ _ default, _, d => d.has = true ∨ d = ⟨false, default⟩
  | text _ _, _, d => d.has = true ∨ d = ⟨false, []⟩
  | message _ C, c, d =>
    d.has = true ∧ C.Usable d.value ∨ d = ⟨false, C.clear c.value⟩ ∨ d = ⟨false, C.new⟩
  | scalars _ _, _, _ | texts _, _, _ => True
  | messages _ C, _, d => (∀ v ∈ d.elements, C.Usable v) ∧ ∀ v ∈ d.cleared, C.Cleared v

/-- The field reads one value, whatever comes after it. -/
def readOne : (f : Field R) → f.Cell → R.Stream → Outcome R.Stream f.Cell
  | scalars _ k, c, s => readValue R k c (fun v => c ++ [v]) s
  | scalar n required k default, c, s => (scalar n required k default).read c s
  | enum n values default, c, s => (enum n values default).read c s
  | text n required, c, s => (text n required).read c s
  | message n C, c, s => (message n C).read c s
  | texts n, c, s => (texts n).read c s
  | messages n C, c, s => (messages n C).read c s

/-! ### What is left of the stream -/

variable {f : Field R} {c c' : f.Cell} {s s' : R.Stream}

theorem wireType_lt (f : Field R) : f.wireType < 8 := by
  have hk : ∀ k : Primitive, k.wireType < 8 := by
    intro k
    cases k <;> decide
  cases f with
  | scalar _ _ k _ | scalars _ k => exact hk k
  | enum _ _ _ => exact hk .enum
  | text _ _ | texts _ | message _ _ | messages _ _ =>
    show 2 < 8
    omega

theorem makeTag_ne_zero {n : ℕ} (h : 0 < n) (w : ℕ) : makeTag n w ≠ 0 := by
  unfold makeTag
  omega

theorem readValue_le {α : Type} {k : Primitive} {a b : α} {store : k.Val → α}
    (h : readValue R k a store s = .done b s') : (R.bytes s').length ≤ (R.bytes s).length := by
  unfold readValue at h
  cases hr : R.readPrimitive k s with
  | none => simp [hr] at h
  | some r =>
    rw [hr] at h
    cases h
    exact R.readPrimitive_le hr

/-- Only a repeated field of numbers may read more than one value. -/
theorem readOne_eq (f : Field R) : (∃ n k, f = .scalars n k) ∨ ∀ c s, f.readOne c s = f.read c s := by
  cases f with
  | scalars n k => exact Or.inl ⟨n, k, rfl⟩
  | _ => exact Or.inr fun _ _ => rfl

theorem readOne_le (h : f.readOne c s = .done c' s') : (R.bytes s').length ≤ (R.bytes s).length := by
  cases f with
  | scalar _ _ _ _ | enum _ _ _ | scalars _ _ => exact readValue_le h
  | text _ _ | texts _ =>
    obtain ⟨b, hb, -⟩ := Outcome.map_eq_done h
    exact R.readString_le hb
  | message _ C | messages _ C =>
    obtain ⟨v, hv, -⟩ := Outcome.map_eq_done h
    exact R.readMessage_le C.parse_le hv

theorem read_le (hf : 0 < f.number) (h : f.read c s = .done c' s') :
    (R.bytes s').length ≤ (R.bytes s).length := by
  rcases readOne_eq f with ⟨n, k, rfl⟩ | heq
  · obtain ⟨vs, hvs, -⟩ := Outcome.map_eq_done h
    exact R.readRepeatedPrimitive_le (makeTag_ne_zero hf _) hvs
  · rw [← heq] at h
    exact readOne_le h

theorem readPacked_le (h : f.readPacked c s = some (.done c' s')) :
    (R.bytes s').length ≤ (R.bytes s).length := by
  cases f with
  | scalars n k =>
    obtain ⟨vs, hvs, -⟩ := Outcome.map_eq_done (Option.some.inj h)
    exact R.readPackedPrimitive_le hvs
  | _ => cases h

end Field

end LibMumble.MumbleProto
