import LibMumble.Lib.Varint
import LibMumble.MumbleProto.Runtime
import Mathlib.Tactic.NormNum

/-! # A runtime on lists of bytes

A runtime with the wire format of protocol buffers, whose streams are the bytes that are left. It keeps
everything that is asked of a `Runtime`, so the messages can be run. -/

namespace LibMumble.MumbleProto

open Lib

namespace ListRuntime

/-- The bytes that are left, and whether the last tag was looked for at their end. -/
structure Stream where
  bytes : List UInt8
  ended : Bool

/-- Four bytes, the lowest first. -/
def fixed32 (n : ℕ) : List UInt8 :=
  [UInt8.ofNat (n % 256), UInt8.ofNat (n / 256 % 256), UInt8.ofNat (n / 65536 % 256),
    UInt8.ofNat (n / 16777216 % 256)]

def readFixed32 : List UInt8 → Option (ℕ × List UInt8)
  | a :: b :: c :: d :: l =>
    some (a.toNat + 256 * b.toNat + 65536 * c.toNat + 16777216 * d.toNat, l)
  | _ => none

/-- A length and as many bytes. -/
def readDelimited (l : List UInt8) : Option (List UInt8 × List UInt8) :=
  match readVarint 5 l with
  | some (n, r) => if n ≤ r.length then some (r.take n, r.drop n) else none
  | none => none

/-- A value as a number. -/
def toNat : (k : Primitive) → k.Val → ℕ
  | .uint32, v => v.toNat
  | .uint64, v => v.toNat
  -- a negative number has its sign in all 64 bits
  | .int32, v => v.toInt64.toUInt64.toNat
  | .enum, v => v.toInt64.toUInt64.toNat
  | .bool, v => v.toNat
  | .float, v => v.toNat

def ofNat : (k : Primitive) → ℕ → k.Val
  | .uint32, n => UInt32.ofNat n
  | .uint64, n => UInt64.ofNat n
  | .int32, n => (UInt64.ofNat n).toInt64.toInt32
  | .enum, n => (UInt64.ofNat n).toInt64.toInt32
  | .bool, n => n != 0
  | .float, n => UInt32.ofNat n

def writeNumber : Primitive → ℕ → List UInt8
  | .float, n => fixed32 n
  | .uint32, n | .uint64, n | .int32, n | .enum, n | .bool, n => varint 10 n

def readNumber : Primitive → List UInt8 → Option (ℕ × List UInt8)
  | .float, l => readFixed32 l
  | .uint32, l | .uint64, l | .int32, l | .enum, l | .bool, l => readVarint 10 l

def writePrimitive (k : Primitive) (v : k.Val) : List UInt8 := writeNumber k (toNat k v)

def readPrimitive (k : Primitive) (l : List UInt8) : Option (k.Val × List UInt8) :=
  (readNumber k l).map fun r => (ofNat k r.1, r.2)

/-- Values up to the end; the first argument bounds their number. -/
def readPrimitives (k : Primitive) : ℕ → List UInt8 → Option (List k.Val)
  | _, [] => some []
  | 0, _ :: _ => none
  | n + 1, b :: l =>
    match readPrimitive k (b :: l) with
    | some (v, r) => (readPrimitives k n r).map (v :: ·)
    | none => none

def readTag (s : Stream) : ℕ × Stream :=
  match readVarint 5 s.bytes with
  | some (t, r) => (t % 2 ^ 32, ⟨r, false⟩)
  | none => (0, ⟨s.bytes, s.bytes.isEmpty⟩)

/-- What is after the payload of a tag. Groups are not skipped. -/
def skip (wireType : ℕ) (l : List UInt8) : Option (List UInt8) :=
  match wireType with
  | 0 => (readVarint 10 l).map (·.2)
  | 1 => if 8 ≤ l.length then some (l.drop 8) else none
  | 2 => (readDelimited l).map (·.2)
  | 5 => if 4 ≤ l.length then some (l.drop 4) else none
  | _ => none

/-- The message in the next bytes has to end where they do. -/
def readMessage {M : Type} (parse : M → Stream → Outcome Stream M) (m : M) (s : Stream) :
    Outcome Stream M :=
  match readDelimited s.bytes with
  | some (b, r) =>
    match parse m ⟨b, false⟩ with
    | .done m' s' => if s'.ended then .done m' ⟨s'.bytes ++ r, false⟩ else .failed m'
    | .failed m' => .failed m'
  | none => .failed m

/-! ### What is left -/

variable {k : Primitive} {n t : ℕ} {b l r : List UInt8} {s s' : Stream}

theorem length_of_readDelimited (h : readDelimited l = some (b, r)) : b.length + r.length ≤ l.length := by
  unfold readDelimited at h
  cases hv : readVarint 5 l with
  | none => simp [hv] at h
  | some p =>
    have hlt := length_of_readVarint (n := p.1) (r := p.2) hv
    simp only [hv] at h
    split_ifs at h
    cases h
    have hsplit := congrArg List.length (List.take_append_drop p.1 p.2)
    rw [List.length_append] at hsplit
    omega

theorem length_of_readNumber (h : readNumber k l = some (n, r)) : r.length < l.length := by
  have hfloat : ∀ l : List UInt8, readFixed32 l = some (n, r) → r.length < l.length := by
    intro l h
    unfold readFixed32 at h
    split at h
    · cases h
      simp only [List.length_cons]
      omega
    · cases h
  cases k with
  | float => exact hfloat l h
  | uint32 | uint64 | int32 | bool | enum => exact length_of_readVarint h

theorem length_of_readPrimitive {v : k.Val} (h : readPrimitive k l = some (v, r)) :
    r.length < l.length := by
  obtain ⟨⟨n, l'⟩, hn, heq⟩ := Option.map_eq_some_iff.mp h
  cases heq
  exact length_of_readNumber hn

theorem readTag_lt (s : Stream) (h : (readTag s).1 ≠ 0) :
    (readTag s).2.bytes.length < s.bytes.length := by
  unfold readTag at h ⊢
  cases hv : readVarint 5 s.bytes with
  | none => simp [hv] at h
  | some p => exact length_of_readVarint (n := p.1) (r := p.2) hv

theorem readTag_le (s : Stream) : (readTag s).2.bytes.length ≤ s.bytes.length := by
  unfold readTag
  cases hv : readVarint 5 s.bytes with
  | none => exact le_rfl
  | some p => exact (length_of_readVarint (n := p.1) (r := p.2) hv).le

theorem length_of_skip {w : ℕ} (h : skip w l = some r) : r.length ≤ l.length := by
  unfold skip at h
  split at h
  · obtain ⟨⟨n, l'⟩, hv, rfl⟩ := Option.map_eq_some_iff.mp h
    exact (length_of_readVarint hv).le
  · split_ifs at h
    cases h
    exact (List.length_drop (l := l)).trans_le (Nat.sub_le _ _)
  · obtain ⟨⟨b, l'⟩, hd, rfl⟩ := Option.map_eq_some_iff.mp h
    exact (Nat.le_add_left _ _).trans (length_of_readDelimited hd)
  · split_ifs at h
    cases h
    exact (List.length_drop (l := l)).trans_le (Nat.sub_le _ _)
  · cases h

/-! ### What was written is read -/

theorem readFixed32_fixed32 (h : n < 2 ^ 32) (r : List UInt8) :
    readFixed32 (fixed32 n ++ r) = some (n, r) := by
  have hbyte : ∀ a, (UInt8.ofNat (a % 256)).toNat = a % 256 := fun a =>
    UInt8.toNat_ofNat_of_lt' (Nat.mod_lt _ (by omega))
  show some (_, r) = _
  rw [hbyte, hbyte, hbyte, hbyte]
  simp only [Option.some.injEq, Prod.mk.injEq, and_true]
  omega

theorem ofNat_toNat (k : Primitive) (v : k.Val) : ofNat k (toNat k v) = v := by
  cases k with
  | uint32 | float => exact UInt32.ofNat_toNat
  | uint64 => exact UInt64.ofNat_toNat
  | int32 | enum =>
    show (UInt64.ofNat v.toInt64.toUInt64.toNat).toInt64.toInt32 = v
    rw [UInt64.ofNat_toNat, Int64.toInt64_toUInt64, Int32.toInt32_toInt64]
  | bool => cases v <;> rfl

theorem readPrimitive_write (k : Primitive) (v : k.Val) (r : List UInt8) :
    readPrimitive k (writePrimitive k v ++ r) = some (v, r) := by
  have hnumber : readNumber k (writeNumber k (toNat k v) ++ r) = some (toNat k v, r) := by
    have h32 : ∀ v : UInt32, v.toNat < 2 ^ 32 := UInt32.toNat_lt
    have h64 : ∀ v : UInt64, v.toNat < 128 ^ 10 := fun v => v.toNat_lt.trans (by norm_num)
    cases k with
    | float => exact readFixed32_fixed32 (h32 v) r
    | uint32 => exact readVarint_varint ((h32 v).trans (by norm_num)) r
    | uint64 => exact readVarint_varint (h64 v) r
    | int32 | enum => exact readVarint_varint (h64 _) r
    | bool => exact readVarint_varint (lt_of_le_of_lt (Bool.toNat_le v) (by norm_num)) r
  rw [readPrimitive, writePrimitive, hnumber, Option.map_some, ofNat_toNat]

theorem length_writePrimitive_pos (k : Primitive) (v : k.Val) : 0 < (writePrimitive k v).length := by
  have h := readPrimitive_write k v []
  rw [List.append_nil] at h
  exact length_of_readPrimitive h

theorem readPrimitives_write {vs : List k.Val} (h : (vs.flatMap (writePrimitive k)).length ≤ n) :
    readPrimitives k n (vs.flatMap (writePrimitive k)) = some vs := by
  induction vs generalizing n with
  | nil => cases n <;> rfl
  | cons v vs ih =>
    have hpos := length_writePrimitive_pos k v
    have hread := readPrimitive_write k v (vs.flatMap (writePrimitive k))
    rw [List.flatMap_cons] at h ⊢
    rw [List.length_append] at h
    cases n with
    | zero => omega
    | succ n =>
      obtain ⟨b, t, hb⟩ := List.exists_cons_of_length_pos hpos
      rw [hb, List.cons_append] at hread ⊢
      rw [readPrimitives, hread]
      dsimp only
      rw [ih (by omega), Option.map_some]

theorem readDelimited_write (h : b.length < 2 ^ 31) (r : List UInt8) :
    readDelimited (varint 5 b.length ++ b ++ r) = some (b, r) := by
  have hlen : b.length < 128 ^ 5 := h.trans (by norm_num)
  have hle : b.length ≤ (b ++ r).length := by
    rw [List.length_append]
    omega
  rw [readDelimited, List.append_assoc, readVarint_varint hlen]
  simp only [hle, if_true, List.take_left', List.drop_left']

theorem readTag_write (h : t < 2 ^ 32) (hs : s.bytes = varint 5 t ++ r) :
    readTag s = (t, ⟨r, false⟩) := by
  rw [readTag, hs, readVarint_varint (h.trans (by norm_num))]
  dsimp only
  rw [Nat.mod_eq_of_lt h]

theorem readTag_nil (h : s.bytes = []) : readTag s = (0, ⟨[], true⟩) := by
  rw [readTag, h]
  rfl

/-! ### The streams -/

def input : InputStream where
  Stream := Stream
  bytes := Stream.bytes
  consumedEntireMessage := Stream.ended
  readTag := readTag
  expectTag t s := if (readTag s).1 = t then some (readTag s).2 else none
  expectAtEnd s := if s.bytes.isEmpty then some ⟨[], true⟩ else none
  readPrimitive k s := (readPrimitive k s.bytes).map fun r => (r.1, ⟨r.2, false⟩)

def output : OutputStream where
  writeTag := varint 5
  writePrimitive := writePrimitive
  primitiveSize k v := (writePrimitive k v).length
  writeVarint32 := varint 5
  varintSize32 n := (varint 5 n).length

def readRepeatedPrimitive (k : Primitive) (s : Stream) : Outcome Stream (List k.Val) :=
  match readPrimitive k s.bytes with
  | some (v, r) => .done [v] ⟨r, false⟩
  | none => .failed []

def readPackedPrimitive (k : Primitive) (s : Stream) : Outcome Stream (List k.Val) :=
  match readDelimited s.bytes with
  | some (b, r) =>
    match readPrimitives k b.length b with
    | some vs => .done vs ⟨r, false⟩
    | none => .failed []
  | none => .failed []

def readString (old : List UInt8) (s : Stream) : Outcome Stream (List UInt8) :=
  match readDelimited s.bytes with
  | some (b, r) => .done b ⟨r, false⟩
  | none => .failed old

theorem readPackedPrimitive_le {vs : List k.Val} (h : readPackedPrimitive k s = .done vs s') :
    s'.bytes.length ≤ s.bytes.length := by
  unfold readPackedPrimitive at h
  split at h
  next b r hd =>
    split at h
    · cases h
      exact (Nat.le_add_left _ _).trans (length_of_readDelimited hd)
    · cases h
  · cases h

theorem readString_le {old : List UInt8} (h : readString old s = .done b s') :
    s'.bytes.length ≤ s.bytes.length := by
  unfold readString at h
  split at h
  next b r hd =>
    cases h
    exact (Nat.le_add_left _ _).trans (length_of_readDelimited hd)
  · cases h

theorem readMessage_le {M : Type} {parse : M → Stream → Outcome Stream M} {m m' : M}
    (hparse : ∀ {m s m' s'}, parse m s = .done m' s' → s'.bytes.length ≤ s.bytes.length)
    (h : readMessage parse m s = .done m' s') : s'.bytes.length ≤ s.bytes.length := by
  unfold readMessage at h
  split at h
  next b r hd =>
    have hle := length_of_readDelimited hd
    split at h
    next m1 s1 hp =>
      split_ifs at h
      cases h
      have hb : s1.bytes.length ≤ b.length := hparse hp
      show (s1.bytes ++ r).length ≤ _
      rw [List.length_append]
      omega
    · cases h
  · cases h

theorem readMessage_value {M : Type} (parse : M → Stream → Outcome Stream M) (m : M) (s : Stream) :
    (readMessage parse m s).value = m ∨ ∃ s', (readMessage parse m s).value = (parse m s').value := by
  unfold readMessage
  split
  next b r hd =>
    refine Or.inr ⟨⟨b, false⟩, ?_⟩
    cases parse m ⟨b, false⟩ with
    | done m' s' => by_cases h : s'.ended <;> simp [h, Outcome.value]
    | failed m' => rfl
  · exact Or.inl rfl

theorem repeats (k : Primitive) (t : ℕ) (s : Stream) :
    Repeats input k t s (readRepeatedPrimitive k s) := by
  have hinput : input.readPrimitive k s =
      (readPrimitive k s.bytes).map fun r => (r.1, (⟨r.2, false⟩ : Stream)) := rfl
  unfold readRepeatedPrimitive
  cases hr : readPrimitive k s.bytes with
  | none => exact .failed (by rw [hinput, hr]; rfl)
  | some p => exact .last (by rw [hinput, hr]; rfl)

theorem skip_payload {w : ℕ} {p : List UInt8} (h : Payload output w p) (r : List UInt8) :
    skip w (p ++ r) = some r := by
  cases h with
  | varint v =>
    have hread := readVarint_varint (k := 9) (v.toNat_lt.trans (by norm_num)) r
    exact congrArg (Option.map (·.2)) hread
  | fixed64 h =>
    rw [skip, if_pos (by rw [List.length_append]; omega), List.drop_left' h]
  | lengthDelimited h => exact congrArg (Option.map (·.2)) (readDelimited_write h r)
  | fixed32 h =>
    rw [skip, if_pos (by rw [List.length_append]; omega), List.drop_left' h]

theorem readPackedPrimitive_write {vs : List k.Val}
    (h : (vs.flatMap (writePrimitive k)).length < 2 ^ 31)
    (hs : s.bytes = varint 5 (vs.flatMap (writePrimitive k)).length ++ vs.flatMap (writePrimitive k) ++ r) :
    readPackedPrimitive k s = .done vs ⟨r, false⟩ := by
  rw [readPackedPrimitive, hs, readDelimited_write h]
  dsimp only
  rw [readPrimitives_write le_rfl]

theorem readString_write (old : List UInt8) (h : b.length < 2 ^ 31)
    (hs : s.bytes = varint 5 b.length ++ b ++ r) : readString old s = .done b ⟨r, false⟩ := by
  rw [readString, hs, readDelimited_write h]

theorem readMessage_write {M : Type} {parse : M → Stream → Outcome Stream M} {m m' : M}
    (h : b.length < 2 ^ 31) (hs : s.bytes = varint 5 b.length ++ b ++ r)
    (hparse : parse m ⟨b, false⟩ = .done m' s') (hend : s'.ended = true) :
    readMessage parse m s = .done m' ⟨s'.bytes ++ r, false⟩ := by
  rw [readMessage, hs, readDelimited_write h]
  dsimp only
  rw [hparse]
  exact if_pos hend

theorem length_writeTag (h : t < 2 ^ 14) : (varint 5 t).length = if t < 128 then 1 else 2 := by
  split_ifs with hlow
  · rw [varint_of_lt hlow, List.length_singleton]
  · exact length_varint_of_lt (not_lt.mp hlow) h 3

end ListRuntime

open ListRuntime

/-- **The runtime on lists of bytes.** -/
def listRuntime : Runtime where
  toInputStream := input
  toOutputStream := output
  skipField s t := (skip (t % 8) s.bytes).map fun r => ⟨r, false⟩
  readRepeatedPrimitive k _ := readRepeatedPrimitive k
  readPackedPrimitive := readPackedPrimitive
  readString := readString
  readMessage := readMessage
  readTag_le := readTag_le
  readTag_lt := readTag_lt
  skipField_le h := by
    obtain ⟨r, hr, rfl⟩ := Option.map_eq_some_iff.mp h
    exact length_of_skip hr
  readPrimitive_le h := by
    obtain ⟨r, hr, heq⟩ := Option.map_eq_some_iff.mp h
    cases heq
    exact (length_of_readPrimitive (v := r.1) hr).le
  readPackedPrimitive_le := readPackedPrimitive_le
  readString_le := readString_le
  readMessage_le := readMessage_le
  readTag_of_expectTag {t s s'} h := by
    change (if (readTag s).1 = t then some (readTag s).2 else none) = some s' at h
    split_ifs at h with ht
    cases h
    rw [← ht]
    rfl
  readTag_of_expectAtEnd {s s'} h := by
    change (if s.bytes.isEmpty then some (⟨[], true⟩ : Stream) else none) = some s' at h
    split_ifs at h with hnil
    cases h
    exact readTag_nil (List.isEmpty_iff.mp hnil)
  repeats := repeats
  readMessage_value := readMessage_value
  readTag_nil h := ⟨_, readTag_nil h, rfl, rfl⟩
  readTag_write _ ht hs := ⟨_, readTag_write ht hs, rfl⟩
  skipField_write {t p s r} _ hp hs := by
    refine ⟨⟨r, false⟩, ?_, rfl⟩
    have hbytes : Stream.bytes s = p ++ r := hs
    rw [hbytes, skip_payload hp]
    rfl
  readPrimitive_write {k v s r} hs := by
    refine ⟨⟨r, false⟩, ?_, rfl⟩
    have hbytes : Stream.bytes s = writePrimitive k v ++ r := hs
    show (readPrimitive k (Stream.bytes s)).map _ = _
    rw [hbytes, readPrimitive_write]
    rfl
  readPackedPrimitive_write h hs := ⟨_, readPackedPrimitive_write h hs, rfl⟩
  readString_write h hs := ⟨_, readString_write _ h hs, rfl⟩
  readMessage_write {b s r} h hs := ⟨⟨b, false⟩, rfl, fun hparse hnil hend =>
    ⟨_, readMessage_write h hs hparse hend, congrArg (· ++ r) hnil⟩⟩
  length_writeTag _ := length_writeTag
  length_writePrimitive _ _ := rfl
  length_writeVarint32 _ _ := rfl
  primitiveSize_bool v := by cases v <;> rfl
  primitiveSize_float _ := rfl

end LibMumble.MumbleProto
