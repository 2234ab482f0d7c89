import LibMumble.MumbleProto.Records
import Mathlib.Algebra.Order.BigOperators.Group.List
import Mathlib.Algebra.Order.Ring.Nat
import Mathlib.Tactic.Choose

/-! # What a class writes, it reads

`ByteSize` leaves the sizes that `SerializeWithCachedSizes` writes, and what that writes is as long as
`ByteSize` said. Whoever parses it has merged the message into his own. A class keeps this contract if the
classes of its fields do (`lawful_generated`). -/

namespace LibMumble.MumbleProto

open Lib

variable {R : Runtime} {F : Fields R}

/-- **The contract of a class**, up to the size that an `int` holds. -/
structure MessageLite.Lawful (C : MessageLite R) : Prop where
  getCachedSize : ∀ v, C.getCachedSize (C.byteSize v).2 = (C.byteSize v).1
  length_serialize : ∀ v, (C.byteSize v).1 < 2 ^ 31 →
    (C.serializeWithCachedSizes (C.byteSize v).2).length = (C.byteSize v).1
  means : ∀ v, (C.byteSize v).1 < 2 ^ 31 →
    C.Means (C.serializeWithCachedSizes (C.byteSize v).2) fun w => C.mergeFrom w v

/-- A message that is written inside another one. -/
def MessageLite.Lawful.content {C : MessageLite R} (h : C.Lawful) (v : C.Val)
    (hv : (C.byteSize v).1 < 2 ^ 31) : C.Content where
  bytes := C.serializeWithCachedSizes (C.byteSize v).2
  effect w := C.mergeFrom w v
  means := h.means v hv
  length_lt := by rwa [h.length_serialize v hv]

namespace Field

/-! ### Sizes -/

theorem length_writeField {n w : ℕ} (hn : n < 2048) (hw : w < 8) (b : List UInt8) :
    (writeField R n w b).length = tagSize n + b.length := by
  have htag : makeTag n w < 2 ^ 14 := by
    unfold makeTag
    omega
  have hiff : makeTag n w < 128 ↔ n < 16 := by
    unfold makeTag
    omega
  rw [writeField, List.length_append, R.length_writeTag _ htag, tagSize, if_congr hiff rfl rfl]

theorem length_writePrimitive (k : Primitive) (v : k.Val) :
    (R.writePrimitive k v).length = scalarSize R k v := by
  rw [R.length_writePrimitive]
  cases k with
  | bool => exact R.primitiveSize_bool v
  | float => exact R.primitiveSize_float v
  | uint32 | uint64 | int32 | enum => rfl

theorem length_lengthDelimited {b : List UInt8} (h : b.length < 2 ^ 31) :
    (R.lengthDelimited b).length = stringSize R b := by
  rw [OutputStream.lengthDelimited, List.length_append, R.length_writeVarint32 _ h, stringSize]

theorem length_flatMap {α : Type} {w : α → List UInt8} {t : ℕ} {size : α → ℕ} {l : List α}
    (h : ∀ v ∈ l, (w v).length = t + size v) :
    (l.flatMap w).length = t * l.length + (l.map size).sum := by
  induction l with
  | nil => rfl
  | cons v l ih =>
    have hv := h v List.mem_cons_self
    have hl := ih fun u hu => h u (List.mem_cons_of_mem v hu)
    rw [List.flatMap_cons, List.length_append, hv, hl, List.length_cons, List.map_cons, List.sum_cons,
      Nat.mul_succ]
    omega

theorem size_lt_of_mem {α : Type} {t b : ℕ} {size : α → ℕ} {l : List α}
    (h : t * l.length + (l.map size).sum < b) {v : α} (hv : v ∈ l) : t + size v < b := by
  have hsize : size v ≤ (l.map size).sum :=
    List.single_le_sum (fun _ _ => Nat.zero_le _) _ (List.mem_map_of_mem hv)
  have htag : t ≤ t * l.length := Nat.le_mul_of_pos_right t (List.length_pos_of_mem hv)
  omega

theorem write_content {C : MessageLite R} (h : C.Lawful) (v : C.Val) (hv : (C.byteSize v).1 < 2 ^ 31) :
    C.write (C.byteSize v).2 = R.lengthDelimited (h.content v hv).bytes := by
  show R.writeVarint32 _ ++ _ = R.writeVarint32 _ ++ _
  rw [h.getCachedSize, ← h.length_serialize v hv]
  rfl

theorem length_content {C : MessageLite R} (h : C.Lawful) (v : C.Val) (hv : (C.byteSize v).1 < 2 ^ 31) :
    (C.write (C.byteSize v).2).length = C.messageSize v := by
  rw [write_content h v hv, length_lengthDelimited (h.content v hv).length_lt, stringSize,
    show (h.content v hv).bytes.length = _ from h.length_serialize v hv, MessageLite.messageSize]

section Lengths

variable {n : ℕ} (hn : n < 2048)

include hn

theorem length_scalar (k : Primitive) (v : k.Val) :
    (writeField R n k.wireType (R.writePrimitive k v)).length = tagSize n + scalarSize R k v := by
  have hk : k.wireType < 8 := by cases k <;> decide
  rw [length_writeField hn hk, length_writePrimitive]

theorem length_text {b : List UInt8} (h : tagSize n + stringSize R b < 2 ^ 31) :
    (writeField R n 2 (R.lengthDelimited b)).length = tagSize n + stringSize R b := by
  have hb : b.length < 2 ^ 31 := by
    unfold stringSize at h
    omega
  rw [length_writeField hn (by omega), length_lengthDelimited hb]

theorem length_message {C : MessageLite R} (hC : C.Lawful) {v : C.Val}
    (h : tagSize n + C.messageSize v < 2 ^ 31) :
    (writeField R n 2 (C.write (C.byteSize v).2)).length = tagSize n + C.messageSize v := by
  have hv : (C.byteSize v).1 < 2 ^ 31 := by
    unfold MessageLite.messageSize at h
    omega
  rw [length_writeField hn (by omega), length_content hC v hv]

end Lengths

/-! ### The values that are written -/

variable {f : Field R}

/-- The record of a value. -/
def itemRecord (f : Field R) (v : f.Item) : List UInt8 :=
  writeField R f.number (f.itemWireType v) (f.itemBytes v)

/-- The values stand for what is written, and putting them is a merge. -/
structure Stands (f : Field R) (vs : List f.Item) (c : f.Cell) : Prop where
  write_eq : f.write (f.byteSize c).2 = vs.flatMap f.itemRecord
  put_eq : ∀ d, vs.foldl f.put d = f.mergeFrom d c

/-- One value after the other is added. -/
theorem exists_values {ι α γ : Type} (bytes : ι → List UInt8) (put : γ → ι → γ) (w : α → List UInt8)
    (add : γ → α → γ) {l : List α} (h : ∀ v ∈ l, ∃ x, bytes x = w v ∧ ∀ d, put d x = add d v) :
    ∃ vs : List ι, l.flatMap w = vs.flatMap bytes ∧ ∀ d, vs.foldl put d = l.foldl add d := by
  induction l with
  | nil => exact ⟨[], rfl, fun d => rfl⟩
  | cons v l ih =>
    obtain ⟨x, hx, hput⟩ := h v List.mem_cons_self
    obtain ⟨vs, hvs, hputs⟩ := ih fun u hu => h u (List.mem_cons_of_mem v hu)
    refine ⟨x :: vs, by rw [List.flatMap_cons, List.flatMap_cons, hx, hvs], fun d => ?_⟩
    rw [List.foldl_cons, List.foldl_cons, hput, hputs]

theorem exists_stands (hf : ∀ C ∈ f.messageClass, C.Lawful) (c : f.Cell)
    (hc : (f.byteSize c).1 < 2 ^ 31) :
    ∃ vs, f.Stands vs c := by
  cases f with
  | scalar n required k default =>
    obtain ⟨has, v⟩ := c
    cases has with
    | false => exact ⟨[], rfl, fun d => rfl⟩
    | true => exact ⟨[v], (List.append_nil _).symm, fun d => rfl⟩
  | enum n values default =>
    obtain ⟨has, e⟩ := c
    cases has with
    | false => exact ⟨[], rfl, fun d => rfl⟩
    | true =>
      have he : Enumerator.ofInt values e.val = some e := dif_pos e.property
      refine ⟨[e.val], (List.append_nil _).symm, fun d => ?_⟩
      show ((Enumerator.ofInt values e.val).map fun e => ⟨true, e⟩).getD d = ⟨true, e⟩
      rw [he]
      rfl
  | text n required =>
    obtain ⟨has, b⟩ := c
    cases has with
    | false => exact ⟨[], rfl, fun d => rfl⟩
    | true =>
      change tagSize n + stringSize R b < 2 ^ 31 at hc
      have hb : b.length < 2 ^ 31 := by
        unfold stringSize at hc
        omega
      exact ⟨[⟨b, hb⟩], (List.append_nil _).symm, fun d => rfl⟩
  | message n C =>
    obtain ⟨has, v⟩ := c
    cases has with
    | false => exact ⟨[], rfl, fun d => rfl⟩
    | true =>
      have hC : C.Lawful := hf C rfl
      change tagSize n + C.messageSize v < 2 ^ 31 at hc
      have hv : (C.byteSize v).1 < 2 ^ 31 := by
        unfold MessageLite.messageSize at hc
        omega
      refine ⟨[hC.content v hv], ?_, fun d => rfl⟩
      show writeField R n 2 (C.write (C.byteSize v).2) = _ ++ []
      rw [write_content hC v hv, List.append_nil]
      rfl
  | scalars n k =>
    obtain ⟨vs, hvs, hput⟩ := exists_values (l := c) (scalars n k : Field R).itemRecord
      (scalars n k : Field R).put (fun v => writeField R n k.wireType (R.writePrimitive k v))
      (fun d v => d ++ [v]) fun v _ => ⟨.inl v, rfl, fun d => rfl⟩
    refine ⟨vs, hvs, fun d => (hput d).trans ?_⟩
    rw [List.foldl_append_eq_append, ← List.flatMap_def, List.flatMap_singleton']
    rfl
  | texts n =>
    have hb : ∀ b ∈ c.elements, b.length < 2 ^ 31 := by
      intro b hb
      have hsize : tagSize n + stringSize R b < 2 ^ 31 := size_lt_of_mem hc hb
      unfold stringSize at hsize
      omega
    obtain ⟨vs, hvs, hput⟩ := exists_values (l := c.elements) (texts n : Field R).itemRecord
      (texts n : Field R).put (fun b => writeField R n 2 (R.lengthDelimited b)) (fun d b => d.add b)
      fun b hmem => ⟨⟨b, hb b hmem⟩, rfl, fun d => rfl⟩
    exact ⟨vs, hvs, hput⟩
  | messages n C =>
    have hC : C.Lawful := hf C rfl
    have hv : ∀ v ∈ c.elements, (C.byteSize v).1 < 2 ^ 31 := by
      intro v hv
      have hsize : tagSize n + C.messageSize v < 2 ^ 31 := size_lt_of_mem hc hv
      unfold MessageLite.messageSize at hsize
      omega
    obtain ⟨vs, hvs, hput⟩ := exists_values (l := c.elements) (messages n C : Field R).itemRecord
      (messages n C : Field R).put (fun v => writeField R n 2 (C.write (C.byteSize v).2))
      (fun d v => d.add (C.mergeFrom (d.next C.new) v)) fun v hmem =>
        ⟨hC.content v (hv v hmem), by rw [write_content hC v (hv v hmem)]; rfl, fun d => rfl⟩
    refine ⟨vs, ?_, hput⟩
    show (List.map _ c.elements).flatMap _ = _
    rw [List.flatMap_map, ← hvs]

/-- What is written is as long as it was said. -/
theorem length_write (hf : ∀ C ∈ f.messageClass, C.Lawful) (hn : f.number < 2048) (c : f.Cell)
    (hc : (f.byteSize c).1 < 2 ^ 31) : (f.write (f.byteSize c).2).length = (f.byteSize c).1 := by
  cases f with
  | scalar n required k default =>
    obtain ⟨has, v⟩ := c
    cases has with
    | false => rfl
    | true => exact length_scalar hn k v
  | enum n values default =>
    obtain ⟨has, e⟩ := c
    cases has with
    | false => rfl
    | true => exact length_scalar hn .enum e.val
  | text n required =>
    obtain ⟨has, b⟩ := c
    cases has with
    | false => rfl
    | true => exact length_text hn hc
  | message n C =>
    obtain ⟨has, v⟩ := c
    cases has with
    | false => rfl
    | true => exact length_message hn (hf C rfl) hc
  | scalars n k => exact length_flatMap fun v _ => length_scalar hn k v
  | texts n => exact length_flatMap fun b hb => length_text hn (size_lt_of_mem hc hb)
  | messages n C =>
    show ((List.map _ c.elements).flatMap _).length = _
    rw [List.flatMap_map]
    exact length_flatMap fun v hv => length_message hn (hf C rfl) (size_lt_of_mem hc hv)

/-! ### Fields that are passed over -/

variable {c : f.Cell}

theorem byteSize_of_not_has (hf : f.repeated = false) (hc : f.has c = false) : f.byteSize c = (0, c) := by
  cases f with
  | scalars _ _ | texts _ | messages _ _ => cases hf
  | scalar _ _ _ _ | enum _ _ _ | text _ _ | message _ _ =>
    obtain ⟨has, v⟩ := c
    cases hc
    rfl

theorem mergeFrom_of_not_has (hf : f.repeated = false) (hc : f.has c = false) (d : f.Cell) :
    f.mergeFrom d c = d := by
  cases f with
  | scalars _ _ | texts _ | messages _ _ => cases hf
  | scalar _ _ _ _ | enum _ _ _ | text _ _ | message _ _ =>
    obtain ⟨has, v⟩ := c
    cases hc
    rfl

end Field

namespace Message

variable {m e : Message F} {i : F.Index}

/-- The bits that are checked for a group are those of its fields. -/
theorem groupHas_of_has (hf : (F.get i).repeated = false) (h : (F.get i).has (m.cells i) = true) :
    m.groupHas i = true := by
  have hi : (decide (i.val / 8 = i.val / 8) && !(F.get i).repeated) = true := by rw [hf]; simp
  unfold groupHas
  cases hstart : F.groupStart (i / 8) with
  | none => exact absurd hi (List.find?_eq_none.mp hstart i (List.mem_finRange i))
  | some a =>
    obtain ⟨ha, k, hk, hget, hfirst⟩ := List.find?_eq_some_iff_getElem.mp hstart
    have hka : k = a.val := by rw [← hget, List.getElem_finRange]; rfl
    have hgroup : a.val / 8 = i.val / 8 := by
      simp only [Bool.and_eq_true, decide_eq_true_eq] at ha
      exact ha.1
    have hle : a.val ≤ i.val := by
      by_contra hlt
      have hget := List.getElem_finRange (n := F.list.length) (i := i.val) (by simp)
      have hno := hfirst i.val (by omega)
      rw [hget, Fin.cast_mk, Fin.eta, hi] at hno
      cases hno
    have hin : i.val < a.val + 8 := by omega
    refine List.any_eq_true.mpr ⟨i, List.mem_finRange i, ?_⟩
    rw [decide_eq_true (show a ≤ i from hle), decide_eq_true hin, h]
    rfl

theorem passed_over (h : m.visits i = false) :
    (F.get i).repeated = false ∧ (F.get i).has (m.cells i) = false := by
  obtain ⟨hf, hgroup⟩ := Bool.or_eq_false_iff.mp h
  refine ⟨hf, ?_⟩
  by_contra hhas
  rw [groupHas_of_has hf (Bool.not_eq_false _ ▸ hhas)] at hgroup
  cases hgroup

theorem cellSize_eq (m : Message F) (i : F.Index) : m.cellSize i = (F.get i).byteSize (m.cells i) := by
  unfold cellSize
  cases h : m.visits i with
  | true => rfl
  | false =>
    obtain ⟨hf, hhas⟩ := passed_over h
    exact (Field.byteSize_of_not_has hf hhas).symm

theorem cells_mergeFrom (m e : Message F) (i : F.Index) :
    (m.mergeFrom e).cells i = (F.get i).mergeFrom (m.cells i) (e.cells i) := by
  unfold mergeFrom
  dsimp only
  cases h : e.visits i with
  | true => rfl
  | false =>
    obtain ⟨hf, hhas⟩ := passed_over h
    exact (Field.mergeFrom_of_not_has hf hhas _).symm

theorem byteSize_le (e : Message F) (i : F.Index) :
    ((F.get i).byteSize (e.cells i)).1 ≤ e.byteSize.1 := by
  rw [← cellSize_eq]
  exact List.single_le_sum (fun _ _ => Nat.zero_le _) _
    (List.mem_map_of_mem (f := fun i => (e.cellSize i).1) (List.mem_finRange i))

theorem serialize_byteSize (e : Message F) :
    e.byteSize.2.serializeWithCachedSizes =
      (List.finRange F.list.length).flatMap fun i => (F.get i).write ((F.get i).byteSize (e.cells i)).2 := by
  unfold serializeWithCachedSizes byteSize
  dsimp only
  simp only [cellSize_eq]

variable (hF : ∀ f ∈ F.list, ∀ C ∈ f.messageClass, C.Lawful) (e)

include hF

/-- `SerializeWithCachedSizes` writes as many bytes as `ByteSize` has counted. -/
theorem length_serialize (h : e.byteSize.1 < 2 ^ 31) :
    e.byteSize.2.serializeWithCachedSizes.length = e.byteSize.1 := by
  have hlen : ∀ i : F.Index, ((F.get i).write ((F.get i).byteSize (e.cells i)).2).length =
      0 + ((F.get i).byteSize (e.cells i)).1 := fun i => by
    rw [Nat.zero_add]
    exact Field.length_write (hF _ (List.get_mem _ _)) (F.number_lt _ (List.get_mem _ _)) _
      (lt_of_le_of_lt (byteSize_le e i) h)
  rw [serialize_byteSize, Field.length_flatMap fun i _ => hlen i, Nat.zero_mul, Nat.zero_add]
  unfold byteSize
  dsimp only
  simp only [cellSize_eq]

/-- **What is written for a message is its records**, and to read them is to merge the message. -/
theorem exists_records (h : e.byteSize.1 < 2 ^ 31) :
    ∃ l : List (Record F), e.byteSize.2.serializeWithCachedSizes = l.flatMap Record.bytes ∧
      ∀ m : Message F, m.putAll (l.flatMap Record.values) = m.mergeFrom e := by
  have hvs : ∀ i : F.Index, ∃ vs, (F.get i).Stands vs (e.cells i) := fun i =>
    Field.exists_stands (hF _ (List.get_mem _ _)) _ (lt_of_le_of_lt (byteSize_le e i) h)
  choose vs hvs using hvs
  refine ⟨(List.finRange F.list.length).flatMap fun i => (vs i).map (Record.known i), ?_, fun m => ?_⟩
  · rw [serialize_byteSize, List.flatMap_assoc]
    refine List.flatMap_congr fun i _ => ?_
    rw [(hvs i).write_eq, List.flatMap_map]
    rfl
  · have hvalues : ((List.finRange F.list.length).flatMap fun i => (vs i).map (Record.known i)).flatMap
        Record.values = (List.finRange F.list.length).flatMap fun i => (vs i).map (Sigma.mk i) := by
      rw [List.flatMap_assoc]
      refine List.flatMap_congr fun i _ => ?_
      rw [List.flatMap_map]
      exact List.map_eq_flatMap.symm
    rw [hvalues]
    ext1
    · funext i
      rw [cells_putAll, valuesAt_flatMap (List.nodup_finRange _) (List.mem_finRange i), (hvs i).put_eq,
        cells_mergeFrom]
    · rfl

end Message

/-- **The generated classes keep the contract** if the classes of their fields do. -/
theorem lawful_generated (hF : ∀ f ∈ F.list, ∀ C ∈ f.messageClass, C.Lawful) :
    (generated F).Lawful where
  getCachedSize _ := rfl
  length_serialize e h := Message.length_serialize e hF h
  means e h := by
    obtain ⟨l, hbytes, hput⟩ := Message.exists_records e hF h
    intro m s hs
    obtain ⟨s', hparse, hrest⟩ := Message.means_records l (v := m) (hs.trans hbytes)
    exact ⟨s', hparse.trans (congrArg (Outcome.done · s') (hput m)), hrest⟩

end LibMumble.MumbleProto
