import LibMumble.Lib.Keyed
import LibMumble.MumbleProto.FastPath
import LibMumble.MumbleProto.ListRuntime

/-! # Records

What a peer sends for a message is a sequence of records, each a tag and a value, in any order, packed or
not, and with records among them that the class does not know. `mergePartial_records` says what the parser
makes of it: each field takes the values of its own records, and nothing else. -/

namespace LibMumble.MumbleProto

open Lib

variable {R : Runtime} {F : Fields R}

/-! ### Values on the wire -/

/-- What the bytes do to any message of the class. -/
def MessageLite.Means (C : MessageLite R) (b : List UInt8) (effect : C.Val → C.Val) : Prop :=
  ∀ {v s}, R.bytes s = b → ∃ s', C.mergePartialFromCodedStream v s = .done (effect v) s' ∧
    R.bytes s' = [] ∧ R.consumedEntireMessage s' = true

/-- A message inside a message, on the wire. -/
structure MessageLite.Content (C : MessageLite R) where
  bytes : List UInt8
  effect : C.Val → C.Val
  means : C.Means bytes effect
  length_lt : bytes.length < 2 ^ 31

abbrev Text : Type := { b : List UInt8 // b.length < 2 ^ 31 }

theorem Payload.ne_endGroup {W : OutputStream} {w : ℕ} {b : List UInt8} (h : Payload W w b) : w ≠ 4 := by
  cases h <;> decide

theorem readValue_write {α : Type} {k : Primitive} {v : k.Val} {s : R.Stream} {r : List UInt8}
    (h : R.bytes s = R.writePrimitive k v ++ r) (a : α) (store : k.Val → α) :
    ∃ s', readValue R k a store s = .done (store v) s' ∧ R.bytes s' = r := by
  obtain ⟨s', hs, hr⟩ := R.readPrimitive_write h
  exact ⟨s', by rw [readValue, hs], hr⟩

namespace Field

/-- A value of the field on the wire. An enumerator may be one that the class does not know, and the numbers
of a repeated field may be packed. -/
abbrev Item : Field R → Type
  | scalar _ _ k _ => k.Val
  | enum _ _ _ => Int32
  | text _ _ | texts _ => Text
  | message _ C | messages _ C => C.Content
  | scalars _ k => k.Val ⊕ { vs : List k.Val // (vs.flatMap (R.writePrimitive k)).length < 2 ^ 31 }

def itemWireType : (f : Field R) → f.Item → ℕ
  | scalar _ _ k _, _ => k.wireType
  | enum _ _ _, _ => Primitive.enum.wireType
  | text _ _, _ | texts _, _ | message _ _, _ | messages _ _, _ => 2
  | scalars _ k, .inl _ => k.wireType
  | scalars _ _, .inr _ => 2

def itemBytes : (f : Field R) → f.Item → List UInt8
  | scalar _ _ k _, v => R.writePrimitive k v
  | enum _ _ _, v => R.writePrimitive .enum v
  | text _ _, b | texts _, b => R.lengthDelimited b.val
  | message _ _, v | messages _ _, v => R.lengthDelimited v.bytes
  | scalars _ k, .inl v => R.writePrimitive k v
  | scalars _ k, .inr vs => R.lengthDelimited (vs.val.flatMap (R.writePrimitive k))

/-- What a value does to the field. -/
def put : (f : Field R) → f.Cell → f.Item → f.Cell
  | scalar _ _ _ _, _, v => ⟨true, v⟩
  | enum _ values _, c, v => ((Enumerator.ofInt values v).map fun e => ⟨true, e⟩).getD c
  | text _ _, _, b => ⟨true, b.val⟩
  | message _ _, c, v => ⟨true, v.effect c.value⟩
  | scalars _ _, c, .inl v => c ++ [v]
  | scalars _ _, c, .inr vs => c ++ vs.val
  | texts _, c, b => c.add b.val
  | messages _ C, c, v => c.add (v.effect (c.next C.new))

/-- The wire types that the code of the field reads. -/
def accepts (f : Field R) (w : ℕ) : Prop := w = f.wireType ∨ w = 2 ∧ ∃ n k, f = scalars n k

variable {f : Field R} {c : f.Cell} {v : f.Item} {s : R.Stream} {r : List UInt8}

theorem readMessage_content {C : MessageLite R} (v : C.Content) (w : C.Val)
    (h : R.bytes s = R.lengthDelimited v.bytes ++ r) :
    ∃ s', R.readMessage C.mergePartialFromCodedStream w s = .done (v.effect w) s' ∧ R.bytes s' = r := by
  obtain ⟨s1, hbytes, hread⟩ := R.readMessage_write v.length_lt h
  obtain ⟨s2, hparse, hnil, hend⟩ := v.means hbytes
  exact hread hparse hnil hend

/-- **The code of a field reads a value of the field.** -/
theorem accept_item (h : R.bytes s = f.itemBytes v ++ r) :
    ∃ s', Message.accept readOne f (f.itemWireType v) c s = some (.done (f.put c v) s') ∧
      R.bytes s' = r := by
  cases f with
  | scalar n required k default =>
    obtain ⟨s', hs, hr⟩ := readValue_write h c fun v => ⟨true, v⟩
    exact ⟨s', (if_pos rfl).trans (congrArg some hs), hr⟩
  | enum n values default =>
    obtain ⟨s', hs, hr⟩ := readValue_write h c fun v =>
      ((Enumerator.ofInt values v).map fun e => ⟨true, e⟩).getD c
    exact ⟨s', (if_pos rfl).trans (congrArg some hs), hr⟩
  | text n required =>
    obtain ⟨s', hs, hr⟩ := @R.readString_write c.value _ _ _ v.property h
    refine ⟨s', (if_pos rfl).trans (congrArg some ?_), hr⟩
    show Outcome.map _ (R.readString c.value s) = _
    rw [hs]
    rfl
  | texts n =>
    obtain ⟨s', hs, hr⟩ := @R.readString_write (c.next []) _ _ _ v.property h
    refine ⟨s', (if_pos rfl).trans (congrArg some ?_), hr⟩
    show Outcome.map _ (R.readString (c.next []) s) = _
    rw [hs]
    rfl
  | message n C =>
    obtain ⟨s', hs, hr⟩ := readMessage_content v c.value h
    refine ⟨s', (if_pos rfl).trans (congrArg some ?_), hr⟩
    show Outcome.map _ (R.readMessage C.mergePartialFromCodedStream c.value s) = _
    rw [hs]
    rfl
  | messages n C =>
    obtain ⟨s', hs, hr⟩ := readMessage_content v (c.next C.new) h
    refine ⟨s', (if_pos rfl).trans (congrArg some ?_), hr⟩
    show Outcome.map _ (R.readMessage C.mergePartialFromCodedStream (c.next C.new) s) = _
    rw [hs]
    rfl
  | scalars n k =>
    cases v with
    | inl v =>
      obtain ⟨s', hs, hr⟩ := readValue_write h c fun v => c ++ [v]
      exact ⟨s', (if_pos rfl).trans (congrArg some hs), hr⟩
    | inr vs =>
      have hw : 2 ≠ k.wireType := by cases k <;> decide
      obtain ⟨s', hs, hr⟩ := R.readPackedPrimitive_write vs.property h
      refine ⟨s', ((if_neg hw).trans (if_pos rfl)).trans (congrArg some ?_), hr⟩
      show Outcome.map _ (R.readPackedPrimitive k s) = _
      rw [hs]
      rfl

/-- And no other. -/
theorem accept_foreign {rd : (f : Field R) → f.Cell → R.Stream → Outcome R.Stream f.Cell} {w : ℕ}
    (h : ¬ f.accepts w) : Message.accept rd f w c s = none := by
  rw [accepts, not_or] at h
  rw [Message.accept, if_neg h.1]
  by_cases hw : w = 2
  · rw [if_pos hw]
    cases f with
    | scalars n k => exact absurd ⟨hw, n, k, rfl⟩ h.2
    | _ => rfl
  · rw [if_neg hw]

theorem itemWireType_lt (f : Field R) (v : f.Item) : f.itemWireType v < 8 := by
  have hk : ∀ k : Primitive, k.wireType < 8 := by
    intro k
    cases k <;> decide
  have htwo : 2 < 8 := by omega
  cases f with
  | scalar n required k default => exact hk k
  | enum n values default => exact hk .enum
  | text n required | texts n | message n C | messages n C => exact htwo
  | scalars n k =>
    cases v with
    | inl v => exact hk k
    | inr vs => exact htwo

end Field

/-! ### Records -/

/-- The tag is of no field, or not of this wire type. -/
structure Foreign (F : Fields R) (tag : ℕ) : Prop where
  number_pos : 8 ≤ tag
  tag_lt : tag < 2 ^ 32
  foreign : ∀ {i}, F.find (tag / 8) = some i → ¬ (F.get i).accepts (tag % 8)

/-- **A record.** -/
inductive Record (F : Fields R)
  | known (i : F.Index) (v : (F.get i).Item)
  | unknown (tag : ℕ) (payload : List UInt8) (htag : Foreign F tag)
      (hpayload : Payload R.toOutputStream (tag % 8) payload)

namespace Record

def bytes : Record F → List UInt8
  | known i v => writeField R (F.get i).number ((F.get i).itemWireType v) ((F.get i).itemBytes v)
  | unknown tag payload _ _ => R.writeTag tag ++ payload

/-- The value in the record, with its field. -/
def values : Record F → List (Sigma fun i => (F.get i).Item)
  | known i v => [⟨i, v⟩]
  | unknown _ _ _ _ => []

end Record

namespace Message

/-- The values are put into their fields. -/
def putAll (m : Message F) (vs : List (Sigma fun i => (F.get i).Item)) : Message F :=
  { m with cells := vs.foldl (applyAt fun i => (F.get i).put) m.cells }

variable {m : Message F} {s : R.Stream} {r : List UInt8}

theorem putAll_append (m : Message F) (vs ws : List (Sigma fun i => (F.get i).Item)) :
    m.putAll (vs ++ ws) = (m.putAll vs).putAll ws := by
  simp only [putAll, List.foldl_append]

theorem cells_putAll (m : Message F) (vs : List (Sigma fun i => (F.get i).Item)) (i : F.Index) :
    (m.putAll vs).cells i = (valuesAt i vs).foldl (F.get i).put (m.cells i) :=
  foldl_applyAt vs m.cells i

/-- **The loop takes one record.** -/
theorem turn_record (x : Record F) (m : Message F) (h : R.bytes s = x.bytes ++ r) :
    ∃ j s', m.turn Field.readOne s = .broke j (m.putAll x.values) s' ∧ R.bytes s' = r := by
  cases x with
  | known i v =>
    have hpos : 0 < (F.get i).number := F.number_pos _ (List.get_mem F.list i)
    have hlt : (F.get i).number < 2048 := F.number_lt _ (List.get_mem F.list i)
    have hw := Field.itemWireType_lt (F.get i) v
    have htag : makeTag (F.get i).number ((F.get i).itemWireType v) < 2 ^ 32 := by
      unfold makeTag
      omega
    have hdiv : makeTag (F.get i).number ((F.get i).itemWireType v) / 8 = (F.get i).number := by
      unfold makeTag
      omega
    have hmod : makeTag (F.get i).number ((F.get i).itemWireType v) % 8 = (F.get i).itemWireType v := by
      unfold makeTag
      omega
    have hne := Field.makeTag_ne_zero hpos ((F.get i).itemWireType v)
    rw [Record.bytes, writeField, List.append_assoc] at h
    obtain ⟨s1, hread, hs1⟩ := R.readTag_write (Nat.pos_of_ne_zero hne) htag h
    obtain ⟨s', hacc, hs'⟩ := Field.accept_item (c := m.cells i) hs1
    refine ⟨some i, s', ?_, hs'⟩
    rw [turn, hread, if_neg hne, switch, hdiv, find_number, hmod]
    dsimp only
    rw [hacc]
    rfl
  | unknown tag payload hf hp =>
    have hpos := hf.number_pos
    have hne : tag ≠ 0 := by omega
    rw [Record.bytes, List.append_assoc] at h
    obtain ⟨s1, hread, hs1⟩ := R.readTag_write (Nat.pos_of_ne_zero hne) hf.tag_lt h
    obtain ⟨s', hskip, hs'⟩ := R.skipField_write hpos hp hs1
    have hun : m.uninterpreted tag s1 = .broke none m s' := by
      rw [uninterpreted, if_neg hp.ne_endGroup, hskip]
    refine ⟨none, s', ?_, hs'⟩
    rw [turn, hread, if_neg hne, switch]
    cases hfind : F.find (tag / 8) with
    | none => exact hun
    | some i =>
      dsimp only
      rw [Field.accept_foreign (hf.foreign hfind)]
      exact hun

theorem plain_records (l : List (Record F)) (m : Message F) (h : R.bytes s = l.flatMap Record.bytes) :
    ∃ s', m.plain s = .done (m.putAll (l.flatMap Record.values)) s' ∧ R.bytes s' = [] ∧
      R.consumedEntireMessage s' = true := by
  induction l generalizing m s with
  | nil =>
    obtain ⟨s', hread, hnil, hend⟩ := R.readTag_nil h
    refine ⟨s', ?_, hnil, hend⟩
    rw [plain_eq, turn, hread, if_pos rfl]
    rfl
  | cons x l ih =>
    obtain ⟨j, s1, hturn, hs1⟩ := turn_record x m h
    obtain ⟨s', hplain, hnil, hend⟩ := ih (m.putAll x.values) hs1
    refine ⟨s', ?_, hnil, hend⟩
    rw [plain_eq, hturn, follow, hplain, List.flatMap_cons, putAll_append]

/-- **What records do to a message.** -/
theorem means_records (l : List (Record F)) :
    (generated F).Means (l.flatMap Record.bytes) fun m => m.putAll (l.flatMap Record.values) := by
  intro m s h
  obtain ⟨s', hplain, hnil, hend⟩ := plain_records l m h
  exact ⟨s', (parse_eq_plain none m s).trans hplain, hnil, hend⟩

/-- **The parser gives each field the values of its own records**, in their order, and skips what the class
does not know. -/
theorem mergePartial_records (l : List (Record F)) (m : Message F)
    (h : R.bytes s = l.flatMap Record.bytes) :
    ∃ m' s', m.mergePartialFromCodedStream s = .done m' s' ∧ R.bytes s' = [] ∧
      R.consumedEntireMessage s' = true ∧ m'.cachedSize = m.cachedSize ∧
      ∀ i, m'.cells i = (valuesAt i (l.flatMap Record.values)).foldl (F.get i).put (m.cells i) := by
  obtain ⟨s', hparse, hnil, hend⟩ := means_records l (v := m) h
  exact ⟨_, s', hparse, hnil, hend, rfl, cells_putAll m _⟩

/-- Numbers and a text that is required. -/
def chat : Fields listRuntime := ⟨[.scalars 1 .uint32, .text 2 true], by decide, by decide, by decide⟩

/-- A text, numbers packed, a number of a field that is not known, and another number by itself. -/
def chatRecords : List (Record chat) :=
  [.known ⟨1, by decide⟩ (⟨[104, 105], by decide⟩ : Text),
    .known ⟨0, by decide⟩ (Sum.inr ⟨([1, 2] : List UInt32), by decide⟩),
    .unknown 24 [5] ⟨by decide, by decide, fun h => nomatch h⟩ (.varint 5),
    .known ⟨0, by decide⟩ (Sum.inl (7 : UInt32))]

theorem mergePartial_records_chat :
    ∃ m' s', (new : Message chat).mergePartialFromCodedStream
        (⟨[18, 2, 104, 105, 10, 2, 1, 2, 24, 5, 8, 7], false⟩ : ListRuntime.Stream) = .done m' s' ∧
      m'.cells ⟨0, by decide⟩ = ([1, 2, 7] : List UInt32) := by
  obtain ⟨m', s', hparse, -, -, -, hcells⟩ := mergePartial_records chatRecords new
    (s := (⟨[18, 2, 104, 105, 10, 2, 1, 2, 24, 5, 8, 7], false⟩ : ListRuntime.Stream)) rfl
  have hnumbers := hcells ⟨0, by decide⟩
  exact ⟨m', s', hparse, hnumbers⟩

/-! ### Required fields -/

end Message

namespace Field

/-- What the values have to be for the field to be initialised: there is one if it is required, and they are
initialised themselves if they have required fields. -/
def Fulfilled : (f : Field R) → List f.Item → Prop
  | scalar _ required _ _, vs | text _ required, vs => required = true → vs ≠ []
  | message _ C, vs => C.hasRequired = true → vs ≠ [] →
    C.isInitialized (vs.foldl (fun w v => v.effect w) C.new) = true
  | messages _ C, vs => C.hasRequired = true → ∀ v ∈ vs, C.isInitialized (v.effect C.new) = true
  | enum _ _ _, _ | scalars _ _, _ | texts _, _ => True

theorem has_foldl {f : Field R} (hput : ∀ c v, f.has (f.put c v) = true) (c : f.Cell) (vs : List f.Item) :
    f.has (vs.foldl f.put c) = (f.has c || !vs.isEmpty) := by
  induction vs generalizing c with
  | nil => simp
  | cons v vs ih => rw [List.foldl_cons, ih, hput]; simp

/-- Where nothing is kept, the values are put into new messages. -/
theorem foldl_add {C : MessageLite R} {n : ℕ} (vs : List C.Content) (c : List C.Val) :
    vs.foldl (messages n C : Field R).put ⟨c, []⟩ = ⟨c ++ vs.map fun v => v.effect C.new, []⟩ := by
  induction vs generalizing c with
  | nil => rw [List.map_nil, List.append_nil, List.foldl_nil]
  | cons v vs ih => exact (ih (c ++ [v.effect C.new])).trans (by rw [List.append_assoc]; rfl)

theorem foldl_effect {C : MessageLite R} {n : ℕ} (vs : List C.Content) (c : Member C.Val) :
    vs.foldl (message n C : Field R).put c =
      ⟨c.has || !vs.isEmpty, vs.foldl (fun w v => v.effect w) c.value⟩ := by
  induction vs generalizing c with
  | nil => simp
  | cons v vs ih => exact (ih ⟨true, v.effect c.value⟩).trans (by simp)

theorem isInitialized_foldl (f : Field R) (vs : List f.Item) :
    f.isInitialized (vs.foldl f.put f.new) = true ↔ f.Fulfilled vs := by
  cases f with
  | scalar n required k default =>
    have h := has_foldl (f := .scalar n required k default) (fun _ _ => rfl) (new _) vs
    change (!required || (scalar n required k default : Field R).has (vs.foldl _ _)) = true ↔ _
    rw [h]
    cases required <;> simp [Fulfilled, has, new]
  | text n required =>
    have h := has_foldl (f := .text n required) (fun _ _ => rfl) (new _) vs
    change (!required || (text n required : Field R).has (vs.foldl _ _)) = true ↔ _
    rw [h]
    cases required <;> simp [Fulfilled, has, new]
  | messages n C =>
    change (!C.hasRequired ||
      (vs.foldl (messages n C : Field R).put ⟨[], []⟩).elements.all C.isInitialized) = true ↔ _
    rw [foldl_add, List.nil_append]
    cases hC : C.hasRequired <;> simp [Fulfilled, hC]
  | message n C =>
    have h := foldl_effect (n := n) vs ⟨false, C.new⟩
    change (!C.hasRequired || !(vs.foldl (message n C : Field R).put ⟨false, C.new⟩).has ||
      C.isInitialized (vs.foldl (message n C : Field R).put ⟨false, C.new⟩).value) = true ↔ _
    rw [h]
    cases hC : C.hasRequired <;> cases vs <;> simp [Fulfilled, hC]
  | enum _ _ _ => exact iff_of_true rfl trivial
  | scalars _ _ => exact iff_of_true rfl trivial
  | texts _ => exact iff_of_true rfl trivial

end Field

namespace Message

/-- **A message that was parsed is initialised** if its records have what is required. -/
theorem initialized_iff (l : List (Record F)) (h : R.bytes s = l.flatMap Record.bytes) :
    ∃ m' s', (new : Message F).mergePartialFromCodedStream s = .done m' s' ∧
      (m'.isInitialized = true ↔
        ∀ i, (F.get i).Fulfilled (valuesAt i (l.flatMap Record.values))) := by
  obtain ⟨s', hparse, -⟩ := means_records l (v := new) h
  refine ⟨_, s', hparse, ?_⟩
  rw [isInitialized, List.all_eq_true]
  refine ⟨fun hall i => ?_, fun hall i _ => ?_⟩
  · have hi := hall i (List.mem_finRange i)
    rw [cells_putAll] at hi
    exact (Field.isInitialized_foldl _ _).mp hi
  · rw [cells_putAll]
    exact (Field.isInitialized_foldl _ _).mpr (hall i)

theorem initialized_iff_chat :
    ∃ m' s', (new : Message chat).mergePartialFromCodedStream (⟨[8, 7], false⟩ : ListRuntime.Stream) =
      .done m' s' ∧ m'.isInitialized = false := by
  obtain ⟨m', s', hparse, hiff⟩ := initialized_iff
    [Record.known (F := chat) ⟨0, by decide⟩ (Sum.inl (7 : UInt32))]
    (s := (⟨[8, 7], false⟩ : ListRuntime.Stream)) rfl
  refine ⟨m', s', hparse, ?_⟩
  rw [Bool.eq_false_iff, ne_eq, hiff]
  exact fun hall => hall ⟨1, by decide⟩ rfl rfl

end Message

end LibMumble.MumbleProto
