import LibMumble.MumbleProto.Field
import Mathlib.Data.List.FinRange
import Mathlib.Logic.Function.Basic

/-! # The methods of a message

The methods that `protoc` generates for a class, from its fields. The parser is a loop with a switch in it;
behind each case it looks whether the next field follows, and if so jumps to its label without another
`ReadTag`. -/

namespace LibMumble.MumbleProto

variable {R : Runtime}

/-- The fields of a class, in the order of their numbers. -/
structure Fields (R : Runtime) where
  list : List (Field R)
  nodup : (list.map Field.number).Nodup
  number_pos : ∀ f ∈ list, 0 < f.number
  number_lt : ∀ f ∈ list, f.number < 2048

/-- Fields that are numbered from one. -/
def Fields.numbered (n : ℕ) (l : List (Field R)) (h : l.map Field.number = List.range' 1 n)
    (hn : n < 2047) : Fields R where
  list := l
  nodup := h ▸ List.nodup_range'
  number_pos f hf := by
    have hmem := List.mem_map_of_mem (f := Field.number) hf
    rw [h, List.mem_range'_1] at hmem
    exact hmem.1
  number_lt f hf := by
    have hmem := List.mem_map_of_mem (f := Field.number) hf
    rw [h, List.mem_range'_1] at hmem
    omega

namespace Fields

variable (F : Fields R)

abbrev Index : Type := Fin F.list.length

abbrev get (i : F.Index) : Field R := F.list.get i

/-- The field of the first bit that a method checks for eight fields at once. -/
def groupStart (g : ℕ) : Option F.Index :=
  (List.finRange F.list.length).find? fun i => i.val / 8 = g && !(F.get i).repeated

/-- The `case` for a number. -/
def find (number : ℕ) : Option F.Index :=
  (List.finRange F.list.length).find? fun i => (F.get i).number = number

/-- The field after this one. -/
def next (i : F.Index) : Option F.Index := if h : i.val + 1 < F.list.length then some ⟨i + 1, h⟩ else none

def hasRequired : Bool := F.list.any fun f => f.required || f.elementsRequired

end Fields

/-- A message. -/
@[ext]
structure Message (F : Fields R) where
  cells : (i : F.Index) → (F.get i).Cell
  cachedSize : ℕ

/-- What a turn of the parser's loop comes to: the end of a case, which is that of a field or the default, or
a `return`. -/
inductive Turn (F : Fields R)
  | broke (i : Option F.Index) (m : Message F) (s : R.Stream)
  | returned (o : Outcome R.Stream (Message F))

/-- What is left of the stream: less than `n` bytes if the loop goes on, and not more at its end. -/
def Turn.Shrinks {F : Fields R} (n : ℕ) : Turn F → Prop
  | .broke _ _ s => (R.bytes s).length < n
  | .returned (.done _ s) => (R.bytes s).length ≤ n
  | .returned (.failed _) => True

namespace Message

variable {F : Fields R}

/-- `SharedCtor`. -/
def new : Message F := ⟨fun i => (F.get i).new, 0⟩

/-- A bit in the group of the field is set. -/
def groupHas (m : Message F) (i : F.Index) : Bool :=
  match F.groupStart (i / 8) with
  | some a => (List.finRange F.list.length).any fun j =>
      a ≤ j && j.val < a + 8 && (F.get j).has (m.cells j)
  | none => false

/-- The methods pass over a field that is not repeated if no bit of its group is set. -/
def visits (m : Message F) (i : F.Index) : Bool := (F.get i).repeated || m.groupHas i

/-- `Clear`. -/
def clear (m : Message F) : Message F where
  cells i := (F.get i).clearHas (if m.visits i then (F.get i).clear (m.cells i) else m.cells i)
  cachedSize := m.cachedSize

/-- `MergeFrom`, of another message. -/
def mergeFrom (m other : Message F) : Message F where
  cells i := if other.visits i then (F.get i).mergeFrom (m.cells i) (other.cells i) else m.cells i
  cachedSize := m.cachedSize

/-- The part of `ByteSize` for a field. -/
def cellSize (m : Message F) (i : F.Index) : ℕ × (F.get i).Cell :=
  if m.visits i then (F.get i).byteSize (m.cells i) else (0, m.cells i)

/-- `ByteSize`. -/
def byteSize (m : Message F) : ℕ × Message F :=
  let totalSize := ((List.finRange F.list.length).map fun i => (m.cellSize i).1).sum
  (totalSize, ⟨fun i => (m.cellSize i).2, totalSize⟩)

def serializeWithCachedSizes (m : Message F) : List UInt8 :=
  (List.finRange F.list.length).flatMap fun i => (F.get i).write (m.cells i)

def isInitialized (m : Message F) : Bool :=
  (List.finRange F.list.length).all fun i => (F.get i).isInitialized (m.cells i)

def set (m : Message F) (i : F.Index) (c : (F.get i).Cell) : Message F :=
  { m with cells := Function.update m.cells i c }

/-! ### The parser -/

/-- After the code of a field: `break`, or `return false`. -/
def finish (m : Message F) (i : F.Index) : Outcome R.Stream (F.get i).Cell → Turn F
  | .done c s => .broke (some i) (m.set i c) s
  | .failed c => .returned (.failed (m.set i c))

/-- At `handle_uninterpreted`. -/
def uninterpreted (m : Message F) (tag : ℕ) (s : R.Stream) : Turn F :=
  if tag % 8 = 4 then .returned (.done m s)
  else match R.skipField s tag with
    | some s => .broke none m s
    | none => .returned (.failed m)

/-- The code of a field under a wire type, if the wire type is one of its own; `rd` is the code at its
label. -/
def accept (rd : (f : Field R) → f.Cell → R.Stream → Outcome R.Stream f.Cell) (f : Field R)
    (wireType : ℕ) (c : f.Cell) (s : R.Stream) : Option (Outcome R.Stream f.Cell) :=
  if wireType = f.wireType then some (rd f c s)
  else if wireType = 2 then f.readPacked c s
  else none

/-- The `switch`. -/
def switch (rd : (f : Field R) → f.Cell → R.Stream → Outcome R.Stream f.Cell) (m : Message F)
    (tag : ℕ) (s : R.Stream) : Turn F :=
  match F.find (tag / 8) with
  | some i =>
    match accept rd (F.get i) (tag % 8) (m.cells i) s with
    | some o => m.finish i o
    | none => m.uninterpreted tag s
  | none => m.uninterpreted tag s

/-- The loop, once. -/
def turn (rd : (f : Field R) → f.Cell → R.Stream → Outcome R.Stream f.Cell) (m : Message F)
    (s : R.Stream) : Turn F :=
  if (R.readTag s).1 = 0 then .returned (.done m (R.readTag s).2)
  else m.switch rd (R.readTag s).1 (R.readTag s).2

/-- `if (input->ExpectTag(..)) goto` the label of the field. -/
def goto (m : Message F) (i : F.Index) (s : R.Stream) : Option (Turn F) :=
  (R.expectTag (F.get i).tag s).map fun s => m.finish i ((F.get i).read (m.cells i) s)

/-- What follows the code of a field, up to `break`. -/
def after (m : Message F) (i : F.Index) (s : R.Stream) : Option (Turn F) :=
  (if (F.get i).repeated then m.goto i s else none).or
    (match F.next i with
    | some j => m.goto j s
    | none => (R.expectAtEnd s).map fun s => .returned (.done m s))

/-! ### What is left of the stream -/

variable {m m' : Message F} {i : F.Index} {j : Option F.Index} {s s' : R.Stream} {n : ℕ}

theorem finish_shrinks {o : Outcome R.Stream (F.get i).Cell}
    (ho : ∀ {c s'}, o = .done c s' → (R.bytes s').length < n) : (m.finish i o).Shrinks n := by
  cases o with
  | done c s' => exact ho rfl
  | failed c => trivial

theorem uninterpreted_shrinks (hs : (R.bytes s).length < n) (tag : ℕ) :
    (m.uninterpreted tag s).Shrinks n := by
  unfold uninterpreted
  split_ifs
  · exact hs.le
  · cases hskip : R.skipField s tag with
    | none => trivial
    | some s' =>
      have hle := R.skipField_le hskip
      exact lt_of_le_of_lt hle hs

theorem accept_le {rd : (f : Field R) → f.Cell → R.Stream → Outcome R.Stream f.Cell} {f : Field R}
    (hrd : ∀ {c s c' s'}, rd f c s = .done c' s' → (R.bytes s').length ≤ (R.bytes s).length)
    {w : ℕ} {c c' : f.Cell} (h : accept rd f w c s = some (.done c' s')) :
    (R.bytes s').length ≤ (R.bytes s).length := by
  unfold accept at h
  split_ifs at h
  · exact hrd (Option.some.inj h)
  · exact Field.readPacked_le h

/-- A tag takes a byte. -/
theorem turn_shrinks {rd : (f : Field R) → f.Cell → R.Stream → Outcome R.Stream f.Cell}
    (hrd : ∀ {f}, f ∈ F.list → ∀ {c s c' s'}, rd f c s = .done c' s' →
      (R.bytes s').length ≤ (R.bytes s).length) (m : Message F) (s : R.Stream) :
    (m.turn rd s).Shrinks (R.bytes s).length := by
  unfold turn
  split_ifs with htag
  · exact R.readTag_le s
  have hlt := R.readTag_lt s htag
  unfold switch
  cases F.find ((R.readTag s).1 / 8) with
  | none => exact uninterpreted_shrinks hlt _
  | some i =>
    dsimp only
    cases hacc : accept rd (F.get i) ((R.readTag s).1 % 8) (m.cells i) (R.readTag s).2 with
    | none => exact uninterpreted_shrinks hlt _
    | some o =>
      refine finish_shrinks fun {c s'} ho => ?_
      rw [ho] at hacc
      exact lt_of_le_of_lt (accept_le (hrd (List.get_mem _ _)) hacc) hlt

theorem tag_ne_zero (i : F.Index) : (F.get i).tag ≠ 0 :=
  Field.makeTag_ne_zero (F.number_pos _ (List.get_mem _ _)) _

theorem goto_shrinks {t : Turn F} (h : m.goto i s = some t) : t.Shrinks (R.bytes s).length := by
  obtain ⟨s', hs, rfl⟩ := Option.map_eq_some_iff.mp h
  have hlt := Runtime.expectTag_lt (tag_ne_zero i) hs
  exact finish_shrinks fun hread =>
    lt_of_le_of_lt (Field.read_le (F.number_pos _ (List.get_mem _ _)) hread) hlt

theorem after_shrinks {t : Turn F} (h : m.after i s = some t) : t.Shrinks (R.bytes s).length := by
  rcases Option.or_eq_some_iff.mp h with h | ⟨-, h⟩
  · split_ifs at h
    exact goto_shrinks h
  · cases hn : F.next i with
    | some k =>
      rw [hn] at h
      exact goto_shrinks h
    | none =>
      rw [hn] at h
      obtain ⟨s', hs, rfl⟩ := Option.map_eq_some_iff.mp h
      have hle := R.readTag_le s
      rwa [R.readTag_of_expectAtEnd hs] at hle

theorem read_turn_shrinks (m : Message F) (s : R.Stream) :
    (m.turn Field.read s).Shrinks (R.bytes s).length :=
  turn_shrinks (fun hf => Field.read_le (F.number_pos _ hf)) m s

/-- **The parser**, from the head of its loop or from behind the code of a field. -/
def parse (p : Option F.Index) (m : Message F) (s : R.Stream) : Outcome R.Stream (Message F) :=
  match p with
  | none =>
    match _h : m.turn Field.read s with
    | .broke i m' s' => parse i m' s'
    | .returned o => o
  | some i =>
    match _h : m.after i s with
    | some (.broke j m' s') => parse j m' s'
    | some (.returned o) => o
    | none => parse none m s
termination_by ((R.bytes s).length, if p.isSome then 1 else 0)
decreasing_by
  · have hlt := read_turn_shrinks m s
    rw [_h] at hlt
    exact Prod.Lex.left _ _ hlt
  · exact Prod.Lex.left _ _ (after_shrinks _h)
  · exact Prod.Lex.right _ (by simp)

def mergePartialFromCodedStream (m : Message F) (s : R.Stream) : Outcome R.Stream (Message F) :=
  m.parse none s

end Message

end LibMumble.MumbleProto
