import LibMumble.MumbleProto.Message

/-! # The parser without its jumps

`plain` is the loop alone: it reads a tag, does what the tag asks for with one value, and goes on. The
jumps behind the cases, the end that is expected there and the repeated fields that are read in one go
change nothing: the parser leaves the same message and the same stream on every input, also where it
fails (`parse_eq_plain`). -/

namespace LibMumble.MumbleProto

variable {R : Runtime} {F : Fields R}

namespace Message

variable {m m' : Message F} {i : F.Index} {s s' : R.Stream}

theorem plain_turn_shrinks (m : Message F) (s : R.Stream) :
    (m.turn Field.readOne s).Shrinks (R.bytes s).length :=
  turn_shrinks (fun _ => Field.readOne_le) m s

/-- **The parser without its jumps.** -/
def plain (m : Message F) (s : R.Stream) : Outcome R.Stream (Message F) :=
  match _h : m.turn Field.readOne s with
  | .broke _ m' s' => plain m' s'
  | .returned o => o
termination_by (R.bytes s).length
decreasing_by
  have hlt := plain_turn_shrinks m s
  rwa [_h] at hlt

/-- What a turn comes to in the end. -/
def follow : Turn F → Outcome R.Stream (Message F)
  | .broke _ m s => plain m s
  | .returned o => o

theorem plain_eq (m : Message F) (s : R.Stream) : m.plain s = follow (m.turn Field.readOne s) := by
  rw [plain]
  cases m.turn Field.readOne s with
  | broke j m' s' => rfl
  | returned o => rfl

/-! ### A field reads its next values -/

/-- What the code of a field may read: one value, and more as long as its tag follows. -/
inductive Reads (f : Field R) : f.Cell → R.Stream → Outcome R.Stream f.Cell → Prop
  | one (c s) : Reads f c s (f.readOne c s)
  | more {c c' s s' s'' o} (h : f.readOne c s = .done c' s') (ht : R.expectTag f.tag s' = some s'')
    (ho : Reads f c' s'' o) : Reads f c s o

theorem reads_of_repeats {k : Primitive} {n : ℕ} {o : Outcome R.Stream (List k.Val)}
    (h : Repeats R.toInputStream k (makeTag n k.wireType) s o) (c : (Field.scalars n k : Field R).Cell) :
    Reads (.scalars n k) c s (o.map fun vs => c ++ vs) := by
  induction h generalizing c with
  | @failed s h =>
    have hone : (Field.scalars n k).readOne c s = .failed c := by
      rw [Field.readOne, readValue, h]
    have hnil : c ++ [] = c := List.append_nil c
    rw [Outcome.map, hnil, ← hone]
    exact .one c s
  | @last s s' v h =>
    have hone : (Field.scalars n k).readOne c s = .done (c ++ [v]) s' := by
      rw [Field.readOne, readValue, h]
    rw [Outcome.map, ← hone]
    exact .one c s
  | @more s s' s'' v o h ht _ ih =>
    have hone : (Field.scalars n k).readOne c s = .done (c ++ [v]) s' := by
      rw [Field.readOne, readValue, h]
    have hmap : (o.map (v :: ·)).map (fun vs => c ++ vs) =
        o.map fun vs => (c ++ [v]) ++ vs := by
      cases o <;> simp [Outcome.map]
    rw [hmap]
    exact .more hone ht (ih _)

theorem reads (f : Field R) (c : f.Cell) (s : R.Stream) : Reads f c s (f.read c s) := by
  rcases Field.readOne_eq f with ⟨n, k, rfl⟩ | heq
  · exact reads_of_repeats (R.repeats k _ s) c
  · rw [← heq]
    exact .one c s

theorem find_number (i : F.Index) : F.find (F.get i).number = some i := by
  unfold Fields.find
  cases hfind : (List.finRange F.list.length).find? fun j => (F.get j).number = (F.get i).number with
  | none =>
    have hnone := List.find?_eq_none.mp hfind i (List.mem_finRange i)
    simp at hnone
  | some j =>
    have hj := List.find?_some hfind
    have hinj := List.nodup_iff_injective_get.mp F.nodup
    have heq : (F.list.map Field.number).get (j.cast (List.length_map _).symm) =
        (F.list.map Field.number).get (i.cast (List.length_map _).symm) := by
      simpa using hj
    exact congrArg some (Fin.cast_injective _ (hinj heq))

@[simp] theorem cells_set (m : Message F) (i : F.Index) (c : (F.get i).Cell) : (m.set i c).cells i = c :=
  Function.update_self ..

@[simp] theorem finish_set (m : Message F) (i : F.Index) (c : (F.get i).Cell)
    (o : Outcome R.Stream (F.get i).Cell) : (m.set i c).finish i o = m.finish i o := by
  cases o <;> simp only [finish, set, Function.update_idem]

/-- What the loop does with the tag of a field. -/
theorem switch_tag (rd : (f : Field R) → f.Cell → R.Stream → Outcome R.Stream f.Cell) (m : Message F)
    (i : F.Index) (s : R.Stream) :
    m.switch rd (F.get i).tag s = m.finish i (rd (F.get i) (m.cells i) s) := by
  have hw := Field.wireType_lt (F.get i)
  have hdiv : (F.get i).tag / 8 = (F.get i).number := by
    unfold Field.tag makeTag
    omega
  have hmod : (F.get i).tag % 8 = (F.get i).wireType := by
    unfold Field.tag makeTag
    omega
  rw [switch, hdiv, find_number, hmod]
  simp only [accept, if_true]

theorem turn_of_expectTag (rd : (f : Field R) → f.Cell → R.Stream → Outcome R.Stream f.Cell)
    (m : Message F) (h : R.expectTag (F.get i).tag s = some s') :
    m.turn rd s = m.finish i (rd (F.get i) (m.cells i) s') := by
  rw [turn, R.readTag_of_expectTag h, if_neg (tag_ne_zero i), switch_tag]

theorem follow_reads {c : (F.get i).Cell} {o : Outcome R.Stream (F.get i).Cell}
    (h : Reads (F.get i) c s o) (m : Message F) :
    follow (m.finish i o) = follow (m.finish i ((F.get i).readOne c s)) := by
  induction h with
  | one c s => rfl
  | @more c c' s s' s'' o h ht _ ih =>
    calc follow (m.finish i o) = follow ((m.set i c').finish i ((F.get i).readOne c' s'')) := by
          rw [ih, finish_set]
      _ = (m.set i c').plain s' := by rw [plain_eq, turn_of_expectTag _ _ ht, cells_set]
      _ = follow (m.finish i ((F.get i).readOne c s)) := by rw [h, finish, follow]

theorem follow_turn (m : Message F) (s : R.Stream) : follow (m.turn Field.read s) = m.plain s := by
  rw [plain_eq, turn, turn]
  split_ifs
  · rfl
  · unfold switch
    cases F.find ((R.readTag s).1 / 8) with
    | none => rfl
    | some i =>
      dsimp only
      unfold accept
      split_ifs
      · exact follow_reads (reads _ _ _) m
      · rfl
      · rfl

theorem follow_goto {t : Turn F} (h : m.goto i s = some t) : follow t = m.plain s := by
  obtain ⟨s', hs, rfl⟩ := Option.map_eq_some_iff.mp h
  rw [plain_eq, turn_of_expectTag _ _ hs]
  exact follow_reads (reads _ _ _) m

theorem follow_after {t : Turn F} (h : m.after i s = some t) : follow t = m.plain s := by
  rcases Option.or_eq_some_iff.mp h with h | ⟨-, h⟩
  · split_ifs at h
    exact follow_goto h
  · cases hn : F.next i with
    | some j =>
      rw [hn] at h
      exact follow_goto h
    | none =>
      rw [hn] at h
      obtain ⟨s', hs, rfl⟩ := Option.map_eq_some_iff.mp h
      rw [plain_eq, turn, R.readTag_of_expectAtEnd hs, if_pos rfl]

theorem parse_eq_plain (p : Option F.Index) (m : Message F) (s : R.Stream) : m.parse p s = m.plain s := by
  induction p, m, s using parse.induct with
  | case1 m s i m' s' h ih =>
    rw [parse, ← follow_turn, h]
    exact ih
  | case2 m s o h => rw [parse, ← follow_turn, h, follow]
  | case3 m s i j m' s' h ih =>
    rw [parse, ← follow_after h, h]
    exact ih
  | case4 m s i o h => rw [parse, ← follow_after h, h, follow]
  | case5 m s i h ih =>
    rw [parse, h]
    exact ih

theorem plain_le (m : Message F) (s : R.Stream) (h : m.plain s = .done m' s') :
    (R.bytes s').length ≤ (R.bytes s).length := by
  have hturn := plain_turn_shrinks m s
  induction m, s using plain.induct with
  | case1 m s j n t hbroke ih =>
    rw [hbroke] at hturn
    rw [plain_eq, hbroke] at h
    exact (ih h (plain_turn_shrinks n t)).trans (le_of_lt hturn)
  | case2 m s o hreturned =>
    rw [plain_eq, hreturned] at h
    rw [hreturned, show o = _ from h] at hturn
    exact hturn

end Message

open Message

/-- **The class** with these fields. -/
def generated (F : Fields R) : MessageLite R where
  Val := Message F
  new := new
  clear := clear
  mergeFrom := mergeFrom
  byteSize := byteSize
  getCachedSize := cachedSize
  serializeWithCachedSizes := serializeWithCachedSizes
  hasRequired := F.hasRequired
  isInitialized := isInitialized
  mergePartialFromCodedStream := mergePartialFromCodedStream
  Access m n := ∃ i c, (F.get i).Access (m.cells i) c ∧ n = m.set i c
  parse_le {m s m' s'} h := plain_le m s (by rwa [mergePartialFromCodedStream, parse_eq_plain] at h)

end LibMumble.MumbleProto
