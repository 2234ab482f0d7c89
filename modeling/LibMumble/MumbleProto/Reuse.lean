import LibMumble.MumbleProto.RoundTrip

/-! # Messages that are used again

`Clear` passes over groups of fields without a bit, leaves a message inside a message where it is, and keeps
the messages of a repeated field for those that are added later. What was in a message before does not come
back: after whatever has happened to it, `Clear` makes it *blank*, and a blank message is after `MergeFrom`
what a new one is. The invariant is `Message.Clean`. -/

namespace LibMumble.MumbleProto

variable {R : Runtime} {F : Fields R}

/-- The messages are the same for whoever writes or checks them. -/
structure MessageLite.Same (C : MessageLite R) (v w : C.Val) : Prop where
  byteSize : (C.byteSize v).1 = (C.byteSize w).1
  getCachedSize : C.getCachedSize (C.byteSize v).2 = C.getCachedSize (C.byteSize w).2
  serialize : C.serializeWithCachedSizes (C.byteSize v).2 = C.serializeWithCachedSizes (C.byteSize w).2
  isInitialized : C.isInitialized v = C.isInitialized w

/-- Whatever is merged into it, nothing comes with it. -/
def MessageLite.Blank (C : MessageLite R) (v : C.Val) : Prop := ∀ w, C.Same (C.mergeFrom v w) w

/-- **A class whose messages may be used again.** -/
structure MessageLite.Reusable (C : MessageLite R) : Prop where
  new : C.Blank C.new
  clear : ∀ {v}, C.Usable v → C.Blank (C.clear v)

section Cleared

variable {C : MessageLite R} {v : C.Val}

theorem MessageLite.Cleared.usable (h : C.Cleared v) : C.Usable v := by
  obtain rfl | ⟨u, hu, rfl⟩ := h
  · exact .refl
  · exact hu.tail (.clear u)

theorem MessageLite.Cleared.blank (h : C.Cleared v) (hC : C.Reusable) : C.Blank v := by
  obtain rfl | ⟨u, hu, rfl⟩ := h
  · exact hC.new
  · exact hC.clear hu

end Cleared

namespace Field

variable {f : Field R} {c d : f.Cell}

/-- A field without its bit has its default, and the messages that are kept have been cleared. -/
def Clean : (f : Field R) → f.Cell → Prop
  | scalar _ _ _ default, c => c.has = false → c.value = default
  | enum _ _ default, c => c.has = false → c.value = default
  | text _ _, c => c.has = false → c.value = []
  | message _ C, c => C.Usable c.value ∧ (c.has = false → C.Blank c.value)
  | messages _ C, c => (∀ v ∈ c.elements, C.Usable v) ∧ ∀ v ∈ c.cleared, C.Cleared v
  | scalars _ _, _ | texts _, _ => True

/-- There is nothing in the field. -/
def Blank : (f : Field R) → f.Cell → Prop
  | scalar _ _ _ default, c => c = ⟨false, default⟩
  | enum _ _ default, c => c = ⟨false, default⟩
  | text _ _, c => c = ⟨false, []⟩
  | message _ C, c => c.has = false ∧ C.Blank c.value
  | scalars _ _, c => c = []
  | texts _, c => c.elements = []
  | messages _ C, c => c.elements = [] ∧ ∀ v ∈ c.cleared, C.Cleared v

section Invariant

variable (hf : ∀ C ∈ f.messageClass, C.Reusable)

include hf

theorem clean_new : f.Clean f.new := by
  cases f with
  | scalar _ _ _ _ | enum _ _ _ | text _ _ => exact fun _ => rfl
  | message n C => exact ⟨.refl, fun _ => (hf C rfl).new⟩
  | messages n C => exact ⟨nofun, nofun⟩
  | scalars _ _ | texts _ => trivial

theorem blank_new : f.Blank f.new := by
  cases f with
  | message n C => exact ⟨rfl, (hf C rfl).new⟩
  | messages n C => exact ⟨rfl, nofun⟩
  | _ => rfl

omit hf in
/-- What is kept for reuse after `Clear`. -/
theorem cleared_clear {C : MessageLite R} {n : ℕ} {c : (messages n C : Field R).Cell}
    (h : (messages n C : Field R).Clean c) : ∀ v ∈ (c.clear C.clear).cleared, C.Cleared v := by
  intro v hv
  rcases List.mem_append.mp hv with hv | hv
  · obtain ⟨u, hu, rfl⟩ := List.mem_map.mp hv
    exact Or.inr ⟨u, h.1 u hu, rfl⟩
  · exact h.2 v hv

theorem blank_clear (h : f.Clean c) : f.Blank (f.clearHas (f.clear c)) := by
  cases f with
  | text n required =>
    obtain ⟨has, b⟩ := c
    cases has with
    | false => exact congrArg (Member.mk false) (h rfl)
    | true => rfl
  | message n C =>
    obtain ⟨has, v⟩ := c
    cases has with
    | false => exact ⟨rfl, h.2 rfl⟩
    | true => exact ⟨rfl, (hf C rfl).clear h.1⟩
  | messages n C => exact ⟨rfl, cleared_clear h⟩
  | _ => rfl

theorem clean_clear (h : f.Clean c) : f.Clean (f.clearHas (f.clear c)) := by
  have hblank := blank_clear hf h
  cases f with
  | scalar _ _ _ _ | enum _ _ _ => exact fun _ => rfl
  | text n required => exact fun _ => congrArg Member.value hblank
  | message n C =>
    obtain ⟨has, v⟩ := c
    cases has with
    | false => exact ⟨h.1, fun _ => hblank.2⟩
    | true => exact ⟨h.1.tail (.clear v), fun _ => hblank.2⟩
  | messages n C => exact ⟨nofun, cleared_clear h⟩
  | scalars _ _ | texts _ => trivial

omit hf in
theorem clean_mergeFrom (h : f.Clean c) (d : f.Cell) : f.Clean (f.mergeFrom c d) := by
  cases f with
  | scalar _ _ _ _ | enum _ _ _ | text _ _ =>
    obtain ⟨has, v⟩ := d
    cases has with
    | false => exact h
    | true => exact fun hhas => nomatch hhas
  | message n C =>
    obtain ⟨has, v⟩ := d
    cases has with
    | false => exact h
    | true => exact ⟨h.1.tail (.mergeFrom _ v), fun hhas => nomatch hhas⟩
  | messages n C =>
    have hkept : ∀ v ∈ c.cleared, C.Usable v := fun v hv => (h.2 v hv).usable
    obtain ⟨l, -, husable, hel, hcl⟩ := @RepeatedPtrField.exists_mergeFrom _ _ C.new C.mergeFrom c
      C.Usable .refl hkept d
    refine ⟨fun v hv => ?_, fun v hv => h.2 v (hcl v hv)⟩
    rw [show (mergeFrom (messages n C) c d).elements = _ from hel] at hv
    rcases List.mem_append.mp hv with hv | hv
    · exact h.1 v hv
    · obtain ⟨p, hp, rfl⟩ := List.mem_map.mp hv
      exact (husable p hp).tail (.mergeFrom p.1 p.2)
  | scalars _ _ | texts _ => trivial

omit hf in
theorem clean_byteSize (h : f.Clean c) : f.Clean (f.byteSize c).2 := by
  cases f with
  | message n C =>
    obtain ⟨has, v⟩ := c
    cases has with
    | false => exact h
    | true => exact ⟨h.1.tail (.byteSize v), fun hhas => nomatch hhas⟩
  | messages n C =>
    refine ⟨fun v hv => ?_, h.2⟩
    obtain ⟨u, hu, rfl⟩ := List.mem_map.mp hv
    exact (h.1 u hu).tail (.byteSize u)
  | scalar _ _ _ _ | enum _ _ _ | text _ _ => exact h
  | scalars _ _ | texts _ => trivial

theorem clean_access (h : f.Clean c) (hd : f.Access c d) : f.Clean d := by
  cases f with
  | scalar _ _ _ _ | enum _ _ _ | text _ _ =>
    intro hhas
    obtain htrue | rfl := hd
    · rw [htrue] at hhas
      cases hhas
    · rfl
  | message n C =>
    obtain ⟨htrue, husable⟩ | rfl | rfl := hd
    · exact ⟨husable, fun hhas => by rw [htrue] at hhas; cases hhas⟩
    · exact ⟨h.1.tail (.clear _), fun _ => (hf C rfl).clear h.1⟩
    · exact ⟨.refl, fun _ => (hf C rfl).new⟩
  | messages n C => exact hd
  | scalars _ _ | texts _ => trivial

omit hf in
theorem clear_of_not_has (hr : f.repeated = false) (hhas : f.has c = false) (h : f.Clean c) :
    f.clear c = c := by
  cases f with
  | scalar _ _ _ _ | enum _ _ _ => exact congrArg (Member.mk c.has) (h hhas).symm
  | text _ _ | message _ _ =>
    obtain ⟨has, v⟩ := c
    cases hhas
    rfl
  | scalars _ _ | texts _ | messages _ _ => cases hr

omit hf in
theorem value_readValue {α : Type} (k : Primitive) (a : α) (store : k.Val → α) (s : R.Stream) :
    (readValue R k a store s).value = a ∨ ∃ v, (readValue R k a store s).value = store v := by
  unfold readValue
  cases R.readPrimitive k s with
  | none => exact Or.inl rfl
  | some r => exact Or.inr ⟨r.1, rfl⟩

/-- Also where it fails. -/
theorem clean_readOne (h : f.Clean c) (s : R.Stream) : f.Clean (f.readOne c s).value := by
  cases f with
  | scalar n required k default =>
    show Clean (scalar n required k default) (readValue R k c _ s).value
    obtain hv | ⟨v, hv⟩ := value_readValue k c (fun v => (⟨true, v⟩ : Member k.Val)) s
    · rw [hv]
      exact h
    · rw [hv]
      exact fun hhas => nomatch hhas
  | enum n values default =>
    show Clean (enum n values default) (readValue R .enum c _ s).value
    obtain hv | ⟨v, hv⟩ := value_readValue .enum c (fun v =>
      ((Enumerator.ofInt values v).map fun e => (⟨true, e⟩ : Member (Enumerator values))).getD c) s
    · rw [hv]
      exact h
    · rw [hv]
      cases Enumerator.ofInt values v with
      | none => exact h
      | some e => exact fun hhas => nomatch hhas
  | text n required =>
    show Clean (text n required) (Outcome.map _ (R.readString c.value s)).value
    rw [Outcome.value_map]
    exact fun hhas => nomatch hhas
  | message n C =>
    show Clean (message n C) (Outcome.map _ (R.readMessage C.mergePartialFromCodedStream c.value s)).value
    rw [Outcome.value_map]
    refine ⟨?_, fun hhas => nomatch hhas⟩
    obtain hv | ⟨s', hv⟩ := R.readMessage_value C.mergePartialFromCodedStream c.value s
    · show C.Usable (R.readMessage C.mergePartialFromCodedStream c.value s).value
      rw [hv]
      exact h.1
    · show C.Usable (R.readMessage C.mergePartialFromCodedStream c.value s).value
      rw [hv]
      exact h.1.tail (.parse _ s')
  | messages n C =>
    show Clean (messages n C) (Outcome.map _ (R.readMessage C.mergePartialFromCodedStream _ s)).value
    rw [Outcome.value_map]
    have hnext : C.Usable (c.next C.new) :=
      RepeatedPtrField.holds_next .refl fun v hv => (h.2 v hv).usable
    refine ⟨fun v hv => ?_, fun v hv => h.2 v (List.mem_of_mem_tail hv)⟩
    rcases List.mem_append.mp hv with hv | hv
    · exact h.1 v hv
    · rw [List.mem_singleton.mp hv]
      obtain hv | ⟨s', hv⟩ := R.readMessage_value C.mergePartialFromCodedStream (c.next C.new) s
      · rwa [hv]
      · rw [hv]
        exact hnext.tail (.parse _ s')
  | scalars _ _ | texts _ => trivial

end Invariant

/-! ### Merging into nothing -/

/-- The fields are the same for whoever writes or checks them. -/
structure Same (f : Field R) (c d : f.Cell) : Prop where
  byteSize : (f.byteSize c).1 = (f.byteSize d).1
  write : f.write (f.byteSize c).2 = f.write (f.byteSize d).2
  isInitialized : f.isInitialized c = f.isInitialized d

theorem same_of_blank (hf : ∀ C ∈ f.messageClass, C.Reusable) (h : f.Blank d) (c : f.Cell) :
    f.Same (f.mergeFrom d c) c := by
  cases f with
  | scalar _ _ _ _ | enum _ _ _ | text _ _ =>
    obtain ⟨has, v⟩ := c
    cases h
    cases has <;> exact ⟨rfl, rfl, rfl⟩
  | message n C =>
    obtain ⟨has, v⟩ := c
    obtain ⟨hhas, hblank⟩ := h
    obtain ⟨dhas, u⟩ := d
    cases hhas
    cases has with
    | false =>
      refine ⟨rfl, rfl, ?_⟩
      show (!C.hasRequired || true || _) = (!C.hasRequired || true || _)
      simp
    | true =>
      have hsame := hblank v
      refine ⟨?_, ?_, ?_⟩
      · show tagSize n + C.messageSize (C.mergeFrom u v) = tagSize n + C.messageSize v
        rw [MessageLite.messageSize, MessageLite.messageSize, hsame.byteSize]
      · show writeField R n 2 (C.write (C.byteSize (C.mergeFrom u v)).2) = writeField R n 2 (C.write _)
        rw [MessageLite.write, MessageLite.write, hsame.getCachedSize, hsame.serialize]
        rfl
      · show (!C.hasRequired || false || C.isInitialized (C.mergeFrom u v)) = _
        rw [hsame.isInitialized]
        rfl
  | scalars _ _ =>
    cases h
    exact ⟨rfl, rfl, rfl⟩
  | texts n =>
    have hel : ((texts n : Field R).mergeFrom d c).elements = c.elements := by
      obtain ⟨l, hl, -, hel, -⟩ := @RepeatedPtrField.exists_mergeFrom _ _ [] (fun _ b => b) d
        (fun _ => True) trivial (fun _ _ => trivial) c
      rw [show (d.elements : List (List UInt8)) = [] from h, List.nil_append, hl] at hel
      exact hel
    refine ⟨?_, ?_, rfl⟩
    · show tagSize n * List.length _ + (List.map _ _).sum = tagSize n * _ + _
      rw [hel]
    · show List.flatMap _ ((texts n : Field R).mergeFrom d c).elements = List.flatMap _ c.elements
      rw [hel]
  | messages n C =>
    -- the messages are merged into messages that were new or kept
    have hblank : ∀ v ∈ d.cleared, C.Blank v := fun v hv => (h.2 v hv).blank (hf C rfl)
    obtain ⟨l, hl, hsame, hel, -⟩ := @RepeatedPtrField.exists_mergeFrom _ _ C.new C.mergeFrom d
      C.Blank (hf C rfl).new hblank c
    rw [h.1, List.nil_append] at hel
    refine ⟨?_, ?_, ?_⟩
    · show tagSize n * List.length _ + (List.map C.messageSize _).sum = tagSize n * List.length _ + _
      rw [show (mergeFrom (messages n C) d c).elements = _ from hel, ← hl, List.length_map, List.length_map,
        List.map_map, List.map_map]
      refine congrArg (fun sizes => _ + List.sum sizes) (List.map_congr_left fun p hp => ?_)
      show C.messageSize (C.mergeFrom p.1 p.2) = C.messageSize p.2
      rw [MessageLite.messageSize, MessageLite.messageSize, (hsame p hp p.2).byteSize]
    · show (List.map _ _).flatMap _ = (List.map _ _).flatMap _
      rw [show (mergeFrom (messages n C) d c).elements = _ from hel, ← hl, List.map_map, List.map_map,
        List.flatMap_map, List.flatMap_map]
      refine List.flatMap_congr fun p hp => congrArg (writeField R n 2) ?_
      show C.write (C.byteSize (C.mergeFrom p.1 p.2)).2 = C.write (C.byteSize p.2).2
      rw [MessageLite.write, MessageLite.write, (hsame p hp p.2).getCachedSize, (hsame p hp p.2).serialize]
    · show (!C.hasRequired || List.all _ C.isInitialized) = (!C.hasRequired || List.all _ C.isInitialized)
      rw [show (mergeFrom (messages n C) d c).elements = _ from hel, ← hl, List.all_map, List.all_map]
      refine congrArg (!C.hasRequired || ·) ?_
      rw [Bool.eq_iff_iff, List.all_eq_true, List.all_eq_true]
      exact forall₂_congr fun p hp => iff_of_eq (congrArg (· = true) (hsame p hp p.2).isInitialized)

end Field

/-- **The invariant.** -/
def Message.Clean (m : Message F) : Prop := ∀ i, (F.get i).Clean (m.cells i)

/-- It holds whatever a turn comes to. -/
def Turn.Clean : Turn F → Prop
  | .broke _ m _ => m.Clean
  | .returned o => o.value.Clean

namespace Message

variable {m : Message F}

theorem cells_clear (h : m.Clean) (i : F.Index) :
    m.clear.cells i = (F.get i).clearHas ((F.get i).clear (m.cells i)) := by
  unfold clear
  dsimp only
  cases hv : m.visits i with
  | true => rfl
  | false =>
    obtain ⟨hr, hhas⟩ := passed_over hv
    rw [Field.clear_of_not_has hr hhas (h i)]
    rfl

theorem cells_set_other {i j : F.Index} (h : j ≠ i) (c : (F.get i).Cell) :
    (m.set i c).cells j = m.cells j := by
  unfold Message.set
  exact Function.update_of_ne h c m.cells

theorem Clean.set (h : m.Clean) {i : F.Index} {c : (F.get i).Cell} (hc : (F.get i).Clean c) :
    (m.set i c).Clean := by
  intro j
  by_cases hj : j = i
  · subst hj
    rwa [cells_set]
  · rw [cells_set_other hj]
    exact h j

theorem clean_accept {f : Field R} {c : f.Cell} {s : R.Stream} {w : ℕ} {o : Outcome R.Stream f.Cell}
    (hf : ∀ C ∈ f.messageClass, C.Reusable) (h : f.Clean c)
    (ho : accept Field.readOne f w c s = some o) : f.Clean o.value := by
  unfold accept at ho
  split_ifs at ho
  · cases ho
    exact Field.clean_readOne hf h s
  · cases f with
    | scalars n k => trivial
    | _ => cases ho

section Invariant

variable (hF : ∀ f ∈ F.list, ∀ C ∈ f.messageClass, C.Reusable)

include hF

theorem clean_turn (h : m.Clean) (s : R.Stream) : (m.turn Field.readOne s).Clean := by
  have hun : ∀ tag s, (m.uninterpreted tag s).Clean := by
    intro tag s
    unfold uninterpreted
    split_ifs
    · exact h
    · cases R.skipField s tag <;> exact h
  unfold turn
  split_ifs
  · exact h
  unfold switch
  cases F.find ((R.readTag s).1 / 8) with
  | none => exact hun _ _
  | some i =>
    dsimp only
    cases hacc : accept Field.readOne (F.get i) ((R.readTag s).1 % 8) (m.cells i) (R.readTag s).2 with
    | none => exact hun _ _
    | some o =>
      have hclean := clean_accept (hF _ (List.get_mem _ _)) (h i) hacc
      cases o <;> exact h.set hclean

theorem clean_plain (h : m.Clean) (s : R.Stream) : (m.plain s).value.Clean := by
  induction m, s using plain.induct with
  | case1 m s j n t hbroke ih =>
    rw [plain_eq, hbroke]
    have hturn := clean_turn hF h s
    rw [hbroke] at hturn
    exact ih hturn
  | case2 m s o hreturned =>
    rw [plain_eq, hreturned]
    have hturn := clean_turn hF h s
    rwa [hreturned] at hturn

theorem clean_clear (h : m.Clean) : m.clear.Clean := by
  intro i
  rw [cells_clear h]
  exact Field.clean_clear (hF _ (List.get_mem _ _)) (h i)

omit hF in
theorem clean_mergeFrom (h : m.Clean) (e : Message F) : (m.mergeFrom e).Clean := by
  intro i
  rw [cells_mergeFrom]
  exact Field.clean_mergeFrom (h i) _

omit hF in
theorem clean_byteSize (h : m.Clean) : m.byteSize.2.Clean := by
  intro i
  show (F.get i).Clean (m.cellSize i).2
  rw [cellSize_eq]
  exact Field.clean_byteSize (h i)

theorem clean_parse (h : m.Clean) (s : R.Stream) : (m.parse none s).value.Clean := by
  rw [parse_eq_plain]
  exact clean_plain hF h s

theorem clean_step {v w : (generated F).Val} (h : Message.Clean v) (hw : (generated F).Step v w) :
    Message.Clean w := by
  cases hw with
  | clear => exact clean_clear hF h
  | mergeFrom e => exact clean_mergeFrom h e
  | byteSize => exact clean_byteSize h
  | parse s => exact clean_parse hF h s
  | access hacc =>
    obtain ⟨i, c, hc, rfl⟩ := hacc
    exact h.set (Field.clean_access (hF _ (List.get_mem _ _)) (h i) hc)

theorem clean_of_usable {v : (generated F).Val} (h : (generated F).Usable v) : Message.Clean v := by
  induction h with
  | refl => exact fun i => Field.clean_new (hF _ (List.get_mem _ _))
  | tail _ hstep ih => exact clean_step hF ih hstep

/-- Merging into a message with nothing in its fields. -/
theorem same_of_blank (h : ∀ i, (F.get i).Blank (m.cells i)) (e : Message F) :
    (generated F).Same (m.mergeFrom e) e := by
  have hsame : ∀ i, (F.get i).Same ((m.mergeFrom e).cells i) (e.cells i) := by
    intro i
    rw [cells_mergeFrom]
    exact Field.same_of_blank (hF _ (List.get_mem _ _)) (h i) _
  have hsize : (m.mergeFrom e).byteSize.1 = e.byteSize.1 := by
    unfold byteSize
    dsimp only
    refine congrArg List.sum (List.map_congr_left fun i _ => ?_)
    rw [cellSize_eq, cellSize_eq, (hsame i).byteSize]
  refine ⟨hsize, hsize, ?_, ?_⟩
  · show (m.mergeFrom e).byteSize.2.serializeWithCachedSizes = e.byteSize.2.serializeWithCachedSizes
    rw [serialize_byteSize, serialize_byteSize]
    exact List.flatMap_congr fun i _ => (hsame i).write
  · exact List.all_congr rfl fun i => (hsame i).isInitialized

end Invariant

end Message

open Message

/-- **The generated classes may be used again** if the classes of their fields may. -/
theorem reusable_generated (hF : ∀ f ∈ F.list, ∀ C ∈ f.messageClass, C.Reusable) :
    (generated F).Reusable where
  new := same_of_blank hF fun i => Field.blank_new (hF _ (List.get_mem _ _))
  clear {m} h := same_of_blank hF fun i => by
    have hclean := clean_of_usable hF h
    rw [show ((generated F).clear m).cells i = _ from cells_clear hclean i]
    exact Field.blank_clear (hF _ (List.get_mem _ _)) (hclean i)

end LibMumble.MumbleProto
