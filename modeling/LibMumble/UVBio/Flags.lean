import LibMumble.UVBio
import Mathlib.Data.List.Induction

/-! # The retry flags of the BIO

`SSL_get_error` looks at the flags of the BIO to tell a read that has to wait from a failure.
`Read` sets them when nothing is queued, and nothing ever clears them: neither a `Read` that returns
bytes nor `Write`. So they say that some `Read` so far found nothing queued (`retryRead_after`), and
they describe the last call exactly in the histories in which, after such a `Read`, there is neither
a `Write` nor a `Read` that finds something. -/

namespace LibMumble.Bio

open UVBioState

/-- A call of `PutNewBuffer`, of `Read`, or of `Write` with what `uv_write` returns. -/
inductive Call
  | put (ba : ByteArray)
  | read (len : ℤ)
  | write (buf : ℕ) (len uvWrite : ℤ)

/-- Arrays put satisfy the invariant of their class, and a read has room for something. -/
def Call.Allowed : Call → Prop
  | .put ba => ba.WellFormed
  | .read len => 0 < len
  | .write _ _ _ => True

/-- One call, with what `Read` and `Write` return. -/
def call (b : Bio) : Call → Except Fault (Option ℤ × Bio)
  | .put ba => do
    let st ← b.ptr.putNewBuffer ba
    return (none, { b with ptr := st })
  | .read len => do
    let (ret, _, b) ← b.read len
    return (some ret, b)
  | .write buf len uvWrite =>
    let (ret, _, b) := b.write buf len uvWrite
    .ok (some ret, b)

/-- The BIO after these calls, from `Create` on. -/
def after (calls : List Call) : Except Fault Bio :=
  calls.foldlM (fun b c => (b.call c).map Prod.snd) create

/-- The call is a `Read`. -/
def Call.isRead : Call → Bool
  | .read _ => true
  | _ => false

/-- Every call returns, and after each `Read` or `Write` the retry-read flags are set if and only if
it was a `Read` that returned `-1`. -/
def FlagsDescribeLast (calls : List Call) : Prop :=
  ∀ pre c post, calls = pre ++ c :: post → ∃ b ret b', after pre = .ok b ∧ b.call c = .ok (ret, b') ∧
    (ret ≠ none → (b'.flags.retryRead = true ↔ c.isRead = true ∧ ret = some (-1)))

/-- A `Read` that finds nothing queued. -/
def Starves (b : Bio) (c : Call) : Prop := c.isRead = true ∧ b.ptr.hasBuffers = false

/-- Some `Read` of these calls finds nothing queued. -/
def Starved (calls : List Call) : Prop :=
  ∃ pre c post b, calls = pre ++ c :: post ∧ after pre = .ok b ∧ b.Starves c

/-- Once a `Read` found nothing queued, only arrays are put and only such `Read`s follow. -/
def QuietOnceStarved (calls : List Call) : Prop :=
  ∀ pre c post b, calls = pre ++ c :: post → after pre = .ok b → Starved pre →
    (∃ ba, c = .put ba) ∨ b.Starves c

variable {b : Bio} {c : Call} {calls : List Call}

/-- **One call**: it sets the flags if it is a `Read` that finds nothing, and never clears them. -/
theorem call_spec (hb : ∀ ba ∈ b.ptr.bufs, ba.WellFormed) (hc : c.Allowed) :
    ∃ ret b', b.call c = .ok (ret, b') ∧ (∀ ba ∈ b'.ptr.bufs, ba.WellFormed) ∧
      (ret = none ↔ ∃ ba, c = .put ba) ∧ (c.isRead = true ∧ ret = some (-1) ↔ b.Starves c) ∧
      (b'.flags.retryRead = true ↔ b.flags.retryRead = true ∨ b.Starves c) := by
  rcases b with ⟨flags, ⟨bufs⟩⟩
  cases c with
  | put ba =>
    have hw : ba.WellFormed := hc
    refine ⟨none, ⟨flags, ⟨bufs ++ [ba]⟩⟩, ?_, ?_, ?_, ?_, ?_⟩
    · simp [call, putNewBuffer_eq hw, bind, Except.bind, pure, Except.pure]
    · intro ba' hba'
      rcases List.mem_append.mp hba' with h | h
      · exact hb ba' h
      · rw [List.mem_singleton.mp h]
        exact hw
    · simp
    · simp [Starves, Call.isRead]
    · simp [Starves, Call.isRead]
  | read len =>
    have hlen : 0 < len := hc
    cases bufs with
    | nil =>
      refine ⟨some (-1), ⟨flags.setRetryRead, ⟨[]⟩⟩, rfl, hb, by simp, ?_, ?_⟩
      · simp [Starves, Call.isRead, hasBuffers]
      · simp [Starves, Call.isRead, hasBuffers, BioFlags.setRetryRead, BioFlags.retryRead]
    | cons ba rest =>
      have hw : ba.WellFormed := hb ba (by simp)
      have hrest : ∀ ba' ∈ rest, ba'.WellFormed := fun ba' h => hb ba' (by simp [h])
      by_cases hlt : len < ba.len
      · refine ⟨some len, ⟨flags, ⟨ba.remain len :: rest⟩⟩, ?_, ?_, by simp, ?_, ?_⟩
        · simp [call, read_part hw hlen.le hlt, bind, Except.bind, pure, Except.pure]
        · intro ba' hba'
          rcases List.mem_cons.mp hba' with rfl | h
          · exact (hw.remain hlen.le hlt.le).1
          · exact hrest ba' h
        · have : len ≠ -1 := by omega
          simp [Starves, Call.isRead, hasBuffers, this]
        · simp [Starves, hasBuffers]
      · refine ⟨some ba.len, ⟨flags, ⟨rest⟩⟩, ?_, hrest, by simp, ?_, ?_⟩
        · simp [call, read_whole hw (not_lt.mp hlt), bind, Except.bind, pure, Except.pure]
        · have hne : ba.len ≠ -1 := by
            have := hw.len_nonneg
            omega
          simp [Starves, Call.isRead, hasBuffers, hne]
        · simp [Starves, hasBuffers]
  | write buf len uvWrite =>
    refine ⟨some (if uvWrite ≠ uvOK then -1 else len), ⟨flags, ⟨bufs⟩⟩, ?_, hb, by simp, ?_, ?_⟩
    · rw [call, write_eq]
    · simp [Starves, Call.isRead]
    · simp [Starves, Call.isRead]

theorem after_snoc : after (calls ++ [c]) = (after calls).bind fun b => (b.call c).map Prod.snd := by
  rw [after, List.foldlM_append]
  simp only [List.foldlM_cons, List.foldlM_nil, bind_pure]
  rfl

theorem starved_snoc (h : after calls = .ok b) :
    Starved (calls ++ [c]) ↔ Starved calls ∨ b.Starves c := by
  constructor
  · rintro ⟨pre, c', post, b', he, hb', hs⟩
    rcases List.eq_nil_or_concat post with rfl | ⟨post', z, rfl⟩
    · obtain ⟨rfl, hc⟩ := List.append_inj' he rfl
      cases hc
      rw [h] at hb'
      cases hb'
      exact Or.inr hs
    · rw [List.concat_eq_append, ← List.cons_append, ← List.append_assoc] at he
      obtain ⟨rfl, -⟩ := List.append_inj' he rfl
      exact Or.inl ⟨pre, c', post', b', rfl, hb', hs⟩
  · rintro (⟨pre, c', post, b', rfl, hb', hs⟩ | hs)
    · exact ⟨pre, c', post ++ [c], b', by simp, hb', hs⟩
    · exact ⟨calls, c, [], b, rfl, h, hs⟩

/-- **The flags remember every starved `Read`.** -/
theorem retryRead_after (hall : ∀ c ∈ calls, c.Allowed) : ∃ b, after calls = .ok b ∧
    (∀ ba ∈ b.ptr.bufs, ba.WellFormed) ∧ (b.flags.retryRead = true ↔ Starved calls) := by
  induction calls using List.reverseRecOn with
  | nil =>
    refine ⟨create, rfl, by simp [create], ?_⟩
    have h0 : create.flags.retryRead = false := rfl
    simp [h0, Starved]
  | append_singleton calls c ih =>
    obtain ⟨b, hb, hwf, hflags⟩ := ih fun c' h => hall c' (by simp [h])
    obtain ⟨ret, b', hcall, hwf', -, -, hret⟩ := call_spec hwf (hall c (by simp))
    refine ⟨b', ?_, hwf', ?_⟩
    · rw [after_snoc, hb]
      simp [Except.bind, hcall, Except.map]
    · rw [hret, hflags, starved_snoc hb]

/-- **When the flags describe the last call**: in the histories that stay quiet once a `Read` found
nothing queued, and in no others. -/
theorem flagsDescribeLast_iff (hall : ∀ c ∈ calls, c.Allowed) :
    FlagsDescribeLast calls ↔ QuietOnceStarved calls := by
  constructor
  · intro h pre c post b he hb hst
    obtain ⟨b1, ret, b', hb1, hcall, hd⟩ := h pre c post he
    rw [hb] at hb1
    cases hb1
    have hpre : ∀ c' ∈ pre, c'.Allowed := fun c' hc' => hall c' (by simp [he, hc'])
    obtain ⟨b2, hb2, hwf, hflags⟩ := retryRead_after hpre
    rw [hb] at hb2
    cases hb2
    obtain ⟨ret2, b2, hcall2, -, hnone, hread, hret⟩ := call_spec hwf (hall c (by simp [he]))
    rw [hcall] at hcall2
    cases hcall2
    by_cases hr : ret = none
    · exact Or.inl (hnone.mp hr)
    · exact Or.inr (hread.mp ((hd hr).mp (hret.mpr (Or.inl (hflags.mpr hst)))))
  · intro h pre c post he
    have hpre : ∀ c' ∈ pre, c'.Allowed := fun c' hc' => hall c' (by simp [he, hc'])
    obtain ⟨b, hb, hwf, hflags⟩ := retryRead_after hpre
    obtain ⟨ret, b', hcall, -, hnone, hread, hret⟩ := call_spec hwf (hall c (by simp [he]))
    refine ⟨b, ret, b', hb, hcall, fun hr => ?_⟩
    rw [hret, hread, hflags]
    refine ⟨fun hs => hs.elim (fun hs => ?_) id, Or.inr⟩
    exact (h pre c post b he hb hs).resolve_left fun hp => hr (hnone.mpr hp)

/-- A buffer is read before the first `Read` that finds nothing. -/
theorem flagsDescribeLast_put_read :
    FlagsDescribeLast [.put ⟨some [1], 1, 1⟩, .read 5, .read 5] := by
  have hw : (⟨some [1], 1, 1⟩ : ByteArray).WellFormed :=
    ByteArray.wellFormed_exact [1] (by decide)
  refine (flagsDescribeLast_iff fun c hc => ?_).mpr ?_
  · simp only [List.mem_cons, List.not_mem_nil, or_false] at hc
    rcases hc with rfl | rfl | rfl
    · exact hw
    · exact (by decide : (0 : ℤ) < 5)
    · exact (by decide : (0 : ℤ) < 5)
  · intro pre c post b he hb hst
    match pre with
    | [] =>
      cases he
      exact Or.inl ⟨_, rfl⟩
    | [_] =>
      cases he
      obtain ⟨b1, hb1, -, hf⟩ := @retryRead_after [.put ⟨some [1], 1, 1⟩]
        fun c hc => List.mem_singleton.mp hc ▸ hw
      cases hb1
      exact absurd (hf.mpr hst) (by decide)
    | [_, _] =>
      cases he
      cases hb
      exact Or.inr ⟨rfl, rfl⟩
    | _ :: _ :: _ :: _ => simp at he

/-- After a `Read` that found nothing, a `Write` that fails in `uv_write` is seen as `want read`. -/
theorem failed_write_wants_read : (∀ c ∈ [Call.read 5, .write 0 3 (-1)], c.Allowed) ∧
    ¬ FlagsDescribeLast [.read 5, .write 0 3 (-1)] := by
  refine ⟨fun c hc => ?_, fun h => ?_⟩
  · simp only [List.mem_cons, List.not_mem_nil, or_false] at hc
    rcases hc with rfl | rfl
    · exact (by decide : (0 : ℤ) < 5)
    · exact trivial
  · obtain ⟨b, ret, b', hb, hcall, hd⟩ := h [.read 5] (.write 0 3 (-1)) [] rfl
    cases hb
    cases hcall
    exact absurd ((hd (by simp)).mp rfl).1 (by decide)

end LibMumble.Bio
