import LibMumble.ByteArray
import LibMumble.Error
import LibMumble.Lib.Stream

/-! # `UVBio`

The BIO through which OpenSSL reads what `OnRead` received: a list of `ByteArray`s, filled at the
back by `PutNewBuffer` and emptied at the front by `Read`, which puts the unread rest of a buffer
back at the front. Under the invariant that every queued array is well formed and not empty, `Read`
is one `Takes` step on the concatenation of the queued bytes (`Bio.read_takes`), whatever the
capacities are, and so the byte stream is delivered intact (`uvbio_delivers_stream`). -/

namespace LibMumble

open Lib

/-- The bits of `b->flags` that the `BIO_set_retry_*` macros use. -/
structure BioFlags where
  read : Bool := false
  write : Bool := false
  ioSpecial : Bool := false
  shouldRetry : Bool := false
  deriving DecidableEq, Repr

/-- `BIO_set_retry_read`, which only sets bits. -/
def BioFlags.setRetryRead (f : BioFlags) : BioFlags := { f with read := true, shouldRetry := true }

/-- `BIO_should_read` and `BIO_should_retry`. -/
def BioFlags.retryRead (f : BioFlags) : Bool := f.read && f.shouldRetry

/-- The class `UVBioState`. -/
structure UVBioState where
  bufs : List ByteArray
  deriving DecidableEq, Repr

namespace UVBioState

/-- `UVBioState::PutNewBuffer`: the argument is passed by value and copied into the list. -/
def putNewBuffer (st : UVBioState) (ba : ByteArray) : Except Fault UVBioState := do
  let ba ← ba.copy
  let ba ← ba.copy
  return { st with bufs := st.bufs ++ [ba] }

/-- `UVBioState::PutOldBuffer`. -/
def putOldBuffer (st : UVBioState) (ba : ByteArray) : Except Fault UVBioState := do
  let ba ← ba.copy
  let ba ← ba.copy
  return { st with bufs := ba :: st.bufs }

/-- `UVBioState::HasBuffers`. -/
def hasBuffers (st : UVBioState) : Bool := 0 < st.bufs.length

/-- `UVBioState::GetBuffer`. -/
def getBuffer (st : UVBioState) : Except Fault (ByteArray × UVBioState) :=
  match st.bufs with
  | [] => .error .assertion
  | ba :: rest => do
    let front ← ba.copy
    return (front, { st with bufs := rest })

/-- The bytes that are queued. -/
def pending (st : UVBioState) : List UInt8 := (st.bufs.map ByteArray.content).flatten

/-- Every queued array is well formed and not empty. -/
def Clean (st : UVBioState) : Prop := ∀ ba ∈ st.bufs, ba.WellFormed ∧ 0 < ba.len

end UVBioState

/-- A `BIO` with its `UVBioState`. -/
structure Bio where
  flags : BioFlags
  ptr : UVBioState
  deriving DecidableEq, Repr

/-- The BIO after `UVBioState::Create`, with a new `UVBioState` attached to it. -/
def Bio.create : Bio := ⟨{}, ⟨[]⟩⟩

/-- `UVBioState::Read`: the value returned, the bytes written to `buf`, and the BIO afterwards. -/
def Bio.read (b : Bio) (len : ℤ) : Except Fault (ℤ × List UInt8 × Bio) :=
  if ¬ b.ptr.hasBuffers then .ok (-1, [], { b with flags := b.flags.setRetryRead })
  else do
    let (ba, st) ← b.ptr.getBuffer
    if len < ba.length then do
      let remain ← ba.slice len (-1)
      let st ← st.putOldBuffer remain
      let data ← readBlock ba.data 0 len
      return (len, data, { b with ptr := st })
    else do
      let data ← readBlock ba.data 0 ba.length
      return (ba.length, data, { b with ptr := st })

/-- `uv_buf_t`: an address and a number of bytes, which stay where they are. -/
structure UVBuf where
  base : ℕ
  len : ℕ
  deriving DecidableEq, Repr

/-- `UVBioState::Write`, where `uvWrite` is what `uv_write` returns: the value returned, what
`uv_write` was given, and the BIO afterwards. -/
def Bio.write (b : Bio) (buf : ℕ) (len uvWrite : ℤ) : ℤ × UVBuf × Bio :=
  let uvbuf : UVBuf := ⟨buf, (len % 2 ^ 64).toNat⟩
  if uvWrite ≠ uvOK then (-1, uvbuf, b) else (len, uvbuf, b)

namespace UVBioState

variable {st : UVBioState} {ba : ByteArray}

theorem putNewBuffer_eq (h : ba.WellFormed) :
    st.putNewBuffer ba = .ok ⟨st.bufs ++ [ba]⟩ := by
  simp [putNewBuffer, h.copy_eq, bind, Except.bind, pure, Except.pure]

theorem putOldBuffer_eq (h : ba.WellFormed) : st.putOldBuffer ba = .ok ⟨ba :: st.bufs⟩ := by
  simp [putOldBuffer, h.copy_eq, bind, Except.bind, pure, Except.pure]

@[simp] theorem pending_nil : pending ⟨[]⟩ = [] := rfl

@[simp] theorem pending_cons (rest : List ByteArray) :
    pending ⟨ba :: rest⟩ = ba.content ++ pending ⟨rest⟩ := rfl

@[simp] theorem pending_snoc : pending ⟨st.bufs ++ [ba]⟩ = st.pending ++ ba.content := by
  simp [pending]

theorem clean_nil : Clean ⟨[]⟩ := fun _ h => absurd h (by simp)

theorem Clean.snoc (h : st.Clean) (hw : ba.WellFormed) (hl : 0 < ba.len) :
    Clean ⟨st.bufs ++ [ba]⟩ := by
  intro b hb
  rcases List.mem_append.mp hb with hb | hb
  · exact h b hb
  · rw [List.mem_singleton.mp hb]; exact ⟨hw, hl⟩

theorem Clean.pending_eq_nil (h : st.Clean) : st.pending = [] ↔ st.bufs = [] := by
  rcases st with ⟨_ | ⟨b, rest⟩⟩
  · simp
  · obtain ⟨hw, hl⟩ := h b (by simp)
    simp [hw.content_ne_nil.mpr hl]

end UVBioState

open UVBioState

/-- The part of a well-formed array that fits into `len` bytes, and what is left of it. -/
theorem readBlock_content {ba : ByteArray} (hw : ba.WellFormed) {len : ℤ} (h0 : 0 ≤ len)
    (hle : len ≤ ba.len) :
    readBlock ba.data 0 len = .ok (ba.content.take len.toNat) := by
  have hc := hw.cap_eq_data
  have := hw.len_le
  rw [readBlock_ok le_rfl h0 (by omega), ByteArray.content, List.take_take]
  simp only [Int.toNat_zero, List.drop_zero]
  congr 2
  omega

/-- `Write` leaves the BIO alone. -/
theorem Bio.write_eq {b : Bio} {buf : ℕ} {len uvWrite : ℤ} : b.write buf len uvWrite =
    (if uvWrite ≠ uvOK then -1 else len, ⟨buf, (len % 2 ^ 64).toNat⟩, b) := by
  unfold Bio.write
  split_ifs <;> rfl

/-- What is left of an array after its first `len` bytes. -/
def ByteArray.remain (ba : ByteArray) (len : ℤ) : ByteArray :=
  ⟨some (ba.content.drop len.toNat), ba.len - len, ba.len - len⟩

section Read

variable {ba : ByteArray} {rest : List ByteArray} {flags : BioFlags} {len : ℤ} (hw : ba.WellFormed)
include hw

theorem ByteArray.WellFormed.remain (h0 : 0 ≤ len) (hlt : len ≤ ba.len) :
    (ba.remain len).WellFormed ∧ (ba.remain len).content = ba.content.drop len.toNat := by
  have h1 := hw.len_le
  have h2 := hw.cap_lt
  have hcl := hw.length_content
  have hdl : ((ba.content.drop len.toNat).length : ℤ) = ba.len - len := by
    rw [List.length_drop]; omega
  rw [ByteArray.remain, ← hdl]
  exact ⟨ByteArray.wellFormed_exact _ (by omega), ByteArray.content_exact _⟩

/-- A `Read` with less room than the front array has bytes. -/
theorem Bio.read_part (h0 : 0 ≤ len) (hlt : len < ba.len) :
    (⟨flags, ⟨ba :: rest⟩⟩ : Bio).read len =
      .ok (len, ba.content.take len.toNat, ⟨flags, ⟨ba.remain len :: rest⟩⟩) := by
  have hhas : UVBioState.hasBuffers ⟨ba :: rest⟩ = true := by simp [UVBioState.hasBuffers]
  have hrem := @putOldBuffer_eq ⟨rest⟩ _ (hw.remain h0 hlt.le).1
  simp only [ByteArray.remain] at hrem ⊢
  simp only [Bio.read, hhas, UVBioState.getBuffer, hw.copy_eq, ByteArray.length, bind,
    Except.bind, pure, Except.pure, not_true_eq_false, if_false, if_pos hlt,
    hw.slice_eq h0 hlt.le, hrem, readBlock_content hw h0 hlt.le]

/-- A `Read` with room for the front array. -/
theorem Bio.read_whole (hle : ba.len ≤ len) :
    (⟨flags, ⟨ba :: rest⟩⟩ : Bio).read len = .ok (ba.len, ba.content, ⟨flags, ⟨rest⟩⟩) := by
  have hhas : UVBioState.hasBuffers ⟨ba :: rest⟩ = true := by simp [UVBioState.hasBuffers]
  have hall : ba.content.take ba.len.toNat = ba.content := by
    have := hw.length_content
    rw [List.take_of_length_le]; omega
  simp only [Bio.read, hhas, UVBioState.getBuffer, hw.copy_eq, ByteArray.length, bind,
    Except.bind, pure, Except.pure, not_true_eq_false, if_false, if_neg (not_lt.mpr hle),
    readBlock_content hw hw.len_nonneg le_rfl, hall]

end Read

/-- **`Read` is a read of the stream of queued bytes**: it answers `-1` with the retry-read flag if
nothing is queued, and otherwise the length of the piece it took. -/
theorem Bio.read_takes {b : Bio} (hb : b.ptr.Clean) {len : ℤ} (hlen : 0 < len) :
    ∃ ret data b', b.read len = .ok (ret, data, b') ∧ b'.ptr.Clean ∧
      ∃ ans, Takes len.toNat b.ptr.pending ans b'.ptr.pending ∧ ans.getD [] = data ∧
        (ans = none → ret = -1 ∧ b'.flags = b.flags.setRetryRead) ∧
        (ans ≠ none → ret = data.length) := by
  rcases b with ⟨flags, ⟨bufs⟩⟩
  cases bufs with
  | nil =>
    exact ⟨-1, [], ⟨flags.setRetryRead, ⟨[]⟩⟩, rfl, clean_nil, none, .empty, rfl,
      fun _ => ⟨rfl, rfl⟩, fun h => absurd rfl h⟩
  | cons ba rest =>
    obtain ⟨hw, hpos⟩ := hb ba (by simp)
    have hrest : Clean ⟨rest⟩ := fun b' hb' => hb b' (by simp [hb'])
    have hcl := hw.length_content
    by_cases hlt : len < ba.len
    · -- the buffer is longer than the room: its rest goes back to the front of the list
      obtain ⟨hremw, hremc⟩ := hw.remain hlen.le hlt.le
      have htl : ((ba.content.take len.toNat).length : ℤ) = len := by
        rw [List.length_take]; omega
      refine ⟨len, ba.content.take len.toNat, _, Bio.read_part hw hlen.le hlt, ?_,
        some (ba.content.take len.toNat), ?_, rfl, fun h => (by cases h), fun _ => htl.symm⟩
      · intro b' hb'
        rcases List.mem_cons.mp hb' with rfl | hb'
        · exact ⟨hremw, by simp only [ByteArray.remain]; omega⟩
        · exact hrest b' hb'
      · have hsplit : (ba.content.take len.toNat) ++ pending ⟨ba.remain len :: rest⟩ =
            pending ⟨ba :: rest⟩ := by
          rw [pending_cons, pending_cons, hremc, ← List.append_assoc, List.take_append_drop]
        rw [← hsplit]
        refine .piece ?_ (by omega)
        rw [← List.length_pos_iff]; omega
    · refine ⟨ba.len, ba.content, _, Bio.read_whole hw (not_lt.mp hlt), hrest, some ba.content, ?_,
        rfl, fun h => (by cases h), fun _ => hcl.symm⟩
      rw [pending_cons]
      exact .piece (hw.content_ne_nil.mpr hpos) (by omega)

/-! ### The stream over a whole history -/

/-- A call of `PutNewBuffer` or of `Read`. -/
inductive BioCall
  | put (ba : ByteArray)
  | read (len : ℤ)

/-- The calls that are made: arrays put are not empty, and a read has room for something. -/
def BioCall.Allowed : BioCall → Prop
  | .put ba => ba.WellFormed ∧ ba.content ≠ []
  | .read len => 0 < len

/-- The BIO with the history of the bytes put and of the bytes returned by `Read`. -/
structure Traffic where
  bio : Bio
  put : List UInt8
  got : List UInt8

/-- One call. -/
def Traffic.call (t : Traffic) : BioCall → Except Fault Traffic
  | .put ba => do
    let st ← t.bio.ptr.putNewBuffer ba
    return { t with bio := { t.bio with ptr := st }, put := t.put ++ ba.content }
  | .read len => do
    let (_, data, bio) ← t.bio.read len
    return { t with bio := bio, got := t.got ++ data }

/-- The calls in order, from a new BIO. -/
def traffic (calls : List BioCall) : Except Fault Traffic :=
  calls.foldlM Traffic.call ⟨Bio.create, [], []⟩

/-- What holds at every point: the queue is clean, and what was returned followed by what is queued
is what was put. -/
structure Traffic.Intact (t : Traffic) : Prop where
  clean : t.bio.ptr.Clean
  stream : t.got ++ t.bio.ptr.pending = t.put

theorem Traffic.call_intact {t : Traffic} (h : t.Intact) {c : BioCall} (hc : c.Allowed) :
    ∃ t', t.call c = .ok t' ∧ t'.Intact := by
  obtain ⟨hcl, hs⟩ := h
  cases c with
  | put ba =>
    obtain ⟨hw, hne⟩ := hc
    refine ⟨⟨⟨t.bio.flags, ⟨t.bio.ptr.bufs ++ [ba]⟩⟩, t.put ++ ba.content, t.got⟩, ?_, ?_, ?_⟩
    · simp [Traffic.call, putNewBuffer_eq hw, bind, Except.bind, pure, Except.pure]
    · exact hcl.snoc hw (hw.content_ne_nil.mp hne)
    · simp only [pending_snoc, ← List.append_assoc, hs]
  | read len =>
    obtain ⟨ret, data, b', hr, hcl', ans, htk, hdata, -, -⟩ := Bio.read_takes hcl hc
    refine ⟨⟨b', t.put, t.got ++ data⟩, ?_, hcl', ?_⟩
    · simp [Traffic.call, hr, bind, Except.bind, pure, Except.pure]
    · have := htk.intact
      simp only [hdata] at this
      simp only [List.append_assoc, this, hs]

theorem foldlM_intact : ∀ {calls : List BioCall} {t : Traffic}, t.Intact →
    (∀ c ∈ calls, c.Allowed) → ∃ t', calls.foldlM Traffic.call t = .ok t' ∧ t'.Intact
  | [], t, h, _ => ⟨t, rfl, h⟩
  | c :: calls, t, h, hall => by
    obtain ⟨t1, h1, hi1⟩ := Traffic.call_intact h (hall c (by simp))
    obtain ⟨t2, h2, hi2⟩ := @foldlM_intact calls t1 hi1 fun c' hc' => hall c' (by simp [hc'])
    exact ⟨t2, by simp [List.foldlM_cons, h1, h2, bind, Except.bind], hi2⟩

theorem traffic_intact {calls : List BioCall} (hall : ∀ c ∈ calls, c.Allowed) :
    ∃ t, traffic calls = .ok t ∧ t.Intact :=
  foldlM_intact ⟨clean_nil, rfl⟩ hall

/-- **The byte stream is delivered intact.** After any calls, the bytes returned so far followed by
the bytes queued are the bytes put; and the next `Read` answers `-1` with the retry-read flag set
exactly if everything put was read, and else the number `n` of bytes it returns, `1 ≤ n ≤ len`. -/
theorem uvbio_delivers_stream (calls : List BioCall) (hall : ∀ c ∈ calls, c.Allowed) :
    ∃ t, traffic calls = .ok t ∧ t.got ++ t.bio.ptr.pending = t.put ∧
      ∀ len, 0 < len → ∃ ret data bio, t.bio.read len = .ok (ret, data, bio) ∧
        ((t.got = t.put ∧ ret = -1 ∧ data = [] ∧ bio.flags.retryRead = true) ∨
          (t.got ≠ t.put ∧ 1 ≤ ret ∧ ret ≤ len ∧ data.length = ret)) := by
  obtain ⟨t, ht, hcl, hs⟩ := traffic_intact hall
  refine ⟨t, ht, hs, fun len hlen => ?_⟩
  obtain ⟨ret, data, bio, hr, -, ans, htk, hdata, hnone, hsome⟩ := Bio.read_takes hcl hlen
  have hall_read : t.got = t.put ↔ t.bio.ptr.pending = [] := by
    rw [← hs]; simp
  refine ⟨ret, data, bio, hr, ?_⟩
  by_cases ha : ans = none
  · obtain ⟨h1, h2⟩ := hnone ha
    refine Or.inl ⟨hall_read.mpr (htk.eq_none_iff.mp ha), h1, ?_, ?_⟩
    · rw [← hdata, ha]; rfl
    · rw [h2]; rfl
  · refine Or.inr ⟨fun h => ha (htk.eq_none_iff.mpr (hall_read.mp h)), ?_⟩
    obtain ⟨d, rfl⟩ := Option.ne_none_iff_exists'.mp ha
    obtain ⟨hne, hle, -⟩ := htk.of_some
    have hret := hsome ha
    simp only [Option.getD_some] at hdata
    subst hdata
    have := List.length_pos_iff.mpr hne
    omega

/-- Two arrivals, one of them with spare capacity, read three and then two bytes at a time. -/
theorem uvbio_delivers_two :
    ∃ t, traffic [.put ⟨some [1, 2, 9], 2, 3⟩, .put ⟨some [3, 4, 5], 3, 3⟩, .read 3, .read 2] =
      .ok t ∧ t.got ++ t.bio.ptr.pending = t.put ∧
      ∀ len, 0 < len → ∃ ret data bio, t.bio.read len = .ok (ret, data, bio) ∧
        ((t.got = t.put ∧ ret = -1 ∧ data = [] ∧ bio.flags.retryRead = true) ∨
          (t.got ≠ t.put ∧ 1 ≤ ret ∧ ret ≤ len ∧ data.length = ret)) := by
  refine uvbio_delivers_stream _ fun c hc => ?_
  have hwf : ∀ b len, 0 ≤ len → len ≤ (b.length : ℤ) → (b.length : ℤ) < 2 ^ 31 →
      ByteArray.WellFormed ⟨some b, len, b.length⟩ := fun b len h0 h1 h2 =>
    ⟨fun h => (by cases h), fun _ h => (by cases h; rfl), h0, h1, h2⟩
  simp only [List.mem_cons, List.not_mem_nil, or_false] at hc
  rcases hc with rfl | rfl | rfl | rfl
  · exact ⟨hwf _ _ (by decide) (by decide) (by decide), by decide⟩
  · exact ⟨hwf _ _ (by decide) (by decide) (by decide), by decide⟩
  · exact (by decide : (0 : ℤ) < 3)
  · exact (by decide : (0 : ℤ) < 2)

end LibMumble
