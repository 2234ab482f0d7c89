import LibMumble.ByteArray.Values

/-! # `Slice` with a length

`Slice` allocates as many bytes as were asked for, and copies all that remain. So a slice that ends
before the end of the array is written beyond its block; only where nothing is left out, as with the
default length, it is what the header says. -/

namespace LibMumble.ByteArray

variable {b : ByteArray} {off len i j k p q : ℤ}

/-- `len` bytes from `off` on, in an array of this length. -/
structure IsSlice (b : ByteArray) (off len : ℤ) (s : ByteArray) : Prop where
  length : s.length = len
  content : s.content = (b.content.drop off.toNat).take len.toNat

/-- `b.Slice(0, k).Append(b.Slice(k))`. -/
def rejoin (b : ByteArray) (k : ℤ) (junk : ℕ → UInt8) : Except Fault ByteArray := do
  let front ← b.slice 0 k
  let back ← b.slice k (-1)
  appendOther front back junk

/-! ### One slice -/

section WellFormed
variable (h : b.WellFormed)
include h

/-- A slice that leaves something out is not inside of its block. -/
theorem WellFormed.slice_short (h0 : 0 ≤ off) (h1 : 0 ≤ len) (h2 : off + len < b.len) :
    b.slice off len = .error .outOfBounds := by
  have hle := h.len_le
  have hcap := h.cap_lt
  have hremain : int32 (b.len - off) = .ok (b.len - off) := int32_ok (by omega) (by omega)
  have hfit : ¬ b.len - off < len := by omega
  have hcopy : mallocMemcpy len b.data off (b.len - off) = .error .outOfBounds := by
    rw [mallocMemcpy, if_neg (by omega), if_pos (by omega)]
  have hne : ¬ len = -1 := by omega
  simp only [slice, hremain, bind, Except.bind, if_neg hne, if_neg hfit, hcopy]

/-- A slice to the end is that with the default length. -/
theorem WellFormed.slice_to_end (h0 : 0 ≤ off) (h1 : 0 ≤ len) (h2 : off + len = b.len) :
    b.slice off len = .ok ⟨some (b.content.drop off.toNat), len, len⟩ := by
  have hle := h.len_le
  have hcap := h.cap_lt
  have hlen : b.len - off = len := by omega
  have hdefault := h.slice_eq h0 (by omega)
  rw [hlen] at hdefault
  rw [← hdefault]
  unfold slice
  rw [int32_ok (by omega) (by omega)]
  have hne : ¬ len = -1 := by omega
  simp only [bind, Except.bind, if_neg hne, hlen, if_true]

/-- What is left of the content is as long as it should be. -/
theorem WellFormed.length_drop (h0 : 0 ≤ off) (h2 : off + len = b.len) :
    ((b.content.drop off.toNat).length : ℤ) = max len 0 := by
  have hlen := h.length_content
  rw [List.length_drop]
  omega

theorem WellFormed.slice_wellFormed (h0 : 0 ≤ off) (h1 : 0 ≤ len) (h2 : off + len = b.len) :
    WellFormed ⟨some (b.content.drop off.toNat), len, len⟩ := by
  have hdrop := h.length_drop h0 h2
  have hle := h.len_le
  have hcap := h.cap_lt
  have hlen : ((b.content.drop off.toNat).length : ℤ) = len := by omega
  rw [← hlen]
  exact wellFormed_exact _ (by omega)

theorem WellFormed.slice_content (h0 : 0 ≤ off) (h1 : 0 ≤ len) (h2 : off + len = b.len) :
    content ⟨some (b.content.drop off.toNat), len, len⟩ = b.content.drop off.toNat := by
  have hdrop := h.length_drop h0 h2
  have hlen : ((b.content.drop off.toNat).length : ℤ) = len := by omega
  rw [← hlen]
  exact content_exact _

/-- **A slice takes what was asked for** exactly if it leaves nothing out. -/
theorem WellFormed.slice_iff (h0 : 0 ≤ off) (h1 : 0 ≤ len) (h2 : off + len ≤ b.length) :
    (∃ s, b.slice off len = .ok s ∧ IsSlice b off len s) ↔ off + len = b.length := by
  have hlength : b.length = b.len := rfl
  rw [hlength] at h2 ⊢
  constructor
  · rintro ⟨s, hs, -⟩
    by_contra hne
    rw [h.slice_short h0 h1 (by omega)] at hs
    cases hs
  · intro heq
    have hdrop := h.length_drop h0 heq
    refine ⟨_, h.slice_to_end h0 h1 heq, ⟨rfl, ?_⟩⟩
    rw [h.slice_content h0 h1 heq, List.take_of_length_le (by omega)]

/-! ### Slices of slices, and slices put together -/

theorem WellFormed.slice_slice_iff (hi : 0 ≤ i) (hp : 0 ≤ p) (hq : 0 ≤ q) (hpq : p + q ≤ j)
    (hij : i + j ≤ b.length) : (∃ s t u, b.slice i j = .ok s ∧ s.slice p q = .ok t ∧
      b.slice (i + p) q = .ok u ∧ t.content = u.content) ↔ i + j = b.length ∧ p + q = j := by
  have hlength : b.length = b.len := rfl
  rw [hlength] at hij ⊢
  constructor
  · rintro ⟨s, t, u, hs, ht, -⟩
    have heq : i + j = b.len := by
      by_contra hne
      rw [h.slice_short hi (by omega) (by omega)] at hs
      cases hs
    refine ⟨heq, ?_⟩
    by_contra hne
    rw [h.slice_to_end hi (by omega) heq] at hs
    obtain rfl := Except.ok.inj hs
    have hlen : p + q < ByteArray.len ⟨some (b.content.drop i.toNat), j, j⟩ := by
      show p + q < j
      omega
    rw [(h.slice_wellFormed hi (by omega) heq).slice_short hp hq hlen] at ht
    cases ht
  · rintro ⟨heq, hpj⟩
    have hw := h.slice_wellFormed hi (by omega) heq
    have hcontent := h.slice_content hi (by omega) heq
    refine ⟨_, _, _, h.slice_to_end hi (by omega) heq, hw.slice_to_end hp hq hpj,
      h.slice_to_end (by omega) hq (by omega), ?_⟩
    rw [hw.slice_content hp hq hpj, h.slice_content (by omega) hq (by omega), hcontent,
      List.drop_drop]
    congr 1
    omega

theorem WellFormed.rejoin_iff (h0 : 0 ≤ k) (hk : k ≤ b.length) (junk : ℕ → UInt8) :
    (∃ s, rejoin b k junk = .ok s ∧ s.content = b.content) ↔ k = b.length := by
  have hlength : b.length = b.len := rfl
  rw [hlength] at hk ⊢
  constructor
  · rintro ⟨s, hs, -⟩
    by_contra hne
    rw [rejoin, h.slice_short le_rfl h0 (by omega)] at hs
    cases hs
  · rintro rfl
    have hcap := h.cap_lt
    have hle := h.len_le
    have hlen := h.length_content
    have hfront := h.slice_to_end le_rfl h0 (zero_add _)
    have hback := h.slice_eq h0 le_rfl
    have hwfront := h.slice_wellFormed le_rfl h0 (zero_add _)
    have hnil : b.content.drop b.len.toNat = [] := List.drop_eq_nil_of_le (by omega)
    rw [sub_self, hnil] at hback
    rw [Int.toNat_zero, List.drop_zero] at hfront hwfront
    have hwback : WellFormed ⟨some [], 0, 0⟩ := wellFormed_exact [] (by decide)
    have hvalue : ByteArray.value ⟨some b.content, b.len, b.len⟩ = some b.content := by
      rw [← hlen]
      exact value_exact _
    have hvalue' : ByteArray.value ⟨some [], 0, 0⟩ = some [] := rfl
    obtain ⟨s, hs, -, hv⟩ := @appendOther_gives _ _ junk hwfront hwback (by
      rw [hvalue, hvalue']
      simp only [Option.getD_some, List.length_nil]
      omega)
    refine ⟨s, ?_, ?_⟩
    · rw [rejoin, hfront]
      simp only [bind, Except.bind, hback]
      exact hs
    · rw [← bytes_value, hv, hvalue, hvalue']
      simp [appendValue]

/-- **The laws of `Slice`** hold exactly where each slice goes to the end of its array. -/
theorem WellFormed.slice_laws_iff :
    (∀ off len, 0 ≤ off → 0 ≤ len → off + len ≤ b.length →
      ((∃ s, b.slice off len = .ok s ∧ IsSlice b off len s) ↔ off + len = b.length)) ∧
    (∀ k junk, 0 ≤ k → k ≤ b.length →
      ((∃ s, rejoin b k junk = .ok s ∧ s.content = b.content) ↔ k = b.length)) ∧
    ∀ i j p q, 0 ≤ i → 0 ≤ p → 0 ≤ q → p + q ≤ j → i + j ≤ b.length →
      ((∃ s t u, b.slice i j = .ok s ∧ s.slice p q = .ok t ∧ b.slice (i + p) q = .ok u ∧
        t.content = u.content) ↔ i + j = b.length ∧ p + q = j) :=
  ⟨fun _ _ => h.slice_iff, fun _ junk h0 hk => h.rejoin_iff h0 hk junk,
    fun _ _ _ _ => h.slice_slice_iff⟩

end WellFormed

/-- Three bytes. -/
def three : ByteArray := ⟨some [1, 2, 3], 3, 3⟩

theorem wellFormed_three : three.WellFormed := wellFormed_exact [1, 2, 3] (by decide)

theorem slice_laws_three : (∃ s, three.slice 1 2 = .ok s ∧ IsSlice three 1 2 s) ∧
    ∃ s, rejoin three 3 (fun _ => 0) = .ok s ∧ s.content = [1, 2, 3] := by
  obtain ⟨hslice, hrejoin, -⟩ := wellFormed_three.slice_laws_iff
  exact ⟨(hslice 1 2 (by decide) (by decide) (by decide)).mpr rfl,
    (hrejoin 3 (fun _ => 0) (by decide) (by decide)).mpr rfl⟩

/-- The first two of them are copied with the third, behind the end of the new block. -/
theorem slice_overruns : three.slice 0 2 = .error .outOfBounds ∧
    rejoin three 2 (fun _ => 0) = .error .outOfBounds := ⟨by decide, by decide⟩

end LibMumble.ByteArray
