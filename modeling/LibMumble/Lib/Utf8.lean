import Mathlib.Data.List.Basic
import Mathlib.Data.Nat.Notation

/-! # UTF-8 and UTF-16

The strict decoder of UTF-8, which takes neither overlong forms nor surrogates, and the encoder of
UTF-16. A text has a NUL in one of these encodings if and only if it has one in the other. -/

namespace LibMumble.Lib

/-- The six bits of a continuation byte. -/
def contBits (b : UInt8) : Option ℕ :=
  if 0x80 ≤ b.toNat ∧ b.toNat < 0xC0 then some (b.toNat - 0x80) else none

/-- The code points of a text in UTF-8. -/
def utf8Decode : List UInt8 → Option (List ℕ)
  | [] => some []
  | b :: s =>
    if b.toNat < 0x80 then (utf8Decode s).map (b.toNat :: ·)
    else if b.toNat < 0xC2 then none
    else if b.toNat < 0xE0 then
      match s with
      | c :: s => do
        let x ← contBits c
        (utf8Decode s).map (((b.toNat - 0xC0) * 0x40 + x) :: ·)
      | [] => none
    else if b.toNat < 0xF0 then
      match s with
      | c :: d :: s => do
        let x ← contBits c
        let y ← contBits d
        let p := (b.toNat - 0xE0) * 0x1000 + x * 0x40 + y
        if p < 0x800 ∨ 0xD800 ≤ p ∧ p < 0xE000 then none else (utf8Decode s).map (p :: ·)
      | _ => none
    else if b.toNat < 0xF5 then
      match s with
      | c :: d :: e :: s => do
        let x ← contBits c
        let y ← contBits d
        let z ← contBits e
        let p := (b.toNat - 0xF0) * 0x40000 + x * 0x1000 + y * 0x40 + z
        if p < 0x10000 ∨ 0x110000 ≤ p then none else (utf8Decode s).map (p :: ·)
      | _ => none
    else none

/-- The units of a code point in UTF-16. -/
def utf16Units (p : ℕ) : List UInt16 :=
  if p < 0x10000 then [UInt16.ofNat p]
  else [UInt16.ofNat (0xD800 + (p - 0x10000) / 0x400), UInt16.ofNat (0xDC00 + (p - 0x10000) % 0x400)]

def utf16Encode (ps : List ℕ) : List UInt16 := ps.flatMap utf16Units

/-! ### Texts -/

/-- A byte that is not NUL. -/
theorem zero_ne_of_not_lt {b : UInt8} (h : ¬ b.toNat < 0x80) : 0 ≠ b := by
  rintro rfl
  exact h (by decide)

theorem contBits_spec {b : UInt8} {x : ℕ} (h : contBits b = some x) : x < 0x40 ∧ 0 ≠ b := by
  unfold contBits at h
  split_ifs at h with hb
  obtain rfl := Option.some.inj h
  exact ⟨by omega, zero_ne_of_not_lt (by omega)⟩

/-- The code points are those of a text, with a NUL where the bytes have one. -/
def TextOf (ps : List ℕ) (s : List UInt8) : Prop := (∀ p ∈ ps, p < 0x110000) ∧ (0 ∈ ps ↔ 0 ∈ s)

/-- One code point before a text. -/
theorem textOf_cons {p : ℕ} {bs s : List UInt8} {ps : List ℕ} (hp : p < 0x110000)
    (h0 : 0 = p ↔ 0 ∈ bs) (ih : ∀ {ps}, utf8Decode s = some ps → TextOf ps s)
    (h : (utf8Decode s).map (p :: ·) = some ps) : TextOf ps (bs ++ s) := by
  obtain ⟨qs, hqs, rfl⟩ := Option.map_eq_some_iff.mp h
  obtain ⟨hlt, hz⟩ := ih hqs
  refine ⟨List.forall_mem_cons.mpr ⟨hp, hlt⟩, ?_⟩
  rw [List.mem_cons, List.mem_append, ← h0, hz]

theorem utf8Decode_textOf {s : List UInt8} {ps : List ℕ} (h : utf8Decode s = some ps) :
    TextOf ps s := by
  induction s using utf8Decode.induct generalizing ps with
  | case1 =>
    obtain rfl := Option.some.inj h
    exact ⟨nofun, by simp⟩
  | case2 b s h1 ih =>
    rw [utf8Decode.eq_def] at h
    simp only [h1, if_true] at h
    refine @textOf_cons b.toNat [b] s ps (by omega) ?_ ih h
    rw [List.mem_singleton, ← UInt8.toNat_inj, UInt8.toNat_zero]
  | case4 b h1 h2 h3 c s ih =>
    simp only [utf8Decode, h1, h2, h3, if_true, if_false] at h
    obtain ⟨x, hx, h⟩ := Option.bind_eq_some_iff.mp h
    obtain ⟨hx1, hc⟩ := contBits_spec hx
    have hb := zero_ne_of_not_lt h1
    exact @textOf_cons _ [b, c] s ps (by omega) (iff_of_false (by omega) (by simp [hb, hc])) ih h
  | case6 b h1 h2 h3 h4 c d s ih =>
    simp only [utf8Decode, h1, h2, h3, h4, if_true, if_false] at h
    obtain ⟨x, hx, h⟩ := Option.bind_eq_some_iff.mp h
    obtain ⟨y, hy, h⟩ := Option.bind_eq_some_iff.mp h
    obtain ⟨hp, h⟩ := Option.ite_none_left_eq_some.mp h
    obtain ⟨hx1, hc⟩ := contBits_spec hx
    obtain ⟨hy1, hd⟩ := contBits_spec hy
    have hb := zero_ne_of_not_lt h1
    exact @textOf_cons _ [b, c, d] s ps (by omega)
      (iff_of_false (by omega) (by simp [hb, hc, hd])) ih h
  | case8 b h1 h2 h3 h4 h5 c d e s ih =>
    simp only [utf8Decode, h1, h2, h3, h4, h5, if_true, if_false] at h
    obtain ⟨x, hx, h⟩ := Option.bind_eq_some_iff.mp h
    obtain ⟨y, hy, h⟩ := Option.bind_eq_some_iff.mp h
    obtain ⟨z, hz, h⟩ := Option.bind_eq_some_iff.mp h
    obtain ⟨hp, h⟩ := Option.ite_none_left_eq_some.mp h
    obtain ⟨hx1, hc⟩ := contBits_spec hx
    obtain ⟨hy1, hd⟩ := contBits_spec hy
    obtain ⟨hz1, he⟩ := contBits_spec hz
    have hb := zero_ne_of_not_lt h1
    exact @textOf_cons _ [b, c, d, e] s ps (by omega)
      (iff_of_false (by omega) (by simp [hb, hc, hd, he])) ih h
  -- what is left is rejected
  | case3 b s h1 h2 =>
    rw [utf8Decode.eq_def] at h
    simp [h1, h2] at h
  | case5 b h1 h2 h3 =>
    rw [utf8Decode.eq_def] at h
    simp [h1, h2, h3] at h
  | case7 b s h1 h2 h3 h4 hs =>
    rw [utf8Decode.eq_def] at h
    simp only [h1, h2, h3, h4, if_true, if_false] at h
    cases h
  | case9 b s h1 h2 h3 h4 h5 hs =>
    rw [utf8Decode.eq_def] at h
    simp only [h1, h2, h3, h4, h5, if_true, if_false] at h
    cases h
  | case10 b s h1 h2 h3 h4 h5 =>
    rw [utf8Decode.eq_def] at h
    simp [h1, h2, h3, h4, h5] at h

theorem zero_mem_utf16Units {p : ℕ} (hp : p < 0x110000) : 0 ∈ utf16Units p ↔ p = 0 := by
  unfold utf16Units
  split_ifs with h
  · rw [List.mem_singleton, ← UInt16.toNat_inj]
    simp
    omega
  · refine iff_of_false ?_ (by omega)
    rw [List.mem_pair, ← UInt16.toNat_inj, ← UInt16.toNat_inj]
    simp
    omega

theorem zero_mem_utf16Encode {ps : List ℕ} {s : List UInt8} (h : TextOf ps s) :
    0 ∈ utf16Encode ps ↔ 0 ∈ s := by
  rw [← h.2, utf16Encode, List.mem_flatMap]
  constructor
  · rintro ⟨p, hp, h0⟩
    rwa [← (zero_mem_utf16Units (h.1 p hp)).mp h0]
  · intro h0
    exact ⟨0, h0, by decide⟩

end LibMumble.Lib
