import LibMumble.Lib.Ascii
import Mathlib.Data.List.DropRight

/-! # Latin-1 text and white space

The conversion of Latin-1 to UTF-8, and stripping the white space at the ends of a text. Both are
tracked by counting: a conversion keeps the number of each ASCII character and lengthens a text that
has others, and what is stripped was white space. -/

namespace LibMumble.Lib

variable {s : List UInt8}

/-! ### Latin-1 -/

/-- The UTF-8 of a character of Latin-1. -/
def latin1Char (b : UInt8) : List UInt8 := if b < 128 then [b] else [192 + b / 64, 128 + b % 64]

/-- The UTF-8 of a text in Latin-1. -/
def latin1ToUtf8 (s : List UInt8) : List UInt8 := s.flatMap latin1Char

theorem latin1Char_of_ge {b : UInt8} (h : ¬ b < 128) :
    ∃ c d : UInt8, latin1Char b = [c, d] ∧ 128 ≤ c ∧ 128 ≤ d := by
  have hlt := b.toNat_lt
  refine ⟨192 + b / 64, 128 + b % 64, if_neg h, ?_, ?_⟩
  · simp only [UInt8.le_iff_toNat_le, UInt8.toNat_add, UInt8.toNat_div, UInt8.reduceToNat]
    omega
  · simp only [UInt8.le_iff_toNat_le, UInt8.toNat_add, UInt8.toNat_mod, UInt8.reduceToNat]
    omega

/-- ASCII characters are kept, in their number. -/
theorem countP_latin1ToUtf8 {p : UInt8 → Bool} (hp : ∀ b, 128 ≤ b → p b = false) :
    (latin1ToUtf8 s).countP p = s.countP p := by
  induction s with
  | nil => rfl
  | cons b s ih =>
    have hcons : latin1ToUtf8 (b :: s) = latin1Char b ++ latin1ToUtf8 s := rfl
    rw [hcons, List.countP_append, ih, List.countP_cons]
    by_cases hb : b < 128
    · rw [latin1Char, if_pos hb, List.countP_singleton]
      omega
    · obtain ⟨c, d, hcd, hc, hd⟩ := latin1Char_of_ge hb
      have hpb : p b = false := hp b (UInt8.not_lt.mp hb)
      simp [hcd, hp c hc, hp d hd, hpb]

/-- An ASCII character occurs as often. -/
theorem count_latin1ToUtf8 {a : UInt8} (ha : a < 128) : (latin1ToUtf8 s).count a = s.count a := by
  refine countP_latin1ToUtf8 fun b hb => ?_
  rw [beq_eq_false_iff_ne]
  rintro rfl
  exact absurd ha (UInt8.not_lt.mpr hb)

theorem mem_latin1ToUtf8 {a : UInt8} (ha : a < 128) : a ∈ latin1ToUtf8 s ↔ a ∈ s := by
  rw [← List.count_pos_iff, count_latin1ToUtf8 ha, List.count_pos_iff]

theorem length_latin1ToUtf8 :
    (latin1ToUtf8 s).length = s.length + s.countP (128 ≤ ·) := by
  induction s with
  | nil => rfl
  | cons b s ih =>
    have hcons : latin1ToUtf8 (b :: s) = latin1Char b ++ latin1ToUtf8 s := rfl
    rw [hcons, List.length_append, ih, List.countP_cons, List.length_cons]
    by_cases hb : b < 128
    · have hge : ¬ 128 ≤ b := UInt8.not_le.mpr hb
      rw [latin1Char, if_pos hb, List.length_singleton, if_neg (by simpa using hge)]
      omega
    · obtain ⟨c, d, hcd, -, -⟩ := latin1Char_of_ge hb
      have hge : 128 ≤ b := UInt8.not_lt.mp hb
      rw [hcd, if_pos (by simpa using hge)]
      simp only [List.length_cons, List.length_nil]
      omega

/-- **Only ASCII is the same in both.** -/
theorem latin1ToUtf8_eq_self : latin1ToUtf8 s = s ↔ ∀ b ∈ s, b < 128 := by
  constructor
  · intro h b hb
    have hlen := @length_latin1ToUtf8 s
    rw [h] at hlen
    have h0 : s.countP (128 ≤ ·) = 0 := by omega
    have := List.countP_eq_zero.mp h0 b hb
    exact UInt8.not_le.mp (by simpa using this)
  · intro h
    induction s with
    | nil => rfl
    | cons b s ih =>
      have hcons : latin1ToUtf8 (b :: s) = latin1Char b ++ latin1ToUtf8 s := rfl
      rw [hcons, latin1Char, if_pos (h b (by simp)), ih fun c hc => h c (by simp [hc])]
      rfl

/-! ### White space -/

/-- `isspace`. -/
def isSpace (b : UInt8) : Bool := b = 32 ∨ 9 ≤ b ∧ b ≤ 13

/-- White space occurs as often. -/
theorem countP_isSpace_latin1ToUtf8 : (latin1ToUtf8 s).countP isSpace = s.countP isSpace := by
  refine countP_latin1ToUtf8 fun b hb => ?_
  simp only [isSpace, decide_eq_false_iff_not, UInt8.le_iff_toNat_le, UInt8.reduceToNat] at hb ⊢
  rintro (rfl | ⟨-, h⟩)
  · exact absurd hb (by decide)
  · omega

/-- What is dropped at the beginning is white space. -/
theorem countP_not_dropWhile : (s.dropWhile isSpace).countP (!isSpace ·) = s.countP (!isSpace ·) := by
  have hnone : (s.takeWhile isSpace).countP (!isSpace ·) = 0 := by
    rw [List.countP_eq_zero]
    intro b hb
    simp [List.mem_takeWhile_imp hb]
  have hsplit := congrArg (List.countP (!isSpace ·)) (@List.takeWhile_append_dropWhile _ isSpace s)
  rw [List.countP_append, hnone, Nat.zero_add] at hsplit
  exact hsplit

/-- What is dropped at the end is white space. -/
theorem countP_not_rdropWhile : (s.rdropWhile isSpace).countP (!isSpace ·) = s.countP (!isSpace ·) := by
  rw [List.rdropWhile, List.countP_reverse, countP_not_dropWhile, List.countP_reverse]

/-- **A part with all the white space and everything else** is the whole. -/
theorem eq_of_sublist_of_countP {t : List UInt8} (hsub : t.Sublist s)
    (hspace : t.countP isSpace = s.countP isSpace)
    (hother : t.countP (!isSpace ·) = s.countP (!isSpace ·)) : t = s := by
  refine hsub.eq_of_length ?_
  have hlen := List.length_eq_countP_add_countP isSpace (l := t)
  have hlen' := List.length_eq_countP_add_countP isSpace (l := s)
  simp only [Bool.not_eq_true, Bool.decide_eq_false] at hlen hlen'
  omega

end LibMumble.Lib
