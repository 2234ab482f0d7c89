import Mathlib.Data.List.Basic
import Mathlib.Tactic.Ring

/-! # Numbers in base 128

A number as bytes of seven bits each, the lowest first, where each byte but the last has its high bit set;
`k` bounds the number of bytes. What is written is read again, whatever follows it
(`readVarint_varint`). -/

namespace LibMumble.Lib

def varint : ℕ → ℕ → List UInt8
  | 0, _ => []
  | k + 1, n => if n < 128 then [UInt8.ofNat n] else UInt8.ofNat (128 + n % 128) :: varint k (n / 128)

/-- The number at the start, if it ends within `k` bytes, and what is after it. -/
def readVarint : ℕ → List UInt8 → Option (ℕ × List UInt8)
  | 0, _ => none
  | _ + 1, [] => none
  | k + 1, b :: l =>
    if b.toNat < 128 then some (b.toNat, l)
    else (readVarint k l).map fun r => (b.toNat - 128 + 128 * r.1, r.2)

variable {k n : ℕ} {l r : List UInt8}

theorem varint_of_lt (h : n < 128) (k : ℕ) : varint (k + 1) n = [UInt8.ofNat n] := if_pos h

theorem length_varint_of_lt (hlo : 128 ≤ n) (h : n < 16384) (k : ℕ) : (varint (k + 2) n).length = 2 := by
  rw [varint, if_neg (not_lt.mpr hlo), varint_of_lt (by omega), List.length_cons, List.length_singleton]

theorem readVarint_varint (h : n < 128 ^ (k + 1)) (l : List UInt8) :
    readVarint (k + 1) (varint (k + 1) n ++ l) = some (n, l) := by
  induction k generalizing n with
  | zero =>
    have hn : n < 128 := h
    have hbyte : (UInt8.ofNat n).toNat = n := UInt8.toNat_ofNat_of_lt' (by show n < 256; omega)
    rw [varint_of_lt hn, List.singleton_append, readVarint, hbyte, if_pos hn]
  | succ k ih =>
    by_cases hn : n < 128
    · have hbyte : (UInt8.ofNat n).toNat = n := UInt8.toNat_ofNat_of_lt' (by show n < 256; omega)
      rw [varint_of_lt hn, List.singleton_append, readVarint, hbyte, if_pos hn]
    · have hbyte : (UInt8.ofNat (128 + n % 128)).toNat = 128 + n % 128 :=
        UInt8.toNat_ofNat_of_lt' (by show 128 + n % 128 < 256; omega)
      have hdiv : n / 128 < 128 ^ (k + 1) := by
        rw [pow_succ] at h
        exact Nat.div_lt_of_lt_mul (by rwa [Nat.mul_comm] at h)
      rw [varint, if_neg hn, List.cons_append, readVarint, hbyte, if_neg (by omega), ih hdiv,
        Option.map_some]
      simp only [Option.some.injEq, Prod.mk.injEq, and_true]
      omega

/-- A number takes at least one byte. -/
theorem length_of_readVarint (h : readVarint k l = some (n, r)) : r.length < l.length := by
  induction k generalizing l n r with
  | zero => cases h
  | succ k ih =>
    cases l with
    | nil => cases h
    | cons b l =>
      rw [readVarint] at h
      split_ifs at h
      · cases h
        exact Nat.lt_succ_self _
      · obtain ⟨⟨m, l'⟩, hl, heq⟩ := Option.map_eq_some_iff.mp h
        have hr := ih hl
        cases heq
        exact hr.trans (Nat.lt_succ_self _)

end LibMumble.Lib
