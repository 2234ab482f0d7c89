import Mathlib.Data.Int.Notation
import Mathlib.Data.List.Induction
import Mathlib.Data.List.TakeWhile
import Mathlib.Tactic.Ring

/-! # Byte strings

`std::string` and `char *` hold bytes, not characters, so strings are lists of bytes here, and
`ascii` gives the bytes of a literal of the source. A `char *` to a block of memory shows the bytes
up to the first NUL, `cString`.

A field of a fixed width, as in a date, is written by `decimal`, which puts a number into `w` digits,
the most significant one first. `number` reads a field as C code does that subtracts `'0'` from each
`char`, whether it is a digit or not. On digits the two are inverse to each other (`number_decimal`,
`decimal_number`). -/

namespace LibMumble.Lib

/-- The bytes of an ASCII literal. -/
def ascii (s : String) : List UInt8 := s.toList.map fun c => UInt8.ofNat c.toNat

/-- What a `char *` shows of the memory it points to. -/
def cString (s : List UInt8) : List UInt8 := s.takeWhile (· ≠ 0)

/-- A `char`, which is signed. -/
def char (b : UInt8) : ℤ := if b.toNat < 128 then (b.toNat : ℤ) else b.toNat - 256

theorem cString_eq_self {s : List UInt8} : cString s = s ↔ 0 ∉ s := by
  rw [cString, List.takeWhile_eq_self_iff]
  refine ⟨fun h hm => by simpa using h 0 hm, fun h b hb => ?_⟩
  rw [decide_eq_true_eq]
  rintro rfl
  exact h hb

theorem zero_notMem_cString (s : List UInt8) : 0 ∉ cString s := fun h => by
  simpa using List.mem_takeWhile_imp h

/-- What holds of each byte of a literal can be computed. -/
theorem forall_ascii {s : String} {p : UInt8 → Prop} [DecidablePred p]
    (h : (ascii s).all (fun b => p b) = true) : ∀ b ∈ ascii s, p b := by
  simpa only [List.all_eq_true, decide_eq_true_eq] using h

/-! ### Decimal fields -/

def isDigit (b : UInt8) : Bool := 48 ≤ b ∧ b ≤ 57

/-- The last `w` digits of `n`. -/
def decimal : ℕ → ℕ → List UInt8
  | 0, _ => []
  | w + 1, n => decimal w (n / 10) ++ [UInt8.ofNat (48 + n % 10)]

def number (s : List UInt8) : ℤ := s.foldl (fun n b => n * 10 + (char b - 48)) 0

variable {s : List UInt8} {w n : ℕ} {b : UInt8}

theorem isDigit_iff : isDigit b = true ↔ 48 ≤ b.toNat ∧ b.toNat ≤ 57 := by
  rw [isDigit, decide_eq_true_eq, UInt8.le_iff_toNat_le, UInt8.le_iff_toNat_le]
  rfl

theorem toNat_digit (n : ℕ) : (UInt8.ofNat (48 + n % 10)).toNat = 48 + n % 10 :=
  UInt8.toNat_ofNat_of_lt' (by show 48 + n % 10 < 256; omega)

/-- A digit counts for what it stands for. -/
theorem char_digit (n : ℕ) : char (UInt8.ofNat (48 + n % 10)) - 48 = (n % 10 : ℕ) := by
  rw [char, toNat_digit, if_pos (by omega)]
  omega

@[simp] theorem length_decimal (w n : ℕ) : (decimal w n).length = w := by
  induction w generalizing n with
  | zero => rfl
  | succ w ih => rw [decimal, List.length_append, ih, List.length_singleton]

theorem isDigit_of_mem_decimal (h : b ∈ decimal w n) : isDigit b = true := by
  induction w generalizing n with
  | zero => cases h
  | succ w ih =>
    rw [decimal, List.mem_append, List.mem_singleton] at h
    rcases h with h | rfl
    · exact ih h
    · rw [isDigit_iff, toNat_digit]
      omega

/-- A field can be cut in two. -/
theorem decimal_add (v w n : ℕ) : decimal (v + w) n = decimal v (n / 10 ^ w) ++ decimal w n := by
  induction w generalizing n with
  | zero => simp [decimal]
  | succ w ih =>
    have hdiv : n / 10 / 10 ^ w = n / 10 ^ (w + 1) := by rw [Nat.div_div_eq_div_mul, pow_succ']
    rw [← Nat.add_assoc, decimal, decimal, ih, hdiv, List.append_assoc]

theorem number_concat (s : List UInt8) (b : UInt8) :
    number (s ++ [b]) = number s * 10 + (char b - 48) := by
  rw [number, List.foldl_append, List.foldl_cons, List.foldl_nil, ← number]

/-- **What is written is read**, if it fits. -/
theorem number_decimal (h : n < 10 ^ w) : number (decimal w n) = n := by
  induction w generalizing n with
  | zero =>
    obtain rfl : n = 0 := by omega
    rfl
  | succ w ih =>
    have hq : n / 10 < 10 ^ w := by
      rw [pow_succ] at h
      omega
    rw [decimal, number_concat, ih hq, char_digit]
    omega

/-- Every field of digits is written for one number. -/
theorem exists_decimal (h : ∀ b ∈ s, isDigit b = true) :
    ∃ n < 10 ^ s.length, s = decimal s.length n := by
  induction s using List.reverseRecOn with
  | nil => exact ⟨0, by decide, rfl⟩
  | append_singleton s b ih =>
    obtain ⟨n, hn, hs⟩ := ih fun c hc => h c (by simp [hc])
    obtain ⟨h1, h2⟩ := isDigit_iff.mp (h b (by simp))
    refine ⟨n * 10 + (b.toNat - 48), ?_, ?_⟩
    · rw [List.length_append, List.length_singleton, pow_succ]
      omega
    · have hq : (n * 10 + (b.toNat - 48)) / 10 = n := by omega
      have hr : 48 + (n * 10 + (b.toNat - 48)) % 10 = b.toNat := by omega
      rw [List.length_append, List.length_singleton, decimal, hq, hr, ← hs, UInt8.ofNat_toNat]

/-- **What is read is written again**, if it is digits. -/
theorem decimal_number (h : ∀ b ∈ s, isDigit b = true) :
    decimal s.length (number s).toNat = s := by
  obtain ⟨n, hn, hs⟩ := exists_decimal h
  have hnum : number s = n := by
    rw [hs]
    exact number_decimal hn
  rw [hnum, Int.toNat_natCast, ← hs]

end LibMumble.Lib
