import LibMumble.Lib.Ascii
import LibMumble.X509.Time
import Mathlib.Tactic.Tauto

/-! # `strptime` of `Compat_win.cpp`

It reads the fields of `%Y%m%d%H%M%S` at their places, two or four `char`s each, and asks for no more
than that they are there. What they say is not looked at, so everything of fourteen characters is
accepted, and `ParseASN1Time`, which leaves the checks to `strptime`, accepts it too. -/

namespace LibMumble.X509

open Lib

variable {s date : List UInt8} {tm : Tm} {time : ASN1String} {n : ℕ}

/-- The number that stands in the `w` places from `i` on. -/
def fieldAt (s : List UInt8) (i w : ℕ) : ℤ := number ((s.drop i).take w)

theorem take_drop_succ {i : ℕ} (h : i < s.length) (w : ℕ) :
    (s.drop i).take (w + 1) = s.getD i 0 :: (s.drop (i + 1)).take w := by
  rw [List.drop_eq_getElem_cons h, List.take_succ_cons, List.getD_eq_getElem?_getD,
    List.getElem?_eq_getElem h, Option.getD_some]

theorem fieldAt_two {i : ℕ} (h : i + 2 ≤ s.length) :
    fieldAt s i 2 = digit s i * 10 + digit s (i + 1) := by
  rw [fieldAt, take_drop_succ (by omega), take_drop_succ (by omega), List.take_zero]
  simp only [number, digit, List.foldl_cons, List.foldl_nil]
  ring

theorem fieldAt_four {i : ℕ} (h : i + 4 ≤ s.length) : fieldAt s i 4 =
    digit s i * 1000 + digit s (i + 1) * 100 + digit s (i + 2) * 10 + digit s (i + 3) := by
  rw [fieldAt, take_drop_succ (by omega), take_drop_succ (by omega), take_drop_succ (by omega),
    take_drop_succ (by omega), List.take_zero]
  simp only [number, digit, List.foldl_cons, List.foldl_nil]
  ring

/-- The format of the dates. -/
abbrev x509fmt : List UInt8 := ascii "%Y%m%d%H%M%S"

/-- What `strptime` makes of fourteen characters. -/
def tmOf (s : List UInt8) (tm : Tm) : Tm :=
  { tm with
    year := fieldAt s 0 4 - 1900, mon := fieldAt s 4 2 - 1, mday := fieldAt s 6 2,
    hour := fieldAt s 8 2, min := fieldAt s 10 2, sec := fieldAt s 12 2, wday := 0, yday := 0,
    isdst := 0 }

theorem strptime_eq (h : 14 ≤ s.length) : CompatWin.strptime s x509fmt tm = some (tmOf s tm) := by
  rw [CompatWin.strptime, if_neg (by simp), if_neg (by omega), tmOf, fieldAt_four (by omega),
    fieldAt_two (by omega), fieldAt_two (by omega), fieldAt_two (by omega), fieldAt_two (by omega),
    fieldAt_two (by omega)]

theorem strptime_none (h : s.length < 14) : CompatWin.strptime s x509fmt tm = none := by
  rw [CompatWin.strptime, if_neg (by simp), if_pos h]

theorem strptime_isSome : (CompatWin.strptime s x509fmt tm).isSome ↔ 14 ≤ s.length := by
  rcases Nat.lt_or_ge s.length 14 with h | h
  · rw [strptime_none h]
    simp only [Option.isSome_none, Bool.false_eq_true, false_iff]
    omega
  · simp only [strptime_eq h, Option.isSome_some, true_iff]
    exact h

/-! ### The grammar -/

/-- A date whose year has `n` digits. -/
structure IsDate (n : ℕ) (s : List UInt8) : Prop where
  length : s.length = n + 10
  digits : ∀ b ∈ s, isDigit b = true
  month : 1 ≤ fieldAt s n 2 ∧ fieldAt s n 2 ≤ 12
  day : 1 ≤ fieldAt s (n + 2) 2 ∧ fieldAt s (n + 2) 2 ≤ 31
  hour : fieldAt s (n + 4) 2 ≤ 23
  minute : fieldAt s (n + 6) 2 ≤ 59
  second : fieldAt s (n + 8) 2 ≤ 60

theorem isDate_iff : IsDate n s ↔ s.length = n + 10 ∧ s.all isDigit = true ∧
    (1 ≤ fieldAt s n 2 ∧ fieldAt s n 2 ≤ 12) ∧ (1 ≤ fieldAt s (n + 2) 2 ∧ fieldAt s (n + 2) 2 ≤ 31) ∧
    fieldAt s (n + 4) 2 ≤ 23 ∧ fieldAt s (n + 6) 2 ≤ 59 ∧ fieldAt s (n + 8) 2 ≤ 60 :=
  ⟨fun ⟨h1, h2, h3, h4, h5, h6, h7⟩ => ⟨h1, List.all_eq_true.mpr h2, h3, h4, h5, h6, h7⟩,
    fun ⟨h1, h2, h3, h4, h5, h6, h7⟩ => ⟨h1, List.all_eq_true.mp h2, h3, h4, h5, h6, h7⟩⟩

instance (n : ℕ) (s : List UInt8) : Decidable (IsDate n s) := decidable_of_iff' _ isDate_iff

/-- `strftime` with the same format. -/
def strftime (tm : Tm) : List UInt8 :=
  decimal 4 (tm.year + 1900).toNat ++ decimal 2 (tm.mon + 1).toNat ++ decimal 2 tm.mday.toNat ++
    decimal 2 tm.hour.toNat ++ decimal 2 tm.min.toNat ++ decimal 2 tm.sec.toNat

/-- A field of digits is written as it was read. -/
theorem decimal_fieldAt {i w : ℕ} (h : i + w ≤ s.length) (hd : ∀ b ∈ s, isDigit b = true) :
    decimal w (fieldAt s i w).toNat = (s.drop i).take w := by
  have hlen : ((s.drop i).take w).length = w := by
    rw [List.length_take, List.length_drop]
    omega
  have hmem : ∀ b ∈ (s.drop i).take w, isDigit b = true := fun b hb =>
    hd b (List.mem_of_mem_drop (List.mem_of_mem_take hb))
  have hw := decimal_number hmem
  rwa [hlen] at hw

/-- The fields are all there is. -/
theorem strftime_tmOf (h : IsDate 4 s) : strftime (tmOf s tm) = s := by
  have hlen := h.length
  have hd := h.digits
  simp only [strftime, tmOf, sub_add_cancel]
  rw [decimal_fieldAt (by omega) hd, decimal_fieldAt (by omega) hd, decimal_fieldAt (by omega) hd,
    decimal_fieldAt (by omega) hd, decimal_fieldAt (by omega) hd, decimal_fieldAt (by omega) hd,
    List.drop_zero, ← List.take_add, ← List.take_add, ← List.take_add, ← List.take_add,
    ← List.take_add, List.take_of_length_le (by omega)]

/-- Only the first fourteen characters are looked at. -/
theorem tmOf_take (s : List UInt8) (tm : Tm) : tmOf (s.take 14) tm = tmOf s tm := by
  have hfield : ∀ i w, i + w ≤ 14 → fieldAt (s.take 14) i w = fieldAt s i w := by
    intro i w h
    rw [fieldAt, fieldAt, List.drop_take, List.take_take, Nat.min_eq_left (by omega)]
  simp only [tmOf, hfield 0 4 (by omega), hfield 4 2 (by omega), hfield 6 2 (by omega),
    hfield 8 2 (by omega), hfield 10 2 (by omega), hfield 12 2 (by omega)]

/-! ### What is refused -/

/-- What `ParseASN1Time` looks at itself: the type, the length and the last byte. The year has `n`
digits. -/
def HasForm (n : ℕ) (time : ASN1String) : Prop :=
  (n = 2 ∧ time.type = vASN1UTCTime ∨ n = 4 ∧ time.type = vASN1GeneralizedTime) ∧
    time.data.length = n + 11 ∧ time.data[n + 10]? = some 90

theorem cString_concat_zero (s : List UInt8) : cString (s ++ [0]) = cString s := by
  unfold cString
  rw [List.takeWhile_append]
  split
  · rename_i hlen
    rw [List.takeWhile_cons_of_neg (by simp), List.append_nil,
      (List.takeWhile_prefix _).eq_of_length hlen]
  · rfl

/-- A string is shorter than its memory if there is a NUL in it. -/
theorem length_cString_lt : (cString s).length < s.length ↔ 0 ∈ s := by
  have hle : (cString s).length ≤ s.length := (List.takeWhile_prefix _).length_le
  rw [← not_iff_not, not_lt, ← cString_eq_self]
  exact ⟨fun h => (List.takeWhile_prefix _).eq_of_length (le_antisymm hle h), fun h => h.symm ▸ le_rfl⟩

theorem readASN1Time_isSome {timegm : Tm → ℤ} (h : asn1TimeBuf time = some (date ++ [0]))
    (hlen : date.length = 14) :
    (readASN1Time ⟨CompatWin.strptime, timegm⟩ time).isSome ↔ 0 ∉ date := by
  rw [readASN1Time, h, Option.bind_some, cString_concat_zero, strptime_isSome, ← length_cString_lt]
  omega

/-- The string is the year, if it is short with two digits more, and what follows it. -/
theorem asn1TimeBuf_of_form (h : HasForm n time) : ∃ century, 0 ∉ century ∧
    (century ++ time.data.take (n + 10)).length = 14 ∧
    asn1TimeBuf time = some (century ++ time.data.take (n + 10) ++ [0]) := by
  obtain ⟨⟨rfl, htype⟩ | ⟨rfl, htype⟩, hlen, hlast⟩ := h
  · have hlen' : time.length = 13 := by rw [ASN1String.length, hlen]; rfl
    refine ⟨if 53 ≤ time.data.getD 0 0 then [49, 57] else [50, 48], ?_, ?_, ?_⟩
    · split <;> decide
    · split <;> simp [hlen]
    · rw [asn1TimeBuf, if_pos ⟨htype, hlen', hlast⟩]
  · have hlen' : time.length = 15 := by rw [ASN1String.length, hlen]; rfl
    refine ⟨[], by simp, by simp [hlen], ?_⟩
    have htype' : ¬ time.type = vASN1UTCTime := by
      rw [htype]
      decide
    rw [asn1TimeBuf, if_neg fun h => htype' h.1, if_pos ⟨htype, hlen', hlast⟩]
    rfl

/-- **`strptime` accepts its grammar only**, exactly if the string is too short or in the grammar; and
`ParseASN1Time` refuses what is not a date, exactly if it is one or has a NUL in it. -/
theorem strptime_grammar_iff (s : List UInt8) (tm : Tm) (timegm : Tm → ℤ) (hform : HasForm n time) :
    (((CompatWin.strptime s x509fmt tm).isSome ↔ IsDate 4 (s.take 14)) ∧
        (∀ tm', CompatWin.strptime s x509fmt tm = some tm' → strftime tm' = s.take 14) ↔
      s.length < 14 ∨ IsDate 4 (s.take 14)) ∧
    ((¬ IsDate n (time.data.take (n + 10)) →
        readASN1Time ⟨CompatWin.strptime, timegm⟩ time = none) ↔
      0 ∈ time.data.take (n + 10) ∨ IsDate n (time.data.take (n + 10))) := by
  constructor
  · rcases Nat.lt_or_ge s.length 14 with h | h
    · have hno : ¬ IsDate 4 (s.take 14) := by
        intro hd
        have hlen := hd.length
        rw [List.length_take] at hlen
        omega
      simp only [strptime_none h, Option.isSome_none, Bool.false_eq_true, hno, h, true_or, iff_true,
        true_and]
      exact nofun
    · simp only [strptime_eq h, Option.isSome_some, true_iff, Option.some.injEq, not_lt.mpr h,
        false_or, and_iff_left_iff_imp]
      rintro hd _ rfl
      rw [← tmOf_take]
      exact strftime_tmOf hd
  · obtain ⟨century, hcentury, hlen, hbuf⟩ := asn1TimeBuf_of_form hform
    rw [← Option.not_isSome_iff_eq_none, readASN1Time_isSome hbuf hlen, List.mem_append]
    simp only [hcentury, false_or, not_not]
    tauto

/-- A date is accepted and can be written again. -/
theorem strptime_grammar_iff_date :
    (CompatWin.strptime (ascii "20130217181920") x509fmt .zero).isSome ∧
      ∀ tm, CompatWin.strptime (ascii "20130217181920") x509fmt .zero = some tm →
        strftime tm = ascii "20130217181920" := by
  have hform : HasForm 2 ⟨vASN1UTCTime, ascii "130217181920Z"⟩ := ⟨.inl ⟨rfl, rfl⟩, rfl, rfl⟩
  obtain ⟨h1, h2⟩ := (strptime_grammar_iff (ascii "20130217181920") .zero Tm.instant hform).1.mpr
    (.inr (by decide))
  exact ⟨h1.mpr (by decide), h2⟩

/-- Letters are accepted, and a UTCTime in a thirteenth month. -/
theorem strptime_accepts_letters :
    (CompatWin.strptime (ascii "YYYYMMDDhhmmss") x509fmt .zero).isSome = true ∧
      ¬ IsDate 4 (ascii "YYYYMMDDhhmmss") ∧
      HasForm 2 ⟨vASN1UTCTime, ascii "131317181920Z"⟩ ∧ ¬ IsDate 2 (ascii "131317181920") ∧
      (readASN1Time ⟨CompatWin.strptime, Tm.instant⟩
        ⟨vASN1UTCTime, ascii "131317181920Z"⟩).isSome = true :=
  ⟨by decide, by decide, ⟨.inl ⟨rfl, rfl⟩, rfl, rfl⟩, by decide, by decide⟩

end LibMumble.X509
