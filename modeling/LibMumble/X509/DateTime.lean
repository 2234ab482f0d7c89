import LibMumble.ByteArray
import LibMumble.X509.Strptime

/-! # Dates and their encodings

`DateTime` is a date and a time of day in UTC, `utcTime` and `generalizedTime` are the two ways in which
a certificate has it. `ParseASN1Time` puts either into a local array, which is modelled here with the
bytes that were not written to (`fillASN1TimeBuf`), and gets the date back. -/

namespace LibMumble.X509

open Lib

/-! ### The array -/

/-- A local array of `char`; `none` is a byte that nothing was written to. -/
abbrev CharArray := List (Option UInt8)

/-- `memcpy(buf+off, src, n)`. -/
def CharArray.memcpy (buf : CharArray) (off : ℕ) (src : List UInt8) (n : ℤ) :
    Except Fault CharArray := do
  let bytes ← readBlock src 0 n
  if off + bytes.length ≤ buf.length then
    return buf.take off ++ bytes.map some ++ buf.drop (off + bytes.length)
  else .error .outOfBounds

/-- `buf[i] = c`. -/
def CharArray.assign (buf : CharArray) (i : ℕ) (c : UInt8) : Except Fault CharArray :=
  if i < buf.length then .ok (buf.set i (some c)) else .error .outOfBounds

/-- The first two digits of the year, by the third one. -/
def CharArray.putCentury (buf : CharArray) (c : UInt8) : Except Fault CharArray :=
  if 53 ≤ c then do
    let buf ← buf.assign 0 49
    buf.assign 1 57
  else do
    let buf ← buf.assign 0 50
    buf.assign 1 48

/-- What `ParseASN1Time` does to `buf`, if it does not reject the time. -/
def fillASN1TimeBuf (time : ASN1String) : Except Fault (Option CharArray) :=
  let buf : CharArray := List.replicate 15 none
  if time.type = vASN1UTCTime ∧ time.length = 13 ∧ time.data[12]? = some 90 then do
    let buf ← buf.memcpy 2 time.data (time.length - 1)
    let buf ← buf.putCentury (time.data.getD 0 0)
    let buf ← buf.assign 14 0
    return some buf
  else if time.type = vASN1GeneralizedTime ∧ time.length = 15 ∧ time.data[14]? = some 90 then do
    let buf ← buf.memcpy 0 time.data (time.length - 1)
    let buf ← buf.assign 14 0
    return some buf
  else .ok none

variable {time : ASN1String}

theorem CharArray.memcpy_ok {buf : CharArray} {off n : ℕ} {src : List UInt8} (hsrc : n ≤ src.length)
    (hbuf : off + n ≤ buf.length) : buf.memcpy off src n =
      .ok (buf.take off ++ (src.take n).map some ++ buf.drop (off + n)) := by
  have hlen : (src.take n).length = n := by
    rw [List.length_take]
    omega
  rw [CharArray.memcpy, readBlock_ok le_rfl (by omega) (by omega)]
  simp only [Int.toNat_zero, List.drop_zero, Int.toNat_natCast, bind, Except.bind, hlen, if_pos hbuf]
  rfl

theorem CharArray.assign_last {buf : CharArray} {n : ℕ} (h : buf.length = n) (x : Option UInt8)
    (c : UInt8) : CharArray.assign (buf ++ [x]) n c = .ok (buf ++ [some c]) := by
  subst h
  have hlt : buf.length < (buf ++ [x]).length := by simp
  rw [CharArray.assign, if_pos hlt, List.set_append_right _ _ le_rfl, Nat.sub_self, List.set_cons_zero]

theorem CharArray.putCentury_ok (buf : CharArray) (x y : Option UInt8) (c : UInt8) :
    CharArray.putCentury (x :: y :: buf) c =
      .ok ((if 53 ≤ c then [49, 57] else [50, 48]).map some ++ buf) := by
  unfold CharArray.putCentury
  split_ifs <;> rfl

/-- **The array is filled**: nothing is written outside of it, and no byte of it is left as it was. -/
theorem fillASN1TimeBuf_eq (time : ASN1String) :
    fillASN1TimeBuf time = .ok ((asn1TimeBuf time).map (List.map some)) := by
  unfold fillASN1TimeBuf asn1TimeBuf
  by_cases h1 : time.type = vASN1UTCTime ∧ time.length = 13 ∧ time.data[12]? = some 90
  · have hlen : time.data.length = 13 := by exact_mod_cast h1.2.1
    have hn : time.length - 1 = (12 : ℕ) := by
      have := h1.2.1
      omega
    have hcopy : CharArray.memcpy (List.replicate 15 none) 2 time.data (time.length - 1) =
        .ok (none :: none :: ((time.data.take 12).map some ++ [none])) := by
      rw [hn, CharArray.memcpy_ok (by omega) (by simp)]
      rfl
    set century : List UInt8 := if 53 ≤ time.data.getD 0 0 then [49, 57] else [50, 48] with hc
    have hclen : century.length = 2 := by
      rw [hc]
      split_ifs <;> rfl
    have hlast : CharArray.assign (century.map some ++ ((time.data.take 12).map some ++ [none])) 14 0 =
        .ok ((century ++ time.data.take 12 ++ [0]).map some) := by
      rw [← List.append_assoc, CharArray.assign_last (by simp [hlen, hclen])]
      simp
    simp only [if_pos h1, hcopy, bind, Except.bind, CharArray.putCentury_ok, ← hc, hlast]
    rfl
  · rw [if_neg h1, if_neg h1]
    by_cases h2 : time.type = vASN1GeneralizedTime ∧ time.length = 15 ∧ time.data[14]? = some 90
    · have hlen : time.data.length = 15 := by exact_mod_cast h2.2.1
      have hn : time.length - 1 = (14 : ℕ) := by
        have := h2.2.1
        omega
      have hcopy : CharArray.memcpy (List.replicate 15 none) 0 time.data (time.length - 1) =
          .ok ((time.data.take 14).map some ++ [none]) := by
        rw [hn, CharArray.memcpy_ok (by omega) (by simp)]
        rfl
      have hlast : CharArray.assign ((time.data.take 14).map some ++ [none]) 14 0 =
          .ok ((time.data.take 14 ++ [0]).map some) := by
        rw [CharArray.assign_last (by simp [hlen])]
        simp
      simp only [if_pos h2, hcopy, bind, Except.bind, hlast]
      rfl
    · rw [if_neg h2, if_neg h2]
      rfl

/-! ### Dates -/

/-- The days of a month; the months are counted from `1`. -/
def daysInMonth (y m : ℕ) : ℕ :=
  if m = 2 then if isLeap y then 29 else 28
  else if m = 4 ∨ m = 6 ∨ m = 9 ∨ m = 11 then 30 else 31

/-- A date and a time of day in UTC, of the calendar as it is now. There may be a leap second. -/
structure DateTime where
  year : ℕ
  month : ℕ
  day : ℕ
  hour : ℕ
  minute : ℕ
  second : ℕ
  year_le : year ≤ 9999
  one_le_month : 1 ≤ month
  month_le : month ≤ 12
  one_le_day : 1 ≤ day
  day_le : day ≤ daysInMonth year month
  hour_le : hour ≤ 23
  minute_le : minute ≤ 59
  second_le : second ≤ 60

namespace DateTime

/-- The fields of `tm` that say this date; all others are `0`. -/
def tm (d : DateTime) : Tm :=
  ⟨d.second, d.minute, d.hour, d.day, d.month - 1, d.year - 1900, 0, 0, 0⟩

/-- What follows the year. -/
def rest (d : DateTime) : List UInt8 :=
  decimal 2 d.month ++ (decimal 2 d.day ++ (decimal 2 d.hour ++ (decimal 2 d.minute ++
    decimal 2 d.second)))

def text (d : DateTime) : List UInt8 := decimal 4 d.year ++ d.rest

/-- RFC 5280, 4.1.2.5.2: `YYYYMMDDHHMMSSZ`. -/
def generalizedTime (d : DateTime) : ASN1String := ⟨vASN1GeneralizedTime, d.text ++ [90]⟩

/-- RFC 5280, 4.1.2.5.1: `YYMMDDHHMMSSZ`. -/
def utcTime (d : DateTime) : ASN1String := ⟨vASN1UTCTime, decimal 2 d.year ++ d.rest ++ [90]⟩

/-- The years that two digits can say. -/
def InUTCTime (d : DateTime) : Prop := 1950 ≤ d.year ∧ d.year ≤ 2049

end DateTime

variable (d : DateTime)

theorem length_rest : d.rest.length = 10 := by simp [DateTime.rest]

theorem length_text : d.text.length = 14 := by simp [DateTime.text, length_rest]

theorem day_le_31 : d.day ≤ 31 := by
  have hle := d.day_le
  unfold daysInMonth at hle
  split_ifs at hle <;> omega

theorem isDigit_text : ∀ b ∈ d.text, isDigit b = true := by
  intro b hb
  simp only [DateTime.text, DateTime.rest, List.mem_append] at hb
  rcases hb with hb | hb | hb | hb | hb | hb <;> exact isDigit_of_mem_decimal hb

theorem zero_notMem_text : 0 ∉ d.text := fun h => absurd (isDigit_text d 0 h) (by decide)

/-! ### Reading a date -/

section Fields

variable {s : List UInt8} {v w n i : ℕ}

theorem fieldAt_zero (h : n < 10 ^ w) : fieldAt (decimal w n ++ s) 0 w = n := by
  rw [fieldAt, List.drop_zero, List.take_left' (length_decimal w n), number_decimal h]

theorem fieldAt_skip : fieldAt (decimal v n ++ s) (v + i) w = fieldAt s i w := by
  have hdrop : (decimal v n ++ s).drop (v + i) = s.drop i := by
    rw [← List.drop_drop, List.drop_left' (length_decimal v n)]
  rw [fieldAt, hdrop, fieldAt]

end Fields

/-- **The fields of a date are read back.** -/
theorem tmOf_text : tmOf d.text .zero = d.tm := by
  have hday := day_le_31 d
  have h1 := d.year_le
  have h2 := d.month_le
  have h3 := d.hour_le
  have h4 := d.minute_le
  have h5 := d.second_le
  have hyear : fieldAt d.text 0 4 = d.year := fieldAt_zero (by omega)
  have hmonth : fieldAt d.text 4 2 = d.month :=
    (fieldAt_skip (i := 0)).trans (fieldAt_zero (by omega))
  have hmday : fieldAt d.text 6 2 = d.day :=
    (fieldAt_skip (i := 2)).trans <| (fieldAt_skip (i := 0)).trans (fieldAt_zero (by omega))
  have hhour : fieldAt d.text 8 2 = d.hour :=
    (fieldAt_skip (i := 4)).trans <| (fieldAt_skip (i := 2)).trans <|
      (fieldAt_skip (i := 0)).trans (fieldAt_zero (by omega))
  have hmin : fieldAt d.text 10 2 = d.minute :=
    (fieldAt_skip (i := 6)).trans <| (fieldAt_skip (i := 4)).trans <|
      (fieldAt_skip (i := 2)).trans <| (fieldAt_skip (i := 0)).trans (fieldAt_zero (by omega))
  have hlast : fieldAt (decimal 2 d.second) 0 2 = d.second := by
    have h := fieldAt_zero (s := []) (show d.second < 10 ^ 2 by omega)
    rwa [List.append_nil] at h
  have hsec : fieldAt d.text 12 2 = d.second :=
    (fieldAt_skip (i := 8)).trans <| (fieldAt_skip (i := 6)).trans <|
      (fieldAt_skip (i := 4)).trans <| (fieldAt_skip (i := 2)).trans <|
        (fieldAt_skip (i := 0)).trans hlast
  rw [tmOf, hyear, hmonth, hmday, hhour, hmin, hsec]
  rfl

/-! ### Both encodings -/

theorem asn1TimeBuf_generalizedTime : asn1TimeBuf d.generalizedTime = some (d.text ++ [0]) := by
  have hlen : d.text.length = 14 := length_text d
  have htype : ¬ vASN1GeneralizedTime = vASN1UTCTime := by decide
  have hlast : d.generalizedTime.data[14]? = some 90 := by
    rw [DateTime.generalizedTime, List.getElem?_append_right (by omega), hlen]
    rfl
  have hlength : d.generalizedTime.length = 15 := by
    rw [DateTime.generalizedTime, ASN1String.length, List.length_append, hlen]
    rfl
  rw [asn1TimeBuf, if_neg fun h => htype h.1, if_pos ⟨rfl, hlength, hlast⟩]
  simp [DateTime.generalizedTime, hlen]

/-- The two digits that the pivot puts before the year. -/
theorem century_eq (h : d.InUTCTime) :
    (if 53 ≤ UInt8.ofNat (48 + d.year / 10 % 10) then [49, 57] else [50, 48]) =
      decimal 2 (d.year / 100) := by
  obtain ⟨h1, h2⟩ := h
  have hle : (53 : UInt8) ≤ UInt8.ofNat (48 + d.year / 10 % 10) ↔ 53 ≤ 48 + d.year / 10 % 10 := by
    rw [UInt8.le_iff_toNat_le, toNat_digit]
    rfl
  rcases Nat.lt_or_ge d.year 2000 with hy | hy
  · have hq : d.year / 100 = 19 := by omega
    rw [if_pos (hle.mpr (by omega)), hq]
    rfl
  · have hq : d.year / 100 = 20 := by omega
    rw [if_neg (mt hle.mp (by omega)), hq]
    rfl

theorem asn1TimeBuf_utcTime (h : d.InUTCTime) : asn1TimeBuf d.utcTime = some (d.text ++ [0]) := by
  have hlen : (decimal 2 d.year ++ d.rest).length = 12 := by simp [length_rest]
  have hlast : d.utcTime.data[12]? = some 90 := by
    rw [DateTime.utcTime, List.getElem?_append_right (by omega), hlen]
    rfl
  have hlength : d.utcTime.length = 13 := by
    rw [DateTime.utcTime, ASN1String.length, List.length_append, hlen]
    rfl
  have hfirst : d.utcTime.data.getD 0 0 = UInt8.ofNat (48 + d.year / 10 % 10) := rfl
  have htake : d.utcTime.data.take 12 = decimal 2 d.year ++ d.rest := by
    rw [DateTime.utcTime, List.take_left' hlen]
  have hyear : decimal 4 d.year = decimal 2 (d.year / 100) ++ decimal 2 d.year := decimal_add 2 2 _
  rw [asn1TimeBuf, if_pos ⟨rfl, hlength, hlast⟩, hfirst, htake, century_eq d h, DateTime.text, hyear]
  simp

theorem cString_text : cString (d.text ++ [0]) = d.text := by
  rw [cString_concat_zero, cString_eq_self]
  exact zero_notMem_text d

/-- What is handed to `strptime` is the date. -/
theorem readASN1Time_of_text {timegm : Tm → ℤ} {time : ASN1String}
    (h : asn1TimeBuf time = some (d.text ++ [0])) :
    readASN1Time ⟨CompatWin.strptime, timegm⟩ time = some d.tm := by
  rw [readASN1Time, h, Option.bind_some, cString_text, ← tmOf_text]
  exact strptime_eq (length_text d).ge

/-- `ParseASN1Time` fills the array with the fourteen characters of a date and a NUL, writing nowhere
else, and returns what `timegm` makes of the date. -/
structure ParsesTo (timegm : Tm → ℤ) (time : ASN1String) (d : DateTime) : Prop where
  length : d.text.length = 14
  filled : fillASN1TimeBuf time = .ok (some ((d.text ++ [0]).map some))
  value : parseASN1Time ⟨CompatWin.strptime, timegm⟩ time = timegm d.tm

theorem parsesTo_of_text {timegm : Tm → ℤ} {time : ASN1String}
    (h : asn1TimeBuf time = some (d.text ++ [0])) : ParsesTo timegm time d := by
  refine ⟨length_text d, ?_, ?_⟩
  · rw [fillASN1TimeBuf_eq, h, Option.map_some]
  · rw [parseASN1Time, readASN1Time_of_text d h]

/-- **`ParseASN1Time` undoes the encoding**, whichever it is. -/
theorem parseASN1Time_encode (timegm : Tm → ℤ) (d : DateTime) :
    ParsesTo timegm d.generalizedTime d ∧ (d.InUTCTime → ParsesTo timegm d.utcTime d ∧
      parseASN1Time ⟨CompatWin.strptime, timegm⟩ d.utcTime =
        parseASN1Time ⟨CompatWin.strptime, timegm⟩ d.generalizedTime) := by
  have hgen : ParsesTo timegm d.generalizedTime d :=
    parsesTo_of_text d (asn1TimeBuf_generalizedTime d)
  refine ⟨hgen, fun h => ?_⟩
  have hutc : ParsesTo timegm d.utcTime d := parsesTo_of_text d (asn1TimeBuf_utcTime d h)
  exact ⟨hutc, hutc.value.trans hgen.value.symm⟩

/-- The `notBefore` of a certificate, 2012-12-06 08:56:04. -/
def december : DateTime :=
  ⟨2012, 12, 6, 8, 56, 4, by decide, by decide, by decide, by decide, by decide, by decide, by decide,
    by decide⟩

theorem parseASN1Time_encode_december : december.utcTime = ⟨vASN1UTCTime, ascii "121206085604Z"⟩ ∧
    parseASN1Time ⟨CompatWin.strptime, Tm.instant⟩ december.utcTime = 1354784164 ∧
    parseASN1Time ⟨CompatWin.strptime, Tm.instant⟩ december.utcTime =
      parseASN1Time ⟨CompatWin.strptime, Tm.instant⟩ december.generalizedTime := by
  have hutc := (parseASN1Time_encode Tm.instant december).2 ⟨by decide, by decide⟩
  exact ⟨by decide, hutc.1.value.trans (by decide), hutc.2⟩

end LibMumble.X509
