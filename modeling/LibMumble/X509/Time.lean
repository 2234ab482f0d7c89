import LibMumble.Lib.Ascii
import Mathlib.Data.Int.Notation

/-! # ASN.1 times

`ParseASN1Time` puts a UTCTime or a GeneralizedTime into one form, reads it with `strptime` and
makes a `time_t` of it with `timegm`. These two functions come from the platform, `Libc`; for
Windows the source has a `strptime` of its own, `CompatWin.strptime`. Which instant the fields of a
`tm` denote is `Tm.instant`, which is what `timegm` returns where the platform's `time_t` can hold
it. -/

namespace LibMumble.X509

open Lib

/-- The struct `tm`. -/
structure Tm where
  sec : ℤ
  min : ℤ
  hour : ℤ
  mday : ℤ
  mon : ℤ
  year : ℤ
  wday : ℤ
  yday : ℤ
  isdst : ℤ
  deriving DecidableEq, Repr

/-- What `memset` makes of a `tm`. -/
def Tm.zero : Tm := ⟨0, 0, 0, 0, 0, 0, 0, 0, 0⟩

/-! ### The calendar -/

def isLeap (y : ℤ) : Bool := y % 4 = 0 ∧ (y % 100 ≠ 0 ∨ y % 400 = 0)

/-- The days from the epoch to the first of January. -/
def daysBeforeYear (y : ℤ) : ℤ :=
  365 * (y - 1970) + ((y - 1) / 4 - 492) - ((y - 1) / 100 - 19) + ((y - 1) / 400 - 4)

/-- The days of a year before a month, the months being counted from `0`. -/
def daysBeforeMonth (leap : Bool) (m : ℕ) : ℤ :=
  [0, 31, 59, 90, 120, 151, 181, 212, 243, 273, 304, 334].getD m 0 + if leap ∧ 2 ≤ m then 1 else 0

/-- The instant that the fields denote, in seconds since the epoch. -/
def Tm.instant (tm : Tm) : ℤ :=
  let y := tm.year + 1900 + tm.mon / 12
  let days := daysBeforeYear y + daysBeforeMonth (isLeap y) (tm.mon % 12).toNat + (tm.mday - 1)
  86400 * days + 3600 * tm.hour + 60 * tm.min + tm.sec

/-! ### `strptime` and `timegm` -/

/-- The functions of the platform: `strptime` of a string and a format, which is given a `tm`, and
`timegm`. -/
structure Libc where
  strptime : List UInt8 → List UInt8 → Tm → Option Tm
  timegm : Tm → ℤ

/-- `buf[i]-'0'`. -/
def digit (buf : List UInt8) (i : ℕ) : ℤ := char (buf.getD i 0) - 48

/-- `strptime` of `Compat_win.cpp`. -/
def CompatWin.strptime (buf fmt : List UInt8) (tm : Tm) : Option Tm :=
  if fmt ≠ ascii "%Y%m%d%H%M%S" then none
  else if buf.length < 14 then none
  else
    let year := digit buf 0 * 1000 + digit buf 1 * 100 + digit buf 2 * 10 + digit buf 3
    let month := digit buf 4 * 10 + digit buf 5
    let day := digit buf 6 * 10 + digit buf 7
    let hour := digit buf 8 * 10 + digit buf 9
    let minute := digit buf 10 * 10 + digit buf 11
    let seconds := digit buf 12 * 10 + digit buf 13
    some { tm with
      year := year - 1900, mon := month - 1, mday := day, hour := hour, min := minute,
      sec := seconds, wday := 0, yday := 0, isdst := 0 }

/-! ### `ParseASN1Time` -/

/-- The struct `ASN1_STRING`, which is also `ASN1_TIME`. -/
structure ASN1String where
  type : ℤ
  data : List UInt8
  deriving DecidableEq, Repr

abbrev ASN1String.length (s : ASN1String) : ℤ := s.data.length

def vASN1UTCTime : ℤ := 23

def vASN1GeneralizedTime : ℤ := 24

/-- The array `buf`, if the time has one of the two forms. -/
def asn1TimeBuf (time : ASN1String) : Option (List UInt8) :=
  if time.type = vASN1UTCTime ∧ time.length = 13 ∧ time.data[12]? = some 90 then
    -- the year pivots on its first digit
    some ((if 53 ≤ time.data.getD 0 0 then [49, 57] else [50, 48]) ++ time.data.take 12 ++ [0])
  else if time.type = vASN1GeneralizedTime ∧ time.length = 15 ∧ time.data[14]? = some 90 then
    some (time.data.take 14 ++ [0])
  else none

/-- What `ParseASN1Time` reads, if it does not reject the time. -/
def readASN1Time (P : Libc) (time : ASN1String) : Option Tm :=
  (asn1TimeBuf time).bind fun buf => P.strptime (cString buf) (ascii "%Y%m%d%H%M%S") .zero

def parseASN1Time (P : Libc) (time : ASN1String) : ℤ :=
  match readASN1Time P time with
  | some tm => P.timegm tm
  | none => 0

example : parseASN1Time ⟨CompatWin.strptime, Tm.instant⟩ ⟨vASN1UTCTime, ascii "121206085604Z"⟩ =
    1354784164 := by decide

end LibMumble.X509
