import LibMumble.X509.DateTime
import LibMumble.X509.Validity

/-! # The order of times

`ParseASN1Time` keeps times in their order wherever `timegm` is exact. The `time_t` of Android has 32
bits, and `timegm` of `Compat_android.cpp` returns `INT32_MIN` for every time that does not fit, be it
too early or too late. The late ones so come before all others: the order is kept exactly if the
later time fits, or the earlier one does not and is not told from it (`narrow_le_iff`). -/

namespace LibMumble.X509

open Lib X509CertificatePrivate

def int32Min : ℤ := -2 ^ 31

def int32Max : ℤ := 2 ^ 31 - 1

/-- `timegm` of `Compat_android.cpp`. -/
def CompatAndroid.timegm (timegm64 : Tm → ℤ) (tm : Tm) : ℤ :=
  let ts := timegm64 tm
  if ts < int32Min ∨ ts > int32Max then int32Min else ts

/-! ### Narrowing -/

/-- What becomes of an instant. -/
def narrow (t : ℤ) : ℤ := if t < int32Min ∨ t > int32Max then int32Min else t

theorem narrow_le_iff {s u : ℤ} (h : s ≤ u) :
    narrow s ≤ narrow u ↔ u ≤ int32Max ∨ s ≤ int32Min ∨ int32Max < s := by
  unfold narrow int32Min int32Max
  split_ifs <;> omega

/-- A representable time lies on the same side of an instant that fits. -/
theorem narrow_le {t now : ℤ} (hnow : int32Min ≤ now) (ht : t ≤ int32Max) :
    narrow t ≤ now ↔ t ≤ now := by
  unfold narrow
  split_ifs <;> omega

theorem le_narrow {t now : ℤ} (ht : t ≤ int32Max) (h : now ≤ t) : now ≤ narrow t := by
  unfold narrow
  split_ifs <;> omega

/-! ### Times that denote an instant -/

/-- The instant of a date, in seconds since the epoch. -/
def DateTime.instant (d : DateTime) : ℤ := d.tm.instant

/-- A time in one of the two forms of RFC 5280. -/
def Denotes (time : ASN1String) (d : DateTime) : Prop :=
  time = d.generalizedTime ∨ d.InUTCTime ∧ time = d.utcTime

/-- The members of `tm` that a date has are those of `d`. -/
structure SameDate (tm : Tm) (d : DateTime) : Prop where
  year : tm.year = d.year - 1900
  mon : tm.mon = d.month - 1
  mday : tm.mday = d.day
  hour : tm.hour = d.hour
  min : tm.min = d.minute
  sec : tm.sec = d.second

/-- A `strptime` that reads every date; what else it writes to the `tm` is its own. -/
def ReadsDates (strptime : List UInt8 → List UInt8 → Tm → Option Tm) : Prop :=
  ∀ d : DateTime, ∃ tm, strptime d.text x509fmt .zero = some tm ∧ SameDate tm d

theorem readsDates_compatWin : ReadsDates CompatWin.strptime := by
  intro d
  refine ⟨d.tm, ?_, ⟨rfl, rfl, rfl, rfl, rfl, rfl⟩⟩
  rw [strptime_eq (length_text d).ge, tmOf_text]

variable {strptime : List UInt8 → List UInt8 → Tm → Option Tm} {time time' : ASN1String}
  {d d' : DateTime}

theorem SameDate.instant {tm : Tm} (h : SameDate tm d) : tm.instant = d.instant := by
  rw [DateTime.instant, Tm.instant, h.year, h.mon, h.mday, h.hour, h.min, h.sec]
  rfl

/-- A platform whose `time_t` can hold all instants. -/
abbrev exact (strptime : List UInt8 → List UInt8 → Tm → Option Tm) : Libc := ⟨strptime, Tm.instant⟩

/-- Android, whose `timegm64` is exact. -/
abbrev android (strptime : List UInt8 → List UInt8 → Tm → Option Tm) : Libc :=
  ⟨strptime, CompatAndroid.timegm Tm.instant⟩

/-- **A time is read as the date it denotes**, whatever `timegm` makes of it. -/
theorem readASN1Time_of_denotes (hP : ReadsDates strptime) (h : Denotes time d)
    (timegm : Tm → ℤ) : ∃ tm, readASN1Time ⟨strptime, timegm⟩ time = some tm ∧ SameDate tm d := by
  have hbuf : asn1TimeBuf time = some (d.text ++ [0]) := by
    rcases h with rfl | ⟨hyear, rfl⟩
    · exact asn1TimeBuf_generalizedTime d
    · exact asn1TimeBuf_utcTime d hyear
  obtain ⟨tm, htm, hsame⟩ := hP d
  refine ⟨tm, ?_, hsame⟩
  rw [readASN1Time, hbuf, Option.bind_some, cString_text]
  exact htm

theorem parseASN1Time_exact (hP : ReadsDates strptime) (h : Denotes time d) :
    parseASN1Time (exact strptime) time = d.instant := by
  obtain ⟨tm, hread, hsame⟩ := readASN1Time_of_denotes hP h Tm.instant
  rw [parseASN1Time, hread]
  exact hsame.instant

theorem parseASN1Time_android (hP : ReadsDates strptime) (h : Denotes time d) :
    parseASN1Time (android strptime) time = narrow d.instant := by
  obtain ⟨tm, hread, hsame⟩ := readASN1Time_of_denotes hP h (CompatAndroid.timegm Tm.instant)
  have htime : CompatAndroid.timegm Tm.instant tm = narrow tm.instant := rfl
  rw [parseASN1Time, hread, ← hsame.instant]
  exact htime

/-! ### Certificates -/

variable {S : OpenSSL} {P : Libc} {c : X509CertificatePrivate} {x509 : OpenSSLX509}
  {notBefore notAfter : DateTime} {now : ℤ}

/-- The certificate is valid from one date to another. -/
def HasPeriod (x509 : OpenSSLX509) (notBefore notAfter : DateTime) : Prop :=
  ∃ time time', x509.notBefore = some time ∧ Denotes time notBefore ∧
    x509.notAfter = some time' ∧ Denotes time' notAfter

/-- What a certificate knows of its period, if `parse` is what `ParseASN1Time` makes of a date. -/
theorem members_of_period {parse : DateTime → ℤ}
    (hparse : ∀ {time d}, Denotes time d → parseASN1Time P time = parse d) (hm : Made S P c)
    (hd : decoded S c = some x509) (hp : HasPeriod x509 notBefore notAfter) :
    c.notBefore = parse notBefore ∧ c.notAfter = parse notAfter := by
  obtain ⟨time, time', hb, hnb, ha, hna⟩ := hp
  obtain ⟨⟨jb, hmb⟩, ja, hma⟩ := members_of_made hm hd
  rw [hb, assigned, hparse hnb] at hmb
  rw [ha, assigned, hparse hna] at hma
  exact ⟨hmb, hma⟩

/-- **Times are kept in order**: always where `timegm` is exact, and on Android exactly if the later one
fits into 32 bits, or the earlier one neither does nor is `INT32_MIN` itself. So a certificate is valid
from its `notBefore` to its `notAfter` and not before it, on Android if these fit. -/
theorem parseASN1Time_order (hP : ReadsDates strptime) :
    (∀ time time' d d', Denotes time d → Denotes time' d' → d.instant ≤ d'.instant →
      parseASN1Time (exact strptime) time ≤ parseASN1Time (exact strptime) time' ∧
      (parseASN1Time (android strptime) time ≤ parseASN1Time (android strptime) time' ↔
        d'.instant ≤ int32Max ∨ d.instant ≤ int32Min ∨ int32Max < d.instant)) ∧
    ∀ S c x509 notBefore notAfter now, decoded S c = some x509 →
      HasPeriod x509 notBefore notAfter →
      (Made S (exact strptime) c →
        (notBefore.instant ≤ now → now ≤ notAfter.instant → isValidAtTime c now = true) ∧
        (now < notBefore.instant → isValidAtTime c now = false)) ∧
      (Made S (android strptime) c → int32Min ≤ now → now ≤ int32Max →
        (notAfter.instant ≤ int32Max → notBefore.instant ≤ now → now ≤ notAfter.instant →
          isValidAtTime c now = true) ∧
        (notBefore.instant ≤ int32Max → now < notBefore.instant →
          isValidAtTime c now = false)) := by
  refine ⟨fun time time' d d' h h' hle => ⟨?_, ?_⟩, ?_⟩
  · rw [parseASN1Time_exact hP h, parseASN1Time_exact hP h']
    exact hle
  · rw [parseASN1Time_android hP h, parseASN1Time_android hP h']
    exact narrow_le_iff hle
  intro S c x509 notBefore notAfter now hd hp
  refine ⟨fun hm => ?_, fun hm hlo hhi => ?_⟩
  · obtain ⟨hb, ha⟩ := members_of_period (parseASN1Time_exact hP) hm hd hp
    refine ⟨fun h1 h2 => isValidAtTime_iff.mpr ⟨by omega, by omega⟩, fun h => ?_⟩
    rw [← Bool.not_eq_true, isValidAtTime_iff]
    omega
  · obtain ⟨hb, ha⟩ := members_of_period (parseASN1Time_android hP) hm hd hp
    refine ⟨fun hfit h1 h2 => ?_, fun hfit h => ?_⟩
    · have hlower := (narrow_le hlo (h1.trans hhi)).mpr h1
      have hupper := le_narrow hfit h2
      exact isValidAtTime_iff.mpr ⟨by omega, by omega⟩
    · have hno := mt (narrow_le hlo hfit).mp (by omega)
      rw [← Bool.not_eq_true, isValidAtTime_iff]
      omega

/-- The date of certificates that do not expire, RFC 5280, 4.1.2.5. -/
def noExpiry : DateTime :=
  { december with
    year := 9999, day := 31, hour := 23, minute := 59, second := 59
    year_le := by decide, one_le_day := by decide, day_le := by decide, hour_le := by decide
    minute_le := by decide, second_le := by decide }

/-- A certificate with this period. -/
def periodCertificate (notBefore notAfter : DateTime) (P : Libc) : X509CertificatePrivate :=
  theCertificate (withPeriod notBefore.generalizedTime notAfter.generalizedTime) P

theorem hasPeriod_withPeriod (notBefore notAfter : DateTime) : HasPeriod
    (withPeriod notBefore.generalizedTime notAfter.generalizedTime) notBefore notAfter :=
  ⟨_, _, rfl, .inl rfl, rfl, .inl rfl⟩

/-- With an exact `timegm` a certificate that does not expire is valid after its `notBefore`. -/
theorem parseASN1Time_order_noExpiry :
    parseASN1Time (exact CompatWin.strptime) december.utcTime ≤
        parseASN1Time (exact CompatWin.strptime) noExpiry.generalizedTime ∧
      isValidAtTime (periodCertificate december noExpiry (exact CompatWin.strptime)) 1600000000 =
        true := by
  obtain ⟨horder, hcert⟩ := parseASN1Time_order readsDates_compatWin
  have hyear : december.InUTCTime := ⟨by decide, by decide⟩
  have hle : december.instant ≤ noExpiry.instant := by decide
  refine ⟨(horder _ _ _ _ (.inr ⟨hyear, rfl⟩) (.inl rfl) hle).1, ?_⟩
  exact ((hcert _ _ _ _ _ _ rfl (hasPeriod_withPeriod december noExpiry)).1
    (.fromRawDERData 0 0 _ _)).1 (by decide) (by decide)

/-- On Android it never is; and with the two dates the other way round it is valid long before. -/
theorem noExpiry_android :
    december.instant ≤ noExpiry.instant ∧
    parseASN1Time (android CompatWin.strptime) noExpiry.generalizedTime <
      parseASN1Time (android CompatWin.strptime) december.generalizedTime ∧
    (december.instant ≤ 1600000000 ∧ 1600000000 ≤ noExpiry.instant ∧
      isValidAtTime (periodCertificate december noExpiry (android CompatWin.strptime)) 1600000000 =
        false) ∧
    0 < noExpiry.instant ∧
    isValidAtTime (periodCertificate noExpiry december (android CompatWin.strptime)) 0 = true := by
  refine ⟨by decide, ?_, ⟨by decide, by decide, ?_⟩, by decide, ?_⟩
  · rw [parseASN1Time_android readsDates_compatWin (.inl rfl),
      parseASN1Time_android readsDates_compatWin (.inl rfl)]
    decide
  · decide
  · decide

end LibMumble.X509
