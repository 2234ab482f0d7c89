import LibMumble.X509.Certificate

/-! # The validity period

`IsValidAtTime` compares a time with the two members that `ExtractCertificateInfo` filled in, or
did not: they are what the memory held when nothing was decoded, and `0` when `ParseASN1Time`
rejected the field. The certificate is then valid at the times in the window that is left. The
times outside of it, and the certificates both of whose fields are accepted, are those at which
`IsValidAtTime` fails closed (`failsClosed_iff`). -/

namespace LibMumble.X509

open Lib X509CertificatePrivate

variable {S : OpenSSL} {P : Libc} {c : X509CertificatePrivate} {t : ℤ}

def isValidAtTime (c : X509CertificatePrivate) (time : ℤ) : Bool :=
  time ≥ c.notBefore && time ≤ c.notAfter

theorem isValidAtTime_iff : isValidAtTime c t = true ↔ c.notBefore ≤ t ∧ t ≤ c.notAfter := by
  rw [isValidAtTime, Bool.and_eq_true, decide_eq_true_eq, decide_eq_true_eq, ge_iff_le]

/-- The fields of the `tm` of a time that is there and is accepted. -/
def accepted (P : Libc) (field : Option ASN1String) : Option Tm := field.bind (readASN1Time P)

/-- The DER decodes, both fields are accepted, and the instants they denote enclose `t`. -/
def ValidAt (S : OpenSSL) (P : Libc) (c : X509CertificatePrivate) (t : ℤ) : Prop :=
  ∃ x509 notBefore notAfter, decoded S c = some x509 ∧ accepted P x509.notBefore = some notBefore ∧
    accepted P x509.notAfter = some notAfter ∧ notBefore.instant ≤ t ∧ t ≤ notAfter.instant

/-- What a member holds whose field is not accepted. -/
def leftover (junk : ℤ) (field : Option ASN1String) : ℤ := if field.isSome then 0 else junk

theorem assigned_of_accepted {junk : ℤ} {field : Option ASN1String} {tm : Tm}
    (h : accepted P field = some tm) : assigned P junk field = P.timegm tm := by
  cases field with
  | none => cases h
  | some time =>
    have hr : readASN1Time P time = some tm := h
    simp only [assigned, parseASN1Time, hr]

theorem assigned_of_rejected {junk : ℤ} {field : Option ASN1String}
    (h : accepted P field = none) : assigned P junk field = leftover junk field := by
  cases field with
  | none => rfl
  | some time =>
    have hr : readASN1Time P time = none := h
    simp only [assigned, parseASN1Time, hr, leftover, Option.isSome_some, if_true]

theorem leftover_leftover (junk : ℤ) (field : Option ASN1String) :
    leftover (leftover junk field) field = leftover junk field := by
  cases field <;> rfl

/-- The members hold what was assigned to them, or nothing was decoded. -/
theorem members_of_made (h : Made S P c) {x509 : OpenSSLX509} (hd : decoded S c = some x509) :
    (∃ junk, c.notBefore = assigned P junk x509.notBefore) ∧
      ∃ junk, c.notAfter = assigned P junk x509.notAfter := by
  obtain ⟨nb, na, cert, pkey, rfl⟩ := made_eq h
  cases hx : S.d2iX509 cert.content with
  | none =>
    rw [fromRawDERData_none hx, decoded, hx] at hd
    cases hd
  | some x =>
    have heq := @fromRawDERData_some S P nb na cert pkey _ hx
    rw [heq, decoded, hx] at hd
    obtain rfl := Option.some.inj hd
    rw [heq]
    exact ⟨⟨nb, rfl⟩, ⟨na, rfl⟩⟩

/-- A bound that is not accepted leaves its member as it was before the assignment, or at `0`. -/
theorem member_of_rejected {junk member : ℤ} {field : Option ASN1String}
    (hm : member = assigned P junk field) (h : accepted P field = none) :
    member = leftover member field := by
  rw [hm, assigned_of_rejected h, leftover_leftover]

/-- The times at which nothing is accepted that is not shown to be valid: where a field is not
accepted, those outside of the window that is left. -/
def FailsClosedWhen (S : OpenSSL) (P : Libc) (c : X509CertificatePrivate) (t : ℤ) : Prop :=
  match decoded S c with
  | none => t < c.notBefore ∨ c.notAfter < t
  | some x509 =>
    let junkBefore := leftover c.notBefore x509.notBefore
    let junkAfter := leftover c.notAfter x509.notAfter
    match accepted P x509.notBefore, accepted P x509.notAfter with
    | none, none => t < junkBefore ∨ junkAfter < t
    | some notBefore, none => t < P.timegm notBefore ∨ junkAfter < t
    | none, some notAfter => t < junkBefore ∨ P.timegm notAfter < t
    -- what is left to ask is whether `time_t` can hold the instants
    | some notBefore, some notAfter => P.timegm notBefore ≤ t → t ≤ P.timegm notAfter →
        notBefore.instant ≤ t ∧ t ≤ notAfter.instant

/-- What is not shown to be valid is not accepted outside of the window. -/
theorem outside_iff {lo hi : ℤ} {V : Prop} (hV : ¬ V) :
    (lo ≤ t ∧ t ≤ hi → V) ↔ t < lo ∨ hi < t := by
  constructor
  · intro h
    by_contra hin
    exact hV (h (by omega))
  · rintro h ⟨h1, h2⟩
    omega

theorem validAt_iff {x509 : OpenSSLX509} (hd : decoded S c = some x509) :
    ValidAt S P c t ↔ ∃ notBefore notAfter, accepted P x509.notBefore = some notBefore ∧
      accepted P x509.notAfter = some notAfter ∧ notBefore.instant ≤ t ∧ t ≤ notAfter.instant := by
  constructor
  · rintro ⟨x, notBefore, notAfter, hx, h⟩
    rw [hd] at hx
    obtain rfl := Option.some.inj hx
    exact ⟨notBefore, notAfter, h⟩
  · rintro ⟨notBefore, notAfter, h⟩
    exact ⟨x509, notBefore, notAfter, hd, h⟩

/-- **Validity fails closed** exactly there. -/
theorem failsClosed_iff (h : Made S P c) (t : ℤ) :
    (isValidAtTime c t = true → ValidAt S P c t) ↔ FailsClosedWhen S P c t := by
  rw [isValidAtTime_iff]
  cases hd : decoded S c with
  | none =>
    have hno : ¬ ValidAt S P c t := by
      rintro ⟨x509, -, -, hx, -⟩
      rw [hd] at hx
      cases hx
    simp only [FailsClosedWhen, hd]
    exact outside_iff hno
  | some x509 =>
    obtain ⟨⟨jb, hb⟩, ⟨ja, ha⟩⟩ := members_of_made h hd
    rw [validAt_iff hd]
    simp only [FailsClosedWhen, hd]
    cases hnb : accepted P x509.notBefore with
    | none =>
      have hmb := member_of_rejected hb hnb
      cases hna : accepted P x509.notAfter with
      | none =>
        have hma := member_of_rejected ha hna
        show _ ↔ t < leftover c.notBefore _ ∨ leftover c.notAfter _ < t
        rw [← hmb, ← hma]
        exact outside_iff (by simp)
      | some notAfter =>
        have hma := ha.trans (assigned_of_accepted hna)
        show _ ↔ t < leftover c.notBefore _ ∨ P.timegm notAfter < t
        rw [← hmb, ← hma]
        exact outside_iff (by simp)
    | some notBefore =>
      have hmb := hb.trans (assigned_of_accepted hnb)
      cases hna : accepted P x509.notAfter with
      | none =>
        have hma := member_of_rejected ha hna
        show _ ↔ t < P.timegm notBefore ∨ leftover c.notAfter _ < t
        rw [← hmb, ← hma]
        exact outside_iff (by simp)
      | some notAfter =>
        have hma := ha.trans (assigned_of_accepted hna)
        show _ ↔ (P.timegm notBefore ≤ t → t ≤ P.timegm notAfter → _)
        rw [← hmb, ← hma]
        simp

/-- A certificate of which only the validity period matters. -/
def withPeriod (notBefore notAfter : ASN1String) : OpenSSLX509 :=
  ⟨[], [], some notBefore, some notAfter, none⟩

/-- A platform whose `time_t` can hold all instants. -/
def exactLibc : Libc := ⟨CompatWin.strptime, Tm.instant⟩

def googleDK : OpenSSLX509 :=
  withPeriod ⟨vASN1UTCTime, ascii "121206085604Z"⟩ ⟨vASN1UTCTime, ascii "130607194327Z"⟩

theorem failsClosed_googleDK :
    ValidAt (oneCertificate googleDK) exactLibc (theCertificate googleDK exactLibc) 1354784164 := by
  refine (failsClosed_iff (.fromRawDERData 0 0 _ _) 1354784164).mpr ?_ (by decide)
  exact fun _ _ => by decide

/-- A `notBefore` without seconds is rejected and becomes `0`, so that the certificate is valid
twenty years too early. -/
def withoutSeconds : OpenSSLX509 :=
  withPeriod ⟨vASN1UTCTime, ascii "9001010000Z"⟩ ⟨vASN1UTCTime, ascii "300101000000Z"⟩

/-- It is valid on the second day of 1970, and a new object is valid whenever its memory says so. -/
theorem rejected_accepted : (∃ c, Made (oneCertificate withoutSeconds) exactLibc c ∧
      isValidAtTime c 86400 = true ∧ ¬ ValidAt (oneCertificate withoutSeconds) exactLibc c 86400) ∧
    ∃ c, Made (oneCertificate withoutSeconds) exactLibc c ∧ c.certDer = .null ∧
      isValidAtTime c 86400 = true ∧ ¬ ValidAt (oneCertificate withoutSeconds) exactLibc c 86400 := by
  constructor
  · refine ⟨theCertificate withoutSeconds exactLibc, .fromRawDERData 0 0 _ _, by decide, ?_⟩
    rintro ⟨x509, notBefore, -, hd, hb, -⟩
    obtain rfl := Option.some.inj hd
    have hnone : accepted exactLibc withoutSeconds.notBefore = none := by decide
    rw [hnone] at hb
    cases hb
  · refine ⟨new 0 (2 ^ 63 - 1), .default _ _, rfl, by decide, ?_⟩
    rintro ⟨x509, -, -, hd, -⟩
    cases hd

end LibMumble.X509
