import LibMumble.X509.Generate
import LibMumble.X509.PKCS12Import
import LibMumble.X509.TimeOrder

/-! # The life of an identity

A client generates its certificate once, exports it, and imports it on the next machine. What is
imported is not only a certificate with the same bytes, but the same value: `FromPKCS12` makes its
certificates of arrays that hold exactly the DER, as `GenerateSelfSignedCertificate` does, and everything
else in them is read out of the DER. So what was imported once comes out of an export and an import
unchanged, and so does what was generated. It lasts for twenty years of 365 days, unless these end after
the last second that the `time_t` of Android can hold: there it is then not valid at any time. -/

namespace LibMumble.X509

open Lib X509CertificatePrivate

variable {S : OpenSSL} {L : OpenSSLPKCS12 S} {P : Libc} {heap : ℕ → UInt8} {nb na : ℤ}

/-- An array of these bytes and no more memory. -/
def exactArray (b : List UInt8) : ByteArray := ⟨some b, b.length, b.length⟩

/-- The certificate of this DER, and the DER of its key if it has one. -/
def ofDER (S : OpenSSL) (P : Libc) (nb na : ℤ) (cert : List UInt8) (key : Option (List UInt8)) :
    X509CertificatePrivate :=
  fromRawDERData S P nb na (exactArray cert) (key.elim .null exactArray)

theorem made_eq_ofDER (x509 : L.Cert) (key : Option L.PKey) :
    made L P nb na x509 key = ofDER S P nb na (L.i2dX509 x509) (key.map L.i2dPrivateKey) := by
  cases key <;> rfl

theorem asOpenSSLX509_ofDER (cert : List UInt8) (key : Option (List UInt8)) :
    L.asOpenSSLX509 (ofDER S P nb na cert key) = L.d2iX509 cert := by
  rw [OpenSSLPKCS12.asOpenSSLX509, ofDER, fromRawDERData_ders.1]
  exact congrArg L.d2iX509 (ByteArray.content_exact cert)

theorem asPrivateKey_ofDER (cert : List UInt8) (key : Option (List UInt8)) :
    L.asPrivateKey (ofDER S P nb na cert key) = key.bind L.d2iAutoPrivateKey := by
  rw [OpenSSLPKCS12.asPrivateKey, ofDER, fromRawDERData_ders.2]
  cases key with
  | none => rfl
  | some key => exact congrArg L.d2iAutoPrivateKey (ByteArray.content_exact key)

/-! ### Export and import -/

/-- What OpenSSL decodes of its own encoding. -/
def Recodes (L : OpenSSLPKCS12 S) (x : L.Cert) : Prop := L.d2iX509 (L.i2dX509 x) = some x

theorem asOpenSSLX509_made {x : L.Cert} (h : Recodes L x) (key : Option L.PKey) :
    L.asOpenSSLX509 (made L P nb na x key) = some x := by
  rw [made_eq_ofDER, asOpenSSLX509_ofDER, h]

theorem hasCertificate_made (x : L.Cert) (key : Option L.PKey) :
    (made L P nb na x key).hasCertificate = true := by
  rw [hasCertificate, made_eq_ofDER, ofDER, fromRawDERData_ders.1]
  rfl

theorem pushCerts_made {stack : List L.Cert} (h : ∀ y ∈ stack, Recodes L y) :
    pushCerts L (stack.map fun y => made L P nb na y none) = stack.map some := by
  induction stack with
  | nil => rfl
  | cons y stack ih =>
    rw [List.map_cons, pushCerts, if_pos (hasCertificate_made y none), asOpenSSLX509_made (h y (by simp)),
      ih fun z hz => h z (by simp [hz]), List.map_cons]

theorem decoded_made {x : L.Cert} (h : Recodes L x) (key : Option L.PKey) :
    (decoded S (made L P nb na x key)).isSome := by
  have hx : L.asOpenSSLX509 (made L P nb na x key) = some x := asOpenSSLX509_made h key
  rw [OpenSSLPKCS12.asOpenSSLX509] at hx
  rw [decoded, L.d2iX509_info, hx]
  rfl

/-- A password is what it is as a C string. -/
theorem parsePKCS12_same {password password' name : List UInt8} {key : Option L.PKey} {x : L.Cert}
    {stack : List L.Cert} {p : L.PKCS12}
    (h : L.pkcs12Create (passwordCStr password) name key x (stack.map some) = some p)
    (hsame : cString password = cString password') :
    parsePKCS12 L p password' = parsePKCS12 L p password := by
  have hcall := L.pkcs12Parse_create _ h (samePassword_passwordCStr.mpr hsame)
  rw [parsePKCS12_eq h, parsePKCS12, hcall]
  exact if_neg fun hret => absurd hret.1 (by decide : (1 : ℤ) ≠ 0)

/-- **What an import makes, an export and an import leave as it is**, if no other certificate has the
public key of the leaf. -/
theorem madeChain_roundtrip {x : L.Cert} {stack : List L.Cert} {key : Option L.PKey}
    (hcode : ∀ y ∈ x :: stack, Recodes L y)
    (hkey : ∀ k, key = some k → L.d2iAutoPrivateKey (L.i2dPrivateKey k) = some k ∧
      L.publicKey x = L.pkeyPublic k)
    (hother : ∀ y ∈ stack, ∀ k, key = some k → L.publicKey y ≠ L.pkeyPublic k)
    (password : List UInt8) :
    ∃ blob, exportCertificateChainAsPKCS12 L (madeChain L P nb na key x stack) password = .ok blob ∧
      ∀ password', fromPKCS12 L P heap nb na blob password' =
        .ok (if cString password = cString password' then madeChain L P nb na key x stack else []) := by
  have hpkey : L.asPrivateKey (made L P nb na x key) = key := by
    rw [made_eq_ofDER, asPrivateKey_ofDER]
    cases key with
    | none => rfl
    | some k => exact (hkey k rfl).1
  have hstack : ∀ y ∈ stack, Recodes L y := fun y hy => hcode y (by simp [hy])
  have hpush : pushCerts L (stack.map fun y => made L P nb na y none) = stack.map some :=
    pushCerts_made hstack
  have hx : L.asOpenSSLX509 (made L P nb na x key) = some x :=
    asOpenSSLX509_made (hcode x (by simp)) key
  obtain ⟨blob, hexp, himp⟩ := @import_export S L P heap nb na _ _ password _ _ _
    (hasCertificate_made x key) hx hpkey (fun k hk => (hkey k hk).2) hpush hother
  refine ⟨blob, hexp, fun password' => ?_⟩
  split_ifs with hsame
  · rcases export_ok hexp with rfl | ⟨name, key', x', p, hp, rfl⟩
    · -- nothing is imported from a null array
      simp [fromPKCS12, ByteArray.isNull, ByteArray.null, madeChain] at himp
    · rw [List.tail_cons, hpush] at hp
      rw [← himp, fromPKCS12_eq, fromPKCS12_eq, ← fileOf, outcome_fileOf, outcome_fileOf,
        parsePKCS12_same hp hsame]
  · refine fromPKCS12_other_password ?_ hexp hsame
    intro c hc
    obtain ⟨y, hy, rfl⟩ := List.mem_map.mp hc
    exact decoded_made (hstack y hy) none

/-- The key is that of the leaf, and the certificates are those that `PKCS12_parse` found. -/
theorem exists_madeChain {r : PKCS12ParseResult L.PKey L.Cert} {c0 : X509CertificatePrivate}
    {rest : List X509CertificatePrivate}
    (h : importParsed L P heap nb na r = .ok (c0 :: rest)) :
    ∃ key x stack, c0 :: rest = madeChain L P nb na key x stack ∧
      (∀ y ∈ x :: stack, y ∈ r.x509.toList ++ r.certs.getD []) ∧
      ∀ k, key = some k → r.pkey = some k ∧ L.publicKey x = L.pkeyPublic k := by
  rw [importParsed] at h
  by_cases hpair : r.ret = 1 ∧ r.x509.isSome ∧ r.pkey.isSome
  · obtain ⟨hret, hx, hk⟩ := hpair
    obtain ⟨x, hx⟩ := Option.isSome_iff_exists.mp hx
    obtain ⟨k, hk⟩ := Option.isSome_iff_exists.mp hk
    rw [importLeaf_pair hret hx hk] at h
    rcases L.check_eq x k with ⟨hcheck, hmatch⟩ | ⟨hcheck, -⟩
    · rw [hcheck, if_pos (by decide)] at h
      simp only [bind, Except.bind] at h
      rw [importCerts_eq (.inr ⟨rfl, by rw [hx]; rfl⟩)] at h
      refine ⟨some k, x, (r.certs.getD []).reverse, (Except.ok.inj h).symm, ?_, ?_⟩
      · simp [hx]
      · rintro _ ⟨rfl⟩
        exact ⟨hk, hmatch⟩
    · -- a key of another certificate: nothing is imported
      rw [hcheck, if_neg (by decide)] at h
      simp only [bind, Except.bind, importCerts, hx] at h
      split at h
      · cases h
      · simp at h
  · rw [importLeaf_other hpair] at h
    split_ifs at h with hstack hnull
    · -- a stack without a leaf: all of it is turned round
      obtain ⟨-, -, hx, -⟩ := hstack
      simp only [bind, Except.bind] at h
      rw [importCerts_eq (.inl ⟨rfl, hx⟩), List.nil_append] at h
      obtain ⟨x, stack, hrev⟩ : ∃ x stack, (r.certs.getD []).reverse = x :: stack := by
        cases hrev : (r.certs.getD []).reverse with
        | nil => simp [hrev] at h
        | cons x stack => exact ⟨x, stack, rfl⟩
      rw [hrev] at h
      refine ⟨none, x, stack, (Except.ok.inj h).symm, ?_, by simp⟩
      intro y hy
      rw [← hrev, List.mem_reverse] at hy
      exact List.mem_append_right _ hy
    · obtain ⟨-, hx, -, hc⟩ := hnull
      simp only [bind, Except.bind] at h
      rw [importCerts_eq (.inl ⟨rfl, hx⟩), Option.isNone_iff_eq_none.mp hc] at h
      simp at h
    · cases h

/-- **What was imported survives an export and an import**, with the password of the export and no
other. -/
theorem reimport {pkcs12 : ByteArray} {password : List UInt8} {c0 : X509CertificatePrivate}
    {rest : List X509CertificatePrivate}
    (h : fromPKCS12 L P heap nb na pkcs12 password = .ok (c0 :: rest))
    (hcode : ∀ r ∈ outcome L pkcs12 password, (∀ x ∈ r.x509.toList ++ r.certs.getD [], Recodes L x) ∧
      ∀ k ∈ r.pkey, L.d2iAutoPrivateKey (L.i2dPrivateKey k) = some k)
    (hpub : c0.hasPrivateKey = true → ∀ c ∈ rest, publicKeyOf L c ≠ publicKeyOf L c0)
    (password' : List UInt8) :
    ∃ blob, exportCertificateChainAsPKCS12 L (c0 :: rest) password' = .ok blob ∧
      ∀ password'', fromPKCS12 L P heap nb na blob password'' =
        .ok (if cString password' = cString password'' then c0 :: rest else []) := by
  rw [fromPKCS12_eq] at h
  cases hr : outcome L pkcs12 password with
  | none => simp [hr] at h
  | some r =>
    rw [hr] at h
    obtain ⟨key, x, stack, hchain, hmem, hkey⟩ := exists_madeChain h
    obtain ⟨hx, hk⟩ := hcode r hr
    obtain ⟨hc0, hrest⟩ := List.cons.inj hchain
    have hcode' : ∀ y ∈ x :: stack, Recodes L y := fun y hy => hx y (hmem y hy)
    rw [hchain]
    refine madeChain_roundtrip hcode' ?_ ?_ password'
    · intro k hk'
      obtain ⟨hpkey, hmatch⟩ := hkey k hk'
      exact ⟨hk k hpkey, hmatch⟩
    · intro y hy k hk' heq
      -- it would have the public key of the leaf
      have hhas : c0.hasPrivateKey = true := by
        rw [hc0, made_ders.2.1, hk']
        rfl
      refine hpub hhas (made L P nb na y none) ?_ ?_
      · rw [hrest]
        exact List.mem_map_of_mem hy
      · rw [hc0, publicKeyOf, publicKeyOf, asOpenSSLX509_made (hcode' y (by simp [hy])),
          asOpenSSLX509_made (hcode' x (by simp)), Option.map_some, Option.map_some, heq,
          (hkey k hk').2]

/-- A leaf with its key and another certificate, under a password. -/
theorem reimport_plain :
    let chain := [made plainPKCS12 plainLibc 0 0 [1, 7] (some [7]),
      made plainPKCS12 plainLibc 0 0 [2, 8] none]
    ∃ blob, exportCertificateChainAsPKCS12 plainPKCS12 chain (ascii "pw") = .ok blob ∧
      ∀ password, fromPKCS12 plainPKCS12 plainLibc (fun _ => 0) 0 0 blob password =
        .ok (if cString (ascii "pw") = cString password then chain else []) := by
  refine @reimport _ plainPKCS12 plainLibc (fun _ => 0) 0 0 (plainFile (some [7]) [[1, 7], [2, 8]]) []
    _ _ ?_ ?_ ?_ _
  · rw [fromPKCS12_eq, outcome_plainFile]
    rfl
  · rw [outcome_plainFile]
    rintro _ ⟨rfl⟩
    constructor
    · intro x hx
      have hx' : x ∈ ([[1, 7], [2, 8]] : List (List UInt8)) := hx
      rcases List.mem_pair.mp hx' with rfl | rfl <;> rfl
    · rintro _ ⟨rfl⟩
      rfl
  · intro _ c hc
    obtain rfl := List.mem_singleton.mp hc
    have hcode : ∀ x ≠ [], Recodes plainPKCS12 x := fun x hx => if_neg hx
    rw [publicKeyOf, publicKeyOf, asOpenSSLX509_made (hcode _ (by simp)),
      asOpenSSLX509_made (hcode _ (by simp))]
    exact (by decide : some (some (8 : UInt8)) ≠ some (some 7))

/-! ### A generated identity -/

theorem generate_eq_ofDER (N : OpenSSLGenerate S) (keypair : N.KeyPair) (name email : List UInt8) :
    generateSelfSignedCertificate N P heap nb na keypair name email =
      .ok (ofDER S P nb na (N.signedDer (toBeSigned N keypair name email) keypair)
        (some (N.i2dPrivateKey keypair))) := by
  by_cases he : email = []
  · simp [generateSelfSignedCertificate, toBeSigned, askedName, he, derToByteArray_eq, bind,
      Except.bind, pure, Except.pure, ofDER, exactArray]
  · simp [generateSelfSignedCertificate, toBeSigned, askedName, he, derToByteArray_eq, bind,
      Except.bind, pure, Except.pure, ofDER, exactArray]

/-- **A generated identity survives an export and an import**, with the password of the export and no
other. -/
theorem generated_identity_survives {N : OpenSSLGenerate S} {keypair : N.KeyPair}
    {name email : List UInt8} {c : X509CertificatePrivate} {x : L.Cert} {k : L.PKey}
    (h : generateSelfSignedCertificate N P heap nb na keypair name email = .ok c)
    (hx : L.asOpenSSLX509 c = some x) (hk : L.asPrivateKey c = some k)
    (hmatch : L.publicKey x = L.pkeyPublic k) (password : List UInt8) :
    ∃ blob, exportCertificateChainAsPKCS12 L [c] password = .ok blob ∧ ∀ password',
      fromPKCS12 L P heap nb na blob password' =
        .ok (if cString password = cString password' then [c] else []) := by
  rw [generate_eq_ofDER] at h
  obtain rfl := Except.ok.inj h
  generalize N.signedDer (toBeSigned N keypair name email) keypair = cert at hx hk ⊢
  rw [asOpenSSLX509_ofDER] at hx
  rw [asPrivateKey_ofDER, Option.bind_some] at hk
  have hc : [ofDER S P nb na cert (some (N.i2dPrivateKey keypair))] =
      madeChain L P nb na (some k) x [] := by
    rw [madeChain, made_eq_ofDER, Option.map_some, L.i2dX509_d2i hx, L.i2dPrivateKey_d2i hk,
      List.map_nil]
  have hcode : ∀ y ∈ [x], Recodes L y := by
    intro y hy
    rw [List.mem_singleton.mp hy, Recodes, L.i2dX509_d2i hx, hx]
  rw [hc]
  refine madeChain_roundtrip hcode ?_ (by simp) password
  rintro _ ⟨rfl⟩
  exact ⟨by rw [L.i2dPrivateKey_d2i hk, hk], hmatch⟩

/-- Files without encryption, of the certificates that an OpenSSL knows. -/
def plainOver (S : OpenSSL) : OpenSSLPKCS12 S :=
  { plainPKCS12 with
    d2iX509 := fun der => (S.d2iX509 der).map fun _ => der
    info := fun der => (S.d2iX509 der).getD ⟨[], [], none, none, none⟩
    d2iX509_info := by
      intro der
      cases h : S.d2iX509 der with
      | none => rfl
      | some x => exact congrArg (fun o : Option OpenSSLX509 => some (o.getD _)) h.symm
    i2dX509_d2i := by
      intro der x h
      obtain ⟨-, -, rfl⟩ := Option.map_eq_some_iff.mp h
      rfl }

/-- The certificate of a client. -/
theorem generated_identity_survives_client :
    let x509 := identity (ascii "John Doe") (some [.email ⟨vASN1IA5String, ascii "john@example.com"⟩])
    let N : OpenSSLGenerate (latin1OpenSSL x509) :=
      { generating x509 with i2dPrivateKey := fun _ => [48] }
    ∃ c, generateSelfSignedCertificate N plainLibc (fun _ => 0) 0 0 () (ascii "John Doe")
        (ascii "john@example.com") = .ok c ∧
      let L := plainOver (latin1OpenSSL x509)
      ∃ blob, exportCertificateChainAsPKCS12 L [c] (ascii "pw") = .ok blob ∧
        ∀ password, fromPKCS12 L plainLibc (fun _ => 0) 0 0 blob password =
          .ok (if cString (ascii "pw") = cString password then [c] else []) := by
  intro x509 N
  have hder : N.signedDer (toBeSigned N () (ascii "John Doe") (ascii "john@example.com")) () = [48] := by
    decide
  have hgen : generateSelfSignedCertificate N plainLibc (fun _ => 0) 0 0 () (ascii "John Doe")
      (ascii "john@example.com") =
        .ok (ofDER (latin1OpenSSL x509) plainLibc 0 0 [48] (some [48])) :=
    (generate_eq_ofDER N () _ _).trans
      (congrArg (fun der => Except.ok (ofDER (latin1OpenSSL x509) plainLibc 0 0 der (some [48]))) hder)
  refine ⟨_, hgen, @generated_identity_survives _ (plainOver _) plainLibc (fun _ => 0) 0 0 N () _ _ _
    [48] [48] hgen ?_ ?_ rfl _⟩
  · rw [asOpenSSLX509_ofDER]
    rfl
  · rw [asPrivateKey_ofDER]
    rfl

/-! ### How long it lasts -/

/-- The period that is asked for, in seconds. -/
theorem toBeSigned_period (N : OpenSSLGenerate S) (keypair : N.KeyPair) (name email : List UInt8) :
    (toBeSigned N keypair name email).notBefore = 0 ∧
      (toBeSigned N keypair name email).notAfter = 60 * 60 * 24 * 365 * 20 := by
  have hext : ∀ (x509 : NewX509 N.KeyPair N.Extension) (nid : ExtensionNid) (value : List UInt8),
      (addExt N x509 nid value).2.notBefore = x509.notBefore ∧
        (addExt N x509 nid value).2.notAfter = x509.notAfter := by
    intro x509 nid value
    unfold addExt
    split <;> exact ⟨rfl, rfl⟩
  have hname : ∀ (x509 : NewX509 N.KeyPair N.Extension) (commonName : List UInt8),
      (addCommonName N x509 commonName).notBefore = x509.notBefore ∧
        (addCommonName N x509 commonName).notAfter = x509.notAfter := by
    intro x509 commonName
    unfold addCommonName
    split <;> exact ⟨rfl, rfl⟩
  unfold toBeSigned
  split <;> simp [template, hext, hname]

/-- The members of a generated certificate, by what `ParseASN1Time` makes of a date. -/
theorem generated_members {N : OpenSSLGenerate S} {keypair : N.KeyPair} {name email : List UInt8}
    {out : OpenSSLX509} {d d' : DateTime} {f : DateTime → ℤ}
    (hf : ∀ {time d}, Denotes time d → parseASN1Time P time = f d)
    (hout : S.d2iX509 (N.signedDer (toBeSigned N keypair name email) keypair) = some out)
    (hperiod : HasPeriod out d d') :
    ∃ c, generateSelfSignedCertificate N P heap nb na keypair name email = .ok c ∧
      c.notBefore = f d ∧ c.notAfter = f d' := by
  refine ⟨_, generate_eq_ofDER N keypair name email, ?_⟩
  refine members_of_period hf (.fromRawDERData nb na _ _) ?_ hperiod
  rw [decoded, ofDER, fromRawDERData_ders.1, exactArray, ByteArray.content_exact, hout]

/-- **How long a generated certificate is valid**, if OpenSSL writes the period that was asked for, as
dates of RFC 5280: from now on for twenty years, on Android only if 32 bits can hold the end. What
was made at the earliest moment of all is valid there at this moment in any case. -/
theorem generated_validity {strptime : List UInt8 → List UInt8 → Tm → Option Tm}
    (hP : ReadsDates strptime) (N : OpenSSLGenerate S) (keypair : N.KeyPair) (name email : List UInt8)
    {out : OpenSSLX509} {d d' : DateTime} {now now' : ℤ}
    (hout : S.d2iX509 (N.signedDer (toBeSigned N keypair name email) keypair) = some out)
    (hperiod : HasPeriod out d d')
    (hd : d.instant = now + (toBeSigned N keypair name email).notBefore)
    (hd' : d'.instant = now' + (toBeSigned N keypair name email).notAfter)
    (hmin : int32Min ≤ now) (hmax : now ≤ int32Max) (hle : now ≤ now') :
    (∃ c, generateSelfSignedCertificate N (exact strptime) heap nb na keypair name email = .ok c ∧
      ∀ t, isValidAtTime c t = true ↔ now ≤ t ∧ t ≤ now' + 60 * 60 * 24 * 365 * 20) ∧
    ∃ c, generateSelfSignedCertificate N (android strptime) heap nb na keypair name email = .ok c ∧
      ∀ t, isValidAtTime c t = true ↔
        if now' + 60 * 60 * 24 * 365 * 20 ≤ int32Max then now ≤ t ∧ t ≤ now' + 60 * 60 * 24 * 365 * 20
        else now = int32Min ∧ t = int32Min := by
  obtain ⟨hbefore, hafter⟩ := toBeSigned_period N keypair name email
  rw [hbefore, add_zero] at hd
  rw [hafter] at hd'
  constructor
  · obtain ⟨c, hc, hb, ha⟩ := generated_members (P := exact strptime) (parseASN1Time_exact hP) hout
      hperiod
    refine ⟨c, hc, fun t => ?_⟩
    rw [isValidAtTime_iff, hb, ha, hd, hd']
  · obtain ⟨c, hc, hb, ha⟩ := generated_members (P := android strptime)
      (f := fun d => narrow d.instant) (parseASN1Time_android hP) hout hperiod
    refine ⟨c, hc, fun t => ?_⟩
    rw [isValidAtTime_iff, hb, ha, hd, hd']
    unfold narrow
    rw [if_neg (by omega)]
    by_cases hend : now' + 60 * 60 * 24 * 365 * 20 ≤ int32Max
    · rw [if_neg (by omega), if_pos hend]
    · -- the end has become the first second of all
      rw [if_pos (by omega), if_neg hend]
      omega

/-- Twenty years of 365 days after `december`. -/
def decemberLater : DateTime :=
  { december with
    year := 2032, day := 1, year_le := by decide, one_le_day := by decide, day_le := by decide }

/-- A certificate that was generated in that December is valid in 2032, on Android too. -/
theorem generated_validity_december :
    let x509 : OpenSSLX509 := { identity (ascii "John Doe") none with
      notBefore := some december.utcTime, notAfter := some decemberLater.utcTime }
    (∃ c, generateSelfSignedCertificate (generating x509) (exact CompatWin.strptime) (fun _ => 0) 0 0 ()
        (ascii "John Doe") [] = .ok c ∧ isValidAtTime c 1985504164 = true) ∧
      ∃ c, generateSelfSignedCertificate (generating x509) (android CompatWin.strptime) (fun _ => 0) 0 0
        () (ascii "John Doe") [] = .ok c ∧ isValidAtTime c 1985504164 = true := by
  intro x509
  have hyear : ∀ d : DateTime, d.year = 2012 ∨ d.year = 2032 → d.InUTCTime := by
    intro d hd
    unfold DateTime.InUTCTime
    omega
  have hperiod : HasPeriod x509 december decemberLater :=
    ⟨_, _, rfl, .inr ⟨hyear _ (.inl rfl), rfl⟩, rfl, .inr ⟨hyear _ (.inr rfl), rfl⟩⟩
  obtain ⟨⟨c, hc, hv⟩, c', hc', hv'⟩ := @generated_validity _ (fun _ => 0) 0 0 _ readsDates_compatWin
    (generating x509) () (ascii "John Doe") [] x509 december decemberLater 1354784164 1354784164
    (by decide) hperiod (by decide) (by decide) (by decide) (by decide) (by decide)
  exact ⟨⟨c, hc, (hv _).mpr (by decide)⟩, c', hc', (hv' _).mpr (by decide)⟩

end LibMumble.X509
