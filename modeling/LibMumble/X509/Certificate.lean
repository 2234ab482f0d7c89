import LibMumble.ByteArray.Operations
import LibMumble.X509.Time

/-! # `X509Certificate`

What an `X509Certificate` knows is taken out of its DER by `ExtractCertificateInfo`, on an object
whose two `time_t` members have not been initialized. OpenSSL is a parameter: `d2i_X509`, the
conversion of its strings to UTF-8, and the short names of the attribute types. The certificates
there can be are `Made`; all of them look as if `FromRawDERData` had made them (`made_eq`). -/

namespace LibMumble.X509

open Lib

/-! ### OpenSSL -/

/-- The types of the attributes of a name that `StringFromDNAttributeType` knows. -/
inductive DNAttributeType
  | commonName
  | localityName
  | stateOrProvinceName
  | organizationName
  | organizationalUnitName
  | countryName
  | streetAddress
  | domainComponent
  | userId
  /-- any other type, or `NID_undef` -/
  | other
  deriving DecidableEq, Repr

/-- An entry of a name; a pointer may be null. -/
structure X509NameEntry where
  object : Option DNAttributeType
  data : Option ASN1String
  deriving DecidableEq, Repr

abbrev X509Name := List (Option X509NameEntry)

inductive GeneralName
  | dns (ia5 : ASN1String)
  | email (ia5 : ASN1String)
  | other
  deriving DecidableEq, Repr

/-- A decoded certificate. -/
structure OpenSSLX509 where
  subject : X509Name
  issuer : X509Name
  notBefore : Option ASN1String
  notAfter : Option ASN1String
  /-- the extension, if it is there and can be decoded -/
  subjectAltNames : Option (List GeneralName)
  deriving DecidableEq, Repr

structure OpenSSL where
  d2iX509 : List UInt8 → Option OpenSSLX509
  /-- `ASN1_STRING_to_UTF8`, where `none` is a negative result -/
  asn1StringToUTF8 : ASN1String → Option (List UInt8)
  /-- the macros `SN_...` -/
  shortName : DNAttributeType → List UInt8
  /-- there is no certificate in no bytes -/
  d2iX509_nil : d2iX509 [] = none
  shortName_commonName : shortName .commonName = ascii "CN"
  shortName_inj : Function.Injective shortName

variable (S : OpenSSL)

/-- `StringFromDNAttributeType`. -/
def stringFromDNAttributeType (obj : DNAttributeType) : List UInt8 :=
  if obj = .other then [] else S.shortName obj

/-- `StringFromASN1String`. -/
def stringFromASN1String (str : ASN1String) : List UInt8 :=
  match S.asn1StringToUTF8 str with
  | some out => out
  | none => []

/-! ### Names -/

/-- A `std::map` from strings to strings. -/
abbrev Items := List (List UInt8 × List UInt8)

/-- `insert`, which keeps what is there. -/
def Items.insert (k v : List UInt8) (items : Items) : Items :=
  if (items.lookup k).isSome then items else items ++ [(k, v)]

theorem Items.lookup_insert (items : Items) (k v k' : List UInt8) : (items.insert k v).lookup k' =
    (items.lookup k').or (if k' = k then some v else none) := by
  unfold Items.insert
  split_ifs with h hk hk
  · obtain ⟨w, hw⟩ := Option.isSome_iff_exists.mp h
    rw [hk, hw, Option.some_or]
  · rw [Option.or_none]
  · rw [List.lookup_append, hk]
    simp
  · have hkey : (k' == k) = false := beq_eq_false_iff_ne.mpr hk
    rw [List.lookup_append, List.lookup_cons, hkey]
    rfl

/-- The loop of `ParseX509Name`. -/
def parseX509NameFrom (items : Items) : X509Name → Items
  | [] => items
  | none :: _ => []
  | some ne :: rest =>
    match ne.object, ne.data with
    | none, _ => []
    | some _, none => []
    | some obj, some val =>
      let attributeName := stringFromDNAttributeType S obj
      let attributeValue := stringFromASN1String S val
      if attributeName = [] then []
      else if attributeValue = [] then []
      else parseX509NameFrom (items.insert attributeName attributeValue) rest

def parseX509Name (name : X509Name) : Items := parseX509NameFrom S [] name

/-! ### The class -/

/-- The class `X509CertificatePrivate`. -/
structure X509CertificatePrivate where
  subjectItems : Items
  issuerItems : Items
  emailAddrs : List (List UInt8)
  dnsNames : List (List UInt8)
  certDer : ByteArray
  privDer : ByteArray
  notBefore : ℤ
  notAfter : ℤ
  deriving DecidableEq, Repr

/-- The struct `X509VerifierOptions`. -/
structure X509VerifierOptions where
  dnsName : List UInt8
  time : ℤ
  deriving DecidableEq, Repr

namespace X509CertificatePrivate

/-- A new object; `not_before_` and `not_after_` hold anything. -/
def new (notBefore notAfter : ℤ) : X509CertificatePrivate :=
  ⟨[], [], [], [], .null, .null, notBefore, notAfter⟩

/-- An alternative name. -/
def extractAltName (c : X509CertificatePrivate) : GeneralName → X509CertificatePrivate
  | .dns ia5 =>
    let dns := stringFromASN1String S ia5
    if dns ≠ [] then { c with dnsNames := c.dnsNames ++ [dns] } else c
  | .email ia5 =>
    let email := stringFromASN1String S ia5
    if email ≠ [] then { c with emailAddrs := c.emailAddrs ++ [email] } else c
  | .other => c

def extractCertificateInfo (P : Libc) (c : X509CertificatePrivate) : X509CertificatePrivate :=
  match S.d2iX509 c.certDer.content with
  | none => c
  | some x509 =>
    let c := { c with
      subjectItems := parseX509Name S x509.subject
      issuerItems := parseX509Name S x509.issuer
      notBefore := match x509.notBefore with
        | some notBefore => parseASN1Time P notBefore
        | none => c.notBefore
      notAfter := match x509.notAfter with
        | some notAfter => parseASN1Time P notAfter
        | none => c.notAfter }
    (x509.subjectAltNames.getD []).foldl (extractAltName S) c

/-- `CommonName`. -/
def commonName (c : X509CertificatePrivate) : List UInt8 :=
  (c.subjectItems.lookup (ascii "CN")).getD []

/-- `EmailAddress`. -/
def emailAddress (c : X509CertificatePrivate) : List UInt8 := c.emailAddrs.head?.getD []

end X509CertificatePrivate

open X509CertificatePrivate

/-! ### The certificates there can be -/

variable (P : Libc)

/-- `FromRawDERData`; the two numbers are what the uninitialized members hold. -/
def fromRawDERData (nb na : ℤ) (cert pkey : ByteArray) : X509CertificatePrivate :=
  extractCertificateInfo S P { new nb na with certDer := cert, privDer := pkey }

/-- The copy constructor. -/
def copy (nb na : ℤ) (cert : X509CertificatePrivate) : X509CertificatePrivate :=
  extractCertificateInfo S P { new nb na with certDer := cert.certDer, privDer := cert.privDer }

/-- The certificates that the constructors and `FromRawDERData` make. -/
inductive Made : X509CertificatePrivate → Prop
  | default (nb na : ℤ) : Made (new nb na)
  | fromRawDERData (nb na : ℤ) (cert pkey : ByteArray) : Made (fromRawDERData S P nb na cert pkey)
  | copy (nb na : ℤ) {c : X509CertificatePrivate} (h : Made c) : Made (copy S P nb na c)

variable {S P} {c : X509CertificatePrivate}

theorem made_eq (h : Made S P c) : ∃ nb na cert pkey, c = fromRawDERData S P nb na cert pkey := by
  cases h with
  | default nb na =>
    refine ⟨nb, na, .null, .null, ?_⟩
    have hnil : ByteArray.null.content = [] := rfl
    simp only [fromRawDERData, extractCertificateInfo, hnil, S.d2iX509_nil]
    rfl
  | fromRawDERData nb na cert pkey => exact ⟨nb, na, cert, pkey, rfl⟩
  | @copy nb na c0 h => exact ⟨nb, na, c0.certDer, c0.privDer, rfl⟩

/-! ### Bytes from OpenSSL -/

/-- An array of the size `i2d` announces, which `i2d` then fills. -/
def derToByteArray (heap : ℕ → UInt8) (der : List UInt8) : Except Fault ByteArray := do
  let ba ← ByteArray.ofLength heap der.length
  ba.writeData 0 der

theorem derToByteArray_eq (heap : ℕ → UInt8) (der : List UInt8) :
    derToByteArray heap der = .ok ⟨some der, der.length, der.length⟩ := by
  have hnew : ByteArray.ofLength heap der.length =
      .ok ⟨some ((List.range der.length).map heap), der.length, der.length⟩ := by
    rw [ByteArray.ofLength, malloc, if_neg (by omega), Int.toNat_natCast]
    rfl
  have hfill : ByteArray.writeBlock ((List.range der.length).map heap) 0 der = .ok der := by
    rw [ByteArray.writeBlock_ok le_rfl (by simp)]
    simp
  rw [derToByteArray, hnew]
  simp [ByteArray.writeData, ByteArray.data, hfill, bind, Except.bind, pure, Except.pure]

/-! ### What is extracted -/

/-- The decoded certificate. -/
def decoded (S : OpenSSL) (c : X509CertificatePrivate) : Option OpenSSLX509 :=
  S.d2iX509 c.certDer.content

/-- The `dNSName` entries of the extension. -/
def dnsEntries (x509 : OpenSSLX509) : List ASN1String :=
  (x509.subjectAltNames.getD []).filterMap fun name => match name with
    | .dns ia5 => some ia5
    | _ => none

/-- The `rfc822Name` entries of the extension. -/
def emailEntries (x509 : OpenSSLX509) : List ASN1String :=
  (x509.subjectAltNames.getD []).filterMap fun name => match name with
    | .email ia5 => some ia5
    | _ => none

/-- The texts that can be read, which are not empty. -/
def texts (S : OpenSSL) (strs : List ASN1String) : List (List UInt8) :=
  (strs.map (stringFromASN1String S)).filter (· ≠ [])

/-- The loop over the alternative names adds to the two lists. -/
theorem foldl_extractAltName (names : List GeneralName) (c : X509CertificatePrivate) :
    names.foldl (extractAltName S) c =
      { c with
        dnsNames := c.dnsNames ++ texts S (names.filterMap fun name => match name with
          | .dns ia5 => some ia5
          | _ => none)
        emailAddrs := c.emailAddrs ++ texts S (names.filterMap fun name => match name with
          | .email ia5 => some ia5
          | _ => none) } := by
  induction names generalizing c with
  | nil => simp [texts]
  | cons name names ih =>
    rw [List.foldl_cons, ih]
    cases name with
    | dns ia5 =>
      by_cases hne : stringFromASN1String S ia5 = [] <;> simp [extractAltName, texts, hne]
    | email ia5 =>
      by_cases hne : stringFromASN1String S ia5 = [] <;> simp [extractAltName, texts, hne]
    | other => simp [extractAltName]

/-- A member that is assigned if the certificate has the field. -/
def assigned (P : Libc) (junk : ℤ) : Option ASN1String → ℤ
  | some time => parseASN1Time P time
  | none => junk

/-- **What a certificate knows** that was made out of bytes that decode. -/
theorem fromRawDERData_some {nb na : ℤ} {cert pkey : ByteArray} {x509 : OpenSSLX509}
    (h : S.d2iX509 cert.content = some x509) : fromRawDERData S P nb na cert pkey =
      { subjectItems := parseX509Name S x509.subject
        issuerItems := parseX509Name S x509.issuer
        emailAddrs := texts S (emailEntries x509)
        dnsNames := texts S (dnsEntries x509)
        certDer := cert
        privDer := pkey
        notBefore := assigned P nb x509.notBefore
        notAfter := assigned P na x509.notAfter } := by
  simp only [fromRawDERData, extractCertificateInfo, h, foldl_extractAltName]
  rfl

/-- What it knows otherwise. -/
theorem fromRawDERData_none {nb na : ℤ} {cert pkey : ByteArray}
    (h : S.d2iX509 cert.content = none) :
    fromRawDERData S P nb na cert pkey = { new nb na with certDer := cert, privDer := pkey } := by
  simp only [fromRawDERData, extractCertificateInfo, h]

/-- It keeps its bytes. -/
theorem fromRawDERData_ders {nb na : ℤ} {cert pkey : ByteArray} :
    (fromRawDERData S P nb na cert pkey).certDer = cert ∧
      (fromRawDERData S P nb na cert pkey).privDer = pkey := by
  cases h : S.d2iX509 cert.content with
  | none =>
    rw [fromRawDERData_none h]
    exact ⟨rfl, rfl⟩
  | some x509 =>
    rw [fromRawDERData_some h]
    exact ⟨rfl, rfl⟩

/-! ### Certificates for examples -/

/-- An OpenSSL that knows one certificate, whose DER is `[48]`, and has all strings in UTF-8. -/
def oneCertificate (x509 : OpenSSLX509) : OpenSSL where
  d2iX509 der := if der = [48] then some x509 else none
  asn1StringToUTF8 str := some str.data
  shortName
    | .commonName => ascii "CN"
    | .localityName => ascii "L"
    | .stateOrProvinceName => ascii "ST"
    | .organizationName => ascii "O"
    | .organizationalUnitName => ascii "OU"
    | .countryName => ascii "C"
    | .streetAddress => ascii "street"
    | .domainComponent => ascii "DC"
    | .userId => ascii "UID"
    | .other => []
  d2iX509_nil := rfl
  shortName_commonName := rfl
  shortName_inj := by
    intro a b h
    cases a <;> cases b <;> first | rfl | exact absurd h (by decide)

def theCertificate (x509 : OpenSSLX509) (P : Libc) : X509CertificatePrivate :=
  fromRawDERData (oneCertificate x509) P 0 0 ⟨some [48], 1, 1⟩ .null

end LibMumble.X509
