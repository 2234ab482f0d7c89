import LibMumble.X509.Certificate

/-! # Looking up the attributes of a name

`ParseX509Name` makes a map of a name, in which the first entry of each type stays, and gives up on the
whole name at the first entry that it cannot use: one of another type than the nine, or one whose value
is empty or cannot be converted. The nine types are found under the names OpenSSL has for them, which
for `STREET` is another one. -/

namespace LibMumble.X509

open Lib X509CertificatePrivate

variable {S : OpenSSL} {P : Libc} {c : X509CertificatePrivate} {x509 : OpenSSLX509}
  {name : X509Name} {K k : List UInt8} {t : DNAttributeType}

namespace X509CertificatePrivate

/-- `LookupIssuerItem`. -/
def lookupIssuerItem (c : X509CertificatePrivate) (item : List UInt8) : List UInt8 :=
  (c.issuerItems.lookup item).getD []

/-- `LookupSubjectItem`. -/
def lookupSubjectItem (c : X509CertificatePrivate) (item : List UInt8) : List UInt8 :=
  (c.subjectItems.lookup item).getD []

end X509CertificatePrivate

/-! ### Names of types -/

/-- The names that RFC 4514 has for the types. -/
def supportedNames : List (List UInt8 × DNAttributeType) :=
  [(ascii "CN", .commonName), (ascii "L", .localityName), (ascii "ST", .stateOrProvinceName),
    (ascii "O", .organizationName), (ascii "OU", .organizationalUnitName), (ascii "C", .countryName),
    (ascii "STREET", .streetAddress), (ascii "DC", .domainComponent), (ascii "UID", .userId)]

/-- The macros `SN_...` of `openssl/obj_mac.h`. -/
def snMacro : DNAttributeType → List UInt8
  | .commonName => ascii "CN"
  | .localityName => ascii "L"
  | .stateOrProvinceName => ascii "ST"
  | .organizationName => ascii "O"
  | .organizationalUnitName => ascii "OU"
  | .countryName => ascii "C"
  | .streetAddress => ascii "street"
  | .domainComponent => ascii "DC"
  | .userId => ascii "UID"
  | .other => []

def HasMacros (S : OpenSSL) : Prop := ∀ t, t ≠ .other → S.shortName t = snMacro t

theorem shortName_ne_nil (hS : HasMacros S) (ht : t ≠ .other) : S.shortName t ≠ [] := by
  rw [hS t ht]
  rcases t <;> first | decide | exact absurd rfl ht

/-- No type is called `STREET`. -/
theorem shortName_ne_street (hS : HasMacros S) (ht : t ≠ .other) :
    S.shortName t ≠ ascii "STREET" := by
  rw [hS t ht]
  rcases t <;> decide

theorem shortName_of_supported (hS : HasMacros S) (hK : (K, t) ∈ supportedNames)
    (hne : K ≠ ascii "STREET") : t ≠ .other ∧ S.shortName t = K := by
  simp only [supportedNames, List.mem_cons, Prod.mk.injEq, List.not_mem_nil, or_false] at hK
  rcases hK with ⟨rfl, rfl⟩ | ⟨rfl, rfl⟩ | ⟨rfl, rfl⟩ | ⟨rfl, rfl⟩ | ⟨rfl, rfl⟩ | ⟨rfl, rfl⟩ |
    ⟨rfl, rfl⟩ | ⟨rfl, rfl⟩ | ⟨rfl, rfl⟩
  case inr.inr.inr.inr.inr.inr.inl => exact absurd rfl hne
  all_goals exact ⟨by decide, hS _ (by decide)⟩

/-! ### Entries -/

/-- The value of an entry of a type of which `p` holds, if it converts to something. -/
def valueWhere (S : OpenSSL) (p : DNAttributeType → Prop) [DecidablePred p] :
    Option X509NameEntry → Option (List UInt8)
  | some ⟨some obj, some val⟩ =>
    if p obj ∧ stringFromASN1String S val ≠ [] then some (stringFromASN1String S val) else none
  | _ => none

/-- **What there is to be found**: the value of the first entry of the type that converts to a string
that is not empty, or the empty string. -/
def firstValue (S : OpenSSL) (t : DNAttributeType) (name : X509Name) : List UInt8 :=
  (name.findSome? (valueWhere S (· = t))).getD []

/-- An entry that `ParseX509Name` can use. -/
def Usable (S : OpenSSL) (ne : Option X509NameEntry) : Prop :=
  ∃ obj val, ne = some ⟨some obj, some val⟩ ∧ obj ≠ .other ∧ stringFromASN1String S val ≠ []

/-- The name has a value for the type. -/
def Present (S : OpenSSL) (t : DNAttributeType) (name : X509Name) : Prop :=
  ∃ val, some ⟨some t, some val⟩ ∈ name ∧ stringFromASN1String S val ≠ []

theorem valueWhere_eq_some {p : DNAttributeType → Prop} [DecidablePred p] {ne : Option X509NameEntry}
    {v : List UInt8} : valueWhere S p ne = some v ↔ ∃ obj val, ne = some ⟨some obj, some val⟩ ∧
      p obj ∧ stringFromASN1String S val ≠ [] ∧ stringFromASN1String S val = v := by
  constructor
  · intro h
    rcases ne with _ | ⟨_ | obj, _ | val⟩
    · cases h
    · cases h
    · cases h
    · cases h
    · obtain ⟨⟨hp, hne⟩, hv⟩ := Option.ite_none_right_eq_some.mp h
      exact ⟨obj, val, rfl, hp, hne, Option.some.inj hv⟩
  · rintro ⟨obj, val, rfl, hp, hne, rfl⟩
    exact if_pos ⟨hp, hne⟩

theorem firstValue_ne_nil : firstValue S t name ≠ [] ↔ Present S t name := by
  unfold firstValue Present
  constructor
  · intro h
    rcases hf : name.findSome? (valueWhere S (· = t)) with _ | v
    · rw [hf] at h
      exact absurd rfl h
    · obtain ⟨l₁, ne, l₂, rfl, hne, -⟩ := List.findSome?_eq_some_iff.mp hf
      obtain ⟨obj, val, rfl, rfl, hval, -⟩ := valueWhere_eq_some.mp hne
      exact ⟨val, by simp, hval⟩
  · rintro ⟨val, hmem, hval⟩
    have hentry : valueWhere S (· = t) (some ⟨some t, some val⟩) =
        some (stringFromASN1String S val) := if_pos ⟨rfl, hval⟩
    have hsome : (name.findSome? (valueWhere S (· = t))).isSome := by
      rw [List.findSome?_isSome_iff]
      exact ⟨_, hmem, by rw [hentry]; rfl⟩
    obtain ⟨v, hv⟩ := Option.isSome_iff_exists.mp hsome
    obtain ⟨l₁, ne, l₂, -, hne, -⟩ := List.findSome?_eq_some_iff.mp hv
    obtain ⟨-, val', -, -, hval', rfl⟩ := valueWhere_eq_some.mp hne
    rwa [hv, Option.getD_some]

/-! ### The loop -/

/-- One turn of the loop for an entry that can be used. -/
theorem parseX509NameFrom_usable (hS : HasMacros S) {items : Items} {obj : DNAttributeType}
    {val : ASN1String} (hobj : obj ≠ .other) (hval : stringFromASN1String S val ≠ []) :
    parseX509NameFrom S items (some ⟨some obj, some val⟩ :: name) =
      parseX509NameFrom S (items.insert (S.shortName obj) (stringFromASN1String S val)) name := by
  have hname : stringFromDNAttributeType S obj = S.shortName obj := if_neg hobj
  simp only [parseX509NameFrom, hname, if_neg (shortName_ne_nil hS hobj), if_neg hval]

/-- An entry that cannot be used ends it. -/
theorem parseX509NameFrom_unusable {ne : Option X509NameEntry} (items : Items)
    (h : ¬ Usable S ne) : parseX509NameFrom S items (ne :: name) = [] := by
  rcases ne with _ | ⟨_ | obj, _ | val⟩
  · rfl
  · rfl
  · rfl
  · rfl
  by_cases hname : stringFromDNAttributeType S obj = []
  · simp only [parseX509NameFrom, if_pos hname]
  by_cases hval : stringFromASN1String S val = []
  · simp only [parseX509NameFrom, if_neg hname, if_pos hval]
  refine absurd ⟨obj, val, rfl, ?_, hval⟩ h
  rintro rfl
  exact hname rfl

/-- **One entry that cannot be used takes all others away.** -/
theorem parseX509NameFrom_eq_nil (hS : HasMacros S) (h : ¬ ∀ ne ∈ name, Usable S ne)
    (items : Items) : parseX509NameFrom S items name = [] := by
  induction name generalizing items with
  | nil => exact absurd (by simp) h
  | cons ne name ih =>
    by_cases hne : Usable S ne
    · have hrest : ¬ ∀ ne ∈ name, Usable S ne := fun hall => h (by simpa [hne] using hall)
      obtain ⟨obj, val, rfl, hobj, hval⟩ := hne
      rw [parseX509NameFrom_usable hS hobj hval]
      exact ih hrest _
    · exact parseX509NameFrom_unusable items hne

/-- **Otherwise the first entry under a name is found.** -/
theorem lookup_parseX509NameFrom (hS : HasMacros S) (h : ∀ ne ∈ name, Usable S ne)
    (items : Items) : (parseX509NameFrom S items name).lookup k =
      (items.lookup k).or (name.findSome? (valueWhere S (S.shortName · = k))) := by
  induction name generalizing items with
  | nil => exact (Option.or_none).symm
  | cons ne name ih =>
    obtain ⟨obj, val, rfl, hobj, hval⟩ := h ne (by simp)
    have hentry : valueWhere S (S.shortName · = k) (some ⟨some obj, some val⟩) =
        if k = S.shortName obj then some (stringFromASN1String S val) else none := by
      by_cases hk : k = S.shortName obj
      · rw [if_pos hk]
        exact if_pos ⟨hk.symm, hval⟩
      · rw [if_neg hk]
        exact if_neg fun h => hk h.1.symm
    have hcons : (some ⟨some obj, some val⟩ :: name).findSome? (valueWhere S (S.shortName · = k)) =
        (valueWhere S (S.shortName · = k) (some ⟨some obj, some val⟩)).or
          (name.findSome? (valueWhere S (S.shortName · = k))) := by
      rw [List.findSome?_cons]
      rcases valueWhere S (S.shortName · = k) (some ⟨some obj, some val⟩) with _ | v <;> rfl
    rw [parseX509NameFrom_usable hS hobj hval, ih fun ne hne => h ne (by simp [hne]),
      Items.lookup_insert, Option.or_assoc, hcons, hentry]

/-- What a key gives. -/
def lookupName (S : OpenSSL) (K : List UInt8) (name : X509Name) : List UInt8 :=
  ((parseX509Name S name).lookup K).getD []

/-- When a key gives what there is to be found: nothing is to be found, or the key is not `STREET` and
every entry of the name can be used. -/
def FindsWhen (S : OpenSSL) (K : List UInt8) (t : DNAttributeType) (name : X509Name) : Prop :=
  ¬ Present S t name ∨ K ≠ ascii "STREET" ∧ ∀ ne ∈ name, Usable S ne

theorem lookupName_of_unusable (hS : HasMacros S) (h : ¬ ∀ ne ∈ name, Usable S ne) :
    lookupName S K name = [] := by
  rw [lookupName, parseX509Name, parseX509NameFrom_eq_nil hS h]
  rfl

theorem lookupName_street (hS : HasMacros S) : lookupName S (ascii "STREET") name = [] := by
  by_cases h : ∀ ne ∈ name, Usable S ne
  · have hnone : name.findSome? (valueWhere S (S.shortName · = ascii "STREET")) = none := by
      rw [List.findSome?_eq_none_iff]
      intro ne hne
      obtain ⟨obj, val, rfl, hobj, -⟩ := h ne hne
      exact if_neg fun h => shortName_ne_street hS hobj h.1
    rw [lookupName, parseX509Name, lookup_parseX509NameFrom hS h, hnone]
    rfl
  · exact lookupName_of_unusable hS h

theorem lookupName_of_usable (hS : HasMacros S) (hK : (K, t) ∈ supportedNames)
    (hne : K ≠ ascii "STREET") (h : ∀ ne ∈ name, Usable S ne) :
    lookupName S K name = firstValue S t name := by
  obtain ⟨-, hname⟩ := shortName_of_supported hS hK hne
  have hsame : valueWhere S (S.shortName · = K) = valueWhere S (· = t) := by
    funext ne
    rcases ne with _ | ⟨_ | obj, _ | val⟩
    · rfl
    · rfl
    · rfl
    · rfl
    · have hiff : S.shortName obj = K ↔ obj = t := by
        rw [← hname]
        exact S.shortName_inj.eq_iff
      simp only [valueWhere, hiff]
  rw [lookupName, parseX509Name, lookup_parseX509NameFrom hS h, hsame]
  rfl

theorem lookupName_iff (hS : HasMacros S) (hK : (K, t) ∈ supportedNames) :
    lookupName S K name = firstValue S t name ↔ FindsWhen S K t name := by
  unfold FindsWhen
  rw [← firstValue_ne_nil, not_not]
  by_cases hgood : K ≠ ascii "STREET" ∧ ∀ ne ∈ name, Usable S ne
  · exact iff_of_true (lookupName_of_usable hS hK hgood.1 hgood.2) (.inr hgood)
  · have hnil : lookupName S K name = [] := by
      rw [not_and_or, not_not] at hgood
      rcases hgood with rfl | hun
      · exact lookupName_street hS
      · exact lookupName_of_unusable hS hun
    rw [hnil, eq_comm]
    simp only [hgood, or_false]

/-- **Every attribute that is present can be looked up**, exactly then. -/
theorem lookup_finds_iff (hS : HasMacros S) (hm : Made S P c) (hd : decoded S c = some x509)
    (hK : (K, t) ∈ supportedNames) :
    (c.lookupSubjectItem K = firstValue S t x509.subject ↔ FindsWhen S K t x509.subject) ∧
    (c.lookupIssuerItem K = firstValue S t x509.issuer ↔ FindsWhen S K t x509.issuer) ∧
    (c.commonName = firstValue S .commonName x509.subject ↔
      FindsWhen S (ascii "CN") .commonName x509.subject) := by
  have hitems : c.subjectItems = parseX509Name S x509.subject ∧
      c.issuerItems = parseX509Name S x509.issuer := by
    obtain ⟨nb, na, cert, pkey, rfl⟩ := made_eq hm
    have hx : S.d2iX509 cert.content = some x509 := by
      rw [← (@fromRawDERData_ders S P nb na cert pkey).1]
      exact hd
    rw [fromRawDERData_some hx]
    exact ⟨rfl, rfl⟩
  unfold lookupSubjectItem lookupIssuerItem commonName
  rw [hitems.1, hitems.2]
  exact ⟨lookupName_iff hS hK, lookupName_iff hS hK, lookupName_iff hS (by decide)⟩

/-- A certificate of which only the two names matter. -/
def withNames (subject issuer : X509Name) : OpenSSLX509 := ⟨subject, issuer, none, none, none⟩

def entry (obj : DNAttributeType) (value : List UInt8) : Option X509NameEntry :=
  some ⟨some obj, some ⟨12, value⟩⟩

def named (subject : X509Name) : X509CertificatePrivate :=
  theCertificate (withNames subject []) ⟨fun _ _ _ => none, fun _ => 0⟩

theorem hasMacros_oneCertificate (x509 : OpenSSLX509) : HasMacros (oneCertificate x509) := by
  intro t _
  rcases t <;> rfl

/-- Of two units the first is found. -/
theorem lookup_finds_iff_units : (named [entry .commonName (ascii "example.com"),
      entry .organizationalUnitName (ascii "first"),
      entry .organizationalUnitName (ascii "second")]).lookupSubjectItem (ascii "OU") =
    ascii "first" := by
  refine ((lookup_finds_iff (hasMacros_oneCertificate _) (.fromRawDERData 0 0 _ _) rfl
    (t := .organizationalUnitName) (by decide)).1.mpr (.inr ⟨by decide, ?_⟩)).trans (by decide)
  intro ne hne
  simp only [withNames, List.mem_cons, List.not_mem_nil, or_false] at hne
  rcases hne with rfl | rfl | rfl <;> exact ⟨_, _, rfl, by decide, by decide⟩

/-- With an `emailAddress` beside it the common name is not found; and a street is not found at all. -/
theorem lookup_loses_commonName :
    ((named [entry .commonName (ascii "example.com"), entry .other (ascii "a@b")]).commonName = [] ∧
      firstValue (oneCertificate (withNames [] [])) .commonName
        [entry .commonName (ascii "example.com"), entry .other (ascii "a@b")] =
          ascii "example.com") ∧
    (named [entry .streetAddress (ascii "Main Street 1")]).lookupSubjectItem (ascii "STREET") = [] ∧
      firstValue (oneCertificate (withNames [] [])) .streetAddress
        [entry .streetAddress (ascii "Main Street 1")] = ascii "Main Street 1" :=
  ⟨⟨by decide, by decide⟩, by decide, by decide⟩

end LibMumble.X509
