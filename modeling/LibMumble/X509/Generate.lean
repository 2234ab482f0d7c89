import LibMumble.Lib.Latin1
import LibMumble.X509.Certificate

/-! # Generating a certificate

`GenerateSelfSignedCertificate` puts the name into the subject and the e-mail address into a value of
OpenSSL's configuration language, `email:` followed by the address, and ignores what the setters
return. So a name that OpenSSL refuses is left out, and an address is whatever that language makes of
it: a comma starts another item, the words `copy` and `move` have a meaning, white space at the ends
is dropped, unless a single character stands before it, and characters outside ASCII are read as
Latin-1. -/

namespace LibMumble.X509

open Lib X509CertificatePrivate

/-- The extensions that are set. -/
inductive ExtensionNid
  | basicConstraints | extKeyUsage | subjectKeyIdentifier | netscapeComment | subjectAltName
  deriving DecidableEq, Repr

/-- An `X509` that is being filled in; the times are in seconds from now. -/
structure NewX509 (KeyPair Extension : Type) where
  version : ℤ := 0
  serialNumber : ℤ := 0
  notBefore : ℤ := 0
  notAfter : ℤ := 0
  pubkey : Option KeyPair := none
  subject : List (DNAttributeType × ASN1String) := []
  issuer : List (DNAttributeType × ASN1String) := []
  extensions : List (ExtensionNid × Extension) := []

def vASN1IA5String : ℤ := 22

/-- The byte `','`. -/
def comma : UInt8 := 44

/-- `strip_spaces` of OpenSSL. The search for the end goes back to the first character at most, and
nothing is cut off if it came so far: a single character keeps the white space after it. -/
def stripSpaces (name : List UInt8) : List UInt8 :=
  match name.dropWhile isSpace with
  | [] => []
  | p :: rest => if rest.all isSpace then p :: rest else p :: rest.rdropWhile isSpace

/-- What the item `email:v` of a `subjectAltName` becomes, for a subject without an address that
could be copied or moved: no extension if nothing is left of `v`. -/
def emailItem (v : List UInt8) : Option (List GeneralName) :=
  if stripSpaces v = [] then none
  else if stripSpaces v = ascii "copy" ∨ stripSpaces v = ascii "move" then some []
  else some [.email ⟨vASN1IA5String, stripSpaces v⟩]

/-- The extension `X509_get_ext_d2i` gives: the only one of its kind. -/
def NewX509.subjectAltNames {KeyPair Extension : Type} (x509 : NewX509 KeyPair Extension)
    (generalNames : Extension → Option (List GeneralName)) : Option (List GeneralName) :=
  match x509.extensions.filter (·.1 = .subjectAltName) with
  | [ext] => generalNames ext.2
  | _ => none

/-- The functions of OpenSSL that make a certificate. -/
structure OpenSSLGenerate (S : OpenSSL) where
  KeyPair : Type
  Extension : Type
  /-- `X509_NAME_add_entry_by_txt` of a `CN` in `MBSTRING_UTF8`: the data of the entry it adds -/
  addEntryByTxt : List UInt8 → Option ASN1String
  /-- the number of characters of a text, if it is UTF-8 -/
  utf8Length : List UInt8 → Option ℕ
  x509V3EXTConfNid : NewX509 KeyPair Extension → ExtensionNid → List UInt8 → Option Extension
  /-- the names in an extension, if it can be decoded -/
  generalNames : Extension → Option (List GeneralName)
  /-- the part of a value in which commas are looked for -/
  listPart : List UInt8 → List UInt8
  /-- `X509_sign` and `i2d_X509` -/
  signedDer : NewX509 KeyPair Extension → KeyPair → List UInt8
  i2dPrivateKey : KeyPair → List UInt8
  utf8Length_ascii : ∀ s, (∀ b ∈ s, b < 128) → utf8Length s = some s.length
  /-- a `CN` has at least one and at most 64 characters -/
  addEntryByTxt_isSome : ∀ s, (addEntryByTxt s).isSome ↔ ∃ n, utf8Length s = some n ∧ 0 < n ∧ n ≤ 64
  addEntryByTxt_utf8 : ∀ {s data}, addEntryByTxt s = some data → S.asn1StringToUTF8 data = some s
  /-- an IA5String is converted byte by byte -/
  asn1StringToUTF8_ia5 : ∀ v, S.asn1StringToUTF8 ⟨vASN1IA5String, v⟩ = some (latin1ToUtf8 v)
  /-- all of a value is a list, unless it is broken into lines -/
  listPart_eq : ∀ s, (13 : UInt8) ∉ s → (10 : UInt8) ∉ s → listPart s = s
  /-- a list of one item -/
  confNid_one : ∀ x509 e, (∀ entry ∈ x509.subject, entry.1 = .commonName) → 0 ∉ e →
    comma ∉ listPart (ascii "email:" ++ e) →
    (x509V3EXTConfNid x509 .subjectAltName (ascii "email:" ++ e)).bind generalNames = emailItem e
  /-- a list of several items: an address is what is between two commas -/
  confNid_many : ∀ {x509 e ext names ia5}, (∀ entry ∈ x509.subject, entry.1 = .commonName) → 0 ∉ e →
    comma ∈ listPart (ascii "email:" ++ e) →
    x509V3EXTConfNid x509 .subjectAltName (ascii "email:" ++ e) = some ext →
    generalNames ext = some names → .email ia5 ∈ names →
    ia5.type = vASN1IA5String ∧ 0 ∉ ia5.data ∧ ia5.data.count comma < e.count comma
  /-- `d2i` after `i2d` gives back the subject and the alternative names -/
  d2iX509_signed : ∀ {x509 key out}, S.d2iX509 (signedDer x509 key) = some out →
    out.subject = x509.subject.map (fun entry => some ⟨some entry.1, some entry.2⟩) ∧
      out.subjectAltNames = x509.subjectAltNames generalNames

section Functions

variable {S : OpenSSL} (L : OpenSSLGenerate S) (P : Libc) (heap : ℕ → UInt8) (nb na : ℤ)

/-- `add_ext`. -/
def addExt (crt : NewX509 L.KeyPair L.Extension) (nid : ExtensionNid) (value : List UInt8) :
    ℤ × NewX509 L.KeyPair L.Extension :=
  match L.x509V3EXTConfNid crt nid (cString value) with
  | none => (0, crt)
  | some ex => (1, { crt with extensions := crt.extensions ++ [(nid, ex)] })

/-- `X509_NAME_add_entry_by_txt` of a `CN`, whose result is not looked at. -/
def addCommonName (x509 : NewX509 L.KeyPair L.Extension) (commonName : List UInt8) :
    NewX509 L.KeyPair L.Extension :=
  match L.addEntryByTxt (cString commonName) with
  | none => x509
  | some data => { x509 with subject := x509.subject ++ [(.commonName, data)] }

/-- The certificate up to its alternative name. -/
def template (keypair : L.KeyPair) (commonName : List UInt8) : NewX509 L.KeyPair L.Extension :=
  let x509 : NewX509 L.KeyPair L.Extension := {}
  let x509 := { x509 with
    version := 2, serialNumber := 1, notBefore := 0, notAfter := 60*60*24*365*20,
    pubkey := some keypair }
  let x509 := addCommonName L x509 commonName
  let x509 := { x509 with issuer := x509.subject }
  let x509 := (addExt L x509 .basicConstraints (ascii "critical,CA:FALSE")).2
  let x509 := (addExt L x509 .extKeyUsage (ascii "clientAuth")).2
  let x509 := (addExt L x509 .subjectKeyIdentifier (ascii "hash")).2
  (addExt L x509 .netscapeComment (ascii "Generated by Mumble")).2

/-- `GenerateSelfSignedCertificate`, with the keys that `RSA_generate_key` gives. -/
def generateSelfSignedCertificate (keypair : L.KeyPair) (name email : List UInt8) :
    Except Fault X509CertificatePrivate := do
  let commonName := if name = [] then ascii "Mumble User" else name
  let altNameEmail := if email ≠ [] then ascii "email:" ++ email else []
  let x509 := template L keypair commonName
  let x509 := if altNameEmail ≠ [] then (addExt L x509 .subjectAltName altNameEmail).2 else x509
  let certDer ← derToByteArray heap (L.signedDer x509 keypair)
  let privDer ← derToByteArray heap (L.i2dPrivateKey keypair)
  return fromRawDERData S P nb na certDer privDer

end Functions

variable {S : OpenSSL} {L : OpenSSLGenerate S} {P : Libc} {heap : ℕ → UInt8} {nb na : ℤ}
  {x509 : NewX509 L.KeyPair L.Extension} {name email : List UInt8} {c : X509CertificatePrivate}

/-! ### What is set -/

theorem addExt_subject (nid : ExtensionNid) (value : List UInt8) :
    (addExt L x509 nid value).2.subject = x509.subject := by
  unfold addExt
  split <;> rfl

/-- Another extension is no alternative name. -/
theorem addExt_other {nid : ExtensionNid} (value : List UInt8) (h : nid ≠ .subjectAltName) :
    (addExt L x509 nid value).2.extensions.filter (·.1 = .subjectAltName) =
      x509.extensions.filter (·.1 = .subjectAltName) := by
  unfold addExt
  split
  · rfl
  · simp [List.filter_append, h]

/-- The entries of the subject. -/
def subjectEntries (L : OpenSSLGenerate S) (commonName : List UInt8) :
    List (DNAttributeType × ASN1String) :=
  ((L.addEntryByTxt (cString commonName)).map fun data => (.commonName, data)).toList

theorem addCommonName_subject (commonName : List UInt8) (h : x509.subject = []) :
    (addCommonName L x509 commonName).subject = subjectEntries L commonName := by
  unfold addCommonName subjectEntries
  split
  next hn => rw [hn, h]; rfl
  next data hd => rw [hd, h]; rfl

theorem template_subject (keypair : L.KeyPair) (commonName : List UInt8) :
    (template L keypair commonName).subject = subjectEntries L commonName := by
  simp only [template, addExt_subject]
  exact addCommonName_subject commonName rfl

theorem template_commonName (keypair : L.KeyPair) (commonName : List UInt8) :
    ∀ entry ∈ (template L keypair commonName).subject, entry.1 = .commonName := by
  rw [template_subject]
  unfold subjectEntries
  cases L.addEntryByTxt (cString commonName) <;> simp

theorem template_extensions (keypair : L.KeyPair) (commonName : List UInt8) :
    (template L keypair commonName).extensions.filter (·.1 = .subjectAltName) = [] := by
  simp only [template]
  rw [addExt_other _ (by decide), addExt_other _ (by decide), addExt_other _ (by decide),
    addExt_other _ (by decide)]
  unfold addCommonName
  split <;> rfl

/-- The common name that is asked for. -/
def askedName (name : List UInt8) : List UInt8 := if name = [] then ascii "Mumble User" else name

/-- The certificate that is signed. -/
def toBeSigned (L : OpenSSLGenerate S) (keypair : L.KeyPair) (name email : List UInt8) :
    NewX509 L.KeyPair L.Extension :=
  if email = [] then template L keypair (askedName name)
  else (addExt L (template L keypair (askedName name)) .subjectAltName (ascii "email:" ++ email)).2

theorem generate_eq (keypair : L.KeyPair) (name email : List UInt8) :
    ∃ cert pkey, cert.content = L.signedDer (toBeSigned L keypair name email) keypair ∧
      generateSelfSignedCertificate L P heap nb na keypair name email =
        .ok (fromRawDERData S P nb na cert pkey) := by
  refine ⟨_, ⟨some (L.i2dPrivateKey keypair), (L.i2dPrivateKey keypair).length,
    (L.i2dPrivateKey keypair).length⟩, ByteArray.content_exact _, ?_⟩
  by_cases he : email = []
  · simp [generateSelfSignedCertificate, toBeSigned, askedName, he, derToByteArray_eq, bind,
      Except.bind, pure, Except.pure]
  · simp [generateSelfSignedCertificate, toBeSigned, askedName, he, derToByteArray_eq, bind,
      Except.bind, pure, Except.pure]

theorem toBeSigned_subject (keypair : L.KeyPair) :
    (toBeSigned L keypair name email).subject = subjectEntries L (askedName name) := by
  unfold toBeSigned
  split_ifs
  · exact template_subject _ _
  · rw [addExt_subject, template_subject]

/-- The names that `X509V3_EXT_conf_nid` makes of the address. -/
def confNames (L : OpenSSLGenerate S) (keypair : L.KeyPair) (name email : List UInt8) :
    Option (List GeneralName) :=
  (L.x509V3EXTConfNid (template L keypair (askedName name)) .subjectAltName
    (ascii "email:" ++ cString email)).bind L.generalNames

theorem toBeSigned_subjectAltNames (keypair : L.KeyPair) :
    (toBeSigned L keypair name email).subjectAltNames L.generalNames =
      if email = [] then none else confNames L keypair name email := by
  have hnone := template_extensions keypair (askedName name)
  unfold toBeSigned NewX509.subjectAltNames
  split_ifs with he
  · rw [hnone]
  · have hcstr : cString (ascii "email:" ++ email) = ascii "email:" ++ cString email := by
      rw [cString, List.takeWhile_append_of_pos (forall_ascii (by decide)), cString]
    rw [addExt, hcstr, confNames]
    cases L.x509V3EXTConfNid (template L keypair (askedName name)) .subjectAltName
      (ascii "email:" ++ cString email) with
    | none => simp only [hnone]; rfl
    | some ext => simp [List.filter_append, hnone]

/-! ### What is read back -/

/-- The certificate that is decoded has the subject and the names that were set. -/
theorem exists_decoded {keypair : L.KeyPair}
    (h : generateSelfSignedCertificate L P heap nb na keypair name email = .ok c)
    (hd : (decoded S c).isSome) : ∃ out, out.subject = (subjectEntries L (askedName name)).map
        (fun entry => some ⟨some entry.1, some entry.2⟩) ∧
      out.subjectAltNames = (if email = [] then none else confNames L keypair name email) ∧
      c.subjectItems = parseX509Name S out.subject ∧ c.emailAddrs = texts S (emailEntries out) ∧
      c.dnsNames = texts S (dnsEntries out) := by
  obtain ⟨cert, pkey, hder, hgen⟩ := @generate_eq S L P heap nb na keypair name email
  rw [hgen] at h
  obtain rfl := Except.ok.inj h
  rw [decoded, fromRawDERData_ders.1, hder] at hd
  obtain ⟨out, hout⟩ := Option.isSome_iff_exists.mp hd
  obtain ⟨hsubj, hsan⟩ := L.d2iX509_signed hout
  rw [toBeSigned_subject] at hsubj
  rw [toBeSigned_subjectAltNames] at hsan
  refine ⟨out, hsubj, hsan, ?_⟩
  rw [fromRawDERData_some (hder ▸ hout)]
  exact ⟨rfl, rfl, rfl⟩

/-! ### The name -/

/-- A name that OpenSSL takes as it is. -/
def NameFits (L : OpenSSLGenerate S) (name : List UInt8) : Prop :=
  0 ∉ name ∧ ∃ n, L.utf8Length name = some n ∧ 0 < n ∧ n ≤ 64

/-- What is found in a subject with one entry, if any. -/
theorem lookup_subjectEntries (commonName : List UInt8) :
    ((parseX509Name S ((subjectEntries L commonName).map
      fun entry => some ⟨some entry.1, some entry.2⟩)).lookup (ascii "CN")).getD [] =
      if (L.addEntryByTxt (cString commonName)).isSome then cString commonName else [] := by
  unfold subjectEntries
  cases hdata : L.addEntryByTxt (cString commonName) with
  | none => rfl
  | some data =>
    have hval : stringFromASN1String S data = cString commonName := by
      rw [stringFromASN1String, L.addEntryByTxt_utf8 hdata]
    have hname : stringFromDNAttributeType S .commonName = ascii "CN" := by
      rw [stringFromDNAttributeType, if_neg (by decide), S.shortName_commonName]
    have hcn : ascii "CN" ≠ [] := by decide
    simp only [Option.map_some, Option.toList_some, List.map_cons, List.map_nil, parseX509Name,
      parseX509NameFrom, hname, hval, if_neg hcn]
    by_cases hnil : cString commonName = []
    · simp [hnil]
    · simp [hnil, Items.insert]

/-- **The name that is read back** is the one that was asked for, if OpenSSL takes it. -/
theorem commonName_iff {out : OpenSSLX509} (hsubj : out.subject =
      (subjectEntries L (askedName name)).map fun entry => some ⟨some entry.1, some entry.2⟩)
    (hitems : c.subjectItems = parseX509Name S out.subject) :
    c.commonName = askedName name ↔ name = [] ∨ NameFits L name := by
  have hne : askedName name ≠ [] := by
    unfold askedName
    split_ifs with h
    · decide
    · exact h
  have hread : c.commonName = if (L.addEntryByTxt (cString (askedName name))).isSome then
      cString (askedName name) else [] := by
    rw [commonName, hitems, hsubj, lookup_subjectEntries]
  have hfits : c.commonName = askedName name ↔ NameFits L (askedName name) := by
    rw [hread]
    constructor
    · intro h
      split_ifs at h with hsome
      · have hnul := cString_eq_self.mp h
        rw [h] at hsome
        exact ⟨hnul, (L.addEntryByTxt_isSome _).mp hsome⟩
      · exact absurd h.symm hne
    · rintro ⟨hnul, hlen⟩
      rw [cString_eq_self.mpr hnul, if_pos ((L.addEntryByTxt_isSome _).mpr hlen)]
  rw [hfits]
  by_cases hname : name = []
  · have hdefault : NameFits L (askedName name) := by
      rw [askedName, if_pos hname]
      exact ⟨by decide, _, L.utf8Length_ascii _ (forall_ascii (by decide)), by decide, by decide⟩
    exact ⟨fun _ => Or.inl hname, fun _ => hdefault⟩
  · rw [askedName, if_neg hname]
    exact (or_iff_right hname).symm

/-! ### The address -/

section StripSpaces

variable {s : List UInt8}

theorem stripSpaces_sublist : (stripSpaces s).Sublist s := by
  have hdrop := (List.dropWhile_suffix isSpace (l := s)).sublist
  unfold stripSpaces
  split
  · exact List.nil_sublist _
  next p rest heq =>
    rw [heq] at hdrop
    split_ifs
    · exact hdrop
    · exact ((List.rdropWhile_prefix isSpace rest).sublist.cons_cons p).trans hdrop

/-- Nothing but white space is cut off. -/
theorem countP_not_stripSpaces : (stripSpaces s).countP (!isSpace ·) = s.countP (!isSpace ·) := by
  rw [← countP_not_dropWhile (s := s)]
  unfold stripSpaces
  split
  next heq => rw [heq]
  next p rest heq =>
    rw [heq]
    split_ifs
    · rfl
    · rw [List.countP_cons, List.countP_cons, countP_not_rdropWhile]

end StripSpaces

/-- An address that the configuration language leaves alone. -/
structure PlainEmail (L : OpenSSLGenerate S) (email : List UInt8) : Prop where
  noNul : 0 ∉ email
  noComma : comma ∉ L.listPart (ascii "email:" ++ email)
  isAscii : ∀ b ∈ email, b < 128
  stripped : stripSpaces email = email
  notCopy : email ≠ ascii "copy"
  notMove : email ≠ ascii "move"

/-- The text of an IA5String. -/
theorem stringFromASN1String_ia5 (L : OpenSSLGenerate S) {ia5 : ASN1String}
    (h : ia5.type = vASN1IA5String) : stringFromASN1String S ia5 = latin1ToUtf8 ia5.data := by
  rcases ia5 with ⟨type, data⟩
  simp only at h
  subst h
  rw [stringFromASN1String, L.asn1StringToUTF8_ia5]

/-- An address is read back only if nothing in it had a meaning for the configuration language. -/
theorem plainEmail_of_mem {keypair : L.KeyPair} {names : List GeneralName} {ia5 : ASN1String}
    (hnames : confNames L keypair name email = some names) (hia5 : .email ia5 ∈ names)
    (hread : stringFromASN1String S ia5 = email) : PlainEmail L email := by
  have hcstr := zero_notMem_cString email
  by_cases hcomma : comma ∈ L.listPart (ascii "email:" ++ cString email)
  · -- a comma separates two items, so the address that is read has fewer of them
    obtain ⟨ext, hext, hgen⟩ := Option.bind_eq_some_iff.mp hnames
    obtain ⟨htype, hnul, hcount⟩ := L.confNid_many (template_commonName _ _) hcstr hcomma hext hgen hia5
    rw [stringFromASN1String_ia5 L htype] at hread
    have hself : cString email = email := by
      rw [cString_eq_self, ← hread, mem_latin1ToUtf8 (by decide)]
      exact hnul
    rw [hself, ← hread, count_latin1ToUtf8 (by decide)] at hcount
    exact absurd hcount (lt_irrefl _)
  · have hone : emailItem (cString email) = some names := by
      rw [← hnames, confNames]
      exact (L.confNid_one _ _ (template_commonName _ _) hcstr hcomma).symm
    unfold emailItem at hone
    split_ifs at hone with hnil hword
    · obtain rfl := Option.some.inj hone
      simp at hia5
    · obtain rfl := Option.some.inj hone
      obtain rfl : ia5 = ⟨vASN1IA5String, stripSpaces (cString email)⟩ := by simpa using hia5
      rw [stringFromASN1String_ia5 L rfl] at hread
      have hself : cString email = email := by
        rw [cString_eq_self, ← hread, mem_latin1ToUtf8 (by decide)]
        exact fun h => hcstr (stripSpaces_sublist.subset h)
      rw [hself] at hread hcomma hword hcstr
      -- white space is read as it is, so none of it was cut off
      have hstrip : stripSpaces email = email := by
        refine eq_of_sublist_of_countP stripSpaces_sublist ?_ countP_not_stripSpaces
        rw [← countP_isSpace_latin1ToUtf8, hread]
      rw [hstrip] at hread hword
      exact ⟨hcstr, hcomma, latin1ToUtf8_eq_self.mp hread, hstrip, fun h => hword (Or.inl h),
        fun h => hword (Or.inr h)⟩

/-- A plain address is the only name. -/
theorem confNames_of_plain {keypair : L.KeyPair} (hne : email ≠ []) (h : PlainEmail L email) :
    confNames L keypair name email = some [.email ⟨vASN1IA5String, email⟩] := by
  have hself : cString email = email := cString_eq_self.mpr h.noNul
  have hword : ¬ (email = ascii "copy" ∨ email = ascii "move") := fun hw =>
    hw.elim h.notCopy h.notMove
  rw [confNames, hself, L.confNid_one _ _ (template_commonName _ _) h.noNul h.noComma, emailItem,
    h.stripped, if_neg hne, if_neg hword]

/-- **The identity that is asked for**: the name, or the default, and the address alone. -/
structure CarriesIdentity (name email : List UInt8) (c : X509CertificatePrivate) : Prop where
  commonName : c.commonName = askedName name
  emailAddress : c.emailAddress = email
  noFurther : c.emailAddrs.tail = []
  dnsNames : c.dnsNames = []

theorem mem_texts {strs : List ASN1String} {s : List UInt8} (h : s ∈ texts S strs) :
    ∃ str ∈ strs, stringFromASN1String S str = s :=
  List.mem_map.mp (List.mem_of_mem_filter h)

/-- The addresses and host names that are read back are as asked for, for plain addresses. -/
theorem addresses_iff {keypair : L.KeyPair} {out : OpenSSLX509} (hsan : out.subjectAltNames =
      if email = [] then none else confNames L keypair name email)
    (hemails : c.emailAddrs = texts S (emailEntries out))
    (hdns : c.dnsNames = texts S (dnsEntries out)) :
    (c.emailAddress = email ∧ c.emailAddrs.tail = [] ∧ c.dnsNames = []) ↔
      email = [] ∨ PlainEmail L email := by
  by_cases he : email = []
  · rw [if_pos he] at hsan
    have h1 : c.emailAddrs = [] := by rw [hemails, emailEntries, hsan]; rfl
    have h2 : c.dnsNames = [] := by rw [hdns, dnsEntries, hsan]; rfl
    exact ⟨fun _ => Or.inl he, fun _ => ⟨by rw [emailAddress, h1, he]; rfl, by rw [h1]; rfl, h2⟩⟩
  · rw [if_neg he] at hsan
    rw [or_iff_right he]
    constructor
    · rintro ⟨haddr, -, -⟩
      have hmem : email ∈ c.emailAddrs := by
        rw [emailAddress] at haddr
        cases hl : c.emailAddrs with
        | nil => rw [hl] at haddr; exact absurd haddr.symm he
        | cons first rest =>
          rw [hl] at haddr
          rw [← haddr]
          exact List.mem_cons_self
      obtain ⟨ia5, hia5, hread⟩ := mem_texts (hemails ▸ hmem)
      rw [emailEntries, hsan] at hia5
      obtain ⟨entry, hentry, hsome⟩ := List.mem_filterMap.mp hia5
      cases hnames : confNames L keypair name email with
      | none => rw [hnames] at hentry; cases hentry
      | some names =>
        rw [hnames, Option.getD_some] at hentry
        cases entry with
        | email str =>
          obtain rfl := Option.some.inj hsome
          exact plainEmail_of_mem hnames hentry hread
        | dns | other => cases hsome
    · intro hplain
      rw [confNames_of_plain he hplain] at hsan
      have htext : stringFromASN1String S ⟨vASN1IA5String, email⟩ = email := by
        rw [stringFromASN1String_ia5 L rfl, latin1ToUtf8_eq_self.mpr hplain.isAscii]
      have h1 : c.emailAddrs = [email] := by
        rw [hemails, emailEntries, hsan]
        simp [texts, htext, he]
      have h2 : c.dnsNames = [] := by rw [hdns, dnsEntries, hsan]; rfl
      exact ⟨by rw [emailAddress, h1]; rfl, by rw [h1]; rfl, h2⟩

/-- **When a certificate carries the identity that was asked for**: the name is one that OpenSSL takes
as it is, and the address one that its configuration language leaves alone. -/
theorem carriesIdentity_iff {keypair : L.KeyPair}
    (h : generateSelfSignedCertificate L P heap nb na keypair name email = .ok c)
    (hd : (decoded S c).isSome) : CarriesIdentity name email c ↔
      (name = [] ∨ NameFits L name) ∧ (email = [] ∨ PlainEmail L email) := by
  obtain ⟨out, hsubj, hsan, hitems, hemails, hdns⟩ := exists_decoded h hd
  rw [← commonName_iff hsubj hitems, ← addresses_iff hsan hemails hdns]
  exact ⟨fun h => ⟨h.commonName, h.emailAddress, h.noFurther, h.dnsNames⟩,
    fun h => ⟨h.1, h.2.1, h.2.2.1, h.2.2.2⟩⟩

/-! ### An example -/

/-- What an item of a `subjectAltName` becomes; only addresses and host names are known here. -/
def confItem (item : List UInt8) : Option (List GeneralName) :=
  if item.take 6 = ascii "email:" then emailItem (item.drop 6)
  else if item.take 4 = ascii "DNS:" then some [.dns ⟨vASN1IA5String, stripSpaces (item.drop 4)⟩]
  else none

/-- What a list of items becomes, unless one of them is wrong. -/
def confItems : List (List UInt8) → Option (List GeneralName)
  | [] => some []
  | item :: items => do
    let names ← confItem item
    let others ← confItems items
    return names ++ others

theorem mem_confItems {name : GeneralName} : ∀ {items : List (List UInt8)} {names : List GeneralName},
    confItems items = some names → name ∈ names →
      ∃ item ∈ items, ∃ names, confItem item = some names ∧ name ∈ names
  | [], names, h, hm => by
    obtain rfl := Option.some.inj h
    cases hm
  | item :: items, names, h, hm => by
    obtain ⟨first, hfirst, h⟩ := Option.bind_eq_some_iff.mp h
    obtain ⟨others, hothers, h⟩ := Option.bind_eq_some_iff.mp h
    obtain rfl := Option.some.inj h
    rcases List.mem_append.mp hm with hm | hm
    · exact ⟨item, by simp, first, hfirst, hm⟩
    · obtain ⟨item', hi, names, hn, hm⟩ := mem_confItems hothers hm
      exact ⟨item', by simp [hi], names, hn, hm⟩

/-- An address is a part of an item. -/
theorem email_of_confItem {item : List UInt8} {names : List GeneralName} {ia5 : ASN1String}
    (h : confItem item = some names) (hm : .email ia5 ∈ names) :
    ia5.type = vASN1IA5String ∧ ∀ b ∈ ia5.data, b ∈ item := by
  unfold confItem emailItem at h
  split_ifs at h
  · obtain rfl := Option.some.inj h
    cases hm
  · obtain rfl := Option.some.inj h
    obtain rfl : ia5 = ⟨vASN1IA5String, stripSpaces (item.drop 6)⟩ := by simpa using hm
    exact ⟨rfl, fun b hb => List.mem_of_mem_drop (stripSpaces_sublist.subset hb)⟩
  · obtain rfl := Option.some.inj h
    simp at hm

theorem mem_splitOn {a : UInt8} : ∀ {s item : List UInt8}, item ∈ s.splitOn a →
    a ∉ item ∧ ∀ b ∈ item, b ∈ s
  | [], item, h => by
    rw [List.splitOn_nil, List.mem_singleton] at h
    rw [h]
    exact ⟨by simp, by simp⟩
  | b :: s, item, h => by
    rw [List.splitOn_cons_eq_if_modifyHead] at h
    obtain ⟨first, others, hsplit⟩ := List.exists_cons_of_ne_nil (List.splitOn_ne_nil a s)
    have hrec : ∀ {i}, i ∈ first :: others → a ∉ i ∧ ∀ x ∈ i, x ∈ b :: s := by
      intro i hi
      obtain ⟨hnot, hsub⟩ := mem_splitOn (hsplit ▸ hi)
      exact ⟨hnot, fun x hx => List.mem_cons_of_mem b (hsub x hx)⟩
    rw [hsplit] at h
    split_ifs at h with hb
    · rcases List.mem_cons.mp h with rfl | h
      · exact ⟨by simp, by simp⟩
      · exact hrec h
    · rcases List.mem_cons.mp h with rfl | h
      · obtain ⟨hnot, hsub⟩ := hrec (List.mem_cons_self (a := first))
        refine ⟨?_, ?_⟩
        · simp only [List.mem_cons, not_or]
          exact ⟨fun hab => hb (by simp [hab]), hnot⟩
        · exact List.forall_mem_cons.mpr ⟨by simp, hsub⟩
      · exact hrec (List.mem_cons_of_mem _ h)

/-- An OpenSSL that knows one certificate and reads IA5Strings as Latin-1. -/
def latin1OpenSSL (x509 : OpenSSLX509) : OpenSSL :=
  { oneCertificate x509 with
    asn1StringToUTF8 := fun str =>
      some (if str.type = vASN1IA5String then latin1ToUtf8 str.data else str.data) }

/-- The number of characters of a text in UTF-8, by their first bytes. -/
def countChars (s : List UInt8) : ℕ := s.countP fun b => b < 128 ∨ 192 ≤ b

/-- The functions of OpenSSL for which a certificate with these contents has the known DER. -/
def generating (x509 : OpenSSLX509) : OpenSSLGenerate (latin1OpenSSL x509) where
  KeyPair := Unit
  Extension := Option (List GeneralName)
  addEntryByTxt s := if 0 < countChars s ∧ countChars s ≤ 64 then some ⟨12, s⟩ else none
  utf8Length s := some (countChars s)
  x509V3EXTConfNid _ nid value :=
    if nid = .subjectAltName then (confItems (value.splitOn comma)).map some else some none
  generalNames := id
  listPart := id
  signedDer new _ :=
    if new.subject.map (fun entry => some ⟨some entry.1, some entry.2⟩) = x509.subject ∧
        new.subjectAltNames id = x509.subjectAltNames then [48] else []
  i2dPrivateKey _ := [1]
  utf8Length_ascii s h := by
    rw [countChars, List.countP_eq_length.mpr fun b hb => by simp [h b hb]]
  addEntryByTxt_isSome s := by
    split_ifs with h
    · simpa using h
    · simpa using h
  addEntryByTxt_utf8 h := by
    obtain ⟨-, h⟩ := Option.ite_none_right_eq_some.mp h
    obtain rfl := Option.some.inj h
    rfl
  asn1StringToUTF8_ia5 v := rfl
  listPart_eq _ _ _ := rfl
  confNid_one x509 e hsubj hnul hcomma := by
    have hone : (ascii "email:" ++ e).splitOn comma = [ascii "email:" ++ e] := by
      rw [List.splitOn_eq_splitOnP]
      refine List.splitOnP_eq_singleton fun b hb => ?_
      rw [beq_eq_false_iff_ne]
      rintro rfl
      exact hcomma hb
    have hitem : confItem (ascii "email:" ++ e) = emailItem e := by
      rw [confItem, if_pos (by rfl)]
      rfl
    rw [if_pos rfl, hone, confItems, hitem]
    cases emailItem e <;> simp [confItems]
  confNid_many {new e ext names ia5} _ hnul hcomma hext hgen hia5 := by
    rw [if_pos rfl] at hext
    obtain ⟨all, hall, rfl⟩ := Option.map_eq_some_iff.mp hext
    obtain rfl := Option.some.inj hgen
    obtain ⟨item, hitem, itemNames, hconf, hm⟩ := mem_confItems hall hia5
    obtain ⟨hcut, hsub⟩ := mem_splitOn hitem
    obtain ⟨htype, hdata⟩ := email_of_confItem hconf hm
    have hword : ∀ b, b ∈ ascii "email:" → b ≠ 0 ∧ b ≠ comma := forall_ascii (by decide)
    have hzero : 0 ∉ ia5.data := by
      intro h0
      rcases List.mem_append.mp (hsub 0 (hdata 0 h0)) with h | h
      · exact (hword 0 h).1 rfl
      · exact hnul h
    have hnone : ia5.data.count comma = 0 :=
      List.count_eq_zero_of_not_mem fun h => hcut (hdata _ h)
    have hsome : 0 < e.count comma := by
      rw [List.count_pos_iff]
      exact (List.mem_append.mp hcomma).resolve_left fun h => (hword _ h).2 rfl
    exact ⟨htype, hzero, by omega⟩
  d2iX509_signed h := by
    obtain ⟨hder, hout⟩ := Option.ite_none_right_eq_some.mp h
    obtain rfl := Option.some.inj hout
    split_ifs at hder with hsame
    exact ⟨hsame.1.symm, hsame.2.symm⟩

/-- A certificate with this name and these alternative names. -/
def identity (name : List UInt8) (names : Option (List GeneralName)) : OpenSSLX509 :=
  ⟨[some ⟨some .commonName, some ⟨12, name⟩⟩], [], none, none, names⟩

/-- The certificate of a client. -/
theorem carriesIdentity_client :
    let x509 := identity (ascii "John Doe") (some [.email ⟨vASN1IA5String, ascii "john@example.com"⟩])
    ∃ c, generateSelfSignedCertificate (generating x509) ⟨CompatWin.strptime, Tm.instant⟩
        (fun _ => 0) 0 0 () (ascii "John Doe") (ascii "john@example.com") = .ok c ∧
      CarriesIdentity (ascii "John Doe") (ascii "john@example.com") c := by
  intro x509
  refine ⟨_, rfl, (carriesIdentity_iff (L := generating x509) rfl (by decide)).mpr
    ⟨Or.inr ⟨by decide, _, rfl, by decide, by decide⟩, Or.inr ?_⟩⟩
  exact ⟨by decide, by decide, forall_ascii (by decide), by decide, by decide, by decide⟩

/-- An address with a comma in it adds another address. -/
theorem second_address :
    let x509 := identity (ascii "John Doe")
      (some [.email ⟨vASN1IA5String, ascii "a@b"⟩, .email ⟨vASN1IA5String, ascii "c@d"⟩])
    ∃ c, generateSelfSignedCertificate (generating x509) ⟨CompatWin.strptime, Tm.instant⟩
        (fun _ => 0) 0 0 () (ascii "John Doe") (ascii "a@b,email:c@d") = .ok c ∧
      (decoded (latin1OpenSSL x509) c).isSome ∧
      ¬ CarriesIdentity (ascii "John Doe") (ascii "a@b,email:c@d") c := by
  intro x509
  refine ⟨_, rfl, by decide, fun h => ?_⟩
  exact absurd h.noFurther (by decide)

end LibMumble.X509
