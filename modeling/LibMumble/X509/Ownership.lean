import LibMumble.Lib.Ownership
import LibMumble.X509.Generate
import LibMumble.X509.PEMStore
import LibMumble.X509.PEMVerifier
import LibMumble.X509.PKCS12
import Mathlib.Algebra.Order.Group.Multiset
import Mathlib.Tactic.Abel

/-! # The objects of OpenSSL

The functions that work with objects of OpenSSL once more, as programs that own what OpenSSL hands out to
them. None of them uses or releases what is not live, and what each leaves behind is stated exactly.
`ExtractCertificateInfo`, which runs for every certificate that is made or copied, leaves what the values
of the alternative names hold; a verification leaves nothing, the making of a certificate what is left of
its own names, `AddPEM` its `BIO`, and `IsSignedBy` the key of the issuer. -/

namespace LibMumble.X509

open Lib Lib.Own X509CertificatePrivate

/-- The kinds of the objects, by what releases them. -/
inductive OpenSSLKind
  | x509 | evpPkey | rsa | pkcs12 | bio | x509Stack | x509StoreCtx | x509Extension
  /-- the memory of a `BIO` -/
  | bufMem
  /-- a string of `ASN1_STRING_to_UTF8` -/
  | utf8
  | generalNameStack
  /-- the structs of a `GENERAL_NAME` and of its value -/
  | generalName
  /-- what the value of a `GENERAL_NAME` holds -/
  | valueOfName
  deriving DecidableEq, Repr

abbrev OpenSSLPtr := Ptr OpenSSLKind

abbrev OpenSSLOwn := Own OpenSSLKind Fault

/-- The pointers of a number of objects. -/
def pointers {α : Type} (objects : List (Option (OpenSSLPtr × α))) : List (Option OpenSSLPtr) :=
  objects.map (·.map (·.1))

def useOption {α : Type} : Option (OpenSSLPtr × α) → OpenSSLOwn Unit
  | some p => use p.1
  | none => pure ()

/-- A memory `BIO`. -/
structure MemBIO where
  bio : OpenSSLPtr
  buf : OpenSSLPtr

/-- `BIO_new_mem_buf`, or `BIO_new` of `BIO_s_mem`. -/
def MemBIO.new : OpenSSLOwn MemBIO := do
  let bio ← acquire .bio
  let buf ← acquire .bufMem
  return ⟨bio, buf⟩

/-- `BIO_free`, which keeps the memory of a `BIO` that was set to `BIO_NOCLOSE`. -/
def MemBIO.free (mem : MemBIO) : Bool → OpenSSLOwn Unit
  | true => release mem.bio
  | false => do
    release mem.buf
    release mem.bio

/-! ### Taking a certificate apart -/

section Extract

variable (S : OpenSSL) (P : Libc) (nb na : ℤ)

/-- `StringFromASN1String` with its buffer. -/
def stringFromASN1StringOwn (str : ASN1String) : OpenSSLOwn (List UInt8) := do
  let buf ← acquireOption .utf8 (S.asn1StringToUTF8 str)
  match buf with
  | none => return []
  | some (buf, out) => do
    release buf
    return out

/-- The loop of `ParseX509Name`, over a name of `x509`. -/
def parseX509NameOwn (x509 : OpenSSLPtr) (items : Items) : X509Name → OpenSSLOwn Items
  | [] => pure items
  | none :: _ => pure []
  | some ne :: rest => do
    use x509
    match ne.object, ne.data with
    | none, _ => return []
    | some _, none => return []
    | some obj, some val =>
      let attributeName := stringFromDNAttributeType S obj
      if attributeName = [] then return []
      else do
        let attributeValue ← stringFromASN1StringOwn S val
        if attributeValue = [] then return []
        else parseX509NameOwn x509 (items.insert attributeName attributeValue) rest

/-- A `GENERAL_NAME`. -/
structure AltName where
  ptr : OpenSSLPtr
  value : OpenSSLPtr
  name : GeneralName

/-- The structs of the names, and what their values hold. -/
def structs (names : List AltName) : List (Option OpenSSLPtr) := names.map fun name => some name.ptr

def values (names : List AltName) : List (Option OpenSSLPtr) := names.map fun name => some name.value

/-- The names of a stack. -/
def acquireNames : List GeneralName → OpenSSLOwn (List AltName)
  | [] => pure []
  | name :: names => do
    let ptr ← acquire .generalName
    let value ← acquire .valueOfName
    let rest ← acquireNames names
    return ⟨ptr, value, name⟩ :: rest

/-- The `switch` over the type of a name. -/
def extractAltNameOwn (c : X509CertificatePrivate) (name : AltName) :
    OpenSSLOwn X509CertificatePrivate := do
  use name.ptr
  match name.name with
  | .dns ia5 => do
    use name.value
    let dns ← stringFromASN1StringOwn S ia5
    return if dns ≠ [] then { c with dnsNames := c.dnsNames ++ [dns] } else c
  | .email ia5 => do
    use name.value
    let email ← stringFromASN1StringOwn S ia5
    return if email ≠ [] then { c with emailAddrs := c.emailAddrs ++ [email] } else c
  | .other => return c

/-- The loop over the names. -/
def extractAltNamesOwn (stack : OpenSSLPtr) (c : X509CertificatePrivate) :
    List AltName → OpenSSLOwn X509CertificatePrivate
  | [] => pure c
  | name :: names => do
    use stack
    let c ← extractAltNameOwn S c name
    extractAltNamesOwn stack c names

/-- What `ExtractCertificateInfo` does with the stack of `X509_get_ext_d2i`. -/
def extractSubjAltNamesOwn (c : X509CertificatePrivate) :
    Option (List GeneralName) → OpenSSLOwn X509CertificatePrivate
  | none => pure c
  | some names => do
    let stack ← acquire .generalNameStack
    let names ← acquireNames names
    let c ← extractAltNamesOwn S stack c names
    -- `sk_free` takes a name for a stack: it frees the struct of the name, and the struct of its
    -- value, which is where a stack has its elements, but nothing of what the value holds
    releaseAll (structs names)
    release stack
    return c

/-- `ExtractCertificateInfo` with its objects. -/
def extractCertificateInfoOwn (c : X509CertificatePrivate) : OpenSSLOwn X509CertificatePrivate := do
  let x509 ← acquireOption .x509 (S.d2iX509 c.certDer.content)
  match x509 with
  | none => return c
  | some (p, x509) => do
    let subjectItems ← parseX509NameOwn S p [] x509.subject
    let issuerItems ← parseX509NameOwn S p [] x509.issuer
    use p
    let c := { c with
      subjectItems := subjectItems
      issuerItems := issuerItems
      notBefore := match x509.notBefore with
        | some notBefore => parseASN1Time P notBefore
        | none => c.notBefore
      notAfter := match x509.notAfter with
        | some notAfter => parseASN1Time P notAfter
        | none => c.notAfter }
    let c ← extractSubjAltNamesOwn S c x509.subjectAltNames
    release p
    return c

/-- `FromRawDERData` with its objects. -/
def fromRawDERDataOwn (cert pkey : ByteArray) : OpenSSLOwn X509CertificatePrivate :=
  extractCertificateInfoOwn S P { new nb na with certDer := cert, privDer := pkey }

/-- The copy constructor with its objects. -/
def copyOwn (cert : X509CertificatePrivate) : OpenSSLOwn X509CertificatePrivate :=
  extractCertificateInfoOwn S P { new nb na with certDer := cert.certDer, privDer := cert.privDer }

end Extract

/-! ### The programs -/

section Functions

variable {S : OpenSSL} (L : OpenSSLPKCS12 S) (V : X509Store)

/-- What OpenSSL says about signatures. -/
structure OpenSSLVerify (Cert : Type) where
  Key : Type
  x509GetPubkey : Cert → Option Key
  x509Verify : Cert → Option Key → ℤ

/-- `IsSignedBy`. -/
def isSignedBy (G : OpenSSLVerify L.Cert) (c parent : X509CertificatePrivate) : Bool :=
  match L.asOpenSSLX509 c, L.asOpenSSLX509 parent with
  | some us, some it => G.x509Verify us (G.x509GetPubkey it) = 1
  | _, _ => false

/-- The `if` of `IsSignedBy`. -/
def checkSignatureOwn (G : OpenSSLVerify L.Cert) (us it : Option (OpenSSLPtr × L.Cert)) :
    OpenSSLOwn Bool :=
  match us, it with
  | some us, some it => do
    use it.1
    -- a key of which the caller has a reference
    let key ← acquireOption .evpPkey (G.x509GetPubkey it.2)
    use us.1
    useOption key
    return G.x509Verify us.2 (key.map (·.2)) = 1
  | _, _ => pure false

/-- `IsSignedBy` with its objects. -/
def isSignedByOwn (G : OpenSSLVerify L.Cert) (c parent : X509CertificatePrivate) :
    OpenSSLOwn Bool := do
  let us ← acquireOption .x509 (L.asOpenSSLX509 c)
  let it ← acquireOption .x509 (L.asOpenSSLX509 parent)
  let result ← checkSignatureOwn L G us it
  releaseOption (us.map (·.1))
  releaseOption (it.map (·.1))
  return result

/-- The loop of `VerifyChain` over the chain. -/
def pushChainOwn (S : OpenSSL) (untrusted : OpenSSLPtr) : List X509CertificatePrivate →
    OpenSSLOwn (List (Option (OpenSSLPtr × OpenSSLX509)))
  | [] => pure []
  | cert :: chain => do
    let cur ← acquireOption .x509 (asOpenSSLX509 S cert)
    use untrusted
    let pushed ← pushChainOwn S untrusted chain
    return cur :: pushed

/-- `VerifyChain` up to its label `out`. -/
def verifyUntrustedOwn (S : OpenSSL) (ctx untrusted : OpenSSLPtr)
    (chain : List X509CertificatePrivate) (opts : X509VerifierOptions) :
    OpenSSLOwn (List (Option (OpenSSLPtr × OpenSSLX509)) × Bool) :=
  match chain with
  | [] => pure ([], false)
  | leaf :: _ =>
    if opts.dnsName ≠ [] ∧ ¬ verifyHostname leaf opts.dnsName then pure ([], false)
    else do
      let pushed ← pushChainOwn S untrusted chain
      let certs := pushed.map (·.map (·.2))
      let time : ℤ := if opts.time = 0 then V.stdTime else opts.time
      let server : Bool := opts.dnsName ≠ []
      use ctx
      use untrusted
      return (pushed, V.verifyCert ⟨certs.head?.join, certs, time, server, server⟩ = 1)

/-- `X509PEMVerifier::VerifyChain` with its objects. -/
def verifyChainOwn (S : OpenSSL) (chain : List X509CertificatePrivate) (opts : X509VerifierOptions) :
    OpenSSLOwn Bool := do
  let ctx ← acquire .x509StoreCtx
  let untrusted ← acquire .x509Stack
  let (pushed, status) ← verifyUntrustedOwn V S ctx untrusted chain opts
  -- `sk_X509_pop_free`
  releaseAll (pointers pushed)
  release untrusted
  release ctx
  return status

/-- The loop of `AddPEM`. -/
def addPEMFromOwn {Cert : Type} (D : PEM Cert) (mem : OpenSSLPtr) (store : List Cert)
    (text : List UInt8) : OpenSSLOwn (Bool × List Cert) := do
  use mem
  match _h : D.read text with
  | none => return (false, store)
  | some (x, text') => do
    let p ← acquire .x509
    -- the store takes a reference of its own
    use p
    release p
    addPEMFromOwn D mem (store ++ [x]) text'
termination_by text.length
decreasing_by exact D.next_lt (PEM.next_of_read _h)

/-- `X509PEMVerifier::AddPEM` with its objects. -/
def addPEMOwn {Cert : Type} (D : PEM Cert) (store : List Cert) (buf : ByteArray) :
    OpenSSLOwn (Bool × List Cert) := do
  -- there is no `BIO` for a null pointer
  if buf.isNull then return (false, store)
  else do
    let mem ← MemBIO.new
    addPEMFromOwn D mem.bio store buf.content

end Functions

section Generate

variable {S : OpenSSL} (L : OpenSSLGenerate S) (P : Libc) (heap : ℕ → UInt8) (nb na : ℤ)

/-- `add_ext` with its object, which is copied into the certificate. -/
def addExtOwn (p : OpenSSLPtr) (crt : NewX509 L.KeyPair L.Extension) (nid : ExtensionNid)
    (value : List UInt8) : OpenSSLOwn (NewX509 L.KeyPair L.Extension) := do
  use p
  let ex ← acquireOption .x509Extension (L.x509V3EXTConfNid crt nid (cString value))
  match ex with
  | none => return crt
  | some ex => do
    use ex.1
    release ex.1
    return { crt with extensions := crt.extensions ++ [(nid, ex.2)] }

/-- The certificate up to its alternative name. -/
def templateOwn (p : OpenSSLPtr) (keypair : L.KeyPair) (commonName : List UInt8) :
    OpenSSLOwn (NewX509 L.KeyPair L.Extension) := do
  use p
  let x509 : NewX509 L.KeyPair L.Extension := {
    version := 2, serialNumber := 1, notBefore := 0, notAfter := 60*60*24*365*20,
    pubkey := some keypair }
  let x509 := addCommonName L x509 commonName
  let x509 := { x509 with issuer := x509.subject }
  let x509 ← addExtOwn L p x509 .basicConstraints (ascii "critical,CA:FALSE")
  let x509 ← addExtOwn L p x509 .extKeyUsage (ascii "clientAuth")
  let x509 ← addExtOwn L p x509 .subjectKeyIdentifier (ascii "hash")
  addExtOwn L p x509 .netscapeComment (ascii "Generated by Mumble")

/-- The alternative name, if an address was given. -/
def addAltNameOwn (p : OpenSSLPtr) (x509 : NewX509 L.KeyPair L.Extension)
    (altNameEmail : List UInt8) : OpenSSLOwn (NewX509 L.KeyPair L.Extension) :=
  if altNameEmail ≠ [] then addExtOwn L p x509 .subjectAltName altNameEmail else pure x509

/-- `GenerateSelfSignedCertificate` with its objects. -/
def generateOwn (keypair : L.KeyPair) (name email : List UInt8) :
    OpenSSLOwn X509CertificatePrivate := do
  let p ← acquire .x509
  let key ← acquire .evpPkey
  let rsa ← acquire .rsa
  use key
  -- `EVP_PKEY_assign_RSA`: from now on it belongs to the key
  release rsa
  use key
  let x509 ← templateOwn L p keypair (if name = [] then ascii "Mumble User" else name)
  let x509 ← addAltNameOwn L p x509 (if email ≠ [] then ascii "email:" ++ email else [])
  use p
  use key
  let certDer ← Own.lift (derToByteArray heap (L.signedDer x509 keypair))
  release p
  use key
  let privDer ← Own.lift (derToByteArray heap (L.i2dPrivateKey keypair))
  release key
  fromRawDERDataOwn S P nb na certDer privDer

end Generate

/-! ### What the functions do with the objects -/

section Rules

variable {α : Type} {L : Multiset OpenSSLPtr} {E : Fault → Prop}

@[simp] theorem pointers_nil : pointers ([] : List (Option (OpenSSLPtr × α))) = [] := rfl

@[simp] theorem pointers_cons (p : Option (OpenSSLPtr × α)) (ps : List (Option (OpenSSLPtr × α))) :
    pointers (p :: ps) = p.map (·.1) :: pointers ps := rfl

theorem owns_useOption {p : Option (OpenSSLPtr × α)} (hp : owned [p.map (·.1)] ≤ L) :
    Owns L (useOption p) (fun _ L' => L' = L) E := by
  cases p with
  | none => exact .pure rfl
  | some p => exact .use (Multiset.singleton_le.mp hp)

/-- A memory `BIO` and its memory. -/
theorem owns_newMemBIO : Owns L MemBIO.new (fun mem L' =>
    mem.bio.1 = .bio ∧ mem.buf.1 = .bufMem ∧ L' = {mem.bio} + ({mem.buf} + L)) E := by
  refine Owns.acquire.bind ?_
  rintro bio _ ⟨hbio, rfl⟩
  refine Owns.acquire.bind ?_
  rintro buf _ ⟨hbuf, rfl⟩
  exact .pure ⟨hbio, hbuf, add_left_comm _ _ _⟩

end Rules

section Extract

variable {S : OpenSSL} {P : Libc} {nb na : ℤ} {H G : Multiset OpenSSLPtr} {E : Fault → Prop}

theorem owns_stringFromASN1String (str : ASN1String) : Owns H (stringFromASN1StringOwn S str)
    (fun out H' => out = stringFromASN1String S str ∧ H' = H) E := by
  refine Owns.acquireOption.bind ?_
  rintro buf _ ⟨hbuf, -, rfl⟩
  rw [stringFromASN1String, ← hbuf]
  cases buf with
  | none => exact .pure ⟨rfl, Multiset.zero_add H⟩
  | some buf => exact (Owns.release rfl).next (.pure ⟨rfl, rfl⟩)

theorem owns_parseX509Name {p : OpenSSLPtr} (hp : p ∈ H) (items : Items) (name : X509Name) :
    Owns H (parseX509NameOwn S p items name)
      (fun r H' => r = parseX509NameFrom S items name ∧ H' = H) E := by
  induction name generalizing items with
  | nil => exact .pure ⟨rfl, rfl⟩
  | cons ne rest ih =>
    cases ne with
    | none => exact .pure ⟨rfl, rfl⟩
    | some ne =>
      obtain ⟨object, data⟩ := ne
      refine (Owns.use hp).next ?_
      cases object with
      | none => exact .pure ⟨rfl, rfl⟩
      | some obj =>
        cases data with
        | none => exact .pure ⟨rfl, rfl⟩
        | some val =>
          simp only [parseX509NameFrom]
          split
          · exact .pure ⟨rfl, rfl⟩
          · refine (owns_stringFromASN1String val).bind ?_
            rintro _ _ ⟨rfl, rfl⟩
            split
            · exact .pure ⟨rfl, rfl⟩
            · exact ih _

@[simp] theorem owned_structs_cons (name : AltName) (names : List AltName) :
    owned (structs (name :: names)) = {name.ptr} + owned (structs names) :=
  owned_cons (some name.ptr) (structs names)

@[simp] theorem owned_values_cons (name : AltName) (names : List AltName) :
    owned (values (name :: names)) = {name.value} + owned (values names) :=
  owned_cons (some name.value) (values names)

theorem owns_acquireNames (names : List GeneralName) : Owns H (acquireNames names) (fun r H' =>
    r.map (·.name) = names ∧ kinds (owned (values r)) = Multiset.replicate names.length .valueOfName ∧
      H' = owned (structs r) + (owned (values r) + H)) E := by
  induction names generalizing H with
  | nil => exact .pure ⟨rfl, rfl, by simp [structs, values]⟩
  | cons name names ih =>
    refine Owns.acquire.bind ?_
    rintro ptr _ ⟨-, rfl⟩
    refine Owns.acquire.bind ?_
    rintro value _ ⟨hvalue, rfl⟩
    refine ih.bind ?_
    rintro r _ ⟨hr, hkinds, rfl⟩
    refine .pure ⟨by rw [List.map_cons, hr], ?_, ?_⟩
    · rw [owned_values_cons, kinds_add, kinds_singleton, hkinds, hvalue, List.length_cons,
        Multiset.replicate_succ, Multiset.singleton_add]
    · rw [owned_structs_cons, owned_values_cons]
      abel

theorem owns_extractAltName {name : AltName} (hptr : name.ptr ∈ H) (hvalue : name.value ∈ H)
    (c : X509CertificatePrivate) : Owns H (extractAltNameOwn S c name)
      (fun r H' => r = extractAltName S c name.name ∧ H' = H) E := by
  refine (Owns.use hptr).next ?_
  cases name.name with
  | dns ia5 =>
    refine (Owns.use hvalue).next ?_
    refine (owns_stringFromASN1String ia5).bind ?_
    rintro _ _ ⟨rfl, rfl⟩
    exact .pure ⟨rfl, rfl⟩
  | email ia5 =>
    refine (Owns.use hvalue).next ?_
    refine (owns_stringFromASN1String ia5).bind ?_
    rintro _ _ ⟨rfl, rfl⟩
    exact .pure ⟨rfl, rfl⟩
  | other => exact .pure ⟨rfl, rfl⟩

theorem owns_extractAltNames {stack : OpenSSLPtr} (hstack : stack ∈ H) (names : List AltName)
    (hnames : ∀ name ∈ names, name.ptr ∈ H ∧ name.value ∈ H) (c : X509CertificatePrivate) :
    Owns H (extractAltNamesOwn S stack c names)
      (fun r H' => r = (names.map (·.name)).foldl (extractAltName S) c ∧ H' = H) E := by
  induction names generalizing c with
  | nil => exact .pure ⟨rfl, rfl⟩
  | cons name names ih =>
    obtain ⟨hname, hrest⟩ := List.forall_mem_cons.mp hnames
    refine (Owns.use hstack).next ?_
    refine (owns_extractAltName hname.1 hname.2 c).bind ?_
    rintro _ _ ⟨rfl, rfl⟩
    exact ih hrest _

theorem mem_structs {names : List AltName} {name : AltName} (h : name ∈ names) :
    name.ptr ∈ owned (structs names) := by
  simp only [owned, structs, Multiset.mem_coe, List.mem_filterMap, List.mem_map, id]
  exact ⟨_, ⟨name, h, rfl⟩, rfl⟩

theorem mem_values {names : List AltName} {name : AltName} (h : name ∈ names) :
    name.value ∈ owned (values names) := by
  simp only [owned, values, Multiset.mem_coe, List.mem_filterMap, List.mem_map, id]
  exact ⟨_, ⟨name, h, rfl⟩, rfl⟩

/-- What is left behind with a result. -/
def leftOf {α : Type} (left : α → Multiset OpenSSLKind) : Except Fault α → Multiset OpenSSLKind
  | .ok a => left a
  | .error _ => 0

/-- What is left of the alternative names of a certificate. -/
def namesLeft (S : OpenSSL) (c : X509CertificatePrivate) : Multiset OpenSSLKind :=
  Multiset.replicate (((decoded S c).bind (·.subjectAltNames)).getD []).length .valueOfName

/-- **The stack and the structs are freed.** -/
theorem owns_extractSubjAltNames (c : X509CertificatePrivate) (names : Option (List GeneralName)) :
    Owns H (extractSubjAltNamesOwn S c names) (fun r H' =>
      r = (names.getD []).foldl (extractAltName S) c ∧ ∃ new, H' = new + H ∧
        kinds new = Multiset.replicate (names.getD []).length .valueOfName) E := by
  cases names with
  | none => exact .pure ⟨rfl, 0, (Multiset.zero_add H).symm, rfl⟩
  | some names =>
    refine Owns.acquire.bind ?_
    rintro stack _ ⟨-, rfl⟩
    refine (owns_acquireNames names).bind ?_
    rintro names _ ⟨rfl, hkinds, rfl⟩
    refine (owns_extractAltNames (by simp) names ?_ c).bind ?_
    · intro name hname
      simp [mem_structs hname, mem_values hname]
    rintro _ _ ⟨rfl, rfl⟩
    refine (Owns.releaseAll rfl).next ?_
    refine (Owns.release (add_left_comm _ _ _)).next ?_
    exact .pure ⟨rfl, owned (values names), rfl, hkinds⟩

/-- **What is left of a certificate that is taken apart.** -/
theorem extractCertificateInfo_leaves (P : Libc) (c : X509CertificatePrivate) :
    Leaves (extractCertificateInfoOwn S P c) (.ok (extractCertificateInfo S P c)) (namesLeft S c) := by
  refine Owns.acquireOption.bind ?_
  rintro x509 _ ⟨hx509, -, rfl⟩
  rw [extractCertificateInfo, namesLeft, decoded, ← hx509]
  cases x509 with
  | none => exact .pure ⟨rfl, rfl⟩
  | some x509 =>
    obtain ⟨p, x509⟩ := x509
    have hp : p ∈ owned [some p] + (0 : Multiset OpenSSLPtr) := by simp
    refine (owns_parseX509Name hp [] x509.subject).bind ?_
    rintro _ _ ⟨rfl, rfl⟩
    refine (owns_parseX509Name hp [] x509.issuer).bind ?_
    rintro _ _ ⟨rfl, rfl⟩
    refine (Owns.use hp).next ?_
    refine (owns_extractSubjAltNames _ x509.subjectAltNames).bind ?_
    rintro _ _ ⟨rfl, new, rfl, hnew⟩
    refine (Owns.release (add_left_comm _ _ _)).next ?_
    exact .pure ⟨rfl, by rw [add_zero]; exact hnew⟩

theorem fromRawDERData_leaves (cert pkey : ByteArray) :
    Leaves (fromRawDERDataOwn S P nb na cert pkey) (.ok (fromRawDERData S P nb na cert pkey))
      (namesLeft S (fromRawDERData S P nb na cert pkey)) := by
  have hleft : namesLeft S (fromRawDERData S P nb na cert pkey) =
      namesLeft S { new nb na with certDer := cert, privDer := pkey } := by
    rw [namesLeft, decoded, fromRawDERData_ders.1]
    rfl
  rw [hleft]
  exact extractCertificateInfo_leaves P _

theorem copy_certDer (c : X509CertificatePrivate) : (copy S P nb na c).certDer = c.certDer :=
  (@fromRawDERData_ders S P nb na c.certDer c.privDer).1

theorem copy_privDer (c : X509CertificatePrivate) : (copy S P nb na c).privDer = c.privDer :=
  (@fromRawDERData_ders S P nb na c.certDer c.privDer).2

theorem namesLeft_copy (c : X509CertificatePrivate) :
    namesLeft S (copy S P nb na c) = namesLeft S c := by
  rw [namesLeft, decoded, copy_certDer]
  rfl

/-- The copy constructor. -/
theorem copy_leaves (c : X509CertificatePrivate) :
    Leaves (copyOwn S P nb na c) (.ok (copy S P nb na c)) (namesLeft S c) :=
  extractCertificateInfo_leaves P { new nb na with certDer := c.certDer, privDer := c.privDer }

end Extract

section Verify

variable {S : OpenSSL} {V : X509Store} {L : Multiset OpenSSLPtr} {E : Fault → Prop} {u : OpenSSLPtr}

theorem owns_pushChain (hu : u ∈ L) (chain : List X509CertificatePrivate) :
    Owns L (pushChainOwn S u chain) (fun pushed L' =>
      pushed.map (·.map (·.2)) = chain.map (asOpenSSLX509 S) ∧ L' = owned (pointers pushed) + L) E := by
  induction chain generalizing L with
  | nil => exact .pure ⟨rfl, (Multiset.zero_add L).symm⟩
  | cons cert chain ih =>
    refine Owns.acquireOption.bind ?_
    rintro cur _ ⟨hcur, -, rfl⟩
    have hu' : u ∈ owned [cur.map (·.1)] + L := Multiset.mem_add.mpr (Or.inr hu)
    refine (Owns.use hu').next ?_
    refine (ih hu').bind ?_
    rintro pushed _ ⟨hpushed, rfl⟩
    refine .pure ⟨by rw [List.map_cons, List.map_cons, hcur, hpushed], ?_⟩
    rw [pointers_cons, owned_cons _ (pointers pushed)]
    abel

theorem owns_verifyUntrusted {ctx : OpenSSLPtr} (hctx : ctx ∈ L) (hu : u ∈ L)
    (chain : List X509CertificatePrivate) (opts : X509VerifierOptions) :
    Owns L (verifyUntrustedOwn V S ctx u chain opts) (fun r L' =>
      r.2 = pemVerifyChain S V chain opts ∧ L' = owned (pointers r.1) + L) E := by
  cases chain with
  | nil => exact .pure ⟨rfl, (Multiset.zero_add L).symm⟩
  | cons leaf rest =>
    rw [verifyUntrustedOwn, pemVerifyChain]
    split
    · exact .pure ⟨rfl, (Multiset.zero_add L).symm⟩
    · refine (owns_pushChain hu _).bind ?_
      rintro pushed _ ⟨hpushed, rfl⟩
      refine (Owns.use (Multiset.mem_add.mpr (Or.inr hctx))).next ?_
      refine (Owns.use (Multiset.mem_add.mpr (Or.inr hu))).next ?_
      refine .pure ⟨?_, rfl⟩
      rw [hpushed]
      rfl

/-- **A verification leaves nothing behind**, however it ends. -/
theorem verifyChain_leaves (V : X509Store) (chain : List X509CertificatePrivate)
    (opts : X509VerifierOptions) :
    Leaves (verifyChainOwn V S chain opts) (.ok (pemVerifyChain S V chain opts)) 0 := by
  refine Owns.acquire.bind ?_
  rintro ctx _ ⟨-, rfl⟩
  refine Owns.acquire.bind ?_
  rintro untrusted _ ⟨-, rfl⟩
  refine (owns_verifyUntrusted (by simp) (by simp) chain opts).bind ?_
  rintro ⟨pushed, status⟩ _ ⟨hstatus, rfl⟩
  refine (Owns.releaseAll rfl).next ?_
  refine (Owns.release rfl).next ?_
  refine (Owns.release rfl).next ?_
  exact .pure ⟨congrArg _ hstatus.symm, rfl⟩

end Verify

section Generate

variable {S : OpenSSL} {L : OpenSSLGenerate S} {P : Libc} {heap : ℕ → UInt8} {nb na : ℤ}

theorem owns_addExt {p : OpenSSLPtr} {H : Multiset OpenSSLPtr} {E : Fault → Prop} (hp : p ∈ H)
    (x509 : NewX509 L.KeyPair L.Extension) (nid : ExtensionNid) (value : List UInt8) :
    Owns H (addExtOwn L p x509 nid value)
      (fun crt H' => crt = (addExt L x509 nid value).2 ∧ H' = H) E := by
  refine (Owns.use hp).next ?_
  refine Owns.acquireOption.bind ?_
  rintro ex _ ⟨hex, -, rfl⟩
  rw [addExt, ← hex]
  cases ex with
  | none => exact .pure ⟨rfl, Multiset.zero_add _⟩
  | some ex =>
    refine (Owns.use (by simp)).next ?_
    refine (Owns.release rfl).next ?_
    exact .pure ⟨rfl, rfl⟩

theorem owns_template {p : OpenSSLPtr} {H : Multiset OpenSSLPtr} {E : Fault → Prop} (hp : p ∈ H)
    (keypair : L.KeyPair) (commonName : List UInt8) :
    Owns H (templateOwn L p keypair commonName)
      (fun crt H' => crt = template L keypair commonName ∧ H' = H) E := by
  refine (Owns.use hp).next ?_
  refine (owns_addExt hp _ _ _).bind ?_
  rintro _ _ ⟨rfl, rfl⟩
  refine (owns_addExt hp _ _ _).bind ?_
  rintro _ _ ⟨rfl, rfl⟩
  refine (owns_addExt hp _ _ _).bind ?_
  rintro _ _ ⟨rfl, rfl⟩
  exact owns_addExt hp _ _ _

theorem owns_addAltName {p : OpenSSLPtr} {H : Multiset OpenSSLPtr} {E : Fault → Prop} (hp : p ∈ H)
    (x509 : NewX509 L.KeyPair L.Extension) (altNameEmail : List UInt8) :
    Owns H (addAltNameOwn L p x509 altNameEmail) (fun crt H' =>
      crt = (if altNameEmail ≠ [] then (addExt L x509 .subjectAltName altNameEmail).2 else x509) ∧
        H' = H) E := by
  unfold addAltNameOwn
  split
  · exact owns_addExt hp _ _ _
  · exact .pure ⟨rfl, rfl⟩

/-- **The making of a certificate leaves what is left of its names.** -/
theorem generate_leaves (keypair : L.KeyPair) (name email : List UInt8) :
    Leaves (generateOwn L P heap nb na keypair name email)
      (generateSelfSignedCertificate L P heap nb na keypair name email)
      (leftOf (namesLeft S) (generateSelfSignedCertificate L P heap nb na keypair name email)) := by
  refine Owns.acquire.bind ?_
  rintro p _ ⟨-, rfl⟩
  refine Owns.acquire.bind ?_
  rintro key _ ⟨-, rfl⟩
  refine Owns.acquire.bind ?_
  rintro rsa _ ⟨-, rfl⟩
  refine (Owns.use (by simp)).next ?_
  refine (Owns.release rfl).next ?_
  refine (Owns.use (by simp)).next ?_
  refine (owns_template (by simp) _ _).bind ?_
  rintro _ _ ⟨rfl, rfl⟩
  refine (owns_addAltName (by simp) _ _).bind ?_
  rintro x509 _ ⟨hx509, rfl⟩
  refine (Owns.use (by simp)).next ?_
  refine (Owns.use (by simp)).next ?_
  simp only [derToByteArray_eq]
  refine (Owns.lift nofun).bind ?_
  rintro certDer _ ⟨hcert, rfl⟩
  refine (Owns.release (add_left_comm _ _ _)).next ?_
  refine (Owns.use (by simp)).next ?_
  refine (Owns.lift nofun).bind ?_
  rintro privDer _ ⟨hpriv, rfl⟩
  refine (Owns.release rfl).next ?_
  have hvalue : generateSelfSignedCertificate L P heap nb na keypair name email =
      .ok (fromRawDERData S P nb na certDer privDer) := by
    simp only [generateSelfSignedCertificate, ← hx509, derToByteArray_eq, hcert, hpriv, bind, Except.bind]
    rfl
  rw [hvalue]
  exact fromRawDERData_leaves certDer privDer

end Generate

section AddPEM

variable {Cert : Type} {D : PEM Cert} {L : Multiset OpenSSLPtr} {E : Fault → Prop}

theorem addPEMFrom_stops {text : List UInt8} (h : D.read text = none) (store : List Cert) :
    addPEMFrom D store text = (false, store) := by
  rw [addPEMFrom_eq, PEM.goodPrefix_of_read_none h, List.append_nil]

theorem addPEMFrom_adds {text text' : List UInt8} {x : Cert} (h : D.read text = some (x, text'))
    (store : List Cert) : addPEMFrom D store text = addPEMFrom D (store ++ [x]) text' := by
  rw [addPEMFrom_eq, addPEMFrom_eq, PEM.blocks_next (PEM.next_of_read h), goodPrefix_some,
    List.append_assoc]
  rfl

theorem owns_addPEMFrom {mem : OpenSSLPtr} (hmem : mem ∈ L) (store : List Cert) (text : List UInt8) :
    Owns L (addPEMFromOwn D mem store text)
      (fun r L' => r = addPEMFrom D store text ∧ L' = L) E := by
  induction store, text using addPEMFrom.induct D with
  | case1 store text hread =>
    rw [addPEMFrom_stops hread, addPEMFromOwn]
    refine (Owns.use hmem).next ?_
    split
    · exact .pure ⟨rfl, rfl⟩
    · simp_all
  | case2 store text x text' hread ih =>
    rw [addPEMFrom_adds hread, addPEMFromOwn]
    refine (Owns.use hmem).next ?_
    split
    · simp_all
    · rename_i x' text'' hread'
      obtain ⟨rfl, rfl⟩ : x = x' ∧ text' = text'' := by simpa [hread] using hread'
      refine Owns.acquire.bind ?_
      rintro p _ ⟨-, rfl⟩
      refine (Owns.use (by simp)).next ?_
      exact (Owns.release rfl).next ih

/-- **`AddPEM` leaves its `BIO` behind**, and of the certificates none. -/
theorem addPEM_leaves (D : PEM Cert) (store : List Cert) (buf : ByteArray) :
    Leaves (addPEMOwn D store buf) (.ok (addPEM D store buf))
      (if buf.isNull then 0 else {.bio, .bufMem}) := by
  unfold addPEMOwn
  split
  · rename_i hnull
    have hbytes : buf.content = [] := by
      rw [ByteArray.isNull, Option.isNone_iff_eq_none] at hnull
      simp [ByteArray.content, ByteArray.data, hnull]
    refine Owns.pure ⟨?_, rfl⟩
    rw [addPEM_eq, hbytes, PEM.blocks_nil, goodPrefix_nil, List.append_nil]
  · refine owns_newMemBIO.bind ?_
    rintro mem _ ⟨hbio, hbuf, rfl⟩
    refine (owns_addPEMFrom (by simp) store buf.content).imp ?_
    rintro _ _ ⟨rfl, rfl⟩
    refine ⟨rfl, ?_⟩
    rw [kinds_add, kinds_add, kinds_singleton, kinds_singleton, hbio, hbuf]
    rfl

end AddPEM

section IsSignedBy

variable {S : OpenSSL} {L : OpenSSLPKCS12 S}

/-- The key that `X509_get_pubkey` hands out. -/
def issuerKey (L : OpenSSLPKCS12 S) (G : OpenSSLVerify L.Cert) (c parent : X509CertificatePrivate) :
    Option G.Key :=
  match L.asOpenSSLX509 c, L.asOpenSSLX509 parent with
  | some _, some it => G.x509GetPubkey it
  | _, _ => none

theorem owns_checkSignature {H : Multiset OpenSSLPtr} {E : Fault → Prop} (G : OpenSSLVerify L.Cert)
    {c parent : X509CertificatePrivate} {us it : Option (OpenSSLPtr × L.Cert)}
    (hus : us.map (·.2) = L.asOpenSSLX509 c) (hit : it.map (·.2) = L.asOpenSSLX509 parent)
    (hus' : owned [us.map (·.1)] ≤ H) (hit' : owned [it.map (·.1)] ≤ H) :
    Owns H (checkSignatureOwn L G us it) (fun result H' => result = isSignedBy L G c parent ∧
      ∃ key : Option (OpenSSLPtr × G.Key), key.map (·.2) = issuerKey L G c parent ∧
        (∀ p ∈ key, p.1.1 = .evpPkey) ∧ H' = owned [key.map (·.1)] + H) E := by
  rw [isSignedBy, issuerKey, ← hus, ← hit]
  cases us with
  | none => exact .pure ⟨rfl, none, rfl, nofun, (zero_add H).symm⟩
  | some us =>
    cases it with
    | none => exact .pure ⟨rfl, none, rfl, nofun, (zero_add H).symm⟩
    | some it =>
      refine (Owns.use (Multiset.singleton_le.mp hit')).next ?_
      refine Owns.acquireOption.bind ?_
      rintro key _ ⟨hkey, hkind, rfl⟩
      refine (Owns.use (Multiset.mem_add.mpr (Or.inr (Multiset.singleton_le.mp hus')))).next ?_
      refine (owns_useOption (Multiset.le_add_right _ _)).next ?_
      refine .pure ⟨?_, key, hkey, hkind, rfl⟩
      rw [hkey]
      rfl

/-- **`IsSignedBy` leaves the key of the issuer behind**, if it comes to ask for it. -/
theorem isSignedBy_leaves (G : OpenSSLVerify L.Cert) (c parent : X509CertificatePrivate) :
    Leaves (isSignedByOwn L G c parent) (.ok (isSignedBy L G c parent))
      (if (issuerKey L G c parent).isSome then {.evpPkey} else 0) := by
  refine Owns.acquireOption.bind ?_
  rintro us _ ⟨hus, -, rfl⟩
  refine Owns.acquireOption.bind ?_
  rintro it _ ⟨hit, -, rfl⟩
  have hus' := (Multiset.le_add_right (owned [us.map (·.1)]) 0).trans
    (Multiset.le_add_left _ (owned [it.map (·.1)]))
  refine (owns_checkSignature G hus hit hus' (Multiset.le_add_right _ _)).bind ?_
  rintro result _ ⟨rfl, key, hkey, hkind, rfl⟩
  have horder : owned [key.map (·.1)] + (owned [it.map (·.1)] + (owned [us.map (·.1)] + 0)) =
      owned [us.map (·.1)] + (owned [it.map (·.1)] + owned [key.map (·.1)]) := by abel
  refine (Owns.releaseOption horder).next ?_
  refine (Owns.releaseOption rfl).next ?_
  refine .pure ⟨rfl, ?_⟩
  rw [← hkey]
  cases key with
  | none => rfl
  | some key => simp [kinds, hkind key rfl]

end IsSignedBy

end LibMumble.X509
