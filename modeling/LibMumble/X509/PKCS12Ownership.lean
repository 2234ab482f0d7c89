import LibMumble.X509.Ownership
import LibMumble.X509.PKCS12Import

/-! # The objects of an export and an import

`X509Certificate` has a copy constructor and no move constructor. So each certificate that is passed on in
a vector, is taken out of one or is pushed to one is taken apart once more, and so are all certificates of
a vector that grows. Besides what is left of their names, an export that ends early leaves its stack
(`export_leaves`), and an import the memory of its `BIO`, with the leaf and the key if they do not belong
together (`fromPKCS12_leaves`). A session leaves what its calls leave (`session_leaves`). -/

namespace LibMumble.X509

open Lib Lib.Own X509CertificatePrivate

/-! ### Vectors of certificates -/

section Vectors

-- `grows` says of which sizes a vector is that has no room for one more
variable (S : OpenSSL) (P : Libc) (nb na : ℤ) (grows : ℕ → Bool)

/-- The copy of a vector. -/
def copyAllOwn : List X509CertificatePrivate → OpenSSLOwn (List X509CertificatePrivate)
  | [] => pure []
  | cert :: certs => do
    let cert ← copyOwn S P nb na cert
    let certs ← copyAllOwn certs
    return cert :: certs

/-- The vector, with room for one more. -/
def growOwn (out : List X509CertificatePrivate) : OpenSSLOwn (List X509CertificatePrivate) :=
  if grows out.length then copyAllOwn S P nb na out else pure out

/-- `push_back`. -/
def pushBackOwn (out : List X509CertificatePrivate) (cert : X509CertificatePrivate) :
    OpenSSLOwn (List X509CertificatePrivate) := do
  let out ← growOwn S P nb na grows out
  let cert ← copyOwn S P nb na cert
  return out ++ [cert]

/-- `push_back` of what `FromRawDERData` makes. -/
def pushDERDataOwn (out : List X509CertificatePrivate) (cert pkey : ByteArray) :
    OpenSSLOwn (List X509CertificatePrivate) := do
  let cert ← fromRawDERDataOwn S P nb na cert pkey
  pushBackOwn S P nb na grows out cert

/-- What is left of the names of copies. -/
def copiesLeft (certs : List X509CertificatePrivate) : Multiset OpenSSLKind :=
  (certs.map (namesLeft S)).sum

/-- What is left of the names of certificates that are made and pushed to a vector. -/
def pushLeft : List X509CertificatePrivate → List X509CertificatePrivate → Multiset OpenSSLKind
  | _, [] => 0
  | out, cert :: certs =>
    namesLeft S cert + ((if grows out.length then copiesLeft S out else 0) + namesLeft S cert) +
      pushLeft (out ++ [cert]) certs

variable {S P nb na grows} {c : X509CertificatePrivate} {out certs : List X509CertificatePrivate}

/-- A certificate that a copy is like. -/
def SameCopy (S : OpenSSL) (P : Libc) (nb na : ℤ) (c : X509CertificatePrivate) : Prop :=
  copy S P nb na c = c

theorem sameCopy_fromRawDERData (cert pkey : ByteArray) :
    SameCopy S P nb na (fromRawDERData S P nb na cert pkey) := by
  obtain ⟨hcert, hpkey⟩ := @fromRawDERData_ders S P nb na cert pkey
  rw [SameCopy, copy, hcert, hpkey]
  rfl

theorem map_copy (h : ∀ c ∈ certs, SameCopy S P nb na c) : certs.map (copy S P nb na) = certs :=
  List.map_congr_left h |>.trans certs.map_id

theorem pushLeft_append (out certs rest : List X509CertificatePrivate) :
    pushLeft S grows out (certs ++ rest) =
      pushLeft S grows out certs + pushLeft S grows (out ++ certs) rest := by
  induction certs generalizing out with
  | nil => simp [pushLeft]
  | cons c certs ih =>
    rw [List.cons_append, pushLeft, pushLeft, ih, List.append_assoc, List.singleton_append]
    abel

theorem copiesLeft_cons (c : X509CertificatePrivate) (certs : List X509CertificatePrivate) :
    copiesLeft S (c :: certs) = namesLeft S c + copiesLeft S certs := by
  rw [copiesLeft, List.map_cons, List.sum_cons]
  rfl

theorem copyAll_leaves (certs : List X509CertificatePrivate) :
    Leaves (copyAllOwn S P nb na certs) (.ok (certs.map (copy S P nb na))) (copiesLeft S certs) := by
  induction certs with
  | nil => exact .pure _
  | cons c certs ih =>
    rw [copiesLeft_cons, ← add_zero (copiesLeft S certs)]
    exact (copy_leaves c).seq (ih.seq (.pure _))

/-- The vector holds the same certificates, and one more. -/
theorem pushBack_leaves (h : ∀ c ∈ out, SameCopy S P nb na c) (hc : SameCopy S P nb na c) :
    Leaves (pushBackOwn S P nb na grows out c) (.ok (out ++ [c]))
      ((if grows out.length then copiesLeft S out else 0) + namesLeft S c) := by
  have hgrown : Leaves (growOwn S P nb na grows out) (.ok out)
      (if grows out.length then copiesLeft S out else 0) := by
    unfold growOwn
    split
    · have hcopies := @copyAll_leaves S P nb na out
      rwa [map_copy h] at hcopies
    · exact .pure out
  have hcopy := @copy_leaves S P nb na c
  rw [hc] at hcopy
  rw [← add_zero (namesLeft S c)]
  refine hgrown.seq ?_
  exact hcopy.seq (.pure _)

theorem pushDERData_leaves (h : ∀ c ∈ out, SameCopy S P nb na c) (cert pkey : ByteArray) :
    Leaves (pushDERDataOwn S P nb na grows out cert pkey)
      (.ok (out ++ [fromRawDERData S P nb na cert pkey]))
      (pushLeft S grows out [fromRawDERData S P nb na cert pkey]) := by
  rw [pushLeft, pushLeft, add_zero]
  exact (fromRawDERData_leaves cert pkey).seq (pushBack_leaves h (sameCopy_fromRawDERData cert pkey))

end Vectors

/-! ### The programs -/

section Functions

variable {S : OpenSSL} (L : OpenSSLPKCS12 S) (P : Libc) (heap : ℕ → UInt8) (nb na : ℤ)
  (grows : ℕ → Bool)

/-- The loop that collects the certificates after the first one. -/
def pushCertsOwn (certs : OpenSSLPtr) : List X509CertificatePrivate →
    OpenSSLOwn (List (Option (OpenSSLPtr × L.Cert)))
  | [] => pure []
  | cert :: chain => do
    let cert ← copyOwn S P nb na cert
    if cert.hasCertificate then
      let c ← acquireOption .x509 (L.asOpenSSLX509 cert)
      use certs
      let pushed ← pushCertsOwn certs chain
      return c :: pushed
    else pushCertsOwn certs chain

/-- The local variables of the export, after its `if`. -/
structure ExportLocals where
  pushed : List (Option (OpenSSLPtr × L.Cert)) := []
  pkcs : Option (OpenSSLPtr × L.PKCS12) := none
  mem : Option MemBIO := none
  ba : ByteArray := .null

/-- The `if` of the export. -/
def exportCreateOwn (certs : OpenSSLPtr) (x509 : Option (OpenSSLPtr × L.Cert))
    (pkey : Option (OpenSSLPtr × L.PKey)) (rest : List X509CertificatePrivate)
    (password : List UInt8) : OpenSSLOwn (ExportLocals L) :=
  match x509 with
  | none => pure {}
  | some x509 => do
    use x509.1
    useOption pkey
    if (pkey.map (·.2)).all fun k => L.x509CheckPrivateKey x509.2 k ≠ 0 then
      let pushed ← pushCertsOwn L P nb na certs rest
      useOption pkey
      use x509.1
      use certs
      let pkcs ← acquireOption .pkcs12 (L.pkcs12Create (passwordCStr password)
        (ascii "Mumble Identity") (pkey.map (·.2)) x509.2 (pushed.map (·.map (·.2))))
      match pkcs with
      | none => return { pushed := pushed }
      | some pkcs => do
        let mem ← MemBIO.new
        use pkcs.1
        use mem.bio
        use mem.buf
        let buf := L.i2dPKCS12 pkcs.2
        let ba ← Own.lift (ByteArray.ofBuffer (some buf) buf.length (-1))
        return ⟨pushed, some pkcs, some mem, ba⟩
    else pure {}

/-- `BIO_free`, if there is a `BIO`. -/
def freeMem : Option MemBIO → OpenSSLOwn Unit
  | none => pure ()
  | some mem => mem.free false

/-- `X509CertificatePrivate::ExportCertificateChainAsPKCS12` with its objects. -/
def exportChainOwn (chain : List X509CertificatePrivate) (password : List UInt8) :
    OpenSSLOwn ByteArray := do
  let certs ← acquire .x509Stack
  match chain with
  | [] => return .null
  | leaf :: rest =>
    let leaf ← copyOwn S P nb na leaf
    if ¬ leaf.hasCertificate then return .null
    else
      let pkey ← acquireOption .evpPkey (L.asPrivateKey leaf)
      let x509 ← acquireOption .x509 (L.asOpenSSLX509 leaf)
      let locals ← exportCreateOwn L P nb na certs x509 pkey rest password
      releaseOption (pkey.map (·.1))
      releaseOption (x509.map (·.1))
      releaseOption (locals.pkcs.map (·.1))
      freeMem locals.mem
      releaseAll (pointers locals.pushed)
      release certs
      return locals.ba

/-- `X509Certificate::ExportCertificateChainAsPKCS12`, which passes its vector on by value. -/
def exportOwn (chain : List X509CertificatePrivate) (password : List UInt8) :
    OpenSSLOwn ByteArray := do
  let chain ← copyAllOwn S P nb na chain
  exportChainOwn L P nb na chain password

/-! ### Import -/

/-- The stack of `PKCS12_parse`, with its certificates. -/
abbrev OwnedStack := OpenSSLPtr × List (OpenSSLPtr × L.Cert)

/-- The certificates of a stack. -/
def acquireCerts : List L.Cert → OpenSSLOwn (List (OpenSSLPtr × L.Cert))
  | [] => pure []
  | x :: certs => do
    let p ← acquire .x509
    let rest ← acquireCerts certs
    return (p, x) :: rest

/-- The stack, if it is not null. -/
def acquireStack : Option (List L.Cert) → OpenSSLOwn (Option (OwnedStack L))
  | none => pure none
  | some certs => do
    let p ← acquire .x509Stack
    let stack ← acquireCerts L certs
    return some (p, stack)

/-- The leaf, if there is one. -/
def importLeafOwn (ret : ℤ) (pkey : Option (OpenSSLPtr × L.PKey)) (x509 : Option (OpenSSLPtr × L.Cert))
    (certs : Option (OwnedStack L)) : OpenSSLOwn (List X509CertificatePrivate) :=
  if ret = 1 ∧ certs.isSome ∧ x509.isNone ∧ pkey.isNone then pure []
  else
    match decide (ret = 1), x509, pkey with
    | true, some x509, some pkey => do
      use x509.1
      use pkey.1
      if 0 < L.x509CheckPrivateKey x509.2 pkey.2 then
        let pkeyDer ← Own.lift (derToByteArray heap (L.i2dPrivateKey pkey.2))
        release pkey.1
        use x509.1
        let leafDer ← Own.lift (derToByteArray heap (L.i2dX509 x509.2))
        release x509.1
        pushDERDataOwn S P nb na grows [] leafDer pkeyDer
      else return []
    | _, _, _ =>
      if ret = 0 ∧ x509.isNone ∧ pkey.isNone ∧ certs.isNone then pure []
      else Own.lift (.error .assertion)

/-- The loop over `sk_X509_pop`: the certificates, and what is still on the stack. -/
def popCertsOwn (certs : OpenSSLPtr) : ℕ → List (OpenSSLPtr × L.Cert) →
    List X509CertificatePrivate →
    OpenSSLOwn (List X509CertificatePrivate × List (OpenSSLPtr × L.Cert))
  | 0, stack, out => pure (out, stack)
  | n + 1, stack, out => do
    use certs
    match stack.getLast? with
    | none => Own.lift (.error .nullPointer)
    | some x509 => do
      use x509.1
      let leafDer ← Own.lift (derToByteArray heap (L.i2dX509 x509.2))
      let out ← pushDERDataOwn S P nb na grows out leafDer .null
      release x509.1
      popCertsOwn certs n stack.dropLast out

/-- The other certificates, and what is left of the stack. -/
def importCertsOwn (x509 : Option (OpenSSLPtr × L.Cert)) (certs : Option (OwnedStack L))
    (out : List X509CertificatePrivate) :
    OpenSSLOwn (List X509CertificatePrivate × Option (OwnedStack L)) :=
  match certs with
  | none => pure (out, none)
  | some (certs, stack) =>
    if (out.length = 0 ∧ x509.isNone) ∨ (out.length = 1 ∧ x509.isSome) then do
      let (out, stack) ← popCertsOwn L P heap nb na grows certs stack.length stack out
      return (out, some (certs, stack))
    else pure (out, some (certs, stack))

/-- What `FromPKCS12` does with a file that could be decoded. -/
def importOwn (pkcs : OpenSSLPtr × L.PKCS12) (password : List UInt8) :
    OpenSSLOwn (List X509CertificatePrivate × Option (OwnedStack L)) := do
  use pkcs.1
  let r := parsePKCS12 L pkcs.2 password
  let pkey ← acquireOption .evpPkey r.pkey
  let x509 ← acquireOption .x509 r.x509
  let certs ← acquireStack L r.certs
  let out ← importLeafOwn L P heap nb na grows r.ret pkey x509 certs
  importCertsOwn L P heap nb na grows x509 certs out

/-- What it does with what could be decoded. -/
def importFileOwn (password : List UInt8) : Option (OpenSSLPtr × L.PKCS12) →
    OpenSSLOwn (List X509CertificatePrivate × Option (OwnedStack L))
  | none => pure ([], none)
  | some pkcs => importOwn L P heap nb na grows pkcs password

/-- `sk_X509_pop_free`. -/
def popFree : Option (OwnedStack L) → OpenSSLOwn Unit
  | none => pure ()
  | some (certs, stack) => do
    releaseAll (pointers (stack.map some))
    release certs

/-- `FromPKCS12` with its objects. -/
def fromPKCS12Own (pkcs12 : ByteArray) (password : List UInt8) :
    OpenSSLOwn (List X509CertificatePrivate) :=
  if pkcs12.isNull then pure []
  else do
    let mem ← MemBIO.new
    use mem.bio
    use mem.buf
    let pkcs ← acquireOption .pkcs12 (L.d2iPKCS12 pkcs12.content)
    let (out, certs) ← importFileOwn L P heap nb na grows password pkcs
    popFree L certs
    releaseOption (pkcs.map (·.1))
    -- set to `BIO_NOCLOSE`
    mem.free true
    return out

end Functions

/-! ### What an export leaves behind -/

section Export

variable {S : OpenSSL} {L : OpenSSLPKCS12 S} {P : Libc} {nb na : ℤ} {H G : Multiset OpenSSLPtr}
  {E : Fault → Prop} {certs : OpenSSLPtr}

/-- A memory `BIO` and its memory. -/
def memOwned : Option MemBIO → Multiset OpenSSLPtr
  | none => 0
  | some mem => {mem.bio} + {mem.buf}

theorem owns_freeMem (mem : Option MemBIO) :
    Owns (memOwned mem + G) (freeMem mem) (fun _ H' => H' = G) E := by
  cases mem with
  | none => exact .pure (Multiset.zero_add G)
  | some mem =>
    rw [memOwned, add_assoc, add_left_comm]
    exact (Owns.release rfl).next (.release rfl)

section Copies

variable (S L P nb na)

theorem hasCertificate_copy (c : X509CertificatePrivate) :
    (copy S P nb na c).hasCertificate = c.hasCertificate := by
  rw [hasCertificate, hasCertificate, copy_certDer]

theorem asOpenSSLX509_copy (c : X509CertificatePrivate) :
    L.asOpenSSLX509 (copy S P nb na c) = L.asOpenSSLX509 c := by
  rw [OpenSSLPKCS12.asOpenSSLX509, OpenSSLPKCS12.asOpenSSLX509, copy_certDer]

theorem asPrivateKey_copy (c : X509CertificatePrivate) :
    L.asPrivateKey (copy S P nb na c) = L.asPrivateKey c := by
  rw [OpenSSLPKCS12.asPrivateKey, OpenSSLPKCS12.asPrivateKey, copy_privDer]

theorem pushCerts_copy (rest : List X509CertificatePrivate) :
    pushCerts L (rest.map (copy S P nb na)) = pushCerts L rest := by
  induction rest with
  | nil => rfl
  | cons c rest ih =>
    rw [List.map_cons, pushCerts, pushCerts, hasCertificate_copy, asOpenSSLX509_copy, ih]

theorem copiesLeft_copy (certs : List X509CertificatePrivate) :
    copiesLeft S (certs.map (copy S P nb na)) = copiesLeft S certs := by
  rw [copiesLeft, copiesLeft, List.map_map]
  exact congrArg List.sum (List.map_congr_left fun c _ => namesLeft_copy c)

/-- Copies are exported as what they are copies of. -/
theorem export_copy (chain : List X509CertificatePrivate) (password : List UInt8) :
    exportCertificateChainAsPKCS12 L (chain.map (copy S P nb na)) password =
      exportCertificateChainAsPKCS12 L chain password := by
  cases chain with
  | nil => rfl
  | cons leaf rest =>
    simp only [List.map_cons, exportCertificateChainAsPKCS12, hasCertificate_copy, asOpenSSLX509_copy,
      asPrivateKey_copy, pushCerts_copy]

end Copies

theorem owns_pushCerts (hcerts : certs ∈ H) (rest : List X509CertificatePrivate) :
    Owns H (pushCertsOwn L P nb na certs rest) (fun pushed H' =>
      pushed.map (·.map (·.2)) = pushCerts L rest ∧
      ∃ new, H' = new + (owned (pointers pushed) + H) ∧ kinds new = copiesLeft S rest) E := by
  induction rest generalizing H with
  | nil => exact .pure ⟨rfl, 0, by simp, rfl⟩
  | cons cert rest ih =>
    rw [pushCerts, copiesLeft_cons]
    refine ((copy_leaves cert).within_ok H).bind ?_
    rintro _ _ ⟨rfl, new, rfl, hnew⟩
    have hcerts' : certs ∈ new + H := Multiset.mem_add.mpr (Or.inr hcerts)
    rw [hasCertificate_copy, asOpenSSLX509_copy]
    split
    · refine Owns.acquireOption.bind ?_
      rintro c _ ⟨hc, -, rfl⟩
      have hcerts'' : certs ∈ owned [c.map (·.1)] + (new + H) := Multiset.mem_add.mpr (Or.inr hcerts')
      refine (Owns.use hcerts'').next ?_
      refine (ih hcerts'').bind ?_
      rintro pushed _ ⟨hpushed, new', rfl, hnew'⟩
      refine .pure ⟨by rw [List.map_cons, hc, hpushed], new + new', ?_, ?_⟩
      · rw [pointers_cons, owned_cons _ (pointers pushed)]
        abel
      · rw [kinds_add, hnew, hnew']
    · refine (ih hcerts').imp ?_
      rintro pushed _ ⟨hpushed, new', rfl, hnew'⟩
      refine ⟨hpushed, new + new', by abel, ?_⟩
      rw [kinds_add, hnew, hnew']

/-- The leaf decodes, and a key it has is its own. -/
def fitsKey (L : OpenSSLPKCS12 S) (leaf : X509CertificatePrivate) : Bool :=
  (L.asOpenSSLX509 leaf).any fun x509 =>
    (L.asPrivateKey leaf).all fun k => L.x509CheckPrivateKey x509 k ≠ 0

theorem owns_exportCreate {x509 : Option (OpenSSLPtr × L.Cert)} {pkey : Option (OpenSSLPtr × L.PKey)}
    {leaf : X509CertificatePrivate} (hcerts : certs ∈ H) (hx : owned [x509.map (·.1)] ≤ H)
    (hk : owned [pkey.map (·.1)] ≤ H) (hleaf : leaf.hasCertificate = true)
    (hx509 : x509.map (·.2) = L.asOpenSSLX509 leaf) (hpkey : pkey.map (·.2) = L.asPrivateKey leaf)
    (rest : List X509CertificatePrivate) (password : List UInt8) :
    Owns H (exportCreateOwn L P nb na certs x509 pkey rest password) (fun r H' =>
      exportCertificateChainAsPKCS12 L (leaf :: rest) password = .ok r.ba ∧
      ∃ new, H' = new + (owned (pointers r.pushed) + memOwned r.mem + owned [r.pkcs.map (·.1)] + H) ∧
        kinds new = if fitsKey L leaf then copiesLeft S rest else 0) E := by
  simp only [exportCertificateChainAsPKCS12, hleaf, fitsKey, ← hx509, ← hpkey, not_true_eq_false,
    if_false]
  cases x509 with
  | none => exact .pure ⟨rfl, 0, by simp [memOwned], rfl⟩
  | some x509 =>
    rw [exportCreateOwn]
    refine (Owns.use (Multiset.singleton_le.mp hx)).next ?_
    refine (owns_useOption hk).next ?_
    simp only [Option.map_some, Option.any_some]
    split
    · rename_i hcheck
      refine (owns_pushCerts hcerts rest).bind ?_
      rintro pushed _ ⟨hpushed, new, rfl, hnew⟩
      have hle : H ≤ new + (owned (pointers pushed) + H) :=
        (Multiset.le_add_left _ _).trans (Multiset.le_add_left _ _)
      refine (owns_useOption (hk.trans hle)).next ?_
      refine (Owns.use (Multiset.mem_of_le hle (Multiset.singleton_le.mp hx))).next ?_
      refine (Owns.use (Multiset.mem_of_le hle hcerts)).next ?_
      refine Owns.acquireOption.bind ?_
      rintro pkcs _ ⟨hpkcs, -, rfl⟩
      rw [← hpushed, ← hpkcs]
      cases pkcs with
      | none => exact .pure ⟨rfl, new, by simp [memOwned], hnew⟩
      | some pkcs =>
        refine owns_newMemBIO.bind ?_
        rintro mem _ ⟨-, -, rfl⟩
        refine (Owns.use (by simp)).next ?_
        refine (Owns.use (by simp)).next ?_
        refine (Owns.use (by simp)).next ?_
        refine (Owns.lift (by simp [ByteArray.ofBuffer_exact])).bind ?_
        rintro ba _ ⟨hba, rfl⟩
        refine .pure ⟨hba, new, ?_, hnew⟩
        simp only [Option.map_some, owned_some, memOwned]
        abel
    · exact .pure ⟨rfl, 0, by simp [memOwned], rfl⟩

/-- What is left of an export, apart from the copy of its chain. -/
def exportChainLeft (L : OpenSSLPKCS12 S) : List X509CertificatePrivate → Multiset OpenSSLKind
  | [] => {.x509Stack}
  | leaf :: rest => namesLeft S leaf +
    if leaf.hasCertificate then if fitsKey L leaf then copiesLeft S rest else 0 else {.x509Stack}

theorem exportChainLeft_copy (P : Libc) (nb na : ℤ) (chain : List X509CertificatePrivate) :
    exportChainLeft L (chain.map (copy S P nb na)) = exportChainLeft L chain := by
  cases chain with
  | nil => rfl
  | cons leaf rest =>
    rw [List.map_cons, exportChainLeft, exportChainLeft, namesLeft_copy, hasCertificate_copy,
      copiesLeft_copy, fitsKey, asOpenSSLX509_copy, asPrivateKey_copy]
    rfl

theorem exportChain_leaves (chain : List X509CertificatePrivate) (password : List UInt8) :
    Leaves (exportChainOwn L P nb na chain password)
      (exportCertificateChainAsPKCS12 L chain password) (exportChainLeft L chain) := by
  refine Owns.acquire.bind ?_
  rintro certs _ ⟨hcerts, rfl⟩
  cases chain with
  | nil => exact .pure ⟨rfl, by simp [exportChainLeft, hcerts]⟩
  | cons leaf rest =>
    rw [exportChainLeft]
    refine ((copy_leaves leaf).within_ok _).bind ?_
    rintro _ _ ⟨rfl, names, rfl, hnames⟩
    rw [hasCertificate_copy, asOpenSSLX509_copy, asPrivateKey_copy]
    by_cases hleaf : leaf.hasCertificate = true
    · simp only [hleaf, not_true_eq_false, if_false, if_true]
      refine Owns.acquireOption.bind ?_
      rintro pkey _ ⟨hpkey, -, rfl⟩
      refine Owns.acquireOption.bind ?_
      rintro x509 _ ⟨hx509, -, rfl⟩
      have hx := Multiset.le_add_right (owned [x509.map (·.1)])
        (owned [pkey.map (·.1)] + (names + ({certs} + 0)))
      have hk := (Multiset.le_add_right (owned [pkey.map (·.1)]) (names + ({certs} + 0))).trans
        (Multiset.le_add_left _ (owned [x509.map (·.1)]))
      refine (owns_exportCreate (by simp) hx hk hleaf hx509 hpkey rest password).bind ?_
      rintro r _ ⟨hr, new, rfl, hnew⟩
      -- in the order of the releases
      have horder : new + (owned (pointers r.pushed) + memOwned r.mem + owned [r.pkcs.map (·.1)] +
          (owned [x509.map (·.1)] + (owned [pkey.map (·.1)] + (names + ({certs} + 0))))) =
          owned [pkey.map (·.1)] + (owned [x509.map (·.1)] + (owned [r.pkcs.map (·.1)] +
            (memOwned r.mem + (owned (pointers r.pushed) + ({certs} + (names + new)))))) := by abel
      refine (Owns.releaseOption horder).next ?_
      refine (Owns.releaseOption rfl).next ?_
      refine (Owns.releaseOption rfl).next ?_
      refine (owns_freeMem r.mem).next ?_
      refine (Owns.releaseAll rfl).next ?_
      refine (Owns.release rfl).next ?_
      exact .pure ⟨hr, by rw [kinds_add, hnames, hnew]⟩
    · simp only [hleaf]
      refine .pure ⟨?_, by simp [hcerts, hnames]⟩
      simp [exportCertificateChainAsPKCS12, hleaf]

/-- **An export that ends early leaves its stack behind**, and any other what is left of the names. -/
theorem export_leaves (L : OpenSSLPKCS12 S) (chain : List X509CertificatePrivate)
    (password : List UInt8) :
    Leaves (exportOwn L P nb na chain password) (exportCertificateChainAsPKCS12 L chain password)
      (copiesLeft S chain + exportChainLeft L chain) := by
  rw [← export_copy S L P nb na, ← exportChainLeft_copy P nb na]
  exact (copyAll_leaves chain).seq (exportChain_leaves _ password)

end Export

/-! ### What an import leaves behind -/

section Import

variable {S : OpenSSL} {L : OpenSSLPKCS12 S} {P : Libc} {heap : ℕ → UInt8} {nb na : ℤ}
  {grows : ℕ → Bool} {H G : Multiset OpenSSLPtr} {E : Fault → Prop}

/-- The stack and its certificates. -/
def stackOwned : Option (OwnedStack L) → Multiset OpenSSLPtr
  | none => 0
  | some (certs, stack) => owned (pointers (stack.map some)) + {certs}

theorem owns_acquireCerts (certs : List L.Cert) :
    Owns H (acquireCerts L certs) (fun stack H' =>
      stack.map (·.2) = certs ∧ H' = owned (pointers (stack.map some)) + H) E := by
  induction certs generalizing H with
  | nil => exact .pure ⟨rfl, (Multiset.zero_add H).symm⟩
  | cons x certs ih =>
    refine Owns.acquire.bind ?_
    rintro p _ ⟨-, rfl⟩
    refine ih.bind ?_
    rintro stack _ ⟨hstack, rfl⟩
    refine .pure ⟨by rw [List.map_cons, hstack], ?_⟩
    rw [List.map_cons, pointers_cons, owned_cons, Option.map_some, owned_some]
    abel

theorem owns_acquireStack (certs : Option (List L.Cert)) :
    Owns H (acquireStack L certs) (fun st H' =>
      st.map (fun st => st.2.map (·.2)) = certs ∧ H' = stackOwned st + H) E := by
  cases certs with
  | none => exact .pure ⟨rfl, (Multiset.zero_add H).symm⟩
  | some certs =>
    refine Owns.acquire.bind ?_
    rintro p _ ⟨-, rfl⟩
    refine (owns_acquireCerts certs).bind ?_
    rintro stack _ ⟨hstack, rfl⟩
    exact .pure ⟨congrArg some hstack, (add_assoc _ _ _).symm⟩

theorem owns_popFree (st : Option (OwnedStack L)) :
    Owns (stackOwned st + G) (popFree L st) (fun _ H' => H' = G) E := by
  cases st with
  | none => exact .pure (Multiset.zero_add G)
  | some st =>
    refine (Owns.releaseAll (add_assoc _ _ _)).next ?_
    exact .release rfl

/-- The certificates that are popped from a stack. -/
def popped (L : OpenSSLPKCS12 S) (P : Libc) (nb na : ℤ) (stack : List L.Cert) :
    List X509CertificatePrivate :=
  stack.reverse.map fun x => made L P nb na x none

/-- The loop over `sk_X509_pop` releases what it pops. -/
theorem owns_popCerts {certs : OpenSSLPtr} (hcerts : certs ∈ G) (stack : List (OpenSSLPtr × L.Cert))
    {out : List X509CertificatePrivate} (hout : ∀ c ∈ out, SameCopy S P nb na c) :
    Owns (owned (pointers (stack.map some)) + G)
      (popCertsOwn L P heap nb na grows certs stack.length stack out) (fun r H' =>
        r = (out ++ popped L P nb na (stack.map (·.2)), []) ∧ ∃ new, H' = new + G ∧
          kinds new = pushLeft S grows out (popped L P nb na (stack.map (·.2)))) E := by
  induction stack using List.reverseRecOn generalizing out G with
  | nil => exact .pure ⟨by simp [popped], 0, rfl, rfl⟩
  | append_singleton stack x ih =>
    have hlen : (stack ++ [x]).length = stack.length + 1 := by simp
    have hpush : owned (pointers ((stack ++ [x]).map some)) + G =
        {x.1} + (owned (pointers (stack.map some)) + G) := by
      rw [List.map_append, pointers, List.map_append, owned_append]
      exact add_right_comm _ _ _ |>.trans (add_comm _ _)
    have hpopped : popped L P nb na ((stack ++ [x]).map (·.2)) =
        made L P nb na x.2 none :: popped L P nb na (stack.map (·.2)) := by simp [popped]
    rw [hlen, popCertsOwn, hpush, hpopped]
    simp only [List.getLast?_concat, List.dropLast_concat]
    refine (Owns.use (by simp [hcerts])).next ?_
    refine (Owns.use (by simp)).next ?_
    rw [derToByteArray_eq]
    refine (Owns.lift nofun).bind ?_
    rintro leafDer _ ⟨hleaf, rfl⟩
    obtain rfl := Except.ok.inj hleaf
    refine ((pushDERData_leaves hout _ .null).within_ok _).bind ?_
    rintro _ _ ⟨rfl, new, rfl, hnew⟩
    refine (Owns.release (add_left_comm _ _ _)).next ?_
    rw [add_left_comm]
    have hout' : ∀ c ∈ out ++ [made L P nb na x.2 none], SameCopy S P nb na c := by
      intro c hc
      rcases List.mem_append.mp hc with hc | hc
      · exact hout c hc
      · rw [List.mem_singleton.mp hc]
        exact sameCopy_fromRawDERData _ _
    refine (ih (Multiset.mem_add.mpr (Or.inr hcerts)) hout').imp ?_
    rintro _ _ ⟨rfl, new', rfl, hnew'⟩
    refine ⟨by simp, new' + new, (add_assoc _ _ _).symm, ?_⟩
    rw [kinds_add, hnew, hnew', add_comm]
    exact (pushLeft_append out [made L P nb na x.2 none] _).symm

/-- The other certificates, and what is left of the stack. -/
theorem owns_importCerts {r : PKCS12ParseResult L.PKey L.Cert} {x509 : Option (OpenSSLPtr × L.Cert)}
    {certs : Option (OwnedStack L)} (hx : x509.map (·.2) = r.x509)
    (hcerts : certs.map (fun st => st.2.map (·.2)) = r.certs) {out : List X509CertificatePrivate}
    (hout : ∀ c ∈ out, SameCopy S P nb na c) :
    Owns (stackOwned certs + G) (importCertsOwn L P heap nb na grows x509 certs out) (fun r' H' =>
      ∃ more new, importCerts L P heap nb na r out = .ok (out ++ more) ∧ r'.1 = out ++ more ∧
        H' = stackOwned r'.2 + (new + G) ∧ kinds new = pushLeft S grows out more) E := by
  rw [importCerts, ← hcerts, ← hx]
  cases certs with
  | none => exact .pure ⟨[], 0, by simp, by simp, by simp, rfl⟩
  | some st =>
    simp only [importCertsOwn, Option.map_some, Option.isNone_map, Option.isSome_map]
    split
    · rw [stackOwned, add_assoc]
      refine (owns_popCerts (by simp) st.2 hout).bind ?_
      rintro _ _ ⟨rfl, new, rfl, hnew⟩
      refine .pure ⟨_, new, popCerts_eq _ _, rfl, ?_, hnew⟩
      simp only [stackOwned, List.map_nil, pointers_nil, owned_nil]
      abel
    · exact .pure ⟨[], 0, by simp, by simp, by simp, rfl⟩

/-- The leaf and the key that were found do not belong together. -/
def mismatched (L : OpenSSLPKCS12 S) (r : PKCS12ParseResult L.PKey L.Cert) : Bool :=
  match r.x509, r.pkey with
  | some x509, some pkey => r.ret = 1 ∧ L.x509CheckPrivateKey x509 pkey ≤ 0
  | _, _ => false

theorem importLeafOwn_other {ret : ℤ} {x509 : Option (OpenSSLPtr × L.Cert)}
    {pkey : Option (OpenSSLPtr × L.PKey)} {certs : Option (OwnedStack L)}
    (h : ¬ (ret = 1 ∧ x509.isSome ∧ pkey.isSome)) :
    importLeafOwn L P heap nb na grows ret pkey x509 certs =
      if ret = 1 ∧ certs.isSome ∧ x509.isNone ∧ pkey.isNone then pure []
      else if ret = 0 ∧ x509.isNone ∧ pkey.isNone ∧ certs.isNone then pure []
      else Own.lift (.error .assertion) := by
  unfold importLeafOwn
  split
  · rfl
  · split
    · simp_all
    · rfl

/-- The leaf. -/
theorem owns_importLeaf {r : PKCS12ParseResult L.PKey L.Cert} {x509 : Option (OpenSSLPtr × L.Cert)}
    {pkey : Option (OpenSSLPtr × L.PKey)} {certs : Option (OwnedStack L)}
    (hx : x509.map (·.2) = r.x509) (hk : pkey.map (·.2) = r.pkey)
    (hcerts : certs.map (fun st => st.2.map (·.2)) = r.certs) :
    Owns (owned [pkey.map (·.1)] + (owned [x509.map (·.1)] + G))
      (importLeafOwn L P heap nb na grows r.ret pkey x509 certs) (fun out H' =>
        importLeaf L P heap nb na r = .ok out ∧ (∀ c ∈ out, SameCopy S P nb na c) ∧
        ∃ new, kinds new = pushLeft S grows [] out ∧ H' = new + if mismatched L r then
          owned [pkey.map (·.1)] + (owned [x509.map (·.1)] + G) else G)
      (fun e => importLeaf L P heap nb na r = .error e) := by
  by_cases hpair : r.ret = 1 ∧ r.x509.isSome ∧ r.pkey.isSome
  · obtain ⟨hret, hx', hk'⟩ := hpair
    obtain ⟨x509, rfl⟩ : ∃ x, x509 = some x := by
      rwa [← hx, Option.isSome_map, Option.isSome_iff_exists] at hx'
    obtain ⟨pkey, rfl⟩ : ∃ k, pkey = some k := by
      rwa [← hk, Option.isSome_map, Option.isSome_iff_exists] at hk'
    rw [importLeaf_pair hret hx.symm hk.symm, mismatched, ← hx, ← hk]
    unfold importLeafOwn
    rw [if_neg (by simp), hret]
    simp only [Option.map_some, owned_some, decide_true]
    refine (Owns.use (by simp)).next ?_
    refine (Owns.use (by simp)).next ?_
    split
    · rename_i hcheck
      simp only [derToByteArray_eq]
      refine (Owns.lift nofun).bind ?_
      rintro pkeyDer _ ⟨hpkey, rfl⟩
      refine (Owns.release rfl).next ?_
      refine (Owns.use (by simp)).next ?_
      refine (Owns.lift nofun).bind ?_
      rintro leafDer _ ⟨hleaf, rfl⟩
      refine (Owns.release rfl).next ?_
      obtain rfl := Except.ok.inj hpkey
      obtain rfl := Except.ok.inj hleaf
      refine ((pushDERData_leaves (by simp) _ _).within_ok G).imp ?_
      rintro _ _ ⟨rfl, new, rfl, hnew⟩
      refine ⟨rfl, ?_, new, hnew, ?_⟩
      · intro c hc
        rw [List.mem_singleton.mp hc]
        exact sameCopy_fromRawDERData _ _
      · simp [hcheck]
    · rename_i hcheck
      refine .pure ⟨rfl, by simp, 0, rfl, ?_⟩
      simp [not_lt.mp hcheck]
  · rw [importLeaf_other hpair]
    rw [← hx, ← hk, Option.isSome_map, Option.isSome_map] at hpair
    rw [importLeafOwn_other hpair, mismatched, ← hx, ← hk, ← hcerts]
    simp only [Option.isSome_map, Option.isNone_map]
    -- the branches that do not abort are those without a leaf and a key
    split
    · rename_i hstack
      obtain ⟨-, -, hx', hk'⟩ := hstack
      obtain rfl := Option.isNone_iff_eq_none.mp hx'
      obtain rfl := Option.isNone_iff_eq_none.mp hk'
      exact .pure ⟨rfl, by simp, 0, rfl, by simp⟩
    · split
      · rename_i hnull
        obtain ⟨-, hx', hk', -⟩ := hnull
        obtain rfl := Option.isNone_iff_eq_none.mp hx'
        obtain rfl := Option.isNone_iff_eq_none.mp hk'
        exact .pure ⟨rfl, by simp, 0, rfl, by simp⟩
      · exact (Owns.lift fun e he => he).imp fun out _ hout => nomatch hout.1

/-- The kinds of what is left of a leaf and a key that do not belong together. -/
theorem kinds_mismatched {r : PKCS12ParseResult L.PKey L.Cert} {x509 : Option (OpenSSLPtr × L.Cert)}
    {pkey : Option (OpenSSLPtr × L.PKey)} (hx : x509.map (·.2) = r.x509)
    (hk : pkey.map (·.2) = r.pkey) (hx' : ∀ p ∈ x509, p.1.1 = .x509)
    (hk' : ∀ p ∈ pkey, p.1.1 = .evpPkey) (h : mismatched L r = true) :
    kinds (owned [pkey.map (·.1)] + owned [x509.map (·.1)]) = {.evpPkey, .x509} := by
  unfold mismatched at h
  rw [← hx, ← hk] at h
  cases x509 with
  | none => simp at h
  | some x509 =>
    cases pkey with
    | none => simp at h
    | some pkey =>
      have hx'' : x509.1.1 = .x509 := hx' x509 rfl
      have hk'' : pkey.1.1 = .evpPkey := hk' pkey rfl
      rw [kinds, Option.map_some, Option.map_some, owned_some, owned_some, Multiset.map_add,
        Multiset.map_singleton, Multiset.map_singleton, hx'', hk'']
      rfl

theorem owns_import {pkcs : OpenSSLPtr × L.PKCS12} (hpkcs : pkcs.1 ∈ H) (password : List UInt8) :
    Owns H (importOwn L P heap nb na grows pkcs password) (fun out H' => ∃ left,
        importParsed L P heap nb na (parsePKCS12 L pkcs.2 password) = .ok out.1 ∧
        kinds left = (if mismatched L (parsePKCS12 L pkcs.2 password) then {.evpPkey, .x509} else 0) +
          pushLeft S grows [] out.1 ∧
        H' = stackOwned out.2 + (left + H))
      (fun e => importParsed L P heap nb na (parsePKCS12 L pkcs.2 password) = .error e) := by
  refine (Owns.use hpkcs).next ?_
  generalize parsePKCS12 L pkcs.2 password = r
  refine Owns.acquireOption.bind ?_
  rintro pkey _ ⟨hk, hk', rfl⟩
  refine Owns.acquireOption.bind ?_
  rintro x509 _ ⟨hx, hx', rfl⟩
  refine (owns_acquireStack _).bind ?_
  rintro certs _ ⟨hcerts, rfl⟩
  have horder : stackOwned certs + (owned [x509.map (·.1)] + (owned [pkey.map (·.1)] + H)) =
      owned [pkey.map (·.1)] + (owned [x509.map (·.1)] + (stackOwned certs + H)) := by abel
  rw [horder]
  have herr : ∀ e, importLeaf L P heap nb na r = .error e →
      importParsed L P heap nb na r = .error e := by
    intro e he
    rw [importParsed, he]
    rfl
  refine ((owns_importLeaf hx hk hcerts).impError herr).bind ?_
  rintro out _ ⟨hout, hsame, new, hnew, rfl⟩
  have himport : ∀ r', importCerts L P heap nb na r out = .ok r' →
      importParsed L P heap nb na r = .ok r' := by
    intro r' hr'
    rw [importParsed, hout, ← hr']
    rfl
  -- the leaf and the key, if they do not belong together
  obtain ⟨lost, hlost, hheap⟩ : ∃ lost : Multiset OpenSSLPtr,
      kinds lost = (if mismatched L r then {.evpPkey, .x509} else 0) ∧
      new + (if mismatched L r then
        owned [pkey.map (·.1)] + (owned [x509.map (·.1)] + (stackOwned certs + H))
        else stackOwned certs + H) = stackOwned certs + (lost + new + H) := by
    split
    · rename_i hm
      exact ⟨_, kinds_mismatched hx hk hx' hk' hm, by abel⟩
    · exact ⟨0, rfl, by abel⟩
  rw [hheap]
  refine (owns_importCerts hx hcerts hsame).imp ?_
  rintro ⟨_, certs'⟩ _ ⟨made, new', hr', rfl, rfl, hnew'⟩
  refine ⟨lost + new + new', himport _ hr', ?_, by abel⟩
  rw [kinds_add, kinds_add, hlost, hnew, hnew', pushLeft_append, List.nil_append, add_assoc]

/-- What an import leaves behind. -/
def importLeft (L : OpenSSLPKCS12 S) (P : Libc) (heap : ℕ → UInt8) (nb na : ℤ) (grows : ℕ → Bool)
    (pkcs12 : ByteArray) (password : List UInt8) : Multiset OpenSSLKind :=
  if pkcs12.isNull then 0
  else {.bufMem} + (if (outcome L pkcs12 password).any (mismatched L) then {.evpPkey, .x509} else 0) +
    leftOf (pushLeft S grows []) (fromPKCS12 L P heap nb na pkcs12 password)

/-- A file, if it is one. -/
theorem owns_importFile {pkcs : Option (OpenSSLPtr × L.PKCS12)} {pkcs12 : ByteArray}
    (hnull : ¬ pkcs12.isNull = true) (hd : pkcs.map (·.2) = L.d2iPKCS12 pkcs12.content)
    (hpkcs : owned [pkcs.map (·.1)] ≤ H) (password : List UInt8) :
    Owns H (importFileOwn L P heap nb na grows password pkcs) (fun out H' => ∃ left,
        fromPKCS12 L P heap nb na pkcs12 password = .ok out.1 ∧
        kinds left = (if (outcome L pkcs12 password).any (mismatched L) then {.evpPkey, .x509} else 0) +
          pushLeft S grows [] out.1 ∧
        H' = stackOwned out.2 + (left + H))
      (fun e => fromPKCS12 L P heap nb na pkcs12 password = .error e) := by
  rw [fromPKCS12_eq, outcome, if_neg hnull, ← hd]
  cases pkcs with
  | none => exact .pure ⟨0, rfl, rfl, by simp [stackOwned]⟩
  | some pkcs => exact owns_import (Multiset.singleton_le.mp hpkcs) password

/-- **An import leaves the memory of its `BIO` behind**, what is left of the names, and the leaf and the
key if they do not belong together. -/
theorem fromPKCS12_leaves (L : OpenSSLPKCS12 S) (pkcs12 : ByteArray) (password : List UInt8) :
    Leaves (fromPKCS12Own L P heap nb na grows pkcs12 password)
      (fromPKCS12 L P heap nb na pkcs12 password)
      (importLeft L P heap nb na grows pkcs12 password) := by
  unfold fromPKCS12Own importLeft
  split
  · rename_i hnull
    have hvalue : fromPKCS12 L P heap nb na pkcs12 password = .ok [] := if_pos hnull
    rw [hvalue]
    exact .pure _
  · rename_i hnull
    refine owns_newMemBIO.bind ?_
    rintro mem _ ⟨-, hbuf, rfl⟩
    refine (Owns.use (by simp)).next ?_
    refine (Owns.use (by simp)).next ?_
    refine Owns.acquireOption.bind ?_
    rintro pkcs _ ⟨hpkcs, -, rfl⟩
    refine (owns_importFile hnull hpkcs (Multiset.le_add_right _ _) password).bind ?_
    rintro ⟨out, certs⟩ _ ⟨left, hout, hleft, rfl⟩
    refine (owns_popFree certs).next ?_
    refine (Owns.releaseOption (add_left_comm _ _ _)).next ?_
    refine (Owns.release (add_left_comm _ _ _)).next ?_
    refine .pure ⟨hout, ?_⟩
    rw [hout]
    simp only [kinds_add, kinds_singleton, kinds_zero, hbuf, hleft, leftOf]
    abel

end Import

/-! ### Sessions -/

section Session

variable {S : OpenSSL} (L : OpenSSLPKCS12 S) (N : OpenSSLGenerate S) (G : OpenSSLVerify L.Cert)
  {Cert : Type} (D : PEM Cert) (P : Libc) (heap : ℕ → UInt8) (nb na : ℤ) (grows : ℕ → Bool)

/-- A call of one of the functions. -/
inductive Call (S : OpenSSL) (N : OpenSSLGenerate S) (Cert : Type)
  | fromRawDERData (cert pkey : ByteArray)
  | copy (cert : X509CertificatePrivate)
  | isSignedBy (c parent : X509CertificatePrivate)
  | verifyChain (V : X509Store) (chain : List X509CertificatePrivate) (opts : X509VerifierOptions)
  | addPEM (store : List Cert) (buf : ByteArray)
  | exportChain (chain : List X509CertificatePrivate) (password : List UInt8)
  | fromPKCS12 (pkcs12 : ByteArray) (password : List UInt8)
  | generate (keypair : N.KeyPair) (name email : List UInt8)

/-- What a call returns; `AddPEM` also changes its store. -/
inductive Reply (Cert : Type)
  | bool (b : Bool)
  | added (r : Bool × List Cert)
  | bytes (ba : ByteArray)
  | certificates (certs : List X509CertificatePrivate)

/-- The call with its objects. -/
def Call.own : Call S N Cert → OpenSSLOwn (Reply Cert)
  | fromRawDERData cert pkey => do return .certificates [← fromRawDERDataOwn S P nb na cert pkey]
  | copy cert => do return .certificates [← copyOwn S P nb na cert]
  | isSignedBy c parent => do return .bool (← isSignedByOwn L G c parent)
  | verifyChain V chain opts => do return .bool (← verifyChainOwn V S chain opts)
  | addPEM store buf => do return .added (← addPEMOwn D store buf)
  | exportChain chain password => do return .bytes (← exportOwn L P nb na chain password)
  | fromPKCS12 pkcs12 password => do
    return .certificates (← fromPKCS12Own L P heap nb na grows pkcs12 password)
  | generate keypair name email => do
    return .certificates [← generateOwn N P heap nb na keypair name email]

/-- The call on values. -/
def Call.value : Call S N Cert → Except Fault (Reply Cert)
  | fromRawDERData cert pkey => .ok (.certificates [X509.fromRawDERData S P nb na cert pkey])
  | copy cert => .ok (.certificates [X509.copy S P nb na cert])
  | isSignedBy c parent => .ok (.bool (X509.isSignedBy L G c parent))
  | verifyChain V chain opts => .ok (.bool (pemVerifyChain S V chain opts))
  | addPEM store buf => .ok (.added (X509.addPEM D store buf))
  | exportChain chain password => do return .bytes (← exportCertificateChainAsPKCS12 L chain password)
  | fromPKCS12 pkcs12 password => do
    return .certificates (← X509.fromPKCS12 L P heap nb na pkcs12 password)
  | generate keypair name email => do
    return .certificates [← generateSelfSignedCertificate N P heap nb na keypair name email]

/-- What the call leaves behind. -/
def Call.left : Call S N Cert → Multiset OpenSSLKind
  | fromRawDERData cert pkey => namesLeft S (X509.fromRawDERData S P nb na cert pkey)
  | copy cert => namesLeft S cert
  | isSignedBy c parent => if (issuerKey L G c parent).isSome then {.evpPkey} else 0
  | verifyChain _ _ _ => 0
  | addPEM _ buf => if buf.isNull then 0 else {.bio, .bufMem}
  | exportChain chain _ => copiesLeft S chain + exportChainLeft L chain
  | fromPKCS12 pkcs12 password => importLeft L P heap nb na grows pkcs12 password
  | generate keypair name email =>
    leftOf (namesLeft S) (generateSelfSignedCertificate N P heap nb na keypair name email)

/-- One call after another. -/
def session : List (Call S N Cert) → OpenSSLOwn (List (Reply Cert))
  | [] => pure []
  | call :: calls => do
    let reply ← call.own L N G D P heap nb na grows
    let replies ← session calls
    return reply :: replies

variable {L N G D P heap nb na grows}

/-- One call. -/
theorem call_leaves (call : Call S N Cert) : Leaves (call.own L N G D P heap nb na grows)
    (call.value L N G D P heap nb na) (call.left L N G P heap nb na grows) := by
  rw [← add_zero (call.left L N G P heap nb na grows)]
  cases call with
  | fromRawDERData cert pkey => exact (fromRawDERData_leaves cert pkey).seq (.pure _)
  | copy cert => exact (copy_leaves cert).seq (.pure _)
  | isSignedBy c parent => exact (isSignedBy_leaves G c parent).seq (.pure _)
  | verifyChain V chain opts => exact (verifyChain_leaves V chain opts).seq (.pure _)
  | addPEM store buf => exact (addPEM_leaves D store buf).seq (.pure _)
  | exportChain chain password => exact (export_leaves L chain password).bind fun _ _ => .pure _
  | fromPKCS12 pkcs12 password => exact (fromPKCS12_leaves L pkcs12 password).bind fun _ _ => .pure _
  | generate keypair name email =>
    exact (generate_leaves keypair name email).bind fun _ _ => .pure _

/-- **A session gives what its calls give on values**, and leaves behind what they leave, each of them
what it would leave alone. -/
theorem session_leaves (calls : List (Call S N Cert)) :
    Leaves (session L N G D P heap nb na grows calls) (calls.mapM (Call.value L N G D P heap nb na))
      (calls.map (Call.left L N G P heap nb na grows)).sum := by
  induction calls with
  | nil => exact .pure _
  | cons call calls ih =>
    rw [List.mapM_cons, List.map_cons, List.sum_cons,
      ← add_zero (calls.map (Call.left L N G P heap nb na grows)).sum]
    exact (call_leaves call).bind fun _ _ => ih.bind fun _ _ => .pure _

end Session

end LibMumble.X509
