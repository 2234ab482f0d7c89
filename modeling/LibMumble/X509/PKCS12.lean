import LibMumble.X509.Certificate
import Mathlib.Data.List.Induction
import Mathlib.Data.Nat.Digits.Defs
import Mathlib.Logic.Equiv.List

/-! # PKCS #12

`ExportCertificateChainAsPKCS12` stores the first certificate of a chain and then the others in
order, and `FromPKCS12` takes them out again. `PKCS12_parse` walks over what is stored from the end,
so that the others come back in reverse, and the loop over `sk_X509_pop` reverses them again; without
a private key there is no leaf, and the first certificate takes part in both reversals. -/

namespace LibMumble.X509

open Lib

/-- What `PKCS12_parse` returns and leaves at its arguments. -/
structure PKCS12ParseResult (PKey X509 : Type) where
  ret : ℤ
  pkey : Option PKey
  x509 : Option X509
  certs : Option (List X509)

/-- A password that is null is one with an empty one. -/
def samePassword (p q : Option (List UInt8)) : Prop := p.getD [] = q.getD []

/-- One turn of the loop of `PKCS12_parse` over the stored certificates. -/
def parseTurn {X509 : Type} (isLeaf : X509 → Bool) (acc : Option X509 × List X509) (x : X509) :
    Option X509 × List X509 :=
  if isLeaf x ∧ acc.1 = none then (some x, acc.2) else (acc.1, acc.2 ++ [x])

/-- The key is that of the certificate. -/
def isKeyOf {PKey X509 : Type} (check : X509 → PKey → ℤ) (key : Option PKey) (x : X509) : Bool :=
  match key with
  | some k => check x k ≠ 0
  | none => false

/-- What `PKCS12_parse` makes of a blob it has opened, walking from the last certificate to the
first. -/
def parsed {PKey X509 : Type} (check : X509 → PKey → ℤ) (key : Option PKey) (stored : List X509) :
    PKCS12ParseResult PKey X509 :=
  let (leaf, ca) := stored.reverse.foldl (parseTurn (isKeyOf check key)) (none, [])
  ⟨1, key, leaf, if ca = [] then none else some ca⟩

/-- The functions of OpenSSL that read and write PKCS #12, with the certificates (`X509`), keys
(`EVP_PKEY`) and blobs (`PKCS12`) they are about. -/
structure OpenSSLPKCS12 (S : OpenSSL) where
  Cert : Type
  PKey : Type
  PubKey : Type
  PKCS12 : Type
  d2iX509 : List UInt8 → Option Cert
  i2dX509 : Cert → List UInt8
  /-- what `ExtractCertificateInfo` finds in a certificate -/
  info : Cert → OpenSSLX509
  publicKey : Cert → PubKey
  d2iAutoPrivateKey : List UInt8 → Option PKey
  i2dPrivateKey : PKey → List UInt8
  pkeyPublic : PKey → PubKey
  x509CheckPrivateKey : Cert → PKey → ℤ
  /-- `PKCS12_create` of a password, a name, a key, its certificate and other certificates, with
  `0` for everything else -/
  pkcs12Create : Option (List UInt8) → List UInt8 → Option PKey → Cert →
    List (Option Cert) → Option PKCS12
  i2dPKCS12 : PKCS12 → List UInt8
  d2iPKCS12 : List UInt8 → Option PKCS12
  pkcs12Parse : PKCS12 → Option (List UInt8) → PKCS12ParseResult PKey Cert
  d2iX509_info : ∀ der, S.d2iX509 der = (d2iX509 der).map info
  /-- `i2d` after `d2i` is the identity -/
  i2dX509_d2i : ∀ {der x}, d2iX509 der = some x → i2dX509 x = der
  i2dPrivateKey_d2i : ∀ {der k}, d2iAutoPrivateKey der = some k → i2dPrivateKey k = der
  d2iPKCS12_i2d : ∀ p, d2iPKCS12 (i2dPKCS12 p) = some p
  /-- the check compares the public keys -/
  check_eq : ∀ x k, (x509CheckPrivateKey x k = 1 ∧ publicKey x = pkeyPublic k) ∨
    (x509CheckPrivateKey x k = 0 ∧ publicKey x ≠ pkeyPublic k)
  /-- a certificate is refused only for a key that is not its own -/
  pkcs12Create_some : ∀ pass name key x (stack : List Cert),
    (∀ k, key = some k → x509CheckPrivateKey x k = 1) →
    ∃ p, pkcs12Create pass name key x (stack.map some) = some p
  /-- the leaf is stored first, and a blob is opened by its password -/
  pkcs12Parse_create : ∀ {pass name key x} {stack : List Cert} {p} pass',
    pkcs12Create pass name key x (stack.map some) = some p →
    samePassword pass pass' → pkcs12Parse p pass' = parsed x509CheckPrivateKey key (x :: stack)
  /-- and by no other -/
  pkcs12Parse_other : ∀ {pass name key x} {stack : List Cert} {p} pass',
    pkcs12Create pass name key x (stack.map some) = some p →
    ¬ samePassword pass pass' → pkcs12Parse p pass' = ⟨0, none, none, none⟩

namespace X509CertificatePrivate

/-- `X509Certificate::HasCertificate`. -/
def hasCertificate (c : X509CertificatePrivate) : Bool := !c.certDer.isNull

/-- `X509Certificate::HasPrivateKey`. -/
def hasPrivateKey (c : X509CertificatePrivate) : Bool := !c.privDer.isNull

end X509CertificatePrivate

open X509CertificatePrivate

section Functions

-- `heap`, `nb` and `na` are what memory holds that nothing was written to
variable {S : OpenSSL} (L : OpenSSLPKCS12 S) (P : Libc) (heap : ℕ → UInt8) (nb na : ℤ)

/-- `AsOpenSSLX509`. -/
def OpenSSLPKCS12.asOpenSSLX509 (c : X509CertificatePrivate) : Option L.Cert :=
  L.d2iX509 c.certDer.content

/-- The key of a certificate, if there are bytes to decode one from. -/
def OpenSSLPKCS12.asPrivateKey (c : X509CertificatePrivate) : Option L.PKey :=
  if c.privDer.isNull then none else L.d2iAutoPrivateKey c.privDer.content

/-! ### Export -/

/-- The loop that collects the certificates after the first one, with a null pointer for each that
does not decode. -/
def pushCerts : List X509CertificatePrivate → List (Option L.Cert)
  | [] => []
  | cert :: chain =>
    if cert.hasCertificate then L.asOpenSSLX509 cert :: pushCerts chain else pushCerts chain

/-- The local `password_cstr`. -/
def passwordCStr (password : List UInt8) : Option (List UInt8) :=
  if password ≠ [] then some (cString password) else none

/-- `ExportCertificateChainAsPKCS12`. -/
def exportCertificateChainAsPKCS12 (chain : List X509CertificatePrivate) (password : List UInt8) :
    Except Fault ByteArray :=
  match chain with
  | [] => .ok .null
  | leaf :: rest =>
    if ¬ leaf.hasCertificate then .ok .null
    else
      let pkey := L.asPrivateKey leaf
      match L.asOpenSSLX509 leaf with
      | none => .ok .null
      | some x509 =>
        if pkey.all fun k => L.x509CheckPrivateKey x509 k ≠ 0 then
          let certs := pushCerts L rest
          match L.pkcs12Create (passwordCStr password) (ascii "Mumble Identity") pkey x509 certs with
          | none => .ok .null
          | some pkcs =>
            let buf := L.i2dPKCS12 pkcs
            ByteArray.ofBuffer (some buf) buf.length (-1)
        else .ok .null

/-! ### Import -/

/-- The certificate that is made of an `X509` and maybe a key. -/
def certificateOf (x509 : L.Cert) (pkey : Option L.PKey) : Except Fault X509CertificatePrivate := do
  let pkeyDer ← match pkey with
    | some k => derToByteArray heap (L.i2dPrivateKey k)
    | none => .ok .null
  let leafDer ← derToByteArray heap (L.i2dX509 x509)
  return fromRawDERData S P nb na leafDer pkeyDer

/-- The leaf, if there is one, by what `PKCS12_parse` found. -/
def importLeaf (r : PKCS12ParseResult L.PKey L.Cert) : Except Fault (List X509CertificatePrivate) :=
  if r.ret = 1 ∧ r.certs.isSome ∧ r.x509.isNone ∧ r.pkey.isNone then .ok []
  else
    match decide (r.ret = 1), r.x509, r.pkey with
    | true, some x509, some pkey =>
      if 0 < L.x509CheckPrivateKey x509 pkey then do
        let cert ← certificateOf L P heap nb na x509 (some pkey)
        return [cert]
      else .ok []
    | _, _, _ =>
      if r.ret = 0 ∧ r.x509.isNone ∧ r.pkey.isNone ∧ r.certs.isNone then .ok []
      else .error .assertion

/-- The loop over `sk_X509_pop`. -/
def popCerts : ℕ → List L.Cert → List X509CertificatePrivate →
    Except Fault (List X509CertificatePrivate)
  | 0, _, out => .ok out
  | n + 1, certs, out =>
    match certs.getLast? with
    | none => .error .nullPointer
    | some x509 => do
      let cert ← certificateOf L P heap nb na x509 none
      popCerts n certs.dropLast (out ++ [cert])

/-- The other certificates. -/
def importCerts (r : PKCS12ParseResult L.PKey L.Cert) (out : List X509CertificatePrivate) :
    Except Fault (List X509CertificatePrivate) :=
  match r.certs with
  | none => .ok out
  | some certs =>
    if (out.length = 0 ∧ r.x509.isNone) ∨ (out.length = 1 ∧ r.x509.isSome) then
      popCerts L P heap nb na certs.length certs out
    else .ok out

/-- The two calls of `PKCS12_parse`. -/
def parsePKCS12 (pkcs : L.PKCS12) (password : List UInt8) : PKCS12ParseResult L.PKey L.Cert :=
  let r := L.pkcs12Parse pkcs (some (cString password))
  if r.ret = 0 ∧ password = [] then L.pkcs12Parse pkcs none else r

/-- `FromPKCS12`. -/
def fromPKCS12 (pkcs12 : ByteArray) (password : List UInt8) :
    Except Fault (List X509CertificatePrivate) :=
  if pkcs12.isNull then .ok []
  else
    match L.d2iPKCS12 pkcs12.content with
    | none => .ok []
    | some pkcs => do
      let r := parsePKCS12 L pkcs password
      let out ← importLeaf L P heap nb na r
      importCerts L P heap nb na r out

end Functions

/-! ### The two reversals -/

section Walk

variable {X509 : Type} {isLeaf : X509 → Bool}

/-- Without a leaf the walk pushes what it passes. -/
theorem foldl_parseTurn (stored : List X509) (leaf : Option X509) (ca : List X509)
    (h : ∀ x ∈ stored, isLeaf x = false) :
    stored.foldl (parseTurn isLeaf) (leaf, ca) = (leaf, ca ++ stored) := by
  induction stored generalizing ca with
  | nil => simp
  | cons x stored ih =>
    have hx : isLeaf x = false := h x (by simp)
    rw [List.foldl_cons, parseTurn, if_neg (by simp [hx]), ih _ fun y hy => h y (by simp [hy])]
    simp

/-- The leaf is the last one on the walk, and the others come before it in reverse. -/
theorem walk_leaf {x : X509} {stack : List X509} (hx : isLeaf x = true)
    (h : ∀ y ∈ stack, isLeaf y = false) :
    (x :: stack).reverse.foldl (parseTurn isLeaf) (none, []) = (some x, stack.reverse) := by
  have hrev : ∀ y ∈ stack.reverse, isLeaf y = false := fun y hy => h y (List.mem_reverse.mp hy)
  rw [List.reverse_cons, List.foldl_append, foldl_parseTurn _ _ _ hrev]
  simp [parseTurn, hx]

/-- Without a key everything comes back in reverse. -/
theorem walk_none {stored : List X509} (h : ∀ y ∈ stored, isLeaf y = false) :
    stored.reverse.foldl (parseTurn isLeaf) (none, []) = (none, stored.reverse) := by
  have hrev : ∀ y ∈ stored.reverse, isLeaf y = false := fun y hy => h y (List.mem_reverse.mp hy)
  rw [foldl_parseTurn _ _ _ hrev, List.nil_append]

end Walk

variable {S : OpenSSL} {L : OpenSSLPKCS12 S} {P : Libc} {heap : ℕ → UInt8} {nb na : ℤ}
  {c : X509CertificatePrivate}

/-- The certificate made of an `X509` and maybe a key. -/
def made (L : OpenSSLPKCS12 S) (P : Libc) (nb na : ℤ) (x509 : L.Cert) (pkey : Option L.PKey) :
    X509CertificatePrivate :=
  let cert := L.i2dX509 x509
  fromRawDERData S P nb na ⟨some cert, cert.length, cert.length⟩ <| match pkey with
    | some k => ⟨some (L.i2dPrivateKey k), (L.i2dPrivateKey k).length, (L.i2dPrivateKey k).length⟩
    | none => .null

theorem certificateOf_eq (x509 : L.Cert) (pkey : Option L.PKey) :
    certificateOf L P heap nb na x509 pkey = .ok (made L P nb na x509 pkey) := by
  cases pkey <;> simp [certificateOf, made, derToByteArray_eq, bind, Except.bind, pure, Except.pure]

/-- The loop over `sk_X509_pop` takes the stack from its end. -/
theorem popCerts_eq (certs : List L.Cert) (out : List X509CertificatePrivate) :
    popCerts L P heap nb na certs.length certs out =
      .ok (out ++ certs.reverse.map fun x => made L P nb na x none) := by
  induction certs using List.reverseRecOn generalizing out with
  | nil => simp [popCerts]
  | append_singleton certs x ih =>
    have hlen : (certs ++ [x]).length = certs.length + 1 := by simp
    rw [hlen, popCerts]
    simp only [List.getLast?_append_of_ne_nil, ne_eq, List.cons_ne_self, not_false_eq_true,
      List.getLast?_singleton, certificateOf_eq, bind, Except.bind, List.dropLast_concat]
    simp [ih]

/-- What a chain becomes: the key goes to the first certificate. -/
def madeChain (L : OpenSSLPKCS12 S) (P : Libc) (nb na : ℤ) (key : Option L.PKey) (x : L.Cert)
    (stack : List L.Cert) : List X509CertificatePrivate :=
  made L P nb na x key :: stack.map fun y => made L P nb na y none

/-- What `FromPKCS12` makes of what `PKCS12_parse` found. -/
def importParsed (L : OpenSSLPKCS12 S) (P : Libc) (heap : ℕ → UInt8) (nb na : ℤ)
    (r : PKCS12ParseResult L.PKey L.Cert) : Except Fault (List X509CertificatePrivate) := do
  let out ← importLeaf L P heap nb na r
  importCerts L P heap nb na r out

/-- **Without a key** the stack holds everything, and the loop turns it round. -/
theorem importParsed_none (x : L.Cert) (stack : List L.Cert) :
    importParsed L P heap nb na (parsed L.x509CheckPrivateKey none (x :: stack)) =
      .ok (madeChain L P nb na none x stack) := by
  have hr : parsed L.x509CheckPrivateKey none (x :: stack) =
      ⟨1, none, none, some (x :: stack).reverse⟩ := by
    have hno : ∀ y ∈ x :: stack, isKeyOf L.x509CheckPrivateKey none y = false := fun _ _ => rfl
    rw [parsed, walk_none hno]
    simp
  have hleaf : importLeaf L P heap nb na (parsed L.x509CheckPrivateKey none (x :: stack)) =
      .ok [] := by
    rw [hr, importLeaf, if_pos ⟨rfl, rfl, rfl, rfl⟩]
  rw [importParsed, hleaf, hr]
  simp only [bind, Except.bind, importCerts]
  rw [if_pos (Or.inl ⟨rfl, rfl⟩), popCerts_eq]
  simp [madeChain]

/-- **With a key** the leaf comes first, and the loop turns the rest round. -/
theorem importParsed_some {x : L.Cert} {stack : List L.Cert} {k : L.PKey}
    (hx : L.x509CheckPrivateKey x k = 1) (hstack : ∀ y ∈ stack, L.x509CheckPrivateKey y k = 0) :
    importParsed L P heap nb na (parsed L.x509CheckPrivateKey (some k) (x :: stack)) =
      .ok (madeChain L P nb na (some k) x stack) := by
  have hr : parsed L.x509CheckPrivateKey (some k) (x :: stack) =
      ⟨1, some k, some x, if stack.reverse = [] then none else some stack.reverse⟩ := by
    have hx' : isKeyOf L.x509CheckPrivateKey (some k) x = true := by simp [isKeyOf, hx]
    rw [parsed, walk_leaf hx' fun y hy => by simp [isKeyOf, hstack y hy]]
  have hleaf : importLeaf L P heap nb na (parsed L.x509CheckPrivateKey (some k) (x :: stack)) =
      .ok [made L P nb na x (some k)] := by
    rw [hr, importLeaf, if_neg (by simp)]
    simp [hx, certificateOf_eq, bind, Except.bind, pure, Except.pure]
  rw [importParsed, hleaf, hr]
  simp only [bind, Except.bind, importCerts]
  by_cases hnil : stack.reverse = []
  · simp [List.reverse_eq_nil_iff.mp hnil, madeChain]
  · simp only [if_neg hnil]
    rw [if_pos (Or.inr ⟨rfl, rfl⟩), popCerts_eq]
    simp [madeChain]

/-! ### Export and import -/

theorem exists_asOpenSSLX509 (h : (decoded S c).isSome) : ∃ x, L.asOpenSSLX509 c = some x := by
  rw [decoded, L.d2iX509_info, Option.isSome_map] at h
  exact Option.isSome_iff_exists.mp h

/-- A certificate that decodes has bytes. -/
theorem hasCertificate_of_decoded (h : (decoded S c).isSome) : c.hasCertificate = true := by
  rw [hasCertificate, Bool.not_eq_true', ByteArray.isNull]
  by_contra hnull
  have hnone : c.certDer.buf = none := by simpa using hnull
  have hnil : c.certDer.content = [] := by simp [ByteArray.content, ByteArray.data, hnone]
  rw [decoded, hnil, S.d2iX509_nil] at h
  cases h

/-- The stack that is exported holds the certificates after the first one, in order. -/
theorem pushCerts_eq {rest : List X509CertificatePrivate}
    (h : ∀ c ∈ rest, (decoded S c).isSome) :
    ∃ stack : List L.Cert, pushCerts L rest = stack.map some ∧
      stack.map L.i2dX509 = rest.map (·.certDer.content) ∧
      ∀ x ∈ stack, ∃ c ∈ rest, L.asOpenSSLX509 c = some x := by
  induction rest with
  | nil => exact ⟨[], rfl, rfl, by simp⟩
  | cons c rest ih =>
    obtain ⟨stack, hpush, hder, hmem⟩ := ih fun c' h' => h c' (by simp [h'])
    obtain ⟨x, hx⟩ := exists_asOpenSSLX509 (L := L) (h c (by simp))
    refine ⟨x :: stack, ?_, ?_, ?_⟩
    · rw [pushCerts, if_pos (hasCertificate_of_decoded (h c (by simp))), hx, hpush, List.map_cons]
    · rw [List.map_cons, List.map_cons, hder, L.i2dX509_d2i hx]
    · intro y hy
      rcases List.mem_cons.mp hy with rfl | hy
      · exact ⟨c, by simp, hx⟩
      · obtain ⟨c', hc', hy⟩ := hmem y hy
        exact ⟨c', by simp [hc'], hy⟩

/-- The public key of a certificate. -/
def publicKeyOf (L : OpenSSLPKCS12 S) (c : X509CertificatePrivate) : Option L.PubKey :=
  (L.asOpenSSLX509 c).map L.publicKey

/-- The private key that a certificate carries, if it carries one, can be decoded and is its own. -/
def HasOwnKey (L : OpenSSLPKCS12 S) (c : X509CertificatePrivate) : Prop :=
  c.hasPrivateKey = true → ∃ k, L.d2iAutoPrivateKey c.privDer.content = some k ∧
    publicKeyOf L c = some (L.pkeyPublic k)

theorem check_eq_one {x : L.Cert} {k : L.PKey} (h : L.publicKey x = L.pkeyPublic k) :
    L.x509CheckPrivateKey x k = 1 :=
  (L.check_eq x k).elim (·.1) fun h' => absurd h h'.2

theorem check_eq_zero {x : L.Cert} {k : L.PKey} (h : L.publicKey x ≠ L.pkeyPublic k) :
    L.x509CheckPrivateKey x k = 0 :=
  (L.check_eq x k).elim (fun h' => absurd h'.2 h) (·.1)

theorem samePassword_passwordCStr {password password' : List UInt8} :
    samePassword (passwordCStr password) (some (cString password')) ↔
      cString password = cString password' := by
  unfold samePassword passwordCStr
  split_ifs with hne
  · exact Iff.rfl
  · rw [not_not.mp hne]
    exact Iff.rfl

/-- The password of the export opens the blob at the first call of `PKCS12_parse`. -/
theorem parsePKCS12_eq {password name : List UInt8} {key : Option L.PKey} {x : L.Cert}
    {stack : List L.Cert} {p : L.PKCS12}
    (h : L.pkcs12Create (passwordCStr password) name key x (stack.map some) = some p) :
    parsePKCS12 L p password = parsed L.x509CheckPrivateKey key (x :: stack) := by
  have hr := L.pkcs12Parse_create _ h (samePassword_passwordCStr.mpr rfl)
  have hret : (parsed L.x509CheckPrivateKey key (x :: stack)).ret = 1 := rfl
  rw [parsePKCS12, hr, if_neg (by simp [hret])]

/-- **Export and import** of a chain whose certificates decode to `x` and `stack`. -/
theorem import_export {c0 : X509CertificatePrivate} {rest : List X509CertificatePrivate}
    (password : List UInt8) {x : L.Cert} {stack : List L.Cert} {key : Option L.PKey}
    (hhas : c0.hasCertificate = true) (hx : L.asOpenSSLX509 c0 = some x)
    (hkey : L.asPrivateKey c0 = key) (hown : ∀ k, key = some k → L.publicKey x = L.pkeyPublic k)
    (hpush : pushCerts L rest = stack.map some)
    (hother : ∀ y ∈ stack, ∀ k, key = some k → L.publicKey y ≠ L.pkeyPublic k) :
    ∃ blob, exportCertificateChainAsPKCS12 L (c0 :: rest) password = .ok blob ∧
      fromPKCS12 L P heap nb na blob password = .ok (madeChain L P nb na key x stack) := by
  subst hkey
  obtain ⟨p, hp⟩ := L.pkcs12Create_some (passwordCStr password) (ascii "Mumble Identity")
    (L.asPrivateKey c0) x stack fun k hk => check_eq_one (hown k hk)
  have hcheck : ((L.asPrivateKey c0).all fun k => decide (L.x509CheckPrivateKey x k ≠ 0)) = true := by
    cases hk : L.asPrivateKey c0 with
    | none => rfl
    | some k => simp [check_eq_one (hown k hk)]
  set buf := L.i2dPKCS12 p with hbuf
  refine ⟨⟨some buf, buf.length, buf.length⟩, ?_, ?_⟩
  · rw [exportCertificateChainAsPKCS12, if_neg (by simp [hhas])]
    simp only [hx, hcheck, if_true, hpush, hp, ← hbuf]
    exact ByteArray.ofBuffer_exact buf
  · have himport : fromPKCS12 L P heap nb na ⟨some buf, buf.length, buf.length⟩ password =
        importParsed L P heap nb na (parsePKCS12 L p password) := by
      rw [fromPKCS12, if_neg (by simp [ByteArray.isNull]), ByteArray.content_exact, hbuf,
        L.d2iPKCS12_i2d]
      rfl
    rw [himport, parsePKCS12_eq hp]
    cases hk : L.asPrivateKey c0 with
    | none => exact importParsed_none x stack
    | some k =>
      exact importParsed_some (check_eq_one (hown k hk)) fun y hy =>
        check_eq_zero (hother y hy k hk)

theorem made_ders {x : L.Cert} {key : Option L.PKey} :
    (made L P nb na x key).certDer.content = L.i2dX509 x ∧
      (made L P nb na x key).hasPrivateKey = key.isSome ∧
      (made L P nb na x key).privDer.content = (key.map L.i2dPrivateKey).getD [] := by
  unfold made
  simp only [hasPrivateKey, fromRawDERData_ders.1, fromRawDERData_ders.2, ByteArray.content_exact]
  cases key with
  | none => exact ⟨trivial, rfl, rfl⟩
  | some k => exact ⟨trivial, rfl, ByteArray.content_exact _⟩

/-- **Export and import give back the chain**: the same certificates in the same order, the first one
with its private key if it has one. -/
theorem pkcs12_roundtrip {c0 : X509CertificatePrivate} {rest : List X509CertificatePrivate}
    (password : List UInt8) (hdec : ∀ c ∈ c0 :: rest, (decoded S c).isSome) (hown : HasOwnKey L c0)
    (hpub : ∀ c ∈ rest, publicKeyOf L c ≠ publicKeyOf L c0) :
    ∃ blob chain, exportCertificateChainAsPKCS12 L (c0 :: rest) password = .ok blob ∧
      fromPKCS12 L P heap nb na blob password = .ok chain ∧
      chain.map (·.certDer.content) = (c0 :: rest).map (·.certDer.content) ∧
      ∃ d, chain.head? = some d ∧ d.hasPrivateKey = c0.hasPrivateKey ∧
        d.privDer.content = c0.privDer.content := by
  have h0 : (decoded S c0).isSome := hdec c0 (by simp)
  obtain ⟨x, hx⟩ := exists_asOpenSSLX509 (L := L) h0
  obtain ⟨stack, hpush, hders, hmem⟩ := @pushCerts_eq S L rest fun c hc => hdec c (by simp [hc])
  have hpub0 : publicKeyOf L c0 = some (L.publicKey x) := by rw [publicKeyOf, hx]; rfl
  -- the key that is exported, and what comes back of it
  obtain ⟨key, hkey, hmatch, hhas, hkder⟩ : ∃ key, L.asPrivateKey c0 = key ∧
      (∀ k, key = some k → L.publicKey x = L.pkeyPublic k) ∧ key.isSome = c0.hasPrivateKey ∧
      (key.map L.i2dPrivateKey).getD [] = c0.privDer.content := by
    cases hp : c0.hasPrivateKey with
    | false =>
      rw [hasPrivateKey, Bool.not_eq_false'] at hp
      refine ⟨none, by rw [OpenSSLPKCS12.asPrivateKey, if_pos hp], nofun, rfl, ?_⟩
      have hnone : c0.privDer.buf = none := Option.isNone_iff_eq_none.mp hp
      simp [ByteArray.content, ByteArray.data, hnone]
    | true =>
      obtain ⟨k, hk, hkpub⟩ := hown hp
      rw [hasPrivateKey, Bool.not_eq_true'] at hp
      refine ⟨some k, by rw [OpenSSLPKCS12.asPrivateKey, if_neg (by simp [hp]), hk], ?_, rfl, ?_⟩
      · rintro _ ⟨rfl⟩
        rw [hpub0] at hkpub
        exact Option.some.inj hkpub
      · rw [Option.map_some, Option.getD_some, L.i2dPrivateKey_d2i hk]
  have hother : ∀ y ∈ stack, ∀ k, key = some k → L.publicKey y ≠ L.pkeyPublic k := by
    intro y hy k hk heq
    obtain ⟨c, hc, hcy⟩ := hmem y hy
    refine hpub c hc ?_
    rw [hpub0, publicKeyOf, hcy, Option.map_some, heq, hmatch k hk]
  obtain ⟨blob, hexp, himp⟩ := import_export (P := P) password (hasCertificate_of_decoded h0) hx hkey
    hmatch hpush hother
  refine ⟨blob, _, hexp, himp, ?_, made L P nb na x key, rfl, ?_, ?_⟩
  · have hrest : (stack.map fun y => made L P nb na y none).map (·.certDer.content) =
        stack.map L.i2dX509 := by
      rw [List.map_map]
      exact List.map_congr_left fun y _ => made_ders.1
    rw [madeChain, List.map_cons, List.map_cons, hrest, hders, made_ders.1, L.i2dX509_d2i hx]
  · rw [made_ders.2.1, hhas]
  · rw [made_ders.2.2, hkder]

/-- An export gives a null array or a blob that `PKCS12_create` made. -/
theorem export_ok {chain : List X509CertificatePrivate} {password : List UInt8} {blob : ByteArray}
    (h : exportCertificateChainAsPKCS12 L chain password = .ok blob) : blob = .null ∨
      ∃ name key x p, L.pkcs12Create (passwordCStr password) name key x (pushCerts L chain.tail) =
        some p ∧ blob = ⟨some (L.i2dPKCS12 p), (L.i2dPKCS12 p).length, (L.i2dPKCS12 p).length⟩ := by
  cases chain with
  | nil => exact Or.inl (Except.ok.inj h).symm
  | cons leaf rest =>
    simp only [exportCertificateChainAsPKCS12] at h
    split_ifs at h with hhas
    · split at h
      next => exact Or.inl (Except.ok.inj h).symm
      next x hx =>
        split_ifs at h
        · split at h
          next => exact Or.inl (Except.ok.inj h).symm
          next p hp =>
            rw [ByteArray.ofBuffer_exact] at h
            exact Or.inr ⟨_, _, _, p, hp, (Except.ok.inj h).symm⟩
        · exact Or.inl (Except.ok.inj h).symm
    · exact Or.inl (Except.ok.inj h).symm

/-- **With another password**, as a C string, nothing is imported. -/
theorem fromPKCS12_other_password {chain : List X509CertificatePrivate} {blob : ByteArray}
    {password password' : List UInt8} (hdec : ∀ c ∈ chain.tail, (decoded S c).isSome)
    (h : exportCertificateChainAsPKCS12 L chain password = .ok blob)
    (hne : cString password ≠ cString password') :
    fromPKCS12 L P heap nb na blob password' = .ok [] := by
  rcases export_ok h with rfl | ⟨name, key, x, p, hp, rfl⟩
  · rfl
  · obtain ⟨stack, hpush, -, -⟩ := pushCerts_eq (L := L) hdec
    rw [hpush] at hp
    have hclosed : parsePKCS12 L p password' = ⟨0, none, none, none⟩ := by
      have h1 := L.pkcs12Parse_other _ hp fun hs => hne (samePassword_passwordCStr.mp hs)
      rw [parsePKCS12, h1]
      split_ifs with hempty
      · -- the second try is with the null pointer, which is the empty password
        rw [hempty.2] at hne
        exact L.pkcs12Parse_other none hp fun hs =>
          hne (samePassword_passwordCStr.mp (show samePassword _ (some (cString [])) from hs))
      · rfl
    rw [fromPKCS12, if_neg (by simp [ByteArray.isNull]), ByteArray.content_exact,
      L.d2iPKCS12_i2d]
    simp only [hclosed]
    rfl

/-! ### An example -/

instance encodableUInt8 : Encodable UInt8 :=
  Encodable.ofLeftInverse UInt8.toNat UInt8.ofNat fun _ => UInt8.ofNat_toNat

/-- The bytes of a number. -/
def numberBytes (n : ℕ) : List UInt8 := (Nat.digits 256 n).map UInt8.ofNat

theorem ofDigits_numberBytes (n : ℕ) :
    Nat.ofDigits 256 ((numberBytes n).map UInt8.toNat) = n := by
  have hmap : (numberBytes n).map UInt8.toNat = Nat.digits 256 n := by
    rw [numberBytes, List.map_map]
    refine (List.map_congr_left fun d hd => ?_).trans (List.map_id _)
    have hlt : d < 256 := Nat.digits_lt_base (by decide) hd
    exact UInt8.toNat_ofNat_of_lt' hlt
  rw [hmap, Nat.ofDigits_digits]

/-- An OpenSSL in which every string of bytes but the empty one is a certificate. -/
def anyCertificate : OpenSSL :=
  { oneCertificate ⟨[], [], none, none, none⟩ with
    d2iX509 := fun der => if der = [] then none else some ⟨[], [], none, none, none⟩
    d2iX509_nil := rfl }

/-- A certificate has the private key whose bytes end as its own do. -/
def checkLast (x k : List UInt8) : ℤ := if x.getLast? = k.getLast? then 1 else 0

theorem mapM_some (stack : List (List UInt8)) : (stack.map some).mapM id = some stack := by
  induction stack with
  | nil => rfl
  | cons x stack ih => simp [ih]

/-- A PKCS #12 without encryption: the password, the key and the certificates as one number. -/
def plainPKCS12 : OpenSSLPKCS12 anyCertificate where
  Cert := List UInt8
  PKey := List UInt8
  PubKey := Option UInt8
  PKCS12 := List UInt8 × Option (List UInt8) × List (List UInt8)
  d2iX509 der := if der = [] then none else some der
  i2dX509 := id
  info _ := ⟨[], [], none, none, none⟩
  publicKey := List.getLast?
  d2iAutoPrivateKey der := if der = [] then none else some der
  i2dPrivateKey := id
  pkeyPublic := List.getLast?
  x509CheckPrivateKey := checkLast
  pkcs12Create pass _ key x stack :=
    if key.all fun k => checkLast x k = 1 then
      (stack.mapM id).map fun stack => (pass.getD [], key, x :: stack)
    else none
  i2dPKCS12 p := numberBytes (Encodable.encode p)
  d2iPKCS12 buf := Encodable.decode (Nat.ofDigits 256 (buf.map UInt8.toNat))
  pkcs12Parse p pass :=
    if p.1 = pass.getD [] then parsed checkLast p.2.1 p.2.2 else ⟨0, none, none, none⟩
  d2iX509_info der := by
    simp only [anyCertificate]
    split_ifs <;> rfl
  i2dX509_d2i h := (Option.some.inj (Option.ite_none_left_eq_some.mp h).2).symm
  i2dPrivateKey_d2i h := (Option.some.inj (Option.ite_none_left_eq_some.mp h).2).symm
  d2iPKCS12_i2d p := by rw [ofDigits_numberBytes, Encodable.encodek]
  check_eq x k := by
    unfold checkLast
    split_ifs with h
    · exact Or.inl ⟨rfl, h⟩
    · exact Or.inr ⟨rfl, h⟩
  pkcs12Create_some pass name key x stack h := by
    refine ⟨(pass.getD [], key, x :: stack), ?_⟩
    rw [if_pos (by simpa [Option.all_eq_true] using h), mapM_some]
    rfl
  pkcs12Parse_create pass' h hs := by
    obtain ⟨-, h⟩ := Option.ite_none_right_eq_some.mp h
    rw [mapM_some] at h
    obtain rfl := Option.some.inj h
    exact if_pos hs
  pkcs12Parse_other pass' h hs := by
    obtain ⟨-, h⟩ := Option.ite_none_right_eq_some.mp h
    rw [mapM_some] at h
    obtain rfl := Option.some.inj h
    exact if_neg hs

/-- A certificate of the example, from its bytes and those of its key. -/
def plainCertificate (der : List UInt8) (key : ByteArray) : X509CertificatePrivate :=
  fromRawDERData anyCertificate ⟨CompatWin.strptime, Tm.instant⟩ 0 0
    ⟨some der, der.length, der.length⟩ key

/-- A leaf with its key and two other certificates, with a password. -/
theorem pkcs12_roundtrip_three : ∃ blob chain, exportCertificateChainAsPKCS12 plainPKCS12
      [plainCertificate [1, 7] ⟨some [7], 1, 1⟩, plainCertificate [2, 8] .null,
        plainCertificate [3, 9] .null] (ascii "pw") = .ok blob ∧
    fromPKCS12 plainPKCS12 ⟨CompatWin.strptime, Tm.instant⟩ (fun _ => 0) 0 0 blob (ascii "pw") =
      .ok chain ∧
    chain.map (·.certDer.content) = [[1, 7], [2, 8], [3, 9]] ∧
    ∃ d, chain.head? = some d ∧ d.hasPrivateKey = true ∧ d.privDer.content = [7] := by
  refine pkcs12_roundtrip (ascii "pw") ?_ (fun _ => ⟨[7], rfl, rfl⟩) ?_
  · intro c hc
    simp only [List.mem_cons, List.not_mem_nil, or_false] at hc
    rcases hc with rfl | rfl | rfl <;> rfl
  · intro c hc
    simp only [List.mem_cons, List.not_mem_nil, or_false] at hc
    rcases hc with rfl | rfl
    · exact (by decide : (some (some 8) : Option (Option UInt8)) ≠ some (some 7))
    · exact (by decide : (some (some 9) : Option (Option UInt8)) ≠ some (some 7))

end LibMumble.X509
