import LibMumble.X509.PKCS12

/-! # What a PKCS #12 file may hold

`PKCS12_parse` has more outcomes than `FromPKCS12` tells apart. A success with a key that belongs to no
certificate of the file, and one with nothing at all, run into the assertions that are meant for
failures. In all other cases the file is imported (`importParsed_iff`). -/

namespace LibMumble.X509

open Lib X509CertificatePrivate

variable {S : OpenSSL} {L : OpenSSLPKCS12 S} {P : Libc} {heap : ℕ → UInt8} {nb na : ℤ}
  {r : PKCS12ParseResult L.PKey L.Cert}

/-- **What OpenSSL documents of `PKCS12_parse`**: a failure leaves all three pointers null, and there is
a leaf only if there is a key that it matches. -/
structure Allowed (L : OpenSSLPKCS12 S) (r : PKCS12ParseResult L.PKey L.Cert) : Prop where
  ret : r.ret = 0 ∨ r.ret = 1
  failure : r.ret = 0 → r.pkey = none ∧ r.x509 = none ∧ r.certs = none
  leaf : ∀ x, r.x509 = some x → ∃ k, r.pkey = some k ∧ L.publicKey x = L.pkeyPublic k

/-- The leaf with its key, if there is one, and the other certificates. -/
def imported (L : OpenSSLPKCS12 S) (P : Libc) (nb na : ℤ) (r : PKCS12ParseResult L.PKey L.Cert) :
    List X509CertificatePrivate :=
  (r.x509.map fun x => made L P nb na x r.pkey).toList ++
    (r.certs.getD []).reverse.map fun x => made L P nb na x none

/-- The outcomes that `FromPKCS12` has a branch for: a success has a leaf, or a stack and no key. -/
def Expected (r : PKCS12ParseResult L.PKey L.Cert) : Prop :=
  r.ret = 1 → r.x509.isSome ∨ r.certs.isSome ∧ r.pkey = none

/-- The loop over the stack puts all of it after what is there. -/
theorem importCerts_eq {out : List X509CertificatePrivate}
    (h : (out.length = 0 ∧ r.x509.isNone) ∨ (out.length = 1 ∧ r.x509.isSome)) :
    importCerts L P heap nb na r out =
      .ok (out ++ (r.certs.getD []).reverse.map fun x => made L P nb na x none) := by
  unfold importCerts
  rcases r.certs with _ | certs
  · simp
  · simp only [if_pos h, popCerts_eq, Option.getD_some]

theorem importParsed_leaf (hr : r.ret = 1) {x : L.Cert} {k : L.PKey} (hx : r.x509 = some x)
    (hk : r.pkey = some k) (hmatch : L.publicKey x = L.pkeyPublic k) :
    importParsed L P heap nb na r = .ok (imported L P nb na r) := by
  have hcheck : 0 < L.x509CheckPrivateKey x k := by
    have := check_eq_one hmatch
    omega
  have hleaf : importLeaf L P heap nb na r = .ok [made L P nb na x (some k)] := by
    rw [importLeaf, if_neg (by simp [hx])]
    simp only [hr, hx, hk, decide_true, if_pos hcheck, certificateOf_eq, bind, Except.bind]
    rfl
  rw [importParsed, hleaf]
  simp only [bind, Except.bind]
  rw [importCerts_eq (.inr ⟨rfl, by rw [hx]; rfl⟩), imported, hx, hk]
  rfl

/-- Without a leaf, only a stack without a key gets through. -/
theorem importLeaf_without (hr : r.ret = 1) (hx : r.x509 = none) :
    importLeaf L P heap nb na r =
      if r.certs.isSome ∧ r.pkey = none then .ok [] else .error .assertion := by
  unfold importLeaf
  by_cases h : r.certs.isSome ∧ r.pkey = none
  · rw [if_pos h, if_pos ⟨hr, h.1, by rw [hx]; rfl, by rw [h.2]; rfl⟩]
  · have hno : ¬ (r.ret = 1 ∧ r.certs.isSome ∧ r.x509.isNone ∧ r.pkey.isNone) := by
      rintro ⟨-, hc, -, hk⟩
      exact h ⟨hc, Option.isNone_iff_eq_none.mp hk⟩
    rw [if_neg h, if_neg hno]
    simp [hr, hx]

/-- With a leaf and a key, by whether they belong together. -/
theorem importLeaf_pair {x509 : L.Cert} {pkey : L.PKey} (hret : r.ret = 1)
    (hx : r.x509 = some x509) (hk : r.pkey = some pkey) :
    importLeaf L P heap nb na r = .ok (if 0 < L.x509CheckPrivateKey x509 pkey then
      [made L P nb na x509 (some pkey)] else []) := by
  unfold importLeaf
  rw [if_neg (by simp [hx]), hret, hx, hk]
  simp only [decide_true, certificateOf_eq]
  split
  · rfl
  · rfl

/-- Without a leaf or a key, by the other branches. -/
theorem importLeaf_other (h : ¬ (r.ret = 1 ∧ r.x509.isSome ∧ r.pkey.isSome)) :
    importLeaf L P heap nb na r =
      if r.ret = 1 ∧ r.certs.isSome ∧ r.x509.isNone ∧ r.pkey.isNone then .ok []
      else if r.ret = 0 ∧ r.x509.isNone ∧ r.pkey.isNone ∧ r.certs.isNone then .ok []
      else .error .assertion := by
  unfold importLeaf
  split
  · rfl
  · split
    · simp_all
    · rfl

/-- **Nothing aborts, and everything is imported**, exactly if the outcome is one of those expected. -/
theorem importParsed_iff (h : Allowed L r) :
    importParsed L P heap nb na r = .ok (imported L P nb na r) ↔ Expected r := by
  unfold Expected
  rcases h.ret with hr | hr
  · obtain ⟨hk, hx, hc⟩ := h.failure hr
    have hleaf : importLeaf L P heap nb na r = .ok [] := by
      rw [importLeaf, if_neg (by simp [hr])]
      simp [hr, hk, hx, hc]
    refine iff_of_true ?_ fun h1 => by omega
    rw [importParsed, hleaf]
    simp only [bind, Except.bind]
    rw [importCerts_eq (.inl ⟨rfl, by rw [hx]; rfl⟩), imported, hx]
    rfl
  rcases hx : r.x509 with _ | x
  · rw [importParsed, importLeaf_without hr hx]
    by_cases hc : r.certs.isSome ∧ r.pkey = none
    · refine iff_of_true ?_ fun _ => .inr hc
      rw [if_pos hc]
      simp only [bind, Except.bind]
      rw [importCerts_eq (.inl ⟨rfl, by rw [hx]; rfl⟩), imported, hx]
      rfl
    · rw [if_neg hc]
      refine iff_of_false (by simp [bind, Except.bind]) fun hall => ?_
      rcases hall hr with hsome | hsome
      · cases hsome
      · exact hc hsome
  · obtain ⟨k, hk, hmatch⟩ := h.leaf x hx
    exact iff_of_true (importParsed_leaf hr hx hk hmatch) fun _ => .inl rfl

/-- What `PKCS12_parse` says of a file, if it is one. -/
def outcome (L : OpenSSLPKCS12 S) (pkcs12 : ByteArray) (password : List UInt8) :
    Option (PKCS12ParseResult L.PKey L.Cert) :=
  if pkcs12.isNull then none
  else (L.d2iPKCS12 pkcs12.content).map fun pkcs => parsePKCS12 L pkcs password

theorem fromPKCS12_eq (pkcs12 : ByteArray) (password : List UInt8) :
    fromPKCS12 L P heap nb na pkcs12 password =
      match outcome L pkcs12 password with
      | none => .ok []
      | some r => importParsed L P heap nb na r := by
  unfold fromPKCS12 outcome
  split_ifs
  · rfl
  · rcases L.d2iPKCS12 pkcs12.content with _ | pkcs <;> rfl

/-- The certificates of a file, none if it is not one. -/
def certificatesOf (L : OpenSSLPKCS12 S) (P : Libc) (nb na : ℤ) (pkcs12 : ByteArray)
    (password : List UInt8) : List X509CertificatePrivate :=
  match outcome L pkcs12 password with
  | none => []
  | some r => imported L P nb na r

/-- **`FromPKCS12` never aborts**, and gives the certificates of the file, exactly if the outcome of
`PKCS12_parse` is one of those expected. -/
theorem fromPKCS12_iff (hL : ∀ pkcs pass, Allowed L (L.pkcs12Parse pkcs pass)) (pkcs12 : ByteArray)
    (password : List UInt8) :
    fromPKCS12 L P heap nb na pkcs12 password = .ok (certificatesOf L P nb na pkcs12 password) ↔
      ∀ r, outcome L pkcs12 password = some r → Expected r := by
  rw [fromPKCS12_eq, certificatesOf]
  rcases ho : outcome L pkcs12 password with _ | r
  · exact iff_of_true rfl nofun
  · have hr : Allowed L r := by
      unfold outcome at ho
      split_ifs at ho
      obtain ⟨pkcs, -, rfl⟩ := Option.map_eq_some_iff.mp ho
      simp only [parsePKCS12]
      split_ifs
      · exact hL pkcs none
      · exact hL pkcs _
    simp only [Option.some.injEq, forall_eq']
    exact importParsed_iff hr

/-! ### Examples -/

section Walk

variable {X509 : Type} {isLeaf : X509 → Bool}

/-- The leaf that the walk finds is one. -/
theorem foldl_parseTurn_leaf (stored : List X509) {acc : Option X509 × List X509}
    (h : ∀ x, acc.1 = some x → isLeaf x = true) {x : X509}
    (hx : (stored.foldl (parseTurn isLeaf) acc).1 = some x) : isLeaf x = true := by
  induction stored generalizing acc with
  | nil => exact h x hx
  | cons y stored ih =>
    refine ih (fun z hz => ?_) hx
    unfold parseTurn at hz
    split_ifs at hz with hy
    · obtain rfl := Option.some.inj hz
      exact hy.1
    · exact h z hz

end Walk

/-- The walk of `PKCS12_parse` has only outcomes that are allowed. -/
theorem allowed_parsed (key : Option L.PKey) (stored : List L.Cert) :
    Allowed L (parsed L.x509CheckPrivateKey key stored) := by
  refine ⟨.inr rfl, fun h => ?_, fun x hx => ?_⟩
  · have hret : (parsed L.x509CheckPrivateKey key stored).ret = 1 := rfl
    omega
  · have hleaf := @foldl_parseTurn_leaf L.Cert (isKeyOf L.x509CheckPrivateKey key) stored.reverse
      (none, []) (by simp) x hx
    rcases key with _ | k
    · cases hleaf
    · refine ⟨k, rfl, ?_⟩
      by_contra hne
      simp [isKeyOf, check_eq_zero hne] at hleaf

theorem allowed_plain (pkcs : plainPKCS12.PKCS12) (pass : Option (List UInt8)) :
    Allowed plainPKCS12 (plainPKCS12.pkcs12Parse pkcs pass) := by
  have hparse : plainPKCS12.pkcs12Parse pkcs pass = if pkcs.1 = pass.getD [] then
      parsed plainPKCS12.x509CheckPrivateKey pkcs.2.1 pkcs.2.2 else ⟨0, none, none, none⟩ := rfl
  rw [hparse]
  split_ifs
  · exact allowed_parsed _ _
  · exact ⟨.inl rfl, fun _ => ⟨rfl, rfl, rfl⟩, nofun⟩

/-- The file of a blob. -/
def fileOf (L : OpenSSLPKCS12 S) (pkcs : L.PKCS12) : ByteArray :=
  ⟨some (L.i2dPKCS12 pkcs), (L.i2dPKCS12 pkcs).length, (L.i2dPKCS12 pkcs).length⟩

theorem outcome_fileOf (pkcs : L.PKCS12) (password : List UInt8) :
    outcome L (fileOf L pkcs) password = some (parsePKCS12 L pkcs password) := by
  rw [outcome, if_neg (by simp [fileOf, ByteArray.isNull]), fileOf, ByteArray.content_exact,
    L.d2iPKCS12_i2d]
  rfl

/-- A file without a password, with a key and certificates. -/
def plainFile (key : Option (List UInt8)) (stored : List (List UInt8)) : ByteArray :=
  fileOf plainPKCS12 ([], key, stored)

def plainLibc : Libc := ⟨CompatWin.strptime, Tm.instant⟩

theorem outcome_plainFile (key : Option (List UInt8)) (stored : List (List UInt8)) :
    outcome plainPKCS12 (plainFile key stored) [] = some (parsed checkLast key stored) :=
  (outcome_fileOf (L := plainPKCS12) _ _).trans rfl

/-- A leaf with its key and another certificate. -/
theorem fromPKCS12_iff_plain :
    fromPKCS12 plainPKCS12 plainLibc (fun _ => 0) 0 0 (plainFile (some [7]) [[1, 7], [2, 8]]) [] =
      .ok [made plainPKCS12 plainLibc 0 0 [1, 7] (some [7]),
        made plainPKCS12 plainLibc 0 0 [2, 8] none] := by
  have hok := (@fromPKCS12_iff _ plainPKCS12 plainLibc (fun _ => 0) 0 0 allowed_plain
    (plainFile (some [7]) [[1, 7], [2, 8]]) []).mpr ?_
  · rw [hok, certificatesOf, outcome_plainFile]
    rfl
  · intro r hr
    rw [outcome_plainFile] at hr
    obtain rfl := Option.some.inj hr
    exact fun _ => .inl rfl

/-- A key with a certificate that is not its own, and nothing at all: both files abort. -/
theorem fromPKCS12_aborts :
    Allowed plainPKCS12 (parsed checkLast (some [7]) [[1, 8]]) ∧
    fromPKCS12 plainPKCS12 plainLibc (fun _ => 0) 0 0 (plainFile (some [7]) [[1, 8]]) [] =
      .error .assertion ∧
    Allowed plainPKCS12 (parsed checkLast none []) ∧
    fromPKCS12 plainPKCS12 plainLibc (fun _ => 0) 0 0 (plainFile none []) [] = .error .assertion := by
  refine ⟨allowed_parsed (L := plainPKCS12) _ _, ?_, allowed_parsed (L := plainPKCS12) _ _, ?_⟩
  · rw [fromPKCS12_eq, outcome_plainFile]
    rfl
  · rw [fromPKCS12_eq, outcome_plainFile]
    rfl

end LibMumble.X509
