import LibMumble.X509.PEMVerifier
import LibMumble.X509.PKCS12Import

/-! # Certificates that do not decode

`VerifyChain` and `ExportCertificateChainAsPKCS12` push what `AsOpenSSLX509` returns onto a stack, and
do not look whether it is the null pointer. The two functions are run here with their stack, to see what
OpenSSL gets. Only the leaf of an export is checked, as `IsSignedBy` checks both its certificates. -/

namespace LibMumble.X509

open Lib X509CertificatePrivate

/-! ### The stacks -/

section Functions

variable (S : OpenSSL) (V : X509Store)

/-- The loop of `VerifyChain` over the chain. -/
def pushChain : List X509CertificatePrivate → List (Option OpenSSLX509)
  | [] => []
  | cert :: chain => asOpenSSLX509 S cert :: pushChain chain

/-- `X509PEMVerifier::VerifyChain`, and what it pushed onto `untrusted`. -/
def verifyChainStack (chain : List X509CertificatePrivate) (opts : X509VerifierOptions) :
    Bool × List (Option OpenSSLX509) :=
  match chain with
  | [] => (false, [])
  | leaf :: _ =>
    if opts.dnsName ≠ [] ∧ ¬ verifyHostname leaf opts.dnsName then (false, [])
    else
      let untrusted := pushChain S chain
      let time : ℤ := if opts.time = 0 then V.stdTime else opts.time
      let server : Bool := opts.dnsName ≠ []
      (V.verifyCert ⟨untrusted.head?.join, untrusted, time, server, server⟩ = 1, untrusted)

variable {S} (L : OpenSSLPKCS12 S)

/-- `ExportCertificateChainAsPKCS12`, and what it pushed onto `certs`. -/
def exportStack (chain : List X509CertificatePrivate) (password : List UInt8) :
    Except Fault ByteArray × List (Option L.Cert) :=
  match chain with
  | [] => (.ok .null, [])
  | leaf :: rest =>
    if ¬ leaf.hasCertificate then (.ok .null, [])
    else
      let pkey := L.asPrivateKey leaf
      match L.asOpenSSLX509 leaf with
      | none => (.ok .null, [])
      | some x509 =>
        if pkey.all fun k => L.x509CheckPrivateKey x509 k ≠ 0 then
          let certs := pushCerts L rest
          match L.pkcs12Create (passwordCStr password) (ascii "Mumble Identity") pkey x509 certs with
          | none => (.ok .null, certs)
          | some pkcs =>
            let buf := L.i2dPKCS12 pkcs
            (ByteArray.ofBuffer (some buf) buf.length (-1), certs)
        else (.ok .null, [])

end Functions

variable {S : OpenSSL} {V : X509Store} {L : OpenSSLPKCS12 S} {chain rest : List X509CertificatePrivate}
  {opts : X509VerifierOptions} {password : List UInt8}

theorem pushChain_eq (chain : List X509CertificatePrivate) :
    pushChain S chain = chain.map (asOpenSSLX509 S) := by
  induction chain with
  | nil => rfl
  | cons cert chain ih => rw [pushChain, ih, List.map_cons]

/-- With the stack or without, it is the same function. -/
theorem verifyChainStack_fst : (verifyChainStack S V chain opts).1 = pemVerifyChain S V chain opts := by
  cases chain with
  | nil => rfl
  | cons leaf rest =>
    by_cases hname : opts.dnsName ≠ [] ∧ ¬ verifyHostname leaf opts.dnsName
    · rw [verifyChainStack, pemVerifyChain, if_pos hname, if_pos hname]
    · rw [verifyChainStack, pemVerifyChain, if_neg hname, if_neg hname, pushChain_eq]
      rfl

theorem exportStack_fst :
    (exportStack L chain password).1 = exportCertificateChainAsPKCS12 L chain password := by
  cases chain with
  | nil => rfl
  | cons leaf rest =>
    by_cases hhas : ¬ leaf.hasCertificate = true
    · rw [exportStack, exportCertificateChainAsPKCS12, if_pos hhas, if_pos hhas]
    · rw [exportStack, exportCertificateChainAsPKCS12, if_neg hhas, if_neg hhas]
      rcases L.asOpenSSLX509 leaf with _ | x
      · rfl
      · dsimp only
        split_ifs
        · rcases L.pkcs12Create (passwordCStr password) (ascii "Mumble Identity")
            (L.asPrivateKey leaf) x (pushCerts L rest) with _ | pkcs <;> rfl
        · rfl

/-! ### Verification -/

/-- The chain is refused before it is looked at, for the name of the server. -/
def RefusedByName (chain : List X509CertificatePrivate) (opts : X509VerifierOptions) : Prop :=
  opts.dnsName ≠ [] ∧ ∃ leaf ∈ chain.head?, verifyHostname leaf opts.dnsName = false

/-- `VerifyChain` pushes no null pointer, and refuses a chain if one of its elements does not decode. -/
def VerifiesDecoded (S : OpenSSL) (V : X509Store) (chain : List X509CertificatePrivate)
    (opts : X509VerifierOptions) : Prop :=
  none ∉ (verifyChainStack S V chain opts).2 ∧
    ((∃ c ∈ chain, asOpenSSLX509 S c = none) → pemVerifyChain S V chain opts = false)

/-- Everything is pushed, unless the name is wrong. -/
theorem verifyChainStack_cases (S : OpenSSL) (V : X509Store) (chain : List X509CertificatePrivate)
    (opts : X509VerifierOptions) :
    RefusedByName chain opts ∧ verifyChainStack S V chain opts = (false, []) ∨
      ¬ RefusedByName chain opts ∧
        (verifyChainStack S V chain opts).2 = chain.map (asOpenSSLX509 S) := by
  cases chain with
  | nil =>
    refine .inr ⟨?_, rfl⟩
    rintro ⟨-, leaf, hleaf, -⟩
    cases hleaf
  | cons leaf rest =>
    by_cases hname : opts.dnsName ≠ [] ∧ ¬ verifyHostname leaf opts.dnsName
    · refine .inl ⟨⟨hname.1, leaf, rfl, ?_⟩, ?_⟩
      · simpa using hname.2
      · rw [verifyChainStack, if_pos hname]
    · refine .inr ⟨?_, ?_⟩
      · rintro ⟨hne, leaf', hleaf, hno⟩
        obtain rfl := Option.some.inj hleaf
        exact hname ⟨hne, by simp [hno]⟩
      · rw [verifyChainStack, if_neg hname, pushChain_eq]

theorem verifiesDecoded_iff : VerifiesDecoded S V chain opts ↔
    RefusedByName chain opts ∨ ∀ c ∈ chain, (asOpenSSLX509 S c).isSome := by
  unfold VerifiesDecoded
  rcases verifyChainStack_cases S V chain opts with ⟨hname, hrun⟩ | ⟨hname, hstack⟩
  · refine iff_of_true ⟨?_, fun _ => ?_⟩ (.inl hname)
    · rw [hrun]
      exact List.not_mem_nil
    · rw [← verifyChainStack_fst, hrun]
  · rw [hstack]
    constructor
    · rintro ⟨hnull, -⟩
      refine .inr fun c hc => Option.isSome_iff_ne_none.mpr fun hnone => hnull ?_
      exact List.mem_map.mpr ⟨c, hc, hnone⟩
    · rintro (hrefused | hall)
      · exact absurd hrefused hname
      · have hno : ∀ c ∈ chain, asOpenSSLX509 S c ≠ none := fun c hc =>
          Option.isSome_iff_ne_none.mp (hall c hc)
        constructor
        · intro hnull
          obtain ⟨c, hc, hnone⟩ := List.mem_map.mp hnull
          exact hno c hc hnone
        · rintro ⟨c, hc, hnone⟩
          exact absurd hnone (hno c hc)

/-! ### Export -/

/-- The certificates after the leaf are pushed: the leaf decodes, and a key that it has is its own. -/
def PushesCerts (L : OpenSSLPKCS12 S) (chain : List X509CertificatePrivate) : Prop :=
  ∃ leaf ∈ chain.head?, leaf.hasCertificate = true ∧ ∃ x, L.asOpenSSLX509 leaf = some x ∧
    ∀ k, L.asPrivateKey leaf = some k → L.x509CheckPrivateKey x k ≠ 0

/-- The file of the certificates of a chain that decode. -/
def IsFileOfDecoded (L : OpenSSLPKCS12 S) (chain : List X509CertificatePrivate)
    (password : List UInt8) (blob : ByteArray) : Prop :=
  ∃ key x stack p, chain.filterMap L.asOpenSSLX509 = x :: stack ∧
    L.pkcs12Create (passwordCStr password) (ascii "Mumble Identity") key x (stack.map some) = some p ∧
    blob = fileOf L p

/-- The export pushes no null pointer, and of a chain with an element that does not decode it makes a
null array or a file without it. -/
def ExportsDecoded (L : OpenSSLPKCS12 S) (chain : List X509CertificatePrivate)
    (password : List UInt8) : Prop :=
  none ∉ (exportStack L chain password).2 ∧
    ((∃ c ∈ chain, L.asOpenSSLX509 c = none) →
      ∃ blob, exportCertificateChainAsPKCS12 L chain password = .ok blob ∧
        (blob = .null ∨ IsFileOfDecoded L chain password blob))

theorem asOpenSSLX509_of_not_hasCertificate {c : X509CertificatePrivate}
    (h : ¬ c.hasCertificate = true) : L.asOpenSSLX509 c = none := by
  by_contra hne
  obtain ⟨x, hx⟩ := Option.ne_none_iff_exists'.mp hne
  refine h (hasCertificate_of_decoded (S := S) ?_)
  have hinfo := L.d2iX509_info c.certDer.content
  rw [decoded, hinfo, show L.d2iX509 c.certDer.content = some x from hx]
  rfl

theorem none_notMem_pushCerts : none ∉ pushCerts L rest ↔
    ∀ c ∈ rest, c.hasCertificate = true → (L.asOpenSSLX509 c).isSome := by
  induction rest with
  | nil => simp [pushCerts]
  | cons c rest ih =>
    unfold pushCerts
    rw [List.forall_mem_cons]
    split_ifs with hhas
    · rw [List.mem_cons, not_or, ih, Option.isSome_iff_ne_none]
      exact and_congr ⟨fun h _ => Ne.symm h, fun h => Ne.symm (h hhas)⟩ Iff.rfl
    · rw [ih]
      exact ⟨fun h => ⟨fun hc => absurd hc hhas, h⟩, fun h => h.2⟩

/-- Without a null pointer, the stack is what decodes. -/
theorem pushCerts_eq_filterMap (h : none ∉ pushCerts L rest) :
    pushCerts L rest = (rest.filterMap L.asOpenSSLX509).map some := by
  induction rest with
  | nil => rfl
  | cons c rest ih =>
    unfold pushCerts at h ⊢
    split_ifs at h ⊢ with hhas
    · obtain ⟨hc, hrest⟩ := not_or.mp (fun hmem => h (List.mem_cons.mpr hmem))
      obtain ⟨x, hx⟩ := Option.ne_none_iff_exists'.mp (Ne.symm hc)
      rw [ih hrest, List.filterMap_cons_some hx, List.map_cons, hx]
    · rw [ih h, List.filterMap_cons_none (asOpenSSLX509_of_not_hasCertificate hhas)]

theorem pushesCerts_cons {leaf : X509CertificatePrivate} : PushesCerts L (leaf :: rest) ↔
    leaf.hasCertificate = true ∧ ∃ x, L.asOpenSSLX509 leaf = some x ∧
      ∀ k, L.asPrivateKey leaf = some k → L.x509CheckPrivateKey x k ≠ 0 := by
  constructor
  · rintro ⟨leaf', hleaf, hhas, hx⟩
    obtain rfl := Option.some.inj hleaf
    exact ⟨hhas, hx⟩
  · rintro ⟨hhas, hx⟩
    exact ⟨leaf, rfl, hhas, hx⟩

/-- The condition of the export on the key. -/
theorem all_check_iff {leaf : X509CertificatePrivate} {x : L.Cert} :
    ((L.asPrivateKey leaf).all fun k => decide (L.x509CheckPrivateKey x k ≠ 0)) = true ↔
      ∀ k, L.asPrivateKey leaf = some k → L.x509CheckPrivateKey x k ≠ 0 := by
  simp only [Option.all_eq_true, decide_eq_true_eq]

theorem exportStack_stops (h : ¬ PushesCerts L chain) :
    exportStack L chain password = (.ok .null, []) := by
  rcases chain with _ | ⟨leaf, rest⟩
  · rfl
  rw [pushesCerts_cons] at h
  by_cases hhas : leaf.hasCertificate = true
  · rw [exportStack, if_neg (not_not.mpr hhas)]
    rcases hx : L.asOpenSSLX509 leaf with _ | x
    · rfl
    · have hkey := mt all_check_iff.mp fun hkey => h ⟨hhas, x, hx, hkey⟩
      simp only [if_neg hkey]
  · rw [exportStack, if_pos hhas]

/-- What is exported, if the leaf is as it should be. -/
theorem exportStack_pushes (h : PushesCerts L chain) (password : List UInt8) :
    ∃ leaf rest x, chain = leaf :: rest ∧ L.asOpenSSLX509 leaf = some x ∧
      (exportStack L chain password).2 = pushCerts L rest ∧
      ((exportStack L chain password).1 = .ok .null ∨
        ∃ p, L.pkcs12Create (passwordCStr password) (ascii "Mumble Identity")
          (L.asPrivateKey leaf) x (pushCerts L rest) = some p ∧
          (exportStack L chain password).1 = .ok (fileOf L p)) := by
  rcases chain with _ | ⟨leaf, rest⟩
  · obtain ⟨leaf, hleaf, -⟩ := h
    cases hleaf
  obtain ⟨hhas, x, hx, hkey⟩ := pushesCerts_cons.mp h
  have hrun : exportStack L (leaf :: rest) password =
      match L.pkcs12Create (passwordCStr password) (ascii "Mumble Identity")
        (L.asPrivateKey leaf) x (pushCerts L rest) with
      | none => (.ok .null, pushCerts L rest)
      | some pkcs => (.ok (fileOf L pkcs), pushCerts L rest) := by
    rw [exportStack, if_neg (not_not.mpr hhas)]
    simp only [hx, if_pos (all_check_iff.mpr hkey), ByteArray.ofBuffer_exact]
    rfl
  refine ⟨leaf, rest, x, rfl, hx, ?_⟩
  rw [hrun]
  rcases hp : L.pkcs12Create (passwordCStr password) (ascii "Mumble Identity")
    (L.asPrivateKey leaf) x (pushCerts L rest) with _ | p
  · exact ⟨rfl, .inl rfl⟩
  · exact ⟨rfl, .inr ⟨p, rfl, rfl⟩⟩

theorem exportsDecoded_iff : ExportsDecoded L chain password ↔
    (PushesCerts L chain → ∀ c ∈ chain.tail, c.hasCertificate = true → (L.asOpenSSLX509 c).isSome) := by
  unfold ExportsDecoded
  rw [← exportStack_fst]
  by_cases hpush : PushesCerts L chain
  · obtain ⟨leaf, rest, x, rfl, hx, hstack, hres⟩ := exportStack_pushes hpush password
    rw [hstack, none_notMem_pushCerts, List.tail_cons]
    refine ⟨fun h _ => h.1, fun h => ⟨h hpush, fun _ => ?_⟩⟩
    have hdecoded := pushCerts_eq_filterMap (none_notMem_pushCerts.mpr (h hpush))
    rcases hres with hnull | ⟨p, hp, hfile⟩
    · exact ⟨.null, hnull, .inl rfl⟩
    · rw [hdecoded] at hp
      exact ⟨fileOf L p, hfile, .inr ⟨_, x, _, p, List.filterMap_cons_some hx, hp, rfl⟩⟩
  · rw [exportStack_stops hpush]
    exact iff_of_true ⟨List.not_mem_nil, fun _ => ⟨.null, rfl, .inl rfl⟩⟩ fun h => absurd h hpush

/-- **OpenSSL gets no null pointer**, and what does not decode is refused or left out, exactly if there
is nothing that does not decode where the two functions push it. -/
theorem nullCertificates_iff (L : OpenSSLPKCS12 S) (V : X509Store)
    (chain : List X509CertificatePrivate) (opts : X509VerifierOptions) (password : List UInt8) :
    (VerifiesDecoded S V chain opts ↔
      RefusedByName chain opts ∨ ∀ c ∈ chain, (asOpenSSLX509 S c).isSome) ∧
    (ExportsDecoded L chain password ↔ (PushesCerts L chain →
      ∀ c ∈ chain.tail, c.hasCertificate = true → (L.asOpenSSLX509 c).isSome)) :=
  ⟨verifiesDecoded_iff, exportsDecoded_iff⟩

/-- A certificate, and one that has bytes, but none that can be decoded: the null pointer is pushed onto
both stacks. -/
theorem nullCertificates_pushed :
    (verifyChainStack anyCertificate ⟨fun _ => 0, 0⟩
      [plainCertificate [1] .null, plainCertificate [] .null] ⟨[], 0⟩).2 =
        [some ⟨[], [], none, none, none⟩, none] ∧
    (plainCertificate [] .null).hasCertificate = true ∧
    (exportStack plainPKCS12 [plainCertificate [1] .null, plainCertificate [] .null] []).2 = [none] :=
  ⟨rfl, rfl, rfl⟩

end LibMumble.X509
