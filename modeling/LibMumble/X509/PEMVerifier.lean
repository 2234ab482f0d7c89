import LibMumble.X509.Hostname
import Mathlib.Data.Rat.Cast.Order
import Mathlib.Tactic.FieldSimp
import Mathlib.Tactic.Linarith
import Mathlib.Tactic.NormNum

/-! # `X509PEMVerifier`

The backends of `X509Verifier` ask different systems. What the system of one of them has to say is
its `Judge`, and `Judge.Checked` is what `VerifyChain` has to ask of it before it returns `true`.
Instants are rational numbers, of seconds since the epoch. The verifier of Unix and Android has
OpenSSL evaluate the chain and checks the host name with `X509HostnameVerifier`. -/

namespace LibMumble.X509

/-! ### What a verifier checks -/

structure Judge where
  /-- the current time -/
  now : ℚ
  /-- the trust evaluation of a chain at an instant, with the server policy or without -/
  trusts : List X509CertificatePrivate → ℚ → Bool → Bool
  /-- the host name check of a certificate -/
  named : X509CertificatePrivate → List UInt8 → Bool

/-- The time to verify at. -/
def X509VerifierOptions.at (opts : X509VerifierOptions) (now : ℚ) : ℚ :=
  if opts.time = 0 then now else opts.time

/-- The chain is not empty and was trusted at the time of the options, and if they have a name then
as the chain of a server that has the whole of this name. -/
def Judge.Checked (J : Judge) (chain : List X509CertificatePrivate) (opts : X509VerifierOptions) :
    Prop :=
  ∃ leaf rest, chain = leaf :: rest ∧ J.trusts chain (opts.at J.now) (opts.dnsName ≠ []) = true ∧
    (opts.dnsName ≠ [] → J.named leaf opts.dnsName = true)

/-- The bytes of a certificate that the backends pass on. -/
def der (c : X509CertificatePrivate) : List UInt8 := c.certDer.content

/-! ### The verifier -/

/-- `AsOpenSSLX509`. -/
def asOpenSSLX509 (S : OpenSSL) (c : X509CertificatePrivate) : Option OpenSSLX509 :=
  S.d2iX509 c.certDer.content

/-- What `X509_STORE_CTX` is set up with; a pointer may be null. -/
structure X509StoreCtx where
  cert : Option OpenSSLX509
  untrusted : List (Option OpenSSLX509)
  time : ℚ
  /-- `X509_PURPOSE_SSL_SERVER` -/
  purposeSSLServer : Bool
  /-- `X509_TRUST_SSL_SERVER` -/
  trustSSLServer : Bool
  deriving DecidableEq

/-- The store, with the certificates that were added to it, and the clock. -/
structure X509Store where
  /-- `X509_verify_cert` -/
  verifyCert : X509StoreCtx → ℤ
  /-- `std::time(nullptr)` -/
  stdTime : ℤ

variable (S : OpenSSL) (V : X509Store)

/-- The context that `X509_verify_cert` gets. -/
def storeCtx (chain : List X509CertificatePrivate) (time : ℚ) (server : Bool) : X509StoreCtx :=
  let untrusted := chain.map (asOpenSSLX509 S)
  ⟨untrusted.head?.join, untrusted, time, server, server⟩

/-- `X509PEMVerifier::VerifyChain`. -/
def pemVerifyChain (chain : List X509CertificatePrivate) (opts : X509VerifierOptions) : Bool :=
  match chain with
  | [] => false
  | leaf :: _ =>
    if opts.dnsName ≠ [] ∧ ¬ verifyHostname leaf opts.dnsName then false
    else
      let time : ℤ := if opts.time = 0 then V.stdTime else opts.time
      V.verifyCert (storeCtx S chain time (opts.dnsName ≠ [])) = 1

def pemJudge : Judge where
  now := V.stdTime
  trusts chain time server := V.verifyCert (storeCtx S chain time server) = 1
  named := verifyHostname

variable {S V} {chain : List X509CertificatePrivate} {opts : X509VerifierOptions}

theorem pem_checked (h : pemVerifyChain S V chain opts = true) :
    (pemJudge S V).Checked chain opts := by
  cases chain with
  | nil => cases h
  | cons leaf rest =>
    rw [pemVerifyChain] at h
    split at h
    · cases h
    · rename_i hname
      refine ⟨leaf, rest, rfl, ?_, ?_⟩
      · have htime : ((if opts.time = 0 then V.stdTime else opts.time : ℤ) : ℚ) =
            opts.at (pemJudge S V).now := by
          unfold X509VerifierOptions.at
          split <;> rfl
        rw [← htime]
        exact h
      · intro hne
        by_contra hno
        exact hname ⟨hne, hno⟩

end LibMumble.X509
