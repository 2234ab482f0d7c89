import LibMumble.Lib.Utf8
import LibMumble.X509.PEMVerifier

/-! # The backends of `X509Verifier`

The verifiers of Windows and of the Mac ask the system. What its functions return is a parameter,
with what the system documents about it: a chain that satisfies the SSL policy with a server name
has passed the check of this name, and a trust result that says to proceed says so of the policy.
Which options a backend checks in full is `Backend.ChecksWhen`. -/

namespace LibMumble.X509

open Lib

variable {chain : List X509CertificatePrivate} {opts : X509VerifierOptions} {t : ℤ}

/-- What is made of a chain, when each certificate is handed over as its DER or not at all. -/
theorem mapM_der {f : X509CertificatePrivate → Option (List UInt8)} {ders : List (List UInt8)}
    (hf : ∀ cert d, f cert = some d → d = der cert) (h : chain.mapM f = some ders) :
    ders = chain.map der := by
  induction chain generalizing ders with
  | nil => exact (Option.some.inj h).symm
  | cons cert chain ih =>
    rw [List.mapM_cons] at h
    obtain ⟨d, hd, h⟩ := Option.bind_eq_some_iff.mp h
    obtain ⟨ds, hds, h⟩ := Option.bind_eq_some_iff.mp h
    obtain rfl := Option.some.inj h
    rw [List.map_cons, hf cert d hd, ih hds]

theorem mapM_some_der : chain.mapM (fun cert => some (der cert)) = some (chain.map der) :=
  List.mapM_pure

/-! ### Windows -/

/-- The struct `FILETIME`. -/
structure FileTime where
  dwLowDateTime : ℕ
  dwHighDateTime : ℕ
  deriving DecidableEq, Repr

/-- `FileTimeFromStdTimeT`; a `ULONGLONG` has 64 bits. -/
def fileTimeFromStdTimeT (time : ℤ) : FileTime :=
  let quadPart := ((11644473600 + time) * 10000000 % 2 ^ 64).toNat
  ⟨quadPart % 2 ^ 32, quadPart / 2 ^ 32⟩

/-- A `FILETIME` counts the tenths of a microsecond since the year 1601. -/
def FileTime.instant (ft : FileTime) : ℚ :=
  ((ft.dwHighDateTime * 2 ^ 32 + ft.dwLowDateTime : ℕ) : ℚ) / 10000000 - 11644473600

/-- The time is not before the year 1601, and 64 bits can hold it. -/
def FileTimeHolds (t : ℤ) : Prop :=
  0 ≤ 11644473600 + t ∧ (11644473600 + t) * 10000000 < 2 ^ 64

theorem fileTime_instant : (fileTimeFromStdTimeT t).instant = t ↔ FileTimeHolds t := by
  set ticks := (11644473600 + t) * 10000000 with hticks
  have hmod := Int.emod_nonneg ticks (show (2 : ℤ) ^ 64 ≠ 0 by decide)
  have hquad : (((fileTimeFromStdTimeT t).dwHighDateTime * 2 ^ 32 +
      (fileTimeFromStdTimeT t).dwLowDateTime : ℕ) : ℤ) = ticks % 2 ^ 64 := by
    simp only [fileTimeFromStdTimeT, ← hticks]
    rw [Nat.div_add_mod', Int.toNat_of_nonneg hmod]
  have hinst : (fileTimeFromStdTimeT t).instant = ((ticks % 2 ^ 64 : ℤ) : ℚ) / 10000000 -
      11644473600 := by
    rw [FileTime.instant, ← hquad, Int.cast_natCast]
  have heq : (fileTimeFromStdTimeT t).instant = t ↔ ticks % 2 ^ 64 = ticks := by
    rw [hinst, sub_eq_iff_eq_add, div_eq_iff (by norm_num), hticks, ← Int.cast_inj (α := ℚ)]
    push_cast
    ring_nf
  rw [heq]
  unfold FileTimeHolds
  rw [← hticks]
  constructor
  · intro h
    have hlt := Int.emod_lt_of_pos ticks (show (0 : ℤ) < 2 ^ 64 by decide)
    omega
  · rintro ⟨h0, h1⟩
    exact Int.emod_eq_of_lt (by omega) h1

/-- The usages of a certificate that `RequestedUsage` names. -/
inductive UsageIdentifier
  | pkixKPServerAuth
  | serverGatedCrypto
  | sgcNetscape
  deriving DecidableEq, Repr

inductive UsageMatchType
  | and
  | or
  deriving DecidableEq, Repr

/-- The struct `CERT_USAGE_MATCH`. -/
structure CertUsageMatch where
  dwType : UsageMatchType
  usage : List UsageIdentifier
  deriving DecidableEq, Repr

/-- What the bytes of a name say, in UTF-16. -/
def wideText (s : List UInt8) : Option (List UInt16) :=
  (utf8Decode s).map utf16Encode

/-- The functions of the system; `none` is a failure. -/
structure WinCrypt where
  now : ℚ
  /-- `MultiByteToWideChar` of UTF-8, up to the NUL, with `MB_ERR_INVALID_CHARS` -/
  multiByteToWideChar : List UInt8 → Option (List UInt16)
  /-- `CertCreateCertificateContext` -/
  createContext : List UInt8 → Bool
  /-- `CertAddCertificateContextToStore` -/
  addToStore : List UInt8 → Bool
  /-- `CertOpenStore` -/
  openStore : Bool
  /-- `CertGetCertificateChain`, at an instant: the error status of the chain -/
  certificateChain : List (List UInt8) → ℚ → CertUsageMatch → Option ℕ
  /-- the host name check of the SSL policy -/
  nameCheck : List UInt8 → List UInt16 → Bool
  /-- `CertVerifyCertificateChainPolicy`, for the SSL policy of a server: the error of the status -/
  sslPolicy : List (List UInt8) → Option (List UInt16) → Option ℕ
  /-- a text without a NUL is converted, and anything that is not UTF-8 is refused -/
  multiByteToWideChar_eq : ∀ s, 0 ∉ s → multiByteToWideChar s = wideText s
  /-- with a server name the name is checked -/
  sslPolicy_named : ∀ leaf ders name, sslPolicy (leaf :: ders) (some name) = some 0 →
    nameCheck leaf name = true

variable (W : WinCrypt)

/-- `AddCertToStore`: what is in the store then. -/
def addCertToStore (cert : X509CertificatePrivate) : Option (List UInt8) :=
  if W.createContext (der cert) ∧ W.addToStore (der cert) then some (der cert) else none

/-- `CreateCertContextFromChain`: the store, the leaf first. -/
def createCertContextFromChain (chain : List X509CertificatePrivate) : Option (List (List UInt8)) :=
  if W.openStore then chain.mapM (addCertToStore W) else none

/-- `UTF16StringFromStdString`, which goes by `c_str()`. -/
def utf16StringFromStdString (str : List UInt8) : Option (List UInt16) :=
  W.multiByteToWideChar (cString str)

/-- What `para.RequestedUsage` is set to. -/
def requestedUsage (server : Bool) : CertUsageMatch :=
  if server then ⟨.or, [.pkixKPServerAuth, .serverGatedCrypto, .sgcNetscape]⟩ else ⟨.and, []⟩

/-- `X509VerifierPrivate::VerifyChain` of `X509Verifier_win.cpp`. -/
def winVerifyChain (chain : List X509CertificatePrivate) (opts : X509VerifierOptions) : Bool :=
  if chain.isEmpty then false
  else match createCertContextFromChain W chain with
    | none => false
    | some store =>
      let verifyTime := fileTimeFromStdTimeT opts.time
      match W.certificateChain store (if opts.time ≠ 0 then verifyTime.instant else W.now)
          (requestedUsage (opts.dnsName ≠ [])) with
      | none => false
      | some dwErrorStatus =>
        if dwErrorStatus ≠ 0 then false
        else if opts.dnsName ≠ [] then
          W.sslPolicy store (utf16StringFromStdString W opts.dnsName) = some 0
        else true

def winJudge : Judge where
  now := W.now
  trusts chain time server := W.certificateChain (chain.map der) time (requestedUsage server) = some 0
  named leaf name := match wideText name with
    | some wide => W.nameCheck (der leaf) wide
    | none => false

/-- The name is UTF-8, without a NUL. -/
def WideNameHolds (dnsName : List UInt8) : Prop := 0 ∉ dnsName ∧ utf8Decode dnsName ≠ none

def WinChecksWhen (chain : List X509CertificatePrivate) (opts : X509VerifierOptions) : Prop :=
  chain = [] ∨ (opts.time = 0 ∨ FileTimeHolds opts.time) ∧
    (opts.dnsName = [] ∨ WideNameHolds opts.dnsName)

variable {W}

theorem addCertToStore_eq {cert : X509CertificatePrivate} {d : List UInt8}
    (h : addCertToStore W cert = some d) : d = der cert := by
  unfold addCertToStore at h
  split_ifs at h
  exact (Option.some.inj h).symm

/-- What `VerifyChain` asks of the system. -/
theorem winVerifyChain_iff : winVerifyChain W chain opts = true ↔ chain ≠ [] ∧ ∃ store,
    createCertContextFromChain W chain = some store ∧
      W.certificateChain store
        (if opts.time ≠ 0 then (fileTimeFromStdTimeT opts.time).instant else W.now)
        (requestedUsage (opts.dnsName ≠ [])) = some 0 ∧
      (opts.dnsName ≠ [] →
        W.sslPolicy store (utf16StringFromStdString W opts.dnsName) = some 0) := by
  rw [winVerifyChain]
  constructor
  · intro h
    split at h
    · cases h
    rename_i hne
    split at h
    · cases h
    rename_i store hstore
    simp only at h
    split at h
    · cases h
    rename_i dwErrorStatus hstatus
    split at h
    · cases h
    rename_i h0
    rw [not_not] at h0
    subst h0
    refine ⟨fun hnil => hne (List.isEmpty_iff.mpr hnil), store, hstore, hstatus, fun hd => ?_⟩
    rw [if_pos hd] at h
    exact of_decide_eq_true h
  · rintro ⟨hne, store, hstore, hstatus, hpolicy⟩
    rw [if_neg (by rwa [List.isEmpty_iff]), hstore]
    simp only
    rw [hstatus]
    simp only
    rw [if_neg (by decide)]
    split
    · rename_i hd
      exact decide_eq_true (hpolicy hd)
    · rfl

/-- The time that the system is given is that of the options. -/
theorem win_time (h : opts.time = 0 ∨ FileTimeHolds opts.time) :
    (if opts.time ≠ 0 then (fileTimeFromStdTimeT opts.time).instant else W.now) = opts.at W.now := by
  unfold X509VerifierOptions.at
  by_cases h0 : opts.time = 0
  · rw [if_neg (not_not.mpr h0), if_pos h0]
  · rw [if_pos h0, if_neg h0]
    exact fileTime_instant.mpr (h.resolve_left h0)

theorem store_of_some {store : List (List UInt8)}
    (h : createCertContextFromChain W chain = some store) : store = chain.map der := by
  unfold createCertContextFromChain at h
  split_ifs at h
  exact mapM_der (fun _ _ => addCertToStore_eq) h

theorem win_checked (hw : WinChecksWhen chain opts) (h : winVerifyChain W chain opts = true) :
    (winJudge W).Checked chain opts := by
  obtain ⟨hne, store, hstore, htrust, hpolicy⟩ := winVerifyChain_iff.mp h
  obtain ⟨htime, hname⟩ := hw.resolve_left hne
  obtain ⟨leaf, rest, rfl⟩ := List.exists_cons_of_ne_nil hne
  obtain rfl := store_of_some hstore
  rw [win_time htime] at htrust
  refine ⟨leaf, rest, rfl, decide_eq_true htrust, fun hd => ?_⟩
  obtain ⟨hnul, hutf⟩ := hname.resolve_left hd
  have hp := hpolicy hd
  rw [utf16StringFromStdString, cString_eq_self.mpr hnul, W.multiByteToWideChar_eq _ hnul] at hp
  cases hwide : wideText opts.dnsName with
  | none =>
    rw [wideText, Option.map_eq_none_iff] at hwide
    exact absurd hwide hutf
  | some wide =>
    rw [hwide] at hp
    show (match wideText opts.dnsName with
      | some wide => W.nameCheck (der leaf) wide
      | none => false) = true
    rw [hwide]
    exact W.sslPolicy_named _ _ _ hp

/-- A system that trusts all chains at the instants in a set, and checks nothing but that a name has
no NUL. -/
def lenientWin (ok : ℚ → Bool) : WinCrypt where
  now := 0
  multiByteToWideChar := wideText
  createContext _ := true
  addToStore _ := true
  openStore := true
  certificateChain _ time _ := some (if ok time then 0 else 1)
  nameCheck _ name := 0 ∉ name
  sslPolicy _ name := some (if name.all (0 ∉ ·) then 0 else 1)
  multiByteToWideChar_eq _ _ := rfl
  sslPolicy_named _ _ name h := by
    simpa using h

theorem lenientWin_store {ok : ℚ → Bool} :
    createCertContextFromChain (lenientWin ok) chain = some (chain.map der) := by
  have hadd : addCertToStore (lenientWin ok) = fun cert => some (der cert) :=
    funext fun _ => if_pos ⟨rfl, rfl⟩
  rw [createCertContextFromChain, hadd, mapM_some_der]
  rfl

/-- What `UTF16StringFromStdString` makes has no NUL. -/
theorem zero_notMem_wide {ok : ℚ → Bool} {dnsName : List UInt8} :
    (utf16StringFromStdString (lenientWin ok) dnsName).all (0 ∉ ·) = true := by
  cases hw : utf16StringFromStdString (lenientWin ok) dnsName with
  | none => rfl
  | some wide =>
    obtain ⟨ps, hps, rfl⟩ := Option.map_eq_some_iff.mp hw
    rw [Option.all_some, decide_eq_true_eq, zero_mem_utf16Encode (utf8Decode_textOf hps)]
    intro h0
    have := List.mem_takeWhile_imp h0
    simp at this

theorem lenientWin_accepts {ok : ℚ → Bool} (hne : chain ≠ [])
    (hok : ok (if opts.time ≠ 0 then (fileTimeFromStdTimeT opts.time).instant else 0) = true) :
    winVerifyChain (lenientWin ok) chain opts = true := by
  refine winVerifyChain_iff.mpr ⟨hne, chain.map der, lenientWin_store, ?_, fun _ => ?_⟩
  · exact congrArg some (if_pos hok)
  · exact congrArg some (if_pos zero_notMem_wide)

/-- **Windows** checks everything if and only if it can pass on the time and the name. -/
theorem win_checks_iff : (∀ W, winVerifyChain W chain opts = true → (winJudge W).Checked chain opts) ↔
    WinChecksWhen chain opts := by
  constructor
  · intro h
    by_cases hne : chain = []
    · exact .inl hne
    refine .inr ⟨?_, ?_⟩
    · by_contra hno
      rw [not_or] at hno
      set used := (fileTimeFromStdTimeT opts.time).instant with hused
      obtain ⟨-, -, -, htrust, -⟩ := h (lenientWin (· = used))
        (lenientWin_accepts hne (by rw [if_pos hno.1]; exact decide_eq_true rfl))
      have hat : opts.at (winJudge (lenientWin (· = used))).now = opts.time := if_neg hno.1
      rw [hat] at htrust
      have hs : (if decide ((opts.time : ℚ) = used) then 0 else 1) = 0 :=
        Option.some.inj (of_decide_eq_true htrust)
      split at hs
      · rename_i heq
        exact hno.2 (fileTime_instant.mp (of_decide_eq_true heq).symm)
      · cases hs
    · by_contra hno
      rw [not_or] at hno
      obtain ⟨leaf, -, -, -, hnamed⟩ := h (lenientWin fun _ => true) (lenientWin_accepts hne rfl)
      have hn := hnamed hno.1
      simp only [winJudge] at hn
      split at hn
      · rename_i wide hwide
        obtain ⟨ps, hps, rfl⟩ := Option.map_eq_some_iff.mp hwide
        have h0 : 0 ∉ utf16Encode ps := of_decide_eq_true hn
        rw [zero_mem_utf16Encode (utf8Decode_textOf hps)] at h0
        exact hno.2 ⟨h0, by rw [hps]; nofun⟩
      · cases hn
  · intro hw W h
    exact win_checked hw h

/-! ### The Mac -/

/-- An `NSTimeInterval` is a double: the whole number of at most 53 bits nearest to `t`, or with more
bits one whose last place is even. -/
def nsTimeInterval (t : ℤ) : ℤ :=
  let place := 2 ^ (t.natAbs.log2 - 52)
  let q := t.natAbs / place
  let r := t.natAbs % place
  let q := if place < 2 * r ∨ 2 * r = place ∧ q % 2 = 1 then q + 1 else q
  t.sign * (q * place : ℕ)

inductive SecTrustResultType
  | invalid
  | proceed
  | confirm
  | deny
  | unspecified
  | recoverableTrustFailure
  | fatalTrustFailure
  | otherError
  deriving DecidableEq, Repr

/-- The user or the system trusts it. -/
def SecTrustResultType.ok (r : SecTrustResultType) : Prop := r = .proceed ∨ r = .unspecified

/-- A `SecPolicyRef`. -/
inductive SecPolicy
  | basicX509
  /-- `SecPolicyCreateSSL` of a server and a host name, as the text of an `NSString` -/
  | ssl (hostname : List ℕ)
  deriving DecidableEq, Repr

def SecPolicy.server : SecPolicy → Bool
  | .basicX509 => false
  | .ssl _ => true

/-- The functions of the system; `none` is a failure. -/
structure MacSecurity where
  now : ℚ
  /-- `initWithBytesNoCopy` of an `NSString` of UTF-8 -/
  nsString : List UInt8 → Option (List ℕ)
  /-- the policy is not null -/
  policyCreate : SecPolicy → Bool
  /-- `dataWithBytesNoCopy` -/
  nsData : List UInt8 → Bool
  /-- `SecCertificateCreateWithData` -/
  certificateCreate : List UInt8 → Bool
  /-- `SecTrustCreateWithCertificates` -/
  trustCreate : List (List UInt8) → SecPolicy → Bool
  /-- `SecTrustSetVerifyDate` -/
  setVerifyDate : ℚ → Bool
  /-- `SecTrustEvaluate`, at the date that was set or else the current time -/
  evaluate : List (List UInt8) → SecPolicy → ℚ → Option SecTrustResultType
  /-- the trust evaluation without the check of the name -/
  trusts : List (List UInt8) → ℚ → Bool → Bool
  nameCheck : List UInt8 → List ℕ → Bool
  /-- a text is what its bytes say, and null when they are not UTF-8 -/
  nsString_text : ∀ s text, nsString s = some text → utf8Decode s = some text
  evaluate_trusts : ∀ ders policy time r, evaluate ders policy time = some r → r.ok →
    trusts ders time policy.server = true
  evaluate_named : ∀ leaf ders hostname time r,
    evaluate (leaf :: ders) (.ssl hostname) time = some r → r.ok → nameCheck leaf hostname = true

variable (M : MacSecurity)

/-- The policy, if there is a text for its name. -/
def secPolicy (dnsName : List UInt8) : Option SecPolicy :=
  if dnsName ≠ [] then (M.nsString dnsName).map .ssl else some .basicX509

def secCertificate (cert : X509CertificatePrivate) : Option (List UInt8) :=
  if M.nsData (der cert) ∧ M.certificateCreate (der cert) then some (der cert) else none

instance (r : SecTrustResultType) : Decidable r.ok := inferInstanceAs (Decidable (_ ∨ _))

/-- `X509VerifierPrivate::VerifyChain` of `X509Verifier_mac.mm`. -/
def macVerifyChain (chain : List X509CertificatePrivate) (opts : X509VerifierOptions) : Bool :=
  if chain.isEmpty then false
  else match secPolicy M opts.dnsName with
    | none => false
    | some policy =>
      if M.policyCreate policy = false then false
      else match chain.mapM (secCertificate M) with
        | none => false
        | some secChain =>
          if M.trustCreate secChain policy = false then false
          else
            let ti := nsTimeInterval opts.time
            if 0 < opts.time ∧ M.setVerifyDate ti = false then false
            else match M.evaluate secChain policy (if 0 < opts.time then ti else M.now) with
              | none => false
              | some trustResult => trustResult.ok

def macJudge : Judge where
  now := M.now
  trusts chain time server := M.trusts (chain.map der) time server
  named leaf name := match utf8Decode name with
    | some hostname => M.nameCheck (der leaf) hostname
    | none => false

/-- The chain is rejected for its name, or the time is not negative and a double. -/
def MacChecksWhen (chain : List X509CertificatePrivate) (opts : X509VerifierOptions) : Prop :=
  chain = [] ∨ utf8Decode opts.dnsName = none ∨ 0 ≤ opts.time ∧ nsTimeInterval opts.time = opts.time

variable {M}

theorem secCertificate_eq {cert : X509CertificatePrivate} {d : List UInt8}
    (h : secCertificate M cert = some d) : d = der cert := by
  unfold secCertificate at h
  split_ifs at h
  exact (Option.some.inj h).symm

/-- What `VerifyChain` asks of the system. -/
theorem macVerifyChain_iff : macVerifyChain M chain opts = true ↔ chain ≠ [] ∧
    ∃ policy secChain trustResult, secPolicy M opts.dnsName = some policy ∧
      chain.mapM (secCertificate M) = some secChain ∧
      M.policyCreate policy = true ∧ M.trustCreate secChain policy = true ∧
      (0 < opts.time → M.setVerifyDate (nsTimeInterval opts.time) = true) ∧
      M.evaluate secChain policy (if 0 < opts.time then nsTimeInterval opts.time else M.now) =
        some trustResult ∧ trustResult.ok := by
  rw [macVerifyChain]
  constructor
  · intro h
    split at h
    · cases h
    rename_i hne
    split at h
    · cases h
    rename_i policy hpolicy
    split at h
    · cases h
    rename_i hcreate
    split at h
    · cases h
    rename_i secChain hchain
    split at h
    · cases h
    rename_i htrust
    simp only at h
    split at h
    · cases h
    rename_i hdate
    split at h
    · cases h
    rename_i trustResult hresult
    refine ⟨fun hnil => hne (List.isEmpty_iff.mpr hnil), policy, secChain, trustResult, hpolicy,
      hchain, by simpa using hcreate, by simpa using htrust, fun h0 => ?_, hresult,
      of_decide_eq_true h⟩
    by_contra hno
    exact hdate ⟨h0, by simpa using hno⟩
  · rintro ⟨hne, policy, secChain, trustResult, hpolicy, hchain, hcreate, htrust, hdate, hresult,
      hok⟩
    rw [if_neg (by rwa [List.isEmpty_iff]), hpolicy]
    simp only
    rw [if_neg (by rw [hcreate]; nofun), hchain]
    simp only
    rw [if_neg (by rw [htrust]; nofun), if_neg, hresult]
    · exact decide_eq_true hok
    · rintro ⟨h0, hno⟩
      rw [hdate h0] at hno
      cases hno

/-- The time that the system goes by is that of the options. -/
theorem mac_time (h0 : 0 ≤ opts.time) (hd : nsTimeInterval opts.time = opts.time) :
    (if 0 < opts.time then (nsTimeInterval opts.time : ℚ) else M.now) = opts.at M.now := by
  unfold X509VerifierOptions.at
  by_cases ht : opts.time = 0
  · rw [if_neg (by omega), if_pos ht]
  · rw [if_pos (by omega), if_neg ht, hd]

/-- Bytes that are not UTF-8 make no policy. -/
theorem secPolicy_utf8 {dnsName : List UInt8} {policy : SecPolicy}
    (h : secPolicy M dnsName = some policy) : utf8Decode dnsName ≠ none := by
  unfold secPolicy at h
  split at h
  · obtain ⟨hostname, htext, -⟩ := Option.map_eq_some_iff.mp h
    rw [M.nsString_text _ _ htext]
    exact Option.some_ne_none _
  · rename_i hd
    rw [not_not.mp hd]
    decide

theorem server_of_secPolicy {dnsName : List UInt8} {policy : SecPolicy}
    (h : secPolicy M dnsName = some policy) : policy.server = decide (dnsName ≠ []) := by
  unfold secPolicy at h
  split at h
  · rename_i hd
    obtain ⟨hostname, -, rfl⟩ := Option.map_eq_some_iff.mp h
    exact (decide_eq_true hd).symm
  · rename_i hd
    obtain rfl := Option.some.inj h
    exact (decide_eq_false hd).symm

theorem mac_checked (hw : MacChecksWhen chain opts) (h : macVerifyChain M chain opts = true) :
    (macJudge M).Checked chain opts := by
  obtain ⟨hne, policy, secChain, trustResult, hpolicy, hchain, -, -, -, hresult, hok⟩ :=
    macVerifyChain_iff.mp h
  obtain ⟨h0, hdouble⟩ := (hw.resolve_left hne).resolve_left (secPolicy_utf8 hpolicy)
  obtain ⟨leaf, rest, rfl⟩ := List.exists_cons_of_ne_nil hne
  obtain rfl := mapM_der (fun _ _ => secCertificate_eq) hchain
  rw [mac_time h0 hdouble] at hresult
  refine ⟨leaf, rest, rfl, ?_, fun hd => ?_⟩
  · have htrust := M.evaluate_trusts _ _ _ _ hresult hok
    rw [server_of_secPolicy hpolicy] at htrust
    exact htrust
  · rw [secPolicy, if_pos hd] at hpolicy
    obtain ⟨hostname, htext, rfl⟩ := Option.map_eq_some_iff.mp hpolicy
    show (match utf8Decode opts.dnsName with
      | some hostname => M.nameCheck (der leaf) hostname
      | none => false) = true
    rw [M.nsString_text _ _ htext]
    exact M.evaluate_named _ _ _ _ _ hresult hok

/-- A system that trusts all chains at one instant. -/
def lenientMac (now time : ℚ) : MacSecurity where
  now := now
  nsString := utf8Decode
  policyCreate _ := true
  nsData _ := true
  certificateCreate _ := true
  trustCreate _ _ := true
  setVerifyDate _ := true
  evaluate _ _ t := some (if t = time then .proceed else .deny)
  trusts _ t _ := t = time
  nameCheck _ _ := true
  nsString_text _ _ h := h
  evaluate_trusts ders policy t r h hr := by
    obtain rfl := Option.some.inj h
    split at hr
    · rename_i heq
      exact decide_eq_true heq
    · rcases hr with hr | hr <;> cases hr
  evaluate_named _ _ _ _ _ _ _ := rfl

theorem lenientMac_certificates {now time : ℚ} :
    chain.mapM (secCertificate (lenientMac now time)) = some (chain.map der) := by
  have hmake : secCertificate (lenientMac now time) = fun cert => some (der cert) :=
    funext fun _ => if_pos ⟨rfl, rfl⟩
  rw [hmake, mapM_some_der]

theorem lenientMac_secPolicy (now time : ℚ) {dnsName : List UInt8} (h : utf8Decode dnsName ≠ none) :
    ∃ policy, secPolicy (lenientMac now time) dnsName = some policy := by
  obtain ⟨hostname, htext⟩ := Option.ne_none_iff_exists'.mp h
  by_cases hd : dnsName = []
  · exact ⟨_, if_neg (not_not.mpr hd)⟩
  · exact ⟨_, (if_pos hd).trans (congrArg (Option.map _) htext)⟩

/-- **The Mac** checks everything if and only if it rejects the name or can pass on the time. -/
theorem mac_checks_iff : (∀ M, macVerifyChain M chain opts = true → (macJudge M).Checked chain opts) ↔
    MacChecksWhen chain opts := by
  constructor
  · intro h
    by_cases hne : chain = []
    · exact .inl hne
    by_cases hutf : utf8Decode opts.dnsName = none
    · exact .inr (.inl hutf)
    · refine .inr (.inr ?_)
      by_contra hno
      -- the clock shows another time than that of the options
      set now : ℚ := opts.time - 1 with hnow
      set used : ℚ := if 0 < opts.time then (nsTimeInterval opts.time : ℚ) else now with hused
      obtain ⟨policy, hpolicy⟩ := lenientMac_secPolicy now used hutf
      obtain ⟨leaf, rest, -, htrust, -⟩ := h (lenientMac now used)
        (macVerifyChain_iff.mpr ⟨hne, policy, chain.map der, .proceed, hpolicy,
          lenientMac_certificates, rfl, rfl, fun _ => rfl, congrArg some (if_pos rfl), .inl rfl⟩)
      have ht0 : opts.time ≠ 0 := by
        intro ht
        rw [ht] at hno
        exact hno ⟨le_rfl, rfl⟩
      have hat : opts.at (macJudge (lenientMac now used)).now = opts.time := if_neg ht0
      rw [hat] at htrust
      have heq : (opts.time : ℚ) = used := of_decide_eq_true htrust
      by_cases hpos : 0 < opts.time
      · rw [hused, if_pos hpos, Int.cast_inj] at heq
        exact hno ⟨hpos.le, heq.symm⟩
      · rw [hused, if_neg hpos, hnow] at heq
        linarith
  · intro hw M h
    exact mac_checked hw h

/-! ### All of them -/

inductive Backend
  /-- Unix and Android -/
  | pem
  | windows
  | mac
  deriving DecidableEq, Repr

/-- Whatever the system answers, the backend returns `true` only if everything was checked. -/
def Backend.Checks (b : Backend) (chain : List X509CertificatePrivate) (opts : X509VerifierOptions) :
    Prop :=
  match b with
  | .pem => ∀ S V, pemVerifyChain S V chain opts = true → (pemJudge S V).Checked chain opts
  | .windows => ∀ W, winVerifyChain W chain opts = true → (winJudge W).Checked chain opts
  | .mac => ∀ M, macVerifyChain M chain opts = true → (macJudge M).Checked chain opts

def Backend.ChecksWhen (b : Backend) (chain : List X509CertificatePrivate)
    (opts : X509VerifierOptions) : Prop :=
  match b with
  | .pem => True
  | .windows => WinChecksWhen chain opts
  | .mac => MacChecksWhen chain opts

/-- **The backends check the same thing**, exactly then. -/
theorem backend_checks_iff (b : Backend) (chain : List X509CertificatePrivate)
    (opts : X509VerifierOptions) : b.Checks chain opts ↔ b.ChecksWhen chain opts := by
  cases b with
  | pem =>
    refine iff_of_true ?_ trivial
    intro S V h
    exact pem_checked h
  | windows => exact win_checks_iff
  | mac => exact mac_checks_iff

/-- A chain of one certificate. -/
def oneChain : List X509CertificatePrivate :=
  [theCertificate ⟨[], [], none, none, none⟩ ⟨fun _ _ _ => none, fun _ => 0⟩]

/-- On Windows a name that is not UTF-8 is not checked, nor is what follows a NUL, and a time before
the year 1601 becomes one in the far future; on the Mac a time before the epoch is ignored. -/
theorem unchecked_accepted :
    ¬ Backend.Checks .windows oneChain ⟨[0xFF], 0⟩ ∧
      ¬ Backend.Checks .windows oneChain ⟨ascii "example.com" ++ 0 :: ascii ".other.com", 0⟩ ∧
      ¬ Backend.Checks .windows oneChain ⟨[], -20000000000⟩ ∧
      ¬ Backend.Checks .mac oneChain ⟨[], -1⟩ := by
  refine ⟨?_, ?_, ?_, ?_⟩
  · intro h
    obtain ⟨-, hname⟩ := (win_checks_iff.mp h).resolve_left nofun
    exact (hname.resolve_left nofun).2 (by decide)
  · intro h
    obtain ⟨-, hname⟩ := (win_checks_iff.mp h).resolve_left nofun
    exact (hname.resolve_left nofun).1 (by decide)
  · intro h
    obtain ⟨htime, -⟩ := (win_checks_iff.mp h).resolve_left nofun
    have h0 := (htime.resolve_left (by decide)).1
    exact absurd h0 (by decide)
  · intro h
    have hw := (mac_checks_iff.mp h).resolve_left nofun
    have h0 := (hw.resolve_left nofun).1
    exact absurd h0 (by decide)

end LibMumble.X509
