import LibMumble.X509.Certificate
import Mathlib.Data.List.Infix

/-! # Host names

`VerifyHostname` asks the DNS names that were extracted, or the common name if none was. An entry of
the alternative names that converts to the empty string is not extracted, and the common name is the
empty string when there is none, which matches the empty host name. What a certificate presents is
`Identified`; `VerifyHostname` asks for no less exactly when `IdentifiedWhen` holds. -/

namespace LibMumble.X509

open Lib X509CertificatePrivate

variable {S : OpenSSL} {P : Libc} {c : X509CertificatePrivate} {s h : List UInt8}

/-! ### Matching -/

/-- The lower-case ASCII letter of an upper-case one. -/
def toLower (c : UInt8) : UInt8 := if 65 ≤ c ∧ c ≤ 90 then c - 65 + 97 else c

/-- The loop of `LowerCaseHostnameVector`, and what follows it. -/
def lowerCaseHostnameFrom (components : List (List UInt8)) (lower : List UInt8) :
    List UInt8 → List (List UInt8)
  | [] => components ++ [lower]
  | c :: rest =>
    if c = 46 then lowerCaseHostnameFrom (components ++ [lower]) [] rest
    else lowerCaseHostnameFrom components (lower ++ [toLower c]) rest

def lowerCaseHostnameVector (hostname : List UInt8) : List (List UInt8) :=
  lowerCaseHostnameFrom [] [] hostname

/-- The loop of `HostnameExprMatch`, over two vectors of one length. -/
def matchComponents : List (List UInt8) → List (List UInt8) → Bool
  | cexpr :: vhostexpr, chost :: vhostname =>
    if cexpr = ascii "*" then matchComponents vhostexpr vhostname
    else if cexpr ≠ chost then false
    else matchComponents vhostexpr vhostname
  | _, _ => true

def hostnameExprMatch (hostexpr hostname : List UInt8) : Bool :=
  let vhostexpr := lowerCaseHostnameVector hostexpr
  let vhostname := lowerCaseHostnameVector hostname
  if vhostexpr.length = 0 ∨ vhostname.length = 0 then false
  else if vhostexpr.length ≠ vhostname.length then false
  else matchComponents vhostexpr vhostname

def verifyHostname (cert : X509CertificatePrivate) (hostname : List UInt8) : Bool :=
  if 0 < cert.dnsNames.length then
    cert.dnsNames.any fun dnsName => hostnameExprMatch dnsName hostname
  else hostnameExprMatch cert.commonName hostname

/-! ### Components -/

theorem lowerCaseHostnameFrom_eq (components : List (List UInt8)) (lower s : List UInt8) :
    lowerCaseHostnameFrom components lower s =
      components ++ ((s.splitOn 46).map (List.map toLower)).modifyHead (lower ++ ·) := by
  induction s generalizing components lower with
  | nil => simp [lowerCaseHostnameFrom]
  | cons c rest ih =>
    -- the first component of the rest goes on with `lower`
    obtain ⟨first, others, hsplit⟩ := List.exists_cons_of_ne_nil (List.splitOn_ne_nil 46 rest)
    rw [lowerCaseHostnameFrom, List.splitOn_cons_eq_if_modifyHead]
    by_cases hc : c = 46
    · rw [if_pos hc, if_pos (by rw [hc]; rfl), ih, hsplit]
      simp
    · rw [if_neg hc, if_neg (by simpa using hc), ih, hsplit]
      simp

/-- The components are what stands between the dots, in lower case. -/
theorem lowerCaseHostnameVector_eq (s : List UInt8) :
    lowerCaseHostnameVector s = (s.splitOn 46).map (List.map toLower) := by
  obtain ⟨first, others, hsplit⟩ := List.exists_cons_of_ne_nil (List.splitOn_ne_nil 46 s)
  rw [lowerCaseHostnameVector, lowerCaseHostnameFrom_eq, hsplit]
  rfl

/-- So there is always one, and the first test of `HostnameExprMatch` never fails. -/
theorem lowerCaseHostnameVector_ne_nil (s : List UInt8) : lowerCaseHostnameVector s ≠ [] := by
  rw [lowerCaseHostnameVector_eq, Ne, List.map_eq_nil_iff]
  exact List.splitOn_ne_nil _ _

theorem hostnameExprMatch_iff {e : List UInt8} : hostnameExprMatch e h = true ↔
    (lowerCaseHostnameVector e).length = (lowerCaseHostnameVector h).length ∧
      matchComponents (lowerCaseHostnameVector e) (lowerCaseHostnameVector h) = true := by
  have h1 := List.length_pos_iff.mpr (lowerCaseHostnameVector_ne_nil e)
  have h2 := List.length_pos_iff.mpr (lowerCaseHostnameVector_ne_nil h)
  rw [hostnameExprMatch, if_neg (by omega)]
  split
  · rename_i hne
    simp [hne]
  · rename_i heq
    rw [not_not] at heq
    simp [heq]

/-- Only letters change, and into letters. -/
theorem toLower_eq_iff {b c : UInt8} (hc : c < 65) : toLower b = c ↔ b = c := by
  unfold toLower
  split_ifs with hb
  · simp only [← UInt8.toNat_inj, UInt8.le_iff_toNat_le, UInt8.lt_iff_toNat_lt] at hb hc ⊢
    simp only [UInt8.toNat_add, UInt8.toNat_sub, UInt8.reduceToNat] at hb hc ⊢
    omega
  · rfl

theorem map_toLower_eq_star : s.map toLower = ascii "*" ↔ s = ascii "*" := by
  have hstar : ascii "*" = [42] := rfl
  rw [hstar, List.map_eq_singleton_iff]
  constructor
  · rintro ⟨b, rfl, hb⟩
    rw [(toLower_eq_iff (by decide)).mp hb]
  · rintro rfl
    exact ⟨42, rfl, rfl⟩

/-- A single component is the whole string. -/
theorem lowerCaseHostnameVector_of_length (hlen : (lowerCaseHostnameVector s).length = 1) :
    lowerCaseHostnameVector s = [s.map toLower] := by
  rw [lowerCaseHostnameVector_eq, List.length_map] at hlen
  obtain ⟨x, hx⟩ := List.length_eq_one_iff.mp hlen
  have hjoin : [46].intercalate (s.splitOn 46) = s := List.intercalate_splitOn 46
  rw [hx, List.intercalate_singleton] at hjoin
  rw [lowerCaseHostnameVector_eq, hx, List.map_singleton, hjoin]

/-- Two expressions match the empty host name: the empty one and the wild card. -/
theorem hostnameExprMatch_nil {e : List UInt8} :
    hostnameExprMatch e [] = true ↔ e = [] ∨ e = ascii "*" := by
  have hnil : lowerCaseHostnameVector [] = [[]] := rfl
  rw [hostnameExprMatch_iff, hnil]
  constructor
  · rintro ⟨hlen, hmatch⟩
    rw [lowerCaseHostnameVector_of_length hlen, matchComponents] at hmatch
    split_ifs at hmatch with hs hn
    · exact .inr (map_toLower_eq_star.mp hs)
    · rw [not_not] at hn
      exact .inl (List.map_eq_nil_iff.mp hn)
  · rintro (rfl | rfl)
    · decide
    · decide

/-- The empty expression matches the empty host name only. -/
theorem nil_hostnameExprMatch (hm : hostnameExprMatch [] h = true) : h = [] := by
  have hnil : lowerCaseHostnameVector [] = [[]] := rfl
  rw [hostnameExprMatch_iff, hnil] at hm
  obtain ⟨hlen, hmatch⟩ := hm
  rw [lowerCaseHostnameVector_of_length hlen.symm, matchComponents] at hmatch
  split_ifs at hmatch with hs hn
  · cases hs
  · rw [not_not] at hn
    exact List.map_eq_nil_iff.mp hn.symm

/-! ### What a certificate presents -/

/-- The `dNSName` entries of the certificate. -/
def sanEntries (S : OpenSSL) (c : X509CertificatePrivate) : List ASN1String :=
  match decoded S c with
  | some x509 => dnsEntries x509
  | none => []

/-- The common names in a name. -/
def commonNames (S : OpenSSL) (name : X509Name) : List (List UInt8) :=
  name.filterMap fun ne => match ne with
    | some ⟨some .commonName, some val⟩ => S.asn1StringToUTF8 val
    | _ => none

def subjectCNs (S : OpenSSL) (c : X509CertificatePrivate) : List (List UInt8) :=
  match decoded S c with
  | some x509 => commonNames S x509.subject
  | none => []

/-- The certificate presents the host name. -/
def Identified (S : OpenSSL) (c : X509CertificatePrivate) (h : List UInt8) : Prop :=
  (∃ ia5 ∈ sanEntries S c, ∃ dns, S.asn1StringToUTF8 ia5 = some dns ∧ dns ≠ [] ∧
      hostnameExprMatch dns h = true) ∨
    sanEntries S c = [] ∧ ∃ cn ∈ subjectCNs S c, cn ≠ [] ∧ hostnameExprMatch cn h = true

theorem stringFromASN1String_eq {str : ASN1String} (hs : s ≠ []) :
    stringFromASN1String S str = s ↔ S.asn1StringToUTF8 str = some s := by
  unfold stringFromASN1String
  split
  · rename_i out hout
    rw [hout, Option.some.injEq]
  · rename_i hnone
    rw [hnone]
    exact ⟨fun hn => absurd hn.symm hs, nofun⟩

/-- The DNS names that are extracted are the entries that convert to something. -/
theorem dnsNames_of_made (hc : Made S P c) :
    c.dnsNames = ((sanEntries S c).map (stringFromASN1String S)).filter (· ≠ []) := by
  obtain ⟨nb, na, cert, pkey, rfl⟩ := made_eq hc
  cases hx : S.d2iX509 cert.content with
  | none =>
    rw [fromRawDERData_none hx, sanEntries, decoded, hx]
    rfl
  | some x509 =>
    have heq := @fromRawDERData_some S P nb na cert pkey _ hx
    rw [heq, sanEntries, decoded, hx]
    rfl

theorem mem_dnsNames (hc : Made S P c) : s ∈ c.dnsNames ↔
    s ≠ [] ∧ ∃ ia5 ∈ sanEntries S c, S.asn1StringToUTF8 ia5 = some s := by
  rw [dnsNames_of_made hc, List.mem_filter, List.mem_map, decide_eq_true_eq, and_comm]
  refine and_congr_right fun hs => exists_congr fun ia5 => and_congr_right fun _ => ?_
  exact stringFromASN1String_eq hs

/-! ### The common name -/

/-- An attribute type is called `CN` only if it is the common name. -/
theorem eq_commonName {obj : DNAttributeType}
    (ho : stringFromDNAttributeType S obj = ascii "CN") : obj = .commonName := by
  unfold stringFromDNAttributeType at ho
  split at ho
  · exact absurd ho (by decide)
  · exact S.shortName_inj (ho.trans S.shortName_commonName.symm)

/-- What `ParseX509Name` has under `CN` is a common name in the name. -/
theorem mem_commonNames {name : X509Name} {items : Items} {cn : List UInt8}
    (hl : (parseX509NameFrom S items name).lookup (ascii "CN") = some cn) :
    items.lookup (ascii "CN") = some cn ∨ cn ≠ [] ∧ cn ∈ commonNames S name := by
  induction name generalizing items with
  | nil => exact .inl hl
  | cons ne rest ih =>
    have hrest : cn ≠ [] ∧ cn ∈ commonNames S rest → cn ≠ [] ∧ cn ∈ commonNames S (ne :: rest) := by
      rintro ⟨hne, hm⟩
      refine ⟨hne, ?_⟩
      rw [commonNames, List.filterMap_cons]
      split
      · exact hm
      · exact List.mem_cons_of_mem _ hm
    cases ne with
    | none => cases hl
    | some ne =>
      obtain ⟨object, data⟩ := ne
      cases object with
      | none => cases hl
      | some obj =>
        cases data with
        | none => cases hl
        | some val =>
          by_cases h1 : stringFromDNAttributeType S obj = []
          · simp only [parseX509NameFrom, if_pos h1] at hl
            cases hl
          by_cases h2 : stringFromASN1String S val = []
          · simp only [parseX509NameFrom, if_neg h1, if_pos h2] at hl
            cases hl
          simp only [parseX509NameFrom, if_neg h1, if_neg h2] at hl
          rcases ih hl with hins | hm
          · rw [Items.lookup_insert, Option.or_eq_some_iff, Option.ite_none_right_eq_some] at hins
            rcases hins with hit | ⟨-, hk, hv⟩
            · exact .inl hit
            · -- the entry is the one that was inserted
              obtain rfl := eq_commonName hk.symm
              obtain rfl := Option.some.inj hv
              refine .inr ⟨h2, ?_⟩
              rw [commonNames, List.filterMap_cons]
              simp only [(stringFromASN1String_eq h2).mp rfl]
              exact List.mem_cons_self
          · exact .inr (hrest hm)

/-- A common name that is found is there. -/
theorem commonName_mem (hc : Made S P c) (hne : c.commonName ≠ []) :
    c.commonName ∈ subjectCNs S c := by
  obtain ⟨nb, na, cert, pkey, rfl⟩ := made_eq hc
  cases hx : S.d2iX509 cert.content with
  | none =>
    rw [fromRawDERData_none hx] at hne
    exact absurd rfl hne
  | some x509 =>
    have heq := @fromRawDERData_some S P nb na cert pkey _ hx
    rw [heq] at hne ⊢
    rw [subjectCNs, decoded, hx]
    unfold commonName at hne ⊢
    cases hl : (parseX509Name S x509.subject).lookup (ascii "CN") with
    | none =>
      rw [hl] at hne
      exact absurd rfl hne
    | some cn =>
      rcases mem_commonNames hl with hnil | ⟨-, hm⟩
      · cases hnil
      · simpa [hl] using hm

/-! ### The identity that is asked for -/

/-- When nothing is accepted that the certificate does not present: an entry of the alternative names
can be used, or the common name (the empty string, if none is found) does not match, or there is no
entry at all and a common name is found. If none is found then only a wild card that the subject
presents all the same could match. -/
def IdentifiedWhen (S : OpenSSL) (c : X509CertificatePrivate) (h : List UInt8) : Prop :=
  (∃ ia5 ∈ sanEntries S c, stringFromASN1String S ia5 ≠ []) ∨
    hostnameExprMatch c.commonName h = false ∨
    sanEntries S c = [] ∧ (c.commonName ≠ [] ∨ ascii "*" ∈ subjectCNs S c)

theorem dnsNames_eq_nil (hc : Made S P c) :
    c.dnsNames = [] ↔ ¬ ∃ ia5 ∈ sanEntries S c, stringFromASN1String S ia5 ≠ [] := by
  rw [dnsNames_of_made hc, List.filter_eq_nil_iff]
  simp

/-- A certificate of which only the identity matters. -/
def withIdentity (subject : X509Name) (names : List GeneralName) : OpenSSLX509 :=
  ⟨subject, [], none, none, some names⟩

def cnEntry (cn : List UInt8) : Option X509NameEntry := some ⟨some .commonName, some ⟨12, cn⟩⟩

end LibMumble.X509
