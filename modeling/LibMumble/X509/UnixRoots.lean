import LibMumble.X509.CertificateFiles
import LibMumble.X509.PEMStore

/-! # The roots of Unix

Without the OpenSSL of the system the roots are read from a bundle, the first one of a list that has any
bytes in it. -/

namespace LibMumble.X509

open Lib LibMumble.ByteArray

/-- The local `bundles`, of Debian and Ubuntu. -/
def bundles : List (List UInt8) := [ascii "/etc/ssl/certs/ca-certificates.crt"]

section Functions

variable {Cert : Type} (fs : FileSystem) (D : PEM Cert) (heap junk : ℕ → UInt8)

/-- The loop over the bundles. -/
def readBundles (store : List Cert) : List (List UInt8) → Except Fault (List Cert)
  | [] => .ok store
  | fn :: fns => do
    let bundle ← readPemBundle fs heap junk fn
    if 0 < bundle.length then return (addPEM D store bundle).2 else readBundles store fns

/-- `X509VerifierPrivate::X509VerifierPrivate`, which gives the store. -/
def readUnixRoots : Except Fault (List Cert) := readBundles fs D heap junk [] bundles

end Functions

variable {Cert : Type} {fs : FileSystem} {D : PEM Cert} {heap junk : ℕ → UInt8}

/-- The first bundle with something in it. -/
def firstBundle (fs : FileSystem) (fns : List (List UInt8)) : List UInt8 :=
  ((fns.map fun fn => (fs.file fn).getD []).find? (· ≠ [])).getD []

/-- **A list of bundles gives the certificates of the first one**, up to its first bad block. -/
theorem readBundles_eq {fns : List (List UInt8)} (store : List Cert)
    (h : ∀ fn ∈ fns, ((fs.file fn).getD []).length < 2 ^ 31) : readBundles fs D heap junk store fns =
      .ok (store ++ goodPrefix (D.blocks (firstBundle fs fns))) := by
  induction fns with
  | nil =>
    have hnil : firstBundle fs [] = [] := rfl
    rw [readBundles, hnil, PEM.blocks_nil, goodPrefix_nil, List.append_nil]
  | cons fn fns ih =>
    obtain ⟨hfn, hfns⟩ := List.forall_mem_cons.mp h
    obtain ⟨bundle, hread, hw, hv⟩ := @readFile_gives heap junk (fs.file fn) hfn
    have hread' : readPemBundle fs heap junk fn = .ok bundle := hread
    have hcontent : bundle.content = (fs.file fn).getD [] := by
      rw [← bytes_value, hv, bytes_fileValue]
    have hpos : 0 < bundle.length ↔ (fs.file fn).getD [] ≠ [] := by
      rw [← hcontent]
      exact hw.content_ne_nil.symm
    simp only [readBundles, hread', bind, Except.bind]
    by_cases hne : (fs.file fn).getD [] = []
    · have hlater : firstBundle fs (fn :: fns) = firstBundle fs fns := by
        simp [firstBundle, hne]
      rw [if_neg (mt hpos.mp (not_not.mpr hne)), ih hfns, hlater]
    · have hfirst : firstBundle fs (fn :: fns) = (fs.file fn).getD [] := by
        simp [firstBundle, hne]
      rw [if_pos (hpos.mpr hne), addPEM_eq, hcontent, hfirst]
      rfl

/-- **The roots of Unix** are the certificates of the bundle. -/
theorem readUnixRoots_eq (h : ∀ fn ∈ bundles, ((fs.file fn).getD []).length < 2 ^ 31) :
    readUnixRoots fs D heap junk = .ok (goodPrefix (D.blocks (firstBundle fs bundles))) := by
  rw [readUnixRoots, readBundles_eq [] h, List.nil_append]

end LibMumble.X509
