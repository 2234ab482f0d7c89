import LibMumble.Lib.Wildcard
import LibMumble.X509.Hostname

/-! # Host name expressions

What `HostnameExprMatch` does on vectors of components is substitution on the whole strings: each label
of the expression that is `*` is replaced by a label of the host name, everything else is the same up to
the case of its ASCII letters. -/

namespace LibMumble.X509

open Lib

variable {e h s : List UInt8}

/-- `A` to `Z` in lower case, and every other byte as it is. -/
def lower (s : List UInt8) : List UInt8 := s.map fun c => if 65 ≤ c ∧ c ≤ 90 then c + 32 else c

theorem map_toLower (s : List UInt8) : s.map toLower = lower s := by
  refine List.map_congr_left fun c _ => ?_
  have hshift : c - 65 + 97 = c + 32 := by
    rw [← UInt8.toNat_inj]
    simp only [UInt8.toNat_add, UInt8.toNat_sub, UInt8.reduceToNat]
    omega
  rw [toLower, hshift]

theorem toLower_eq_dot (c : UInt8) : toLower c = 46 ↔ c = 46 := toLower_eq_iff (by decide)

/-- The components are the labels of the lower-case string. -/
theorem lowerCaseHostnameVector_lower (s : List UInt8) :
    lowerCaseHostnameVector s = (lower s).splitOn 46 := by
  rw [lowerCaseHostnameVector_eq, ← splitOn_map toLower_eq_dot, map_toLower]

/-- The loop over the components compares them one by one. -/
theorem matchComponents_iff {vhostexpr vhostname : List (List UInt8)}
    (hlen : vhostexpr.length = vhostname.length) :
    matchComponents vhostexpr vhostname = true ↔
      List.Forall₂ (fun cexpr chost => cexpr = [42] ∨ cexpr = chost) vhostexpr vhostname := by
  induction vhostexpr generalizing vhostname with
  | nil =>
    obtain rfl := List.length_eq_zero_iff.mp hlen.symm
    simp [matchComponents]
  | cons cexpr vhostexpr ih =>
    rcases vhostname with _ | ⟨chost, vhostname⟩
    · simp at hlen
    have hrest := @ih vhostname (by simpa using hlen)
    have hstar : ascii "*" = [42] := rfl
    rw [matchComponents, List.forall₂_cons, hstar]
    by_cases h1 : cexpr = [42]
    · rw [if_pos h1, hrest]
      simp [h1]
    by_cases h2 : cexpr = chost
    · rw [if_neg h1, if_neg (not_not.mpr h2), hrest]
      simp [h2]
    · rw [if_neg h1, if_pos h2]
      simp [h1, h2]

/-- Two vectors of different lengths do not match. -/
theorem hostnameExprMatch_forall₂ : hostnameExprMatch e h = true ↔
    List.Forall₂ (fun cexpr chost => cexpr = [42] ∨ cexpr = chost) ((lower e).splitOn 46)
      ((lower h).splitOn 46) := by
  rw [hostnameExprMatch_iff, ← lowerCaseHostnameVector_lower, ← lowerCaseHostnameVector_lower]
  constructor
  · rintro ⟨hlen, hmatch⟩
    exact (matchComponents_iff hlen).mp hmatch
  · intro hall
    exact ⟨hall.length_eq, (matchComponents_iff hall.length_eq).mpr hall⟩

/-- A label is empty in both cases or in none. -/
theorem nil_mem_splitOn_lower : [] ∈ (lower h).splitOn 46 ↔ [] ∈ h.splitOn 46 := by
  rw [← map_toLower, splitOn_map toLower_eq_dot, List.mem_map]
  constructor
  · rintro ⟨l, hl, hnil⟩
    rwa [← List.map_eq_nil_iff.mp hnil]
  · exact fun hmem => ⟨[], hmem, rfl⟩

/-- **Host name matching is substitution of whole labels**, ignoring the case of ASCII letters. -/
theorem hostnameExprMatch_substituted :
    (∀ s, (lowerCaseHostnameVector s).length = s.count 46 + 1 ∧
      (∀ component ∈ lowerCaseHostnameVector s, 46 ∉ component) ∧
      [46].intercalate (lowerCaseHostnameVector s) = lower s) ∧
    ∀ e h, hostnameExprMatch e h = true ↔
      Substituted 46 42 ([] ∉ h.splitOn 46) (lower e) (lower h) := by
  refine ⟨fun s => ⟨?_, ?_, ?_⟩, fun e h => ?_⟩
  · rw [lowerCaseHostnameVector_eq, List.length_map, length_splitOn]
  · rw [lowerCaseHostnameVector_lower]
    exact fun component hmem => notMem_of_mem_splitOn hmem
  · rw [lowerCaseHostnameVector_lower, List.intercalate_splitOn]
  · rw [hostnameExprMatch_forall₂, substituted_iff (mt nil_mem_splitOn_lower.mp)]

example : hostnameExprMatch (ascii "*.Example.com") (ascii "WWW.example.com") = true := by decide

end LibMumble.X509
