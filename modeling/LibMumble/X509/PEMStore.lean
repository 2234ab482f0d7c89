import LibMumble.ByteArray
import LibMumble.Lib.Ascii
import Mathlib.Data.List.ReduceOption

/-! # `AddPEM`

The certificates of a buffer are read one by one and added to the store. The reader gives the null
pointer at a block that it cannot parse and at the end alike, and the loop has no other exit, so that
`AddPEM` says `false` of every buffer. What it adds is right. -/

namespace LibMumble.X509

open Lib

/-- How OpenSSL reads certificates in PEM. -/
structure PEM (Cert : Type) where
  /-- the next block, as the certificate if it can be parsed, and what follows the block -/
  next : List UInt8 → Option (Option Cert × List UInt8)
  next_lt : ∀ {mem b mem'}, next mem = some (b, mem') → mem'.length < mem.length

variable {Cert : Type} (D : PEM Cert)

/-- `PEM_read_bio_X509_AUX`. -/
def PEM.read (mem : List UInt8) : Option (Cert × List UInt8) :=
  match D.next mem with
  | some (some x, mem') => some (x, mem')
  | _ => none

variable {D} {mem mem' : List UInt8} {x : Cert}

theorem PEM.next_of_read (h : D.read mem = some (x, mem')) : D.next mem = some (some x, mem') := by
  unfold PEM.read at h
  split at h
  · rename_i hnext
    obtain ⟨rfl, rfl⟩ := Prod.mk.inj (Option.some.inj h)
    exact hnext
  · cases h

variable (D)

/-- The loop of `AddPEM`. -/
def addPEMFrom (store : List Cert) (mem : List UInt8) : Bool × List Cert :=
  match _h : D.read mem with
  | none => (false, store)
  | some (x, mem') => addPEMFrom (store ++ [x]) mem'
termination_by mem.length
decreasing_by exact D.next_lt (PEM.next_of_read _h)

/-- `X509PEMVerifier::AddPEM`, and the store afterwards. -/
def addPEM (store : List Cert) (buf : ByteArray) : Bool × List Cert :=
  -- for a null array there is no `BIO`, and reading from none fails as reading no bytes does
  addPEMFrom D store buf.content

/-! ### What is in a buffer -/

/-- All blocks of a buffer. -/
def PEM.blocks (mem : List UInt8) : List (Option Cert) :=
  match _h : D.next mem with
  | none => []
  | some (b, mem') => b :: PEM.blocks mem'
termination_by mem.length
decreasing_by exact D.next_lt _h

/-- The certificates before the first block that cannot be parsed. -/
def goodPrefix (bs : List (Option Cert)) : List Cert := (bs.takeWhile (·.isSome)).reduceOption

variable {D}

theorem PEM.blocks_end (h : D.next mem = none) : D.blocks mem = [] := by
  rw [PEM.blocks]
  split
  · rfl
  · rename_i hnext
    rw [h] at hnext
    cases hnext

theorem PEM.blocks_next {b : Option Cert} (h : D.next mem = some (b, mem')) :
    D.blocks mem = b :: D.blocks mem' := by
  rw [PEM.blocks]
  split
  · rename_i hnext
    rw [h] at hnext
    cases hnext
  · rename_i hnext
    rw [h] at hnext
    obtain ⟨rfl, rfl⟩ := Prod.mk.inj (Option.some.inj hnext)
    rfl

/-- No bytes have no blocks. -/
theorem PEM.blocks_nil : D.blocks [] = [] := by
  rcases hnext : D.next [] with _ | ⟨b, mem'⟩
  · exact PEM.blocks_end hnext
  · exact absurd (D.next_lt hnext) (Nat.not_lt_zero _)

@[simp] theorem goodPrefix_nil : goodPrefix ([] : List (Option Cert)) = [] := rfl

@[simp] theorem goodPrefix_none (bs : List (Option Cert)) : goodPrefix (none :: bs) = [] := rfl

@[simp] theorem goodPrefix_some (bs : List (Option Cert)) :
    goodPrefix (some x :: bs) = x :: goodPrefix bs := rfl

/-- The read fails at the end and at a bad block, where the good prefix is over. -/
theorem PEM.goodPrefix_of_read_none (h : D.read mem = none) : goodPrefix (D.blocks mem) = [] := by
  unfold PEM.read at h
  rcases hnext : D.next mem with _ | ⟨_ | x, mem'⟩
  · rw [PEM.blocks_end hnext, goodPrefix_nil]
  · rw [PEM.blocks_next hnext, goodPrefix_none]
  · rw [hnext] at h
    cases h

/-- **The loop adds the good prefix**, and says `false`. -/
theorem addPEMFrom_eq (store : List Cert) (mem : List UInt8) :
    addPEMFrom D store mem = (false, store ++ goodPrefix (D.blocks mem)) := by
  fun_induction addPEMFrom D store mem with
  | case1 store mem h => rw [PEM.goodPrefix_of_read_none h, List.append_nil]
  | case2 store mem x mem' h ih =>
    rw [ih, PEM.blocks_next (PEM.next_of_read h), goodPrefix_some, List.append_assoc]
    rfl

theorem addPEM_eq (store : List Cert) (buf : ByteArray) :
    addPEM D store buf = (false, store ++ goodPrefix (D.blocks buf.content)) := addPEMFrom_eq _ _

/-- **`AddPEM` adds exactly the good prefix and reports whether that is everything**, if and only if it
is not everything. -/
theorem addPEM_iff (D : PEM Cert) (store : List Cert) (buf : ByteArray) :
    ((addPEM D store buf).2 = store ++ goodPrefix (D.blocks buf.content) ∧
      ((addPEM D store buf).1 = true ↔ ∀ b ∈ D.blocks buf.content, b.isSome)) ↔
    none ∈ D.blocks buf.content := by
  rw [addPEM_eq]
  constructor
  · rintro ⟨-, hiff⟩
    by_contra hnone
    refine Bool.false_ne_true (hiff.mpr fun b hb => ?_)
    rcases b with _ | x
    · exact absurd hb hnone
    · rfl
  · intro hnone
    refine ⟨rfl, iff_of_false Bool.false_ne_true fun hall => ?_⟩
    exact Bool.false_ne_true (hall none hnone)

/-! ### An example -/

/-- The text before the first occurrence of a marker, and the text after it. -/
def breakAt (marker : List UInt8) : List UInt8 → Option (List UInt8 × List UInt8)
  | [] => none
  | b :: text =>
    if marker <+: b :: text then some ([], (b :: text).drop marker.length)
    else (breakAt marker text).map fun (before, after) => (b :: before, after)

theorem length_of_breakAt {marker text before after : List UInt8} (hm : marker ≠ [])
    (h : breakAt marker text = some (before, after)) : after.length < text.length := by
  induction text generalizing before with
  | nil => cases h
  | cons b text ih =>
    unfold breakAt at h
    split_ifs at h
    · obtain ⟨-, rfl⟩ := Prod.mk.inj (Option.some.inj h)
      have hpos : 0 < marker.length := List.length_pos_iff.mpr hm
      simp only [List.length_drop, List.length_cons]
      omega
    · obtain ⟨⟨before', after'⟩, hbreak, heq⟩ := Option.map_eq_some_iff.mp h
      obtain ⟨-, rfl⟩ := Prod.mk.inj heq
      have := ih hbreak
      simp only [List.length_cons]
      omega

def beginMarker : List UInt8 := ascii "-----BEGIN CERTIFICATE-----\n"

def endMarker : List UInt8 := ascii "-----END CERTIFICATE-----\n"

/-- A block is what stands between two markers, and it can be parsed if all its bytes are letters and
newlines. -/
def textPEM : PEM (List UInt8) where
  next mem := do
    let (_, block) ← breakAt beginMarker mem
    match breakAt endMarker block with
    | none => return (none, [])
    | some (body, rest) =>
      return (if body.all fun b => (65 ≤ b ∧ b ≤ 90) ∨ b = 10 then some body else none, rest)
  next_lt := by
    intro mem b mem' h
    obtain ⟨⟨before, block⟩, hbegin, h⟩ := Option.bind_eq_some_iff.mp h
    have hlt := length_of_breakAt (by decide) hbegin
    dsimp only at h
    split at h
    · obtain ⟨-, rfl⟩ := Prod.mk.inj (Option.some.inj h)
      exact Nat.zero_lt_of_lt hlt
    · rename_i hend
      obtain ⟨-, rfl⟩ := Prod.mk.inj (Option.some.inj h)
      exact (length_of_breakAt (by decide) hend).trans hlt

/-- The text of a block. -/
def blockText (body : List UInt8) : List UInt8 := beginMarker ++ body ++ endMarker

theorem blocks_blockText : textPEM.blocks (blockText (ascii "MIIB\n")) = [some (ascii "MIIB\n")] := by
  have hnext : textPEM.next (blockText (ascii "MIIB\n")) = some (some (ascii "MIIB\n"), []) := by
    decide
  rw [PEM.blocks_next hnext, PEM.blocks_nil]

/-- A buffer with one certificate: it is added, and `AddPEM` says that it was not. -/
theorem addPEM_says_false :
    textPEM.blocks (blockText (ascii "MIIB\n")) = [some (ascii "MIIB\n")] ∧
    addPEM textPEM [] ⟨some (blockText (ascii "MIIB\n")), 59, 59⟩ = (false, [ascii "MIIB\n"]) := by
  have hcontent : ByteArray.content ⟨some (blockText (ascii "MIIB\n")), 59, 59⟩ =
      blockText (ascii "MIIB\n") := by
    decide
  refine ⟨blocks_blockText, ?_⟩
  rw [addPEM_eq, hcontent, blocks_blockText]
  rfl

end LibMumble.X509
