import LibMumble.ByteArray
import LibMumble.Lib.Refinement
import Mathlib.Logic.Function.Basic

/-! # Programs over `ByteArray`s

The remaining methods of the class, and programs that use all of them on variables. A method that
takes a reference, as `Append` does, names the variable, and what it reads of it after a write to its
own members is read from the variables as they are then: so `b.Append(b)` is covered. Memory that
nobody has initialized is an argument of the operation that allocates it. -/

namespace LibMumble.ByteArray

open Lib

/-! ### Memory -/

/-- `realloc(buf, n)`: the bytes of the old block are kept as far as they fit. -/
def realloc (junk : ℕ → UInt8) (buf : Option (List UInt8)) (n : ℤ) : Except Fault (List UInt8) :=
  if n < 0 then .error .allocation
  else
    let old := (buf.getD []).take n.toNat
    .ok (old ++ (List.range (n.toNat - old.length)).map junk)

/-- `memcpy(dst + off, src, n)` of the `n` bytes of `src`. -/
def writeBlock (dst : List UInt8) (off : ℤ) (src : List UInt8) : Except Fault (List UInt8) :=
  if 0 ≤ off ∧ off + src.length ≤ dst.length then
    .ok (dst.take off.toNat ++ src ++ dst.drop (off.toNat + src.length))
  else .error .outOfBounds

theorem writeBlock_ok {dst src : List UInt8} {off : ℤ} (h0 : 0 ≤ off)
    (h1 : off + src.length ≤ dst.length) : writeBlock dst off src =
      .ok (dst.take off.toNat ++ src ++ dst.drop (off.toNat + src.length)) := if_pos ⟨h0, h1⟩

/-! ### Methods -/

/-- `ByteArray::Equal`; `memcmp` reads `Length()` bytes of both. -/
def equal (ba other : ByteArray) : Except Fault Bool :=
  if ba.length ≠ other.length then .ok false
  else if ba.length = 0 ∧ other.length = 0 then .ok (ba.isNull == other.isNull)
  else do
    let x ← readBlock ba.data 0 ba.length
    let y ← readBlock other.data 0 ba.length
    return x == y

/-- Writing `bytes` at `Data() + k`. -/
def writeData (ba : ByteArray) (k : ℤ) (bytes : List UInt8) : Except Fault ByteArray := do
  let block ← writeBlock ba.data k bytes
  return { ba with buf := ba.buf.map fun _ => block }

/-- The variables of a program. -/
abbrev Vars := ℕ → ByteArray

/-- The part of `Append` that ensures that there is space for the chunk. -/
def reserve (s : Vars) (i j : ℕ) (junk : ℕ → UInt8) : Except Fault Vars := do
  let remain ← int32 ((s i).cap - (s i).len)
  if remain < (s j).length then do
    let largerCap ← int32 ((s i).length + (s j).length)
    let largerBuf ← realloc junk (s i).buf largerCap
    return Function.update s i { s i with buf := some largerBuf, cap := largerCap }
  else return s

/-- `ByteArray::Append`, called on the variable `i` with a reference to the variable `j`. -/
def append (s : Vars) (i j : ℕ) (junk : ℕ → UInt8) : Except Fault Vars := do
  let s ← reserve s i j junk
  -- the variable `j` is read again, and may be `i`
  let src ← readBlock (s j).data 0 (s j).length
  let block ← writeBlock (s i).data (s i).len src
  let s := Function.update s i { s i with buf := (s i).buf.map fun _ => block }
  let len ← int32 ((s i).len + (s j).length)
  return Function.update s i { s i with len := len }

/-- `ba.Append(chunk)` of two different arrays. -/
def appendOther (ba chunk : ByteArray) (junk : ℕ → UInt8) : Except Fault ByteArray := do
  let s ← append (fun i => if i = 0 then ba else chunk) 0 1 junk
  return s 0

/-- A statement of a program. -/
inductive Op
  /-- `ByteArray i;` -/
  | null (i : ℕ)
  /-- `ByteArray i(len);` -/
  | ofLength (i : ℕ) (junk : ℕ → UInt8) (len : ℕ)
  /-- `ByteArray i(buf, len, cap);` -/
  | ofBuffer (i : ℕ) (buf : Option (List UInt8)) (len : ℕ) (cap : ℤ)
  /-- `ByteArray i(j);` -/
  | copy (i j : ℕ)
  /-- `i = j;` -/
  | assign (i j : ℕ)
  /-- `i.Append(j);` -/
  | append (i j : ℕ) (junk : ℕ → UInt8)
  /-- `ByteArray i(j.Slice(off));` -/
  | slice (i j : ℕ) (off : ℤ)
  /-- `i.Truncate(len);` -/
  | truncate (i : ℕ) (len : ℤ)
  /-- `memcpy(i.Data() + k, bytes, ..);` -/
  | write (i : ℕ) (k : ℤ) (bytes : List UInt8)

/-- What a statement does. -/
def Op.run (s : Vars) : Op → Except Fault Vars
  | .null i => .ok (Function.update s i .null)
  | .ofLength i junk len => do
    let ba ← ByteArray.ofLength junk len
    return Function.update s i ba
  | .ofBuffer i buf len cap => do
    let ba ← ByteArray.ofBuffer buf len cap
    return Function.update s i ba
  | .copy i j => do
    let ba ← (s j).copy
    return Function.update s i ba
  | .assign i j => do
    -- the argument is passed by value, and swapped with the members
    let ba ← (s j).copy
    return Function.update s i ba
  | .append i j junk => ByteArray.append s i j junk
  | .slice i j off => do
    let ba ← (s j).slice off (-1)
    return Function.update s i ba
  | .truncate i len => do
    let ba ← (s i).truncate len
    return Function.update s i ba
  | .write i k bytes => do
    let ba ← (s i).writeData k bytes
    return Function.update s i ba

end LibMumble.ByteArray
