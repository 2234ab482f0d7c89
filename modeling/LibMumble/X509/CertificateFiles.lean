import LibMumble.ByteArray.Values
import LibMumble.Lib.Ascii

/-! # Reading certificate files

The Unix and the Android verifier read a file in chunks of 256 bytes, each into a new `ByteArray` that is
cut to what was read and appended. That the file is over shows only at a read that gets less than a whole
chunk, so that a file of whole chunks takes one read more, which gets nothing. -/

namespace LibMumble.X509

open Lib LibMumble.ByteArray

/-! ### The loop -/

/-- A `std::ifstream`: the bytes that are left, and `good()`. -/
structure Ifstream where
  rest : List UInt8
  good : Bool
  deriving DecidableEq, Repr

/-- `open`, of the file with these bytes if there is one that can be opened. -/
def Ifstream.open : Option (List UInt8) → Ifstream
  | some bytes => ⟨bytes, true⟩
  | none => ⟨[], false⟩

/-- The bytes that `read` stores, whose number is `gcount()`, and the stream after it. -/
def Ifstream.read (ifs : Ifstream) (n : ℕ) : List UInt8 × Ifstream :=
  (ifs.rest.take n, ⟨ifs.rest.drop n, n ≤ ifs.rest.length⟩)

-- `heap` and `junk` are what memory holds that nothing was written to
variable (heap junk : ℕ → UInt8)

/-- The chunk that is read in one turn of the loop. -/
def readChunk (ifs : Ifstream) : Except Fault (ByteArray × Ifstream) := do
  let chunk ← ByteArray.ofLength heap 256
  let (bytes, ifs) := ifs.read chunk.length.toNat
  let chunk ← chunk.writeData 0 bytes
  let chunk ← chunk.truncate bytes.length
  return (chunk, ifs)

variable {heap junk} {ifs ifs' : Ifstream} {ba chunk : ByteArray}

/-- A turn reads the next 256 bytes, or what there is of them. -/
theorem readChunk_eq (heap : ℕ → UInt8) (ifs : Ifstream) :
    ∃ chunk, readChunk heap ifs = .ok (chunk, (ifs.read 256).2) ∧ chunk.WellFormed ∧
      chunk.value = some (ifs.rest.take 256) := by
  have hlen : (ifs.rest.take 256).length ≤ 256 := by
    rw [List.length_take]
    omega
  obtain ⟨empty, hnew, hw, hv⟩ := @ofLength_gives heap 256 (by omega)
  have hsize : (bytes empty.value).length = 256 := by
    rw [hv, bytes, Option.getD_some, List.length_map, List.length_range]
  have hlength : empty.length = 256 := by
    have := hw.length_bytes
    show empty.len = 256
    omega
  have hroom : (0 : ℤ) + (ifs.rest.take 256).length ≤ (bytes empty.value).length := by omega
  obtain ⟨filled, hwrite, hw', hv'⟩ := write_gives hw le_rfl hroom
  have hbytes : bytes filled.value =
      ifs.rest.take 256 ++ (bytes empty.value).drop (ifs.rest.take 256).length := by
    rw [hv', hv]
    simp [splice]
  have hcut : ((ifs.rest.take 256).length : ℤ) ≤ (bytes filled.value).length := by
    rw [hbytes, List.length_append]
    omega
  obtain ⟨cut, htrunc, hw'', hv''⟩ := truncate_gives hw' (Int.natCast_nonneg _) hcut
  refine ⟨cut, ?_, hw'', ?_⟩
  · have hnew' : ByteArray.ofLength heap 256 = .ok empty := hnew
    simp only [readChunk, hnew', bind, Except.bind, hlength]
    have hread : ifs.read (256 : ℤ).toNat = (ifs.rest.take 256, (ifs.read 256).2) := rfl
    simp only [hread, hwrite, htrunc]
    rfl
  · have hsome : filled.value = some (bytes filled.value) := by
      rw [hv', hv]
      rfl
    rw [hv'', hsome, Option.map_some, hbytes, Int.toNat_natCast, List.take_left']
    rfl

/-- What the loop still has to do. -/
def Ifstream.left (ifs : Ifstream) : ℕ := if ifs.good then ifs.rest.length + 1 else 0

theorem left_of_readChunk (hgood : ifs.good = true) (h : readChunk heap ifs = .ok (chunk, ifs')) :
    ifs'.left < ifs.left := by
  obtain ⟨chunk', hrun, -⟩ := readChunk_eq heap ifs
  rw [hrun] at h
  obtain ⟨-, rfl⟩ := Prod.mk.inj (Except.ok.inj h)
  unfold Ifstream.left
  rw [if_pos hgood]
  simp only [Ifstream.read, decide_eq_true_eq, List.length_drop]
  split_ifs <;> omega

variable (heap junk)

/-- A chunk with something in it is appended. -/
def appendChunk (ba chunk : ByteArray) : Except Fault ByteArray :=
  if 0 < chunk.length then ba.appendOther chunk junk else .ok ba

/-- The loop of `read_pem_bundle` and `read_caroot_pem`. -/
def readLoop (ba : ByteArray) (ifs : Ifstream) : Except Fault ByteArray :=
  if _hgood : ifs.good = true then
    match _h : readChunk heap ifs with
    | .error fault => .error fault
    | .ok (chunk, ifs') => do
      let ba ← appendChunk junk ba chunk
      readLoop ba ifs'
  else .ok ba
termination_by ifs.left
decreasing_by exact left_of_readChunk _hgood _h

/-- `read_pem_bundle` and `read_caroot_pem`, of what the file is. -/
def readFile (file : Option (List UInt8)) : Except Fault ByteArray :=
  readLoop heap junk .null (.open file)

/-! ### The two functions -/

structure FileSystem where
  /-- the names that `readdir` lists, in its order, if the directory can be opened -/
  readdir : List UInt8 → Option (List (List UInt8))
  /-- the bytes of a file, if it can be opened -/
  file : List UInt8 → Option (List UInt8)

/-- `read_pem_bundle`. -/
def readPemBundle (fs : FileSystem) (heap junk : ℕ → UInt8) (fn : List UInt8) :
    Except Fault ByteArray :=
  readFile heap junk (fs.file fn)

/-- `read_caroot_pem`. -/
def readCarootPem (fs : FileSystem) (heap junk : ℕ → UInt8) (dir fn : List UInt8) :
    Except Fault ByteArray :=
  readFile heap junk (fs.file (dir ++ ascii "/" ++ fn))

/-! ### What is read -/

/-- The bytes that will be read. -/
def Ifstream.readable (ifs : Ifstream) : List UInt8 := if ifs.good then ifs.rest else []

variable {heap junk}

theorem readable_of_good (h : ifs.good = true) : ifs.readable = ifs.rest := if_pos h

theorem readable_read (ifs : Ifstream) (n : ℕ) : (ifs.read n).2.readable = ifs.rest.drop n := by
  simp only [Ifstream.readable, Ifstream.read, decide_eq_true_eq]
  split_ifs with hn
  · rfl
  · rw [List.drop_of_length_le (by omega)]

theorem readLoop_stop (h : ¬ ifs.good = true) : readLoop heap junk ba ifs = .ok ba := by
  rw [readLoop, dif_neg h]

/-- **One turn**: a chunk of what is left is appended, and the loop goes on with the rest. -/
theorem readLoop_turn (h : ifs.good = true) : ∃ chunk, chunk.WellFormed ∧
    chunk.value = some (bytes chunk.value) ∧
    ifs.readable = bytes chunk.value ++ (ifs.read 256).2.readable ∧
    readLoop heap junk ba ifs =
      (appendChunk junk ba chunk).bind fun ba => readLoop heap junk ba (ifs.read 256).2 := by
  obtain ⟨chunk, hrun, hw, hv⟩ := readChunk_eq heap ifs
  have hbytes : bytes chunk.value = ifs.rest.take 256 := by
    rw [hv]
    rfl
  refine ⟨chunk, hw, by rw [hbytes, hv], ?_, ?_⟩
  · rw [hbytes, readable_of_good h, readable_read, List.take_append_drop]
  · rw [readLoop, dif_pos h]
    split
    · rename_i hrun'
      rw [hrun] at hrun'
      cases hrun'
    · rename_i hrun'
      rw [hrun] at hrun'
      obtain ⟨rfl, rfl⟩ := Prod.mk.inj (Except.ok.inj hrun')
      rfl

theorem appendChunk_gives (h : ba.WellFormed) (hchunk : chunk.WellFormed)
    (hsum : (bytes ba.value).length + (bytes chunk.value).length < 2 ^ 31) :
    Gives (appendChunk junk ba chunk) (appendValue ba.value chunk.value) := by
  have hlen := hchunk.length_bytes
  unfold appendChunk
  split_ifs with hpos
  · exact appendOther_gives h hchunk hsum
  · have hzero : bytes chunk.value = [] := by
      have hle : chunk.len ≤ 0 := not_lt.mp hpos
      rw [← List.length_eq_zero_iff]
      omega
    refine ⟨ba, rfl, h, ?_⟩
    unfold appendValue
    rw [hzero]
    rcases ba.value with _ | v <;> simp

theorem appendChunk_overflow (h : ba.WellFormed) (hsum : 2 ^ 31 ≤ ba.len + chunk.len) :
    appendChunk junk ba chunk = .error .overflow := by
  have hle := h.len_le
  have hlt := h.cap_lt
  have hpos : 0 < chunk.length := by
    show 0 < chunk.len
    omega
  rw [appendChunk, if_pos hpos, appendOther_overflow h hsum]

theorem appendValue_append (v : Option (List UInt8)) (x y : List UInt8) :
    appendValue (appendValue v (some x)) (some y) = appendValue v (some (x ++ y)) := by
  unfold appendValue
  rcases v with _ | v
  · rcases x with _ | ⟨b, x⟩ <;> simp
  · simp

theorem appendValue_nil (v : Option (List UInt8)) : appendValue v (some []) = v := by
  rcases v with _ | v <;> simp [appendValue]

theorem length_appendValue (v chunk : Option (List UInt8)) :
    (bytes (appendValue v chunk)).length = (bytes v).length + (bytes chunk).length := by
  unfold appendValue
  split_ifs with h
  · simp [h.1, h.2]
  · simp

theorem left_read (h : ifs.good = true) : (ifs.read 256).2.left < ifs.left := by
  obtain ⟨chunk, hrun, -⟩ := readChunk_eq (fun _ => 0) ifs
  exact left_of_readChunk h hrun

/-- **The loop appends what is left of the file.** -/
theorem readLoop_gives (h : ba.WellFormed)
    (hlt : (bytes ba.value).length + ifs.readable.length < 2 ^ 31) :
    Gives (readLoop heap junk ba ifs) (appendValue ba.value (some ifs.readable)) := by
  induction hn : ifs.left using Nat.strong_induction_on generalizing ba ifs with
  | _ n ih =>
    by_cases hgood : ifs.good = true
    · obtain ⟨chunk, hw, hsome, hsplit, hturn⟩ := @readLoop_turn heap junk ifs ba hgood
      have hlen := congrArg List.length hsplit
      rw [List.length_append] at hlen
      obtain ⟨ba', happ, hw', hv'⟩ := @appendChunk_gives junk ba chunk h hw (by omega)
      have hlen' := length_appendValue ba.value chunk.value
      rw [hturn, happ, hsplit, ← appendValue_append, ← hsome, ← hv']
      refine ih _ (hn ▸ left_read hgood) hw' ?_ rfl
      rw [hv', hlen']
      omega
    · rw [readLoop_stop hgood, Ifstream.readable, if_neg hgood]
      exact ⟨ba, rfl, h, (appendValue_nil _).symm⟩

/-- **A file that is too long** for `ByteArray` overflows. -/
theorem readLoop_overflow (h : ba.WellFormed)
    (hle : 2 ^ 31 ≤ (bytes ba.value).length + ifs.readable.length) :
    readLoop heap junk ba ifs = .error .overflow := by
  induction hn : ifs.left using Nat.strong_induction_on generalizing ba ifs with
  | _ n ih =>
    have hlength := h.length_bytes
    have hcap := h.len_le
    have hcap' := h.cap_lt
    by_cases hgood : ifs.good = true
    · obtain ⟨chunk, hw, -, hsplit, hturn⟩ := @readLoop_turn heap junk ifs ba hgood
      have hlen := congrArg List.length hsplit
      rw [List.length_append] at hlen
      have hchunk := hw.length_bytes
      rw [hturn]
      by_cases hfits : (bytes ba.value).length + (bytes chunk.value).length < 2 ^ 31
      · obtain ⟨ba', happ, hw', hv'⟩ := @appendChunk_gives junk ba chunk h hw hfits
        have hlen' := length_appendValue ba.value chunk.value
        rw [happ]
        refine ih _ (hn ▸ left_read hgood) hw' ?_ rfl
        rw [hv', hlen']
        omega
      · rw [appendChunk_overflow h (by omega)]
        rfl
    · rw [Ifstream.readable, if_neg hgood, List.length_nil] at hle
      omega

/-- The content of a file, where one that cannot be opened has none. -/
def fileValue (file : Option (List UInt8)) : Option (List UInt8) :=
  if file.getD [] = [] then none else file

theorem bytes_fileValue (file : Option (List UInt8)) : bytes (fileValue file) = file.getD [] := by
  unfold fileValue
  split_ifs with h
  · exact h.symm
  · rfl

theorem readable_open (file : Option (List UInt8)) : (Ifstream.open file).readable = file.getD [] := by
  rcases file with _ | file <;> rfl

/-- **A file is read as it is**, if its length is an `int`. -/
theorem readFile_gives {file : Option (List UInt8)} (h : (file.getD []).length < 2 ^ 31) :
    Gives (readFile heap junk file) (fileValue file) := by
  have hnull : (bytes (value .null)).length = 0 := rfl
  have hgives := @readLoop_gives heap junk (.open file) .null wellFormed_null
    (by rw [readable_open]; omega)
  have hvalue : appendValue (value .null) (some (Ifstream.open file).readable) = fileValue file := by
    rw [readable_open]
    rcases file with _ | _ | ⟨b, file⟩ <;> rfl
  rw [hvalue] at hgives
  exact hgives

theorem readFile_overflow {file : Option (List UInt8)} (h : 2 ^ 31 ≤ (file.getD []).length) :
    readFile heap junk file = .error .overflow := by
  have hnull : (bytes (value .null)).length = 0 := rfl
  exact readLoop_overflow wellFormed_null (by rw [readable_open]; omega)

/-- The array holds the file: the same bytes, and null if there are none. -/
structure HoldsFile (file : Option (List UInt8)) (ba : ByteArray) : Prop where
  content : ba.content = file.getD []
  null : ba.isNull = true ↔ file = none ∨ file = some []

theorem readFile_holds {file : Option (List UInt8)} (h : (file.getD []).length < 2 ^ 31) :
    ∃ ba, readFile heap junk file = .ok ba ∧ HoldsFile file ba := by
  obtain ⟨ba, hread, -, hv⟩ := @readFile_gives heap junk file h
  refine ⟨ba, hread, ?_, ?_⟩
  · rw [← bytes_value, hv, bytes_fileValue]
  · have hnull : ba.isNull = true ↔ fileValue file = none := by
      rw [← hv, value_eq_none]
      exact Option.isNone_iff_eq_none
    rw [hnull]
    rcases file with _ | _ | ⟨b, file⟩ <;> simp [fileValue]

/-- **Reading in chunks gives the file**, whatever its length is, as long as it is an `int`. -/
theorem chunked_reading (fs : FileSystem) (heap junk : ℕ → UInt8) :
    (∀ fn, ((fs.file fn).getD []).length < 2 ^ 31 →
      ∃ ba, readPemBundle fs heap junk fn = .ok ba ∧ HoldsFile (fs.file fn) ba) ∧
    ∀ dir fn, ((fs.file (dir ++ ascii "/" ++ fn)).getD []).length < 2 ^ 31 →
      ∃ ba, readCarootPem fs heap junk dir fn = .ok ba ∧
        HoldsFile (fs.file (dir ++ ascii "/" ++ fn)) ba :=
  ⟨fun _ h => readFile_holds h, fun _ _ h => readFile_holds h⟩

/-- Files of two whole chunks, a file that is empty, and one that is not there. -/
def someFiles : FileSystem where
  readdir _ := none
  file path :=
    if path = ascii "/empty" then some []
    else if path = ascii "/none" then none
    else some (List.replicate 512 10)

theorem chunked_reading_someFiles :
    (∃ ba, readPemBundle someFiles (fun _ => 7) (fun _ => 7) (ascii "/bundle") = .ok ba ∧
      ba.content = List.replicate 512 10 ∧ ba.isNull = false) ∧
    (∃ ba, readCarootPem someFiles (fun _ => 7) (fun _ => 7) [] (ascii "empty") = .ok ba ∧
      ba.isNull = true) ∧
    ∃ ba, readCarootPem someFiles (fun _ => 7) (fun _ => 7) [] (ascii "none") = .ok ba ∧
      ba.isNull = true := by
  obtain ⟨hbundle, hcaroot⟩ := chunked_reading someFiles (fun _ => 7) (fun _ => 7)
  have hfile : someFiles.file (ascii "/bundle") = some (List.replicate 512 10) := rfl
  have hempty : someFiles.file ([] ++ ascii "/" ++ ascii "empty") = some [] := rfl
  have hnone : someFiles.file ([] ++ ascii "/" ++ ascii "none") = none := rfl
  obtain ⟨ba, hba, hholds⟩ := hbundle (ascii "/bundle")
    (by rw [hfile, Option.getD_some, List.length_replicate]; omega)
  obtain ⟨ba', hba', hholds'⟩ := hcaroot [] (ascii "empty") (by rw [hempty]; decide)
  obtain ⟨ba'', hba'', hholds''⟩ := hcaroot [] (ascii "none") (by rw [hnone]; decide)
  rw [hfile] at hholds
  refine ⟨⟨ba, hba, hholds.content, ?_⟩, ⟨ba', hba', hholds'.null.mpr (.inr hempty)⟩,
    ba'', hba'', hholds''.null.mpr (.inl hnone)⟩
  have hne : ¬ ba.isNull = true := fun hnull => by
    rcases hholds.null.mp hnull with h | h <;> cases h
  exact Bool.eq_false_iff.mpr hne

end LibMumble.X509
