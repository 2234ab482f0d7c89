import LibMumble.ByteArray.Operations

/-! # `ByteArray` as an optional byte list

What a `ByteArray` is for: a null value, or a list of bytes (`value`). Every statement of a program
has a meaning on these values alone (`Op.spec`), and the class refines it (`op_refines`): the bytes
between `len_` and `cap_`, the capacity and the two paths of `Append` do not show. So programs cannot
tell arrays apart that are `Equal`. -/

namespace LibMumble.ByteArray

open Lib

/-! ### Values -/

/-- Null, or the first `Length()` bytes. -/
def value (ba : ByteArray) : Option (List UInt8) := ba.buf.map fun _ => ba.content

/-- The bytes of a value; null has none. -/
abbrev bytes (v : Option (List UInt8)) : List UInt8 := v.getD []

abbrev Values := ℕ → Option (List UInt8)

/-- Null appended with nothing stays null. -/
def appendValue (v chunk : Option (List UInt8)) : Option (List UInt8) :=
  if v = none ∧ bytes chunk = [] then none else some (bytes v ++ bytes chunk)

def ofBufferValue (buf : Option (List UInt8)) (len : ℕ) (cap : ℤ) : Option (List UInt8) :=
  match buf with
  | none => none
  | some src => if cap ≠ -1 ∧ cap < len then none else some (src.take len)

/-- The bytes from `k` on are replaced by as many others. -/
def splice (l : List UInt8) (k : ℕ) (new : List UInt8) : List UInt8 :=
  l.take k ++ new ++ l.drop (k + new.length)

/-- **What a statement means.** -/
def Op.spec (v : Values) : Op → Values
  | .null i => Function.update v i none
  | .ofLength i junk len => Function.update v i (some ((List.range len).map junk))
  | .ofBuffer i buf len cap => Function.update v i (ofBufferValue buf len cap)
  | .copy i j => Function.update v i (v j)
  | .assign i j => Function.update v i (v j)
  | .append i j _ => Function.update v i (appendValue (v i) (v j))
  | .slice i j off => Function.update v i (some ((bytes (v j)).drop off.toNat))
  | .truncate i len => Function.update v i ((v i).map (List.take len.toNat))
  | .write i k new => Function.update v i ((v i).map fun l => splice l k.toNat new)

/-- When a statement may be used: lengths are at most `INT_MAX`, offsets are not beyond the length, and
the memory given to a constructor is as large as what it copies. With a capacity it copies `cap` bytes
and not only the `len` that the header promises, so that `cap` bytes have to be readable. -/
def Op.Permitted (v : Values) : Op → Prop
  | .ofLength _ _ len => len < 2 ^ 31
  | .ofBuffer _ (some src) len cap => (len : ℤ) < 2 ^ 31 ∧ cap < 2 ^ 31 ∧ len ≤ src.length ∧
      cap ≤ src.length
  | .append i j _ => (bytes (v i)).length + (bytes (v j)).length < 2 ^ 31
  | .slice _ j off => 0 ≤ off ∧ off ≤ (bytes (v j)).length
  | .truncate i len => 0 ≤ len ∧ len ≤ (bytes (v i)).length
  | .write i k new => 0 ≤ k ∧ k + new.length ≤ (bytes (v i)).length
  | .null _ | .ofBuffer _ none _ _ | .copy _ _ | .assign _ _ => True

instance (v : Values) : DecidablePred (Op.Permitted v)
  | .ofLength _ _ _ => inferInstanceAs (Decidable (_ < _))
  | .ofBuffer _ (some _) _ _ => inferInstanceAs (Decidable (_ ∧ _))
  | .append _ _ _ => inferInstanceAs (Decidable (_ < _))
  | .slice _ _ _ | .truncate _ _ | .write _ _ _ => inferInstanceAs (Decidable (_ ∧ _))
  | .null _ | .ofBuffer _ none _ _ | .copy _ _ | .assign _ _ => .isTrue trivial

/-- Every variable keeps the invariant of the class. -/
def Good (s : Vars) : Prop := ∀ i, (s i).WellFormed

/-- The values of the variables. -/
def values (s : Vars) : Values := fun i => (s i).value

variable {ba other : ByteArray} {s : Vars} {i j : ℕ}

theorem values_update : values (Function.update s i ba) = Function.update (values s) i ba.value := by
  funext k
  by_cases hk : k = i
  · subst hk
    simp [values]
  · simp [values, Function.update_of_ne hk]

theorem Good.update (h : Good s) (hw : ba.WellFormed) : Good (Function.update s i ba) := by
  intro k
  by_cases hk : k = i
  · subst hk
    rwa [Function.update_self]
  · rw [Function.update_of_ne hk]
    exact h k

theorem value_of_some {b : List UInt8} (h : ba.buf = some b) : ba.value = some ba.content := by
  rw [value, h, Option.map_some]

theorem value_eq_none : ba.value = none ↔ ba.buf = none := Option.map_eq_none_iff

theorem bytes_value : bytes ba.value = ba.content := by
  cases hb : ba.buf with
  | none =>
    rw [value_eq_none.mpr hb]
    simp [content, data, hb]
  | some b =>
    rw [value_of_some hb]
    rfl

theorem WellFormed.length_bytes (h : ba.WellFormed) : ((bytes ba.value).length : ℤ) = ba.len := by
  rw [bytes_value, h.length_content]

/-- A block with no spare capacity. -/
theorem value_exact (b : List UInt8) : value ⟨some b, b.length, b.length⟩ = some b := by
  rw [value_of_some rfl, content_exact]

/-! ### Equality -/

theorem readBlock_value (h : ba.WellFormed) {n : ℤ} (hn : n = ba.len) :
    readBlock ba.data 0 n = .ok ba.content := by
  have hc := h.cap_eq_data
  have h0 := h.len_nonneg
  have h1 := h.len_le
  rw [hn, readBlock_ok le_rfl h0 (by omega)]
  simp [content]

/-- **`Equal` compares the values.** -/
theorem equal_eq (h : ba.WellFormed) (h' : other.WellFormed) :
    ba.equal other = .ok (decide (ba.value = other.value)) := by
  have hlen := h.length_bytes
  have hlen' := h'.length_bytes
  have hl : ba.length = ba.len := rfl
  have hl' : other.length = other.len := rfl
  unfold equal
  by_cases hne : ba.length ≠ other.length
  · have hv : ba.value ≠ other.value := by
      intro heq
      rw [heq] at hlen
      omega
    rw [if_pos hne, decide_eq_false hv]
  rw [if_neg hne]
  rw [not_not] at hne
  by_cases h0 : ba.length = 0 ∧ other.length = 0
  · rw [if_pos h0]
    have hnil : ba.content = [] := by
      rw [← bytes_value, ← List.length_eq_zero_iff]
      omega
    have hnil' : other.content = [] := by
      rw [← bytes_value, ← List.length_eq_zero_iff]
      omega
    cases hb : ba.buf <;> cases hb' : other.buf <;> simp [isNull, value, hb, hb', hnil, hnil']
  · rw [if_neg h0, readBlock_value h hl, readBlock_value h' hne]
    -- neither is null, since both have bytes
    have hsome : ∀ a : ByteArray, a.WellFormed → a.len ≠ 0 → a.value = some a.content := by
      intro a ha hpos
      cases hb : a.buf with
      | none => exact absurd (ha.null hb).1 hpos
      | some b => exact value_of_some hb
    rw [hsome ba h (by omega), hsome other h' (by omega)]
    simp only [bind, Except.bind, pure, Except.pure, Option.some.injEq]
    by_cases heq : ba.content = other.content
    · simp [heq]
    · simp [heq]

/-! ### Constructors, `Slice` and `Truncate` -/

/-- A computation that succeeds with a well-formed array of this value. -/
def Gives (e : Except Fault ByteArray) (v : Option (List UInt8)) : Prop :=
  ∃ ba, e = .ok ba ∧ ba.WellFormed ∧ ba.value = v

theorem gives_exact {b : List UInt8} (h : (b.length : ℤ) < 2 ^ 31) :
    Gives (.ok ⟨some b, b.length, b.length⟩) (some b) :=
  ⟨_, rfl, wellFormed_exact b h, value_exact b⟩

theorem ofLength_gives {junk : ℕ → UInt8} {len : ℕ} (h : len < 2 ^ 31) :
    Gives (ofLength junk len) (some ((List.range len).map junk)) := by
  have hlen : ((List.range len).map junk).length = len := by
    rw [List.length_map, List.length_range]
  have hex := gives_exact (b := (List.range len).map junk) (by omega)
  rw [hlen] at hex
  have hneg : ¬ ((len : ℤ) < 0) := by omega
  simpa [ofLength, malloc, hneg, bind, Except.bind, pure, Except.pure] using hex

theorem copy_gives (h : ba.WellFormed) : Gives ba.copy ba.value := ⟨ba, h.copy_eq, h, rfl⟩

/-- A block of which the first bytes are the content. -/
theorem gives_take {src : List UInt8} {len cap : ℕ} (hcap : cap < 2 ^ 31) (hle : len ≤ cap)
    (hsrc : cap ≤ src.length) : Gives (.ok ⟨some (src.take cap), len, cap⟩) (some (src.take len)) := by
  have hlen : (src.take cap).length = cap := by
    rw [List.length_take]
    omega
  refine ⟨_, rfl, ⟨by simp, fun b hb => ?_, ?_, ?_, ?_⟩, ?_⟩
  · obtain rfl := Option.some.inj hb
    show (cap : ℤ) = (src.take cap).length
    rw [hlen]
  · show (0 : ℤ) ≤ len
    omega
  · show (len : ℤ) ≤ cap
    omega
  · show (cap : ℤ) < 2 ^ 31
    omega
  · rw [value_of_some rfl, content, data, Option.getD_some, Int.toNat_natCast, List.take_take,
      Nat.min_eq_left hle]

theorem ofBuffer_gives {buf : Option (List UInt8)} {len : ℕ} {cap : ℤ} {v : Values}
    (h : (Op.ofBuffer i buf len cap).Permitted v) :
    Gives (ofBuffer buf len cap) (ofBufferValue buf len cap) := by
  cases buf with
  | none => exact ⟨null, rfl, wellFormed_null, rfl⟩
  | some src =>
    obtain ⟨hlen, hcap, hsrc, hsrc'⟩ := h
    unfold ofBuffer ofBufferValue
    by_cases h1 : cap = -1
    · have hex := @gives_take src _ _ (by omega) le_rfl hsrc
      simp only [if_pos h1]
      rw [mallocMemcpy_ok le_rfl (by omega) (by omega)]
      simpa [h1, bind, Except.bind, pure, Except.pure] using hex
    · by_cases h2 : cap < len
      · simp only [if_neg h1, if_pos h2, if_pos (And.intro h1 h2)]
        exact ⟨null, rfl, wellFormed_null, rfl⟩
      · obtain ⟨n, rfl⟩ := Int.eq_ofNat_of_zero_le (show 0 ≤ cap by omega)
        have hex := @gives_take src len n (by omega) (by omega) (by omega)
        simp only [if_neg h1, if_neg h2, if_neg (fun h : _ ∧ _ => h2 h.2)]
        rw [mallocMemcpy_ok le_rfl (by omega) (by omega)]
        simpa [bind, Except.bind, pure, Except.pure] using hex

theorem slice_gives (h : ba.WellFormed) {off : ℤ} (h0 : 0 ≤ off)
    (h1 : off ≤ (bytes ba.value).length) :
    Gives (ba.slice off (-1)) (some ((bytes ba.value).drop off.toNat)) := by
  have hlen := h.length_bytes
  have hcap := h.cap_lt
  have hle := h.len_le
  rw [h.slice_eq h0 (by omega), bytes_value]
  rw [bytes_value] at hlen h1
  have hdrop : ((ba.content.drop off.toNat).length : ℤ) = ba.len - off := by
    rw [List.length_drop]
    omega
  rw [← hdrop]
  exact gives_exact (by omega)

/-! ### Writing -/

theorem value_rewrite {block : List UInt8} {n cap : ℤ} :
    value ⟨ba.buf.map fun _ => block, n, cap⟩ = ba.value.map fun _ => block.take n.toNat := by
  rcases ba with ⟨_ | b, len, cap'⟩ <;> rfl

/-- A block is exchanged for one of the same size. -/
theorem wellFormed_rewrite (h : ba.WellFormed) {block : List UInt8} {n : ℤ}
    (hblock : block.length = ba.data.length) (h0 : 0 ≤ n) (h1 : n ≤ ba.cap) :
    WellFormed ⟨ba.buf.map fun _ => block, n, ba.cap⟩ := by
  have hc := h.cap_eq_data
  refine ⟨fun hb => ?_, fun b hb => ?_, h0, h1, h.cap_lt⟩
  · have hnull := h.null (Option.map_eq_none_iff.mp hb)
    exact ⟨show n = 0 by omega, hnull.2⟩
  · obtain ⟨-, -, rfl⟩ := Option.map_eq_some_iff.mp hb
    show ba.cap = block.length
    omega

theorem truncate_gives (h : ba.WellFormed) {len : ℤ} (h0 : 0 ≤ len)
    (h1 : len ≤ (bytes ba.value).length) :
    Gives (ba.truncate len) (ba.value.map (List.take len.toNat)) := by
  have hlen := h.length_bytes
  have hle := h.len_le
  have hsame : (⟨ba.buf.map fun _ => ba.data, len, ba.cap⟩ : ByteArray) = { ba with len := len } := by
    rcases ba with ⟨_ | b, n, cap⟩ <;> rfl
  have htake : ba.data.take len.toNat = ba.content.take len.toNat := by
    rw [content, List.take_take]
    congr 1
    omega
  refine ⟨{ ba with len := len }, if_neg (by omega), ?_, ?_⟩
  · rw [← hsame]
    exact wellFormed_rewrite h rfl h0 (by omega)
  · rw [← hsame, value_rewrite, htake]
    rcases ba with ⟨_ | b, n, cap⟩ <;> rfl

theorem length_splice {l new : List UInt8} {k : ℕ} (h : k + new.length ≤ l.length) :
    (splice l k new).length = l.length := by
  simp only [splice, List.length_append, List.length_take, List.length_drop]
  omega

theorem take_splice {l new : List UInt8} {k n : ℕ} (h : k + new.length ≤ n) (hn : n ≤ l.length) :
    (splice l k new).take n = splice (l.take n) k new := by
  have hk : (l.take k ++ new).length = k + new.length := by
    rw [List.length_append, List.length_take]
    omega
  rw [splice, splice, List.take_append, hk, List.take_of_length_le (by omega), List.take_take,
    Nat.min_eq_left (by omega), List.drop_take]

theorem write_gives (h : ba.WellFormed) {k : ℤ} {new : List UInt8} (h0 : 0 ≤ k)
    (h1 : k + new.length ≤ (bytes ba.value).length) :
    Gives (ba.writeData k new) (ba.value.map fun l => splice l k.toNat new) := by
  have hlen := h.length_bytes
  have hle := h.len_le
  have hc := h.cap_eq_data
  refine ⟨⟨ba.buf.map fun _ => splice ba.data k.toNat new, ba.len, ba.cap⟩, ?_, ?_, ?_⟩
  · rw [writeData, writeBlock_ok h0 (by omega)]
    rfl
  · exact wellFormed_rewrite h (length_splice (by omega)) h.len_nonneg hle
  · rw [value_rewrite, take_splice (by omega) (by omega)]
    rcases ba with ⟨_ | b, n, cap⟩ <;> rfl

/-! ### `Append` -/

/-- After the first part of `Append` there is room for the chunk. -/
theorem reserve_spec {junk : ℕ → UInt8} (hs : Good s) (hsum : (s i).len + (s j).len < 2 ^ 31) :
    ∃ big, reserve s i j junk = .ok (Function.update s i big) ∧ big.WellFormed ∧
      big.len = (s i).len ∧ big.content = (s i).content ∧ (s i).len + (s j).len ≤ big.cap ∧
      (big.buf = none ↔ (s i).buf = none ∧ (s j).len = 0) := by
  have h := hs i
  have h0 := h.len_nonneg
  have hle := h.len_le
  have hlt := h.cap_lt
  have hc := h.cap_eq_data
  have hn := (hs j).len_nonneg
  have hlength : ∀ ba : ByteArray, ba.length = ba.len := fun _ => rfl
  simp only [reserve, hlength]
  rw [int32_ok (by omega) (by omega)]
  simp only [bind, Except.bind]
  by_cases hgrow : (s i).cap - (s i).len < (s j).len
  · set cap := (s i).len + (s j).len with hcap
    set old := (s i).data.take cap.toNat with hold
    set block := old ++ (List.range (cap.toNat - old.length)).map junk with hblock
    have hbl : (block.length : ℤ) = cap := by
      simp only [hblock, hold, List.length_append, List.length_map, List.length_range,
        List.length_take]
      omega
    refine ⟨⟨some block, (s i).len, cap⟩, ?_, ⟨by simp, fun b hb => ?_, h0, ?_, hsum⟩, rfl, ?_,
      le_rfl, ?_⟩
    · have hneg : ¬ cap < 0 := by omega
      rw [if_pos hgrow, int32_ok (by omega) (by omega)]
      simp only [realloc, if_neg hneg]
      rfl
    · obtain rfl := Option.some.inj hb
      exact hbl.symm
    · show (s i).len ≤ cap
      omega
    · show block.take (s i).len.toNat = (s i).content
      rw [hblock, List.take_append_of_le_length, hold, List.take_take, content]
      · congr 1
        omega
      · rw [hold, List.length_take]
        omega
    · have hpos : (s j).len ≠ 0 := by omega
      simp [hpos]
  · refine ⟨s i, ?_, h, rfl, rfl, by omega, fun hb => ⟨hb, ?_⟩, And.left⟩
    · rw [if_neg hgrow, Function.update_eq_self]
      rfl
    · have hnull := h.null hb
      omega

/-- **`Append`**, also of an array to itself. -/
theorem append_gives {junk : ℕ → UInt8} (hs : Good s)
    (hsum : (bytes (s i).value).length + (bytes (s j).value).length < 2 ^ 31) :
    ∃ ba, append s i j junk = .ok (Function.update s i ba) ∧ ba.WellFormed ∧
      ba.value = appendValue (s i).value (s j).value := by
  have hi := (hs i).length_bytes
  have hj := (hs j).length_bytes
  have h0 := (hs j).len_nonneg
  have hle := (hs i).len_le
  have hlt := (hs i).cap_lt
  have h0' := (hs i).len_nonneg
  obtain ⟨big, hbig, hw, hlen, hcontent, hroom, hnull⟩ :=
    @reserve_spec s i j junk hs (by omega)
  have hcap := hw.cap_eq_data
  -- the chunk is still there, whichever variable it is
  have hchunk : ((Function.update s i big) j).len = (s j).len ∧
      ((Function.update s i big) j).WellFormed ∧
      ((Function.update s i big) j).content = (s j).content := by
    by_cases hij : j = i
    · subst hij
      rw [Function.update_self]
      exact ⟨hlen, hw, hcontent⟩
    · rw [Function.update_of_ne hij]
      exact ⟨rfl, hs j, rfl⟩
  obtain ⟨hclen, hcw, hcc⟩ := hchunk
  set block := splice big.data big.len.toNat (s j).content with hblock
  have hcl : ((s j).content.length : ℤ) = (s j).len := (hs j).length_content
  have hwrite : writeBlock big.data big.len (s j).content = .ok block :=
    writeBlock_ok hw.len_nonneg (by omega)
  set half : ByteArray := { big with buf := big.buf.map fun _ => block } with hhalf
  have hlast : ((Function.update s i half) j).len = (s j).len := by
    by_cases hij : j = i
    · subst hij
      rw [Function.update_self]
      exact hlen
    · rw [Function.update_of_ne hij]
  have hlength : ∀ ba : ByteArray, ba.length = ba.len := fun _ => rfl
  refine ⟨⟨big.buf.map fun _ => block, (s i).len + (s j).len, big.cap⟩, ?_, ?_, ?_⟩
  · simp only [append, hbig, bind, Except.bind, hlength]
    rw [readBlock_value hcw rfl, hcc]
    simp only [Function.update_self, hwrite]
    rw [← hhalf, Function.update_idem, hlast, hhalf, hlen, int32_ok (by omega) (by omega)]
    simp only [Function.update_idem]
    rfl
  · exact wellFormed_rewrite hw (length_splice (by omega)) (by omega) (by omega)
  · have htake : block.take ((s i).len + (s j).len).toNat = (s i).content ++ (s j).content := by
      have hpre : big.data.take big.len.toNat = (s i).content := hcontent
      have hprelen : (big.data.take big.len.toNat ++ (s j).content).length =
          ((s i).len + (s j).len).toNat := by
        rw [List.length_append, List.length_take]
        omega
      rw [hblock, splice, List.take_append_of_le_length (by omega), List.take_of_length_le (by omega),
        hpre]
    rw [value_rewrite, htake, appendValue, bytes_value, bytes_value]
    by_cases hnone : (s i).value = none ∧ (s j).content = []
    · have hzero : (s j).len = 0 := by
        rw [← hcl, hnone.2]
        rfl
      rw [if_pos hnone, value_eq_none.mpr (hnull.mpr ⟨value_eq_none.mp hnone.1, hzero⟩)]
      rfl
    · have hsome : big.buf ≠ none := by
        intro hb
        obtain ⟨h1, h2⟩ := hnull.mp hb
        refine hnone ⟨value_eq_none.mpr h1, ?_⟩
        rw [← List.length_eq_zero_iff]
        omega
      obtain ⟨b, hb⟩ := Option.ne_none_iff_exists'.mp hsome
      rw [if_neg hnone, value_of_some hb, Option.map_some]

theorem appendOther_gives {chunk : ByteArray} {junk : ℕ → UInt8} (h : ba.WellFormed)
    (hchunk : chunk.WellFormed)
    (hsum : (bytes ba.value).length + (bytes chunk.value).length < 2 ^ 31) :
    Gives (appendOther ba chunk junk) (appendValue ba.value chunk.value) := by
  have hgood : Good fun i => if i = 0 then ba else chunk := by
    intro i
    rcases i with _ | i
    · exact h
    · exact hchunk
  obtain ⟨out, hout, hw, hv⟩ := @append_gives _ 0 1 junk hgood hsum
  refine ⟨out, ?_, hw, hv⟩
  rw [appendOther, hout]
  simp [bind, Except.bind, pure, Except.pure]

/-- Beyond `INT_MAX` bytes the new capacity does not fit. -/
theorem append_overflow {junk : ℕ → UInt8} (h : (s i).WellFormed)
    (hsum : 2 ^ 31 ≤ (s i).len + (s j).len) : append s i j junk = .error .overflow := by
  have h0 := h.len_nonneg
  have hle := h.len_le
  have hlt := h.cap_lt
  have hremain : int32 ((s i).cap - (s i).len) = .ok ((s i).cap - (s i).len) :=
    int32_ok (by omega) (by omega)
  have hsmall : (s i).cap - (s i).len < (s j).len := by omega
  have hlarge : int32 ((s i).len + (s j).len) = .error .overflow := if_neg (by omega)
  simp [append, reserve, length, hremain, hsmall, hlarge, bind, Except.bind]

theorem appendOther_overflow {chunk : ByteArray} {junk : ℕ → UInt8} (h : ba.WellFormed)
    (hsum : 2 ^ 31 ≤ ba.len + chunk.len) : appendOther ba chunk junk = .error .overflow := by
  have hfull : append (fun i => if i = 0 then ba else chunk) 0 1 junk = .error .overflow :=
    append_overflow h hsum
  rw [appendOther, hfull]
  rfl

/-! ### Programs -/

/-- A statement that puts one array into a variable. -/
theorem put_refines (hs : Good s) {e : Except Fault ByteArray} {v : Option (List UInt8)}
    (h : Gives e v) : ∃ s', (do
        let ba ← e
        return Function.update s i ba) = Except.ok s' ∧ Good s' ∧
      values s' = Function.update (values s) i v := by
  obtain ⟨ba, rfl, hw, rfl⟩ := h
  exact ⟨Function.update s i ba, rfl, hs.update hw, values_update⟩

/-- **A statement does to the values what it means.** -/
theorem op_refines : Refines Op.run Op.spec Op.Permitted Good values where
  step := by
    intro s op hs hok
    cases op with
    | null i => exact ⟨_, rfl, hs.update wellFormed_null, values_update⟩
    | ofLength i junk len => exact put_refines hs (ofLength_gives hok)
    | ofBuffer i buf len cap => exact put_refines hs (ofBuffer_gives hok)
    | copy i j => exact put_refines hs (copy_gives (hs j))
    | assign i j => exact put_refines hs (copy_gives (hs j))
    | append i j junk =>
      obtain ⟨ba, hrun, hw, hv⟩ := @append_gives s i j junk hs hok
      refine ⟨_, hrun, hs.update hw, ?_⟩
      rw [values_update, hv]
      rfl
    | slice i j off => exact put_refines hs (slice_gives (hs j) hok.1 hok.2)
    | truncate i len => exact put_refines hs (truncate_gives (hs i) hok.1 hok.2)
    | write i k new => exact put_refines hs (write_gives (hs i) hok.1 hok.2)

/-- **`ByteArray` refines an optional byte list**: from variables that are well formed every program
runs, the variables stay well formed, and their values are what the program means. `Equal` compares
the values, and arrays that are `Equal` stay so. -/
theorem byteArray_refines {ops : List Op} {s t : Vars} (hs : Good s) (ht : Good t)
    (heq : ∀ i, (s i).equal (t i) = .ok true) (hops : Legal Op.spec Op.Permitted ops (values s)) :
    ∃ s' t', ops.foldlM Op.run s = .ok s' ∧ ops.foldlM Op.run t = .ok t' ∧ Good s' ∧ Good t' ∧
      values s' = ops.foldl Op.spec (values s) ∧
      (∀ i j, (s' i).equal (s' j) = .ok (decide (values s' i = values s' j))) ∧
      Equivalence (fun i j => (s' i).equal (s' j) = .ok true) ∧
      ∀ i, (s' i).equal (t' i) = .ok true := by
  have hequal : ∀ {a b : ByteArray}, a.WellFormed → b.WellFormed →
      (a.equal b = .ok true ↔ a.value = b.value) := by
    intro a b ha hb
    rw [equal_eq ha hb, Except.ok.injEq, decide_eq_true_eq]
  have hvalues : values s = values t := funext fun i => (hequal (hs i) (ht i)).mp (heq i)
  obtain ⟨s', hrun, hs', hv⟩ := op_refines.run hs hops
  obtain ⟨s'', t', hrun', hrunt, -, ht', hvt⟩ := op_refines.congr hs ht hvalues hops
  obtain rfl : s' = s'' := Except.ok.inj (hrun.symm.trans hrun')
  refine ⟨s', t', hrun, hrunt, hs', ht', hv, fun i j => equal_eq (hs' i) (hs' j), ⟨?_, ?_, ?_⟩, ?_⟩
  · intro i
    rw [hequal (hs' i) (hs' i)]
  · intro i j
    rw [hequal (hs' i) (hs' j), hequal (hs' j) (hs' i)]
    exact Eq.symm
  · intro i j k
    rw [hequal (hs' i) (hs' j), hequal (hs' j) (hs' k), hequal (hs' i) (hs' k)]
    exact Eq.trans
  · intro i
    rw [hequal (hs' i) (ht' i)]
    exact congrFun hvt i

/-- An array with room is appended to itself twice, in place and with a new block; a slice of it is
written to, and the stale bytes after a `Truncate` are overwritten. -/
theorem byteArray_refines_append : ∃ s', [.ofBuffer 0 (some [1, 2, 9, 9]) 2 4, .append 0 0 fun _ => 7,
      .append 0 0 fun _ => 7, .slice 1 0 5, .write 1 1 [5], .truncate 0 3, .append 0 1 fun _ => 7].foldlM
        Op.run (fun _ => .null) = Except.ok s' ∧
    values s' 0 = some [1, 2, 1, 2, 5, 2] ∧ values s' 1 = some [2, 5, 2] := by
  have hgood : Good fun _ => .null := fun _ => wellFormed_null
  obtain ⟨s', -, hrun, -, -, -, hv, -⟩ := @byteArray_refines
    [.ofBuffer 0 (some [1, 2, 9, 9]) 2 4, .append 0 0 fun _ => 7, .append 0 0 fun _ => 7,
      .slice 1 0 5, .write 1 1 [5], .truncate 0 3, .append 0 1 fun _ => 7]
    (fun _ => .null) (fun _ => .null) hgood hgood (fun _ => rfl) (by decide)
  exact ⟨s', hrun, by rw [hv]; decide, by rw [hv]; decide⟩

end LibMumble.ByteArray
