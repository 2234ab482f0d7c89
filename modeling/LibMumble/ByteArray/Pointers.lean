import LibMumble.ByteArray.Safety
import LibMumble.Lib.Blocks

/-! # `ByteArray` with its pointers

The class as it is: an object has a pointer to a block of the heap, and every method allocates, reads,
writes and frees blocks. `Represents` says which values the objects of a program stand for, that each
non-null object has a block of its own, and which blocks nothing points to any more. Programs on the heap
do what programs on values do (`program_simulates`), whatever the copies, assignments and aliases in them
are, and lose exactly one block with each `Slice`. -/

namespace LibMumble.ByteArray

open Lib Blocks

/-- The members of an object. -/
structure Members where
  buf : Option ℕ
  len : ℤ
  cap : ℤ

/-- A program on the heap. -/
abbrev HeapM := Mem UInt8 Fault

/-! ### The methods -/

/-- The memory readable at a pointer; nothing is readable at a null pointer. -/
def bytesAt : Option ℕ → HeapM (List UInt8)
  | some p => Mem.load p
  | none => pure []

/-- `malloc(n)`. -/
def mallocAt (junk : ℕ → UInt8) (n : ℤ) : HeapM ℕ := do
  let b ← Mem.lift (malloc junk n)
  Mem.alloc b

/-- The `n` bytes at `src + off`. -/
def readAt (src : Option ℕ) (off n : ℤ) : HeapM (List UInt8) := do
  let b ← bytesAt src
  Mem.lift (readBlock b off n)

/-- `bytes` are written at `dst + off`. -/
def writeAt (dst : Option ℕ) (off : ℤ) (bytes : List UInt8) : HeapM Unit := do
  let b ← bytesAt dst
  let b ← Mem.lift (writeBlock b off bytes)
  match dst with
  | some p => Mem.store p b
  | none => return ()

/-- `malloc(size)` and a `memcpy` of what `read` reads to its start. -/
def mallocMemcpyAt (junk : ℕ → UInt8) (size : ℤ) (read : HeapM (List UInt8)) : HeapM ℕ := do
  let dst ← mallocAt junk size
  let bytes ← read
  writeAt (some dst) 0 bytes
  return dst

/-- `ByteArray::ByteArray()`. -/
def nullAt : HeapM Members := return ⟨none, 0, 0⟩

/-- `ByteArray::ByteArray(int len)`. -/
def ofLengthAt (junk : ℕ → UInt8) (len : ℤ) : HeapM Members := do
  let buf ← mallocAt junk len
  return ⟨some buf, len, len⟩

/-- `ByteArray::ByteArray(char *buf, int len, int cap)`, where the list is the memory readable at `buf`. -/
def ofBufferAt (junk : ℕ → UInt8) (buf : Option (List UInt8)) (len cap : ℤ) : HeapM Members :=
  match buf with
  | none => nullAt
  | some src =>
    if cap = -1 then do
      let dst ← mallocMemcpyAt junk len (Mem.lift (readBlock src 0 len))
      return ⟨some dst, len, len⟩
    else if cap < len then nullAt
    else do
      let dst ← mallocMemcpyAt junk cap (Mem.lift (readBlock src 0 cap))
      return ⟨some dst, len, cap⟩

/-- `ByteArray::ByteArray(const ByteArray &ba)`. -/
def copyAt (junk : ℕ → UInt8) (ba : Members) : HeapM Members :=
  match ba.buf with
  | some p => do
    let dst ← mallocMemcpyAt junk ba.cap (readAt (some p) 0 ba.cap)
    return ⟨some dst, ba.len, ba.cap⟩
  | none => nullAt

/-- `ByteArray::~ByteArray`. -/
def destroyAt (ba : Members) : HeapM Unit :=
  match ba.buf with
  | some p => Mem.free p
  | none => return ()

/-- `ByteArray::Slice`. -/
def sliceAt (junk : ℕ → UInt8) (ba : Members) (off len : ℤ) : HeapM Members := do
  let remain ← Mem.lift (int32 (ba.len - off))
  let len := if len = -1 then remain else len
  if remain < len then Mem.lift (.error .assertion)
  else do
    let tmp ← mallocMemcpyAt junk len (readAt ba.buf off remain)
    -- the constructor copies out of `tmp`, which nobody frees
    let src ← bytesAt (some tmp)
    ofBufferAt junk (some src) remain (-1)

/-! ### Programs -/

/-- The heap and the objects of a program. -/
structure Store where
  heap : Blocks UInt8
  vars : ℕ → Members

def Store.empty : Store := ⟨[], fun _ => ⟨none, 0, 0⟩⟩

/-- The object that is made takes the place of the variable's, whose block is freed. -/
def put (st : Store) (i : ℕ) (m : HeapM Members) : Except (Misuse Fault) Store := do
  let (ba, heap) ← m st.heap
  let (_, heap) ← destroyAt (st.vars i) heap
  return ⟨heap, Function.update st.vars i ba⟩

/-- `ByteArray::Truncate`. -/
def truncateAt (st : Store) (i : ℕ) (len : ℤ) : Except (Misuse Fault) Store :=
  if (st.vars i).cap < len then .error (.fault .assertion)
  else .ok { st with vars := Function.update st.vars i { st.vars i with len := len } }

/-- Writing `bytes` at `Data() + k`. -/
def writeDataAt (st : Store) (i : ℕ) (k : ℤ) (bytes : List UInt8) : Except (Misuse Fault) Store := do
  let (_, heap) ← writeAt (st.vars i).buf k bytes st.heap
  return { st with heap := heap }

/-- `realloc` of the block of an object, up to the old block. -/
def reallocAt (ba : Members) (junk : ℕ → UInt8) (largerCap : ℤ) : HeapM Members := do
  let buf ← bytesAt ba.buf
  let b ← Mem.lift (realloc junk (some buf) largerCap)
  let largerBuf ← Mem.alloc b
  return { ba with buf := some largerBuf, cap := largerCap }

/-- The part of `Append` that ensures that there is space for the chunk; the old block is freed, as
`realloc` does. -/
def reserveAt (st : Store) (i j : ℕ) (junk : ℕ → UInt8) : Except (Misuse Fault) Store := do
  let remain ← fault (int32 ((st.vars i).cap - (st.vars i).len))
  if remain < (st.vars j).len then do
    let largerCap ← fault (int32 ((st.vars i).len + (st.vars j).len))
    put st i (reallocAt (st.vars i) junk largerCap)
  else return st

/-- `ByteArray::Append`. -/
def appendAt (st : Store) (i j : ℕ) (junk : ℕ → UInt8) : Except (Misuse Fault) Store := do
  let st ← reserveAt st i j junk
  let (src, heap) ← readAt (st.vars j).buf 0 (st.vars j).len st.heap
  let st := { st with heap := heap }
  let st ← writeDataAt st i (st.vars i).len src
  let len ← fault (int32 ((st.vars i).len + (st.vars j).len))
  return { st with vars := Function.update st.vars i { st.vars i with len := len } }

/-- What a statement does; `junk` is in the blocks that the constructors overwrite. -/
def Call.exec (junk : ℕ → UInt8) (st : Store) : Call → Except (Misuse Fault) Store
  | .plain (.null i) => put st i nullAt
  | .plain (.ofLength i junk len) => put st i (ofLengthAt junk len)
  | .plain (.ofBuffer i buf len cap) => put st i (ofBufferAt junk buf len cap)
  | .plain (.copy i j) => put st i (copyAt junk (st.vars j))
  -- the argument is a copy, which is swapped with the members and takes the old block with it
  | .plain (.assign i j) => put st i (copyAt junk (st.vars j))
  | .plain (.append i j junk) => appendAt st i j junk
  | .plain (.slice i j off) => put st i (sliceAt junk (st.vars j) off (-1))
  | .slice i j off len => put st i (sliceAt junk (st.vars j) off len)
  | .plain (.truncate i len) => truncateAt st i len
  | .plain (.write i k bytes) => writeDataAt st i k bytes

/-- The calls of `Slice`. -/
def Call.slices : Call → ℕ
  | .plain (.slice _ _ _) | .slice _ _ _ _ => 1
  | .plain (.null _) | .plain (.ofLength _ _ _) | .plain (.ofBuffer _ _ _ _) | .plain (.copy _ _)
  | .plain (.assign _ _) | .plain (.append _ _ _) | .plain (.truncate _ _) | .plain (.write _ _ _) => 0

/-! ### What objects stand for -/

/-- The array that an object stands for, if its pointer is not a dead one. -/
def view (H : Blocks UInt8) (x : Members) : Option ByteArray :=
  match x.buf with
  | some p => (block H p).map fun b => ⟨some b, x.len, x.cap⟩
  | none => some ⟨none, x.len, x.cap⟩

/-- **What a program's memory represents**: the values of the variables, with the blocks in `lost` beside
them. -/
structure Represents (st : Store) (s : Vars) (lost : Finset ℕ) : Prop where
  view : ∀ i, view st.heap (st.vars i) = some (s i)
  blocks : Exclusive st.heap (fun i => (st.vars i).buf) lost

/-- An object that was made with new blocks, `n` of which it does not point to. -/
structure Built (H : Blocks UInt8) (n : ℕ) (r : Members × Blocks UInt8) (v : ByteArray) : Prop where
  view : view r.2 r.1 = some v
  more : ∃ T : List (List UInt8), r.2 = H ++ T.map some ∧ T.length = n + (if v.isNull then 0 else 1)
  fresh : ∀ p, r.1.buf = some p → H.length ≤ p

variable {H : Blocks UInt8} {x : Members} {v : ByteArray} {b src : List UInt8} {off n size : ℤ}

theorem view_len (h : ByteArray.view H x = some v) : x.len = v.len := by
  rcases x with ⟨_ | p, len, cap⟩
  · exact congrArg ByteArray.len (Option.some.inj h)
  · obtain ⟨b, -, rfl⟩ := Option.map_eq_some_iff.mp h
    rfl

theorem view_cap (h : ByteArray.view H x = some v) : x.cap = v.cap := by
  rcases x with ⟨_ | p, len, cap⟩
  · exact congrArg ByteArray.cap (Option.some.inj h)
  · obtain ⟨b, -, rfl⟩ := Option.map_eq_some_iff.mp h
    rfl

theorem view_setLen (h : ByteArray.view H x = some v) (len : ℤ) :
    ByteArray.view H { x with len := len } = some { v with len := len } := by
  rcases x with ⟨_ | p, l, cap⟩
  · obtain rfl := Option.some.inj h
    rfl
  · obtain ⟨b, hb, rfl⟩ := Option.map_eq_some_iff.mp h
    simp only [ByteArray.view, hb, Option.map_some]

theorem bytesAt_view {α : Type} (h : ByteArray.view H x = some v) (f : List UInt8 → HeapM α) :
    (bytesAt x.buf >>= f) H = f v.data H := by
  have hbytes : bytesAt x.buf H = .ok (v.data, H) := by
    rcases x with ⟨_ | p, len, cap⟩
    · obtain rfl := Option.some.inj h
      rfl
    · obtain ⟨b, hb, rfl⟩ := Option.map_eq_some_iff.mp h
      simp only [bytesAt, Mem.load, hb]
      rfl
  simp only [bind, StateT.bind, Except.bind, hbytes]

/-- New blocks change no object. -/
theorem view_alloc (h : ByteArray.view H x = some v) (b : List UInt8) :
    ByteArray.view (H ++ [some b]) x = some v := by
  rcases x with ⟨_ | p, len, cap⟩
  · exact h
  · obtain ⟨c, hc, rfl⟩ := Option.map_eq_some_iff.mp h
    simp only [ByteArray.view, block_alloc, if_neg (lt_of_block hc).ne, hc]
    rfl

/-! ### One method -/

theorem readBlock_error {e : Fault} (h : readBlock src off n = .error e) : e = .outOfBounds := by
  unfold readBlock at h
  split_ifs at h
  exact (Except.error.inj h).symm

theorem length_readBlock (h : readBlock src off n = .ok b) : (b.length : ℤ) = n := by
  unfold readBlock at h
  split_ifs at h with hok
  obtain rfl := Except.ok.inj h
  rw [List.length_take, List.length_drop]
  omega

theorem mallocMemcpyAt_simulates {junk : ℕ → UInt8} {read : HeapM (List UInt8)} (hsize : size ≤ n)
    (hread : ∀ b, read (H ++ [some b]) = Mem.lift (readBlock src off n) (H ++ [some b])) :
    Simulates (mallocMemcpyAt junk size read H) (mallocMemcpy size src off n)
      (fun r b => r = (H.length, H ++ [some b])) := by
  unfold mallocMemcpyAt mallocMemcpy
  by_cases hneg : size < 0
  · rw [if_pos hneg]
    simp only [mallocAt, malloc, if_pos hneg]
    rfl
  rw [if_neg hneg]
  have hmalloc : mallocAt junk size H =
      .ok (H.length, H ++ [some ((List.range size.toNat).map junk)]) := by
    simp only [mallocAt, malloc, if_neg hneg]
    rfl
  rcases hres : readBlock src off n with e | bytes
  · obtain rfl := readBlock_error hres
    rw [ite_self]
    show (mallocAt junk size >>= _) H = _
    simp only [bind, StateT.bind, Except.bind, hmalloc, hread, Mem.lift, hres]
  · have hlen : (bytes.length : ℤ) = n := length_readBlock hres
    have hdst : block (H ++ [some ((List.range size.toNat).map junk)]) H.length =
        some ((List.range size.toNat).map junk) := by rw [block_alloc, if_pos rfl]
    by_cases hlt : size < n
    · rw [if_pos hlt]
      have hwrite : writeBlock ((List.range size.toNat).map junk) 0 bytes = .error .outOfBounds := by
        rw [writeBlock, if_neg]
        simp only [List.length_map, List.length_range]
        omega
      show (mallocAt junk size >>= _) H = _
      simp only [bind, StateT.bind, Except.bind, hmalloc, hread, Mem.lift, hres, writeAt, bytesAt,
        Mem.load, hdst, hwrite]
    · rw [if_neg hlt]
      have hwrite : writeBlock ((List.range size.toNat).map junk) 0 bytes = .ok bytes := by
        rw [writeBlock_ok le_rfl (by simp only [List.length_map, List.length_range]; omega),
          List.drop_eq_nil_of_le (by simp only [List.length_map, List.length_range]; omega)]
        simp
      refine ⟨(H.length, H ++ [some bytes]), ?_, rfl⟩
      show (mallocAt junk size >>= _) H = _
      simp only [bind, StateT.bind, Except.bind, hmalloc, hread, Mem.lift, hres, writeAt, bytesAt,
        Mem.load, hdst, hwrite, Mem.store]
      have hset : (H ++ [some ((List.range size.toNat).map junk)]).set H.length (some bytes) =
          H ++ [some bytes] := by simp
      rw [hset]
      rfl

theorem built_null : Built H 0 (⟨none, 0, 0⟩, H) null :=
  ⟨rfl, ⟨[], by simp [isNull, null]⟩, by simp⟩

theorem built_block (b : List UInt8) (len cap : ℤ) :
    Built H 0 (⟨some H.length, len, cap⟩, H ++ [some b]) ⟨some b, len, cap⟩ := by
  refine ⟨?_, ⟨[b], rfl, rfl⟩, by simp⟩
  simp only [ByteArray.view, block_alloc, if_true, Option.map_some]

theorem Built.after {m : ℕ} {r : Members × Blocks UInt8} (h : Built (H ++ [some b]) m r v) :
    Built H (m + 1) r v := by
  obtain ⟨T, hr, hT⟩ := h.more
  refine ⟨h.view, ⟨b :: T, by simpa using hr, by rw [List.length_cons, hT]; omega⟩, fun p hp => ?_⟩
  have hle := h.fresh p hp
  rw [List.length_append] at hle
  omega

theorem ofLengthAt_simulates (junk : ℕ → UInt8) (len : ℤ) :
    Simulates (ofLengthAt junk len H) (ofLength junk len) (Built H 0) := by
  unfold ofLengthAt mallocAt ofLength
  rw [bind_assoc]
  refine (Simulates.lift _).seq ?_
  rintro b _ _ ⟨rfl⟩
  exact .ok (built_block b len len)

theorem ofBufferAt_simulates (junk : ℕ → UInt8) (buf : Option (List UInt8)) (len cap : ℤ) :
    Simulates (ofBufferAt junk buf len cap H) (ofBuffer buf len cap) (Built H 0) := by
  rcases buf with _ | src
  · exact .ok built_null
  · unfold ofBufferAt ofBuffer
    dsimp only
    split_ifs
    · refine (mallocMemcpyAt_simulates le_rfl fun _ => rfl).seq ?_
      rintro _ _ b ⟨rfl⟩
      exact .ok (built_block b len len)
    · exact .ok built_null
    · refine (mallocMemcpyAt_simulates le_rfl fun _ => rfl).seq ?_
      rintro _ _ b ⟨rfl⟩
      exact .ok (built_block b len cap)

theorem readAt_view (h : ByteArray.view H x = some v) (b : List UInt8) :
    readAt x.buf off n (H ++ [some b]) = Mem.lift (readBlock v.data off n) (H ++ [some b]) :=
  bytesAt_view (view_alloc h b) _

theorem copyAt_simulates (junk : ℕ → UInt8) (h : ByteArray.view H x = some v) :
    Simulates (copyAt junk x H) v.copy (Built H 0) := by
  have hread := @readAt_view H x v 0 x.cap h
  have hlen := view_len h
  have hcap := view_cap h
  rcases x with ⟨_ | p, len, cap⟩
  · obtain rfl := Option.some.inj h
    exact .ok built_null
  · obtain ⟨src, -, rfl⟩ := Option.map_eq_some_iff.mp h
    refine (mallocMemcpyAt_simulates le_rfl hread).seq ?_
    rintro _ _ b ⟨rfl⟩
    exact .ok (built_block b len cap)

theorem reallocAt_simulates (junk : ℕ → UInt8) (largerCap : ℤ) (h : ByteArray.view H x = some v) :
    Simulates (reallocAt x junk largerCap H)
      (realloc junk v.buf largerCap >>= fun b => .ok { v with buf := some b, cap := largerCap })
      (Built H 0) := by
  have hdata : realloc junk v.buf largerCap = realloc junk (some v.data) largerCap := rfl
  unfold reallocAt
  rw [hdata, bytesAt_view h]
  refine (Simulates.lift _).seq ?_
  rintro b _ _ ⟨rfl⟩
  rw [← view_len h]
  exact .ok (built_block b x.len largerCap)

/-- `Slice` leaves a block behind. -/
theorem sliceAt_simulates (junk : ℕ → UInt8) (off len : ℤ) (h : ByteArray.view H x = some v) :
    Simulates (sliceAt junk x off len H) (v.slice off len) (Built H 1) := by
  unfold sliceAt slice
  rw [view_len h]
  refine (Simulates.lift _).seq ?_
  rintro remain _ _ ⟨rfl⟩
  generalize (if len = -1 then remain else len) = size
  dsimp only
  split_ifs with hlt
  · exact rfl
  · refine (mallocMemcpyAt_simulates (not_lt.mp hlt) (readAt_view h)).seq ?_
    rintro _ _ tmp ⟨rfl⟩
    have htmp := (built_block (H := H) tmp remain remain).view
    rw [bytesAt_view htmp]
    exact (ofBufferAt_simulates junk _ _ _).imp fun _ _ hb => hb.after

/-! ### One statement -/

variable {st : Store} {s : Vars} {lost : Finset ℕ} {i j k : ℕ}

theorem view_allocs (h : ByteArray.view H x = some v) (T : List (List UInt8)) :
    ByteArray.view (H ++ T.map some) x = some v := by
  induction T generalizing H with
  | nil => simpa using h
  | cons b T ih => simpa using ih (view_alloc h b)

theorem view_buf (h : ByteArray.view H x = some v) : x.buf = none ↔ v.isNull = true := by
  rcases x with ⟨_ | p, len, cap⟩
  · obtain rfl := Option.some.inj h
    exact iff_of_true rfl rfl
  · obtain ⟨b, -, rfl⟩ := Option.map_eq_some_iff.mp h
    simp [isNull]

theorem exists_block {p : ℕ} (h : ByteArray.view H x = some v) (hp : x.buf = some p) :
    ∃ b, block H p = some b := by
  rcases x with ⟨_ | q, len, cap⟩
  · cases hp
  · obtain rfl := Option.some.inj hp
    obtain ⟨b, hb, -⟩ := Option.map_eq_some_iff.mp h
    exact ⟨b, hb⟩

/-- Another block changes nothing for an object. -/
theorem view_set {p : ℕ} (h : ByteArray.view H x = some v) (hb : block H p = some b)
    (hp : x.buf ≠ some p) (o : Option (List UInt8)) : ByteArray.view (H.set p o) x = some v := by
  rcases x with ⟨_ | q, len, cap⟩
  · exact h
  · have hne : q ≠ p := fun heq => hp (congrArg some heq)
    simpa only [ByteArray.view, block_set hb, if_neg hne] using h

/-- The destructor frees what only the variable points to. -/
theorem destroyAt_spec {vars : ℕ → Members} (h : Exclusive H (fun k => (vars k).buf) lost) (i : ℕ) :
    ∃ H', destroyAt (vars i) H = .ok ((), H') ∧
      Exclusive H' (Function.update (fun k => (vars k).buf) i none) lost ∧
      ∀ {x v}, (∀ p, (vars i).buf = some p → x.buf ≠ some p) → ByteArray.view H x = some v →
        ByteArray.view H' x = some v := by
  cases hbuf : (vars i).buf with
  | none =>
    refine ⟨H, by rw [destroyAt, hbuf]; rfl, ?_, fun _ hv => hv⟩
    rw [← hbuf, Function.update_eq_self]
    exact h
  | some p =>
    obtain ⟨b, hb⟩ := h.live hbuf
    refine ⟨H.set p none, ?_, ?_, fun hne hv => view_set hv hb (hne p rfl) none⟩
    · rw [destroyAt, hbuf]
      simp only [Mem.free, hb]
    · have hnot : p ∉ lost := fun hmem => h.away hmem hbuf
      have hfree := (h.drop hbuf).free (Finset.mem_insert_self p lost)
      rwa [Finset.erase_insert hnot] at hfree

/-- **A variable gets another object**: its own block is freed, and it owns the one of the new object. -/
theorem put_simulates {m : HeapM Members} {a : Except Fault ByteArray} {n : ℕ}
    (h : Represents st s lost) (hm : Simulates (m st.heap) a (Built st.heap n)) :
    Simulates (put st i m) (a >>= fun ba => .ok (Function.update s i ba))
      (fun st' s' => ∃ lost', Represents st' s' lost' ∧ lost'.card = lost.card + n) := by
  refine hm.bind ?_
  rintro ⟨x, H'⟩ ba ⟨hview, ⟨T, hT, hlen⟩, hfresh⟩
  dsimp only at hview hT hfresh
  subst hT
  obtain ⟨loose, hex, hcard, hloose⟩ := h.blocks.allocs T
  obtain ⟨H', hrun, hex', hkeep⟩ := destroyAt_spec hex i
  have hapart : ∀ {k p}, (st.vars k).buf = some p → x.buf ≠ some p := fun {k p} hk hx => by
    obtain ⟨b, hb⟩ := h.blocks.live hk
    exact absurd (hfresh p hx) (not_le.mpr (lt_of_block hb))
  have hviews : ∀ k, ByteArray.view H' (Function.update st.vars i x k) =
      some (Function.update s i ba k) := fun k => by
    by_cases hk : k = i
    · rw [hk, Function.update_self, Function.update_self]
      exact hkeep (fun p hp => hapart hp) hview
    · rw [Function.update_of_ne hk, Function.update_of_ne hk]
      exact hkeep (fun p hp hkp => hk (h.blocks.one hkp hp)) (view_allocs (h.view k) T)
  have hptr : (fun k => (Function.update st.vars i x k).buf) =
      Function.update (Function.update (fun k => (st.vars k).buf) i none) i x.buf := by
    funext k
    by_cases hk : k = i
    · rw [hk, Function.update_self, Function.update_self]
    · rw [Function.update_of_ne hk, Function.update_of_ne hk, Function.update_of_ne hk]
  simp only [hrun, bind, Except.bind]
  refine .ok ?_
  cases hbuf : x.buf with
  | none =>
    rw [(view_buf hview).mp hbuf, if_pos rfl, Nat.add_zero] at hlen
    refine ⟨loose, ⟨hviews, ?_⟩, by rw [hcard, hlen]⟩
    rw [hptr, hbuf, Function.update_idem]
    exact hex'
  | some p =>
    have hnull : ¬ ba.isNull = true := fun hn => by
      rw [(view_buf hview).mpr hn] at hbuf
      cases hbuf
    rw [if_neg hnull] at hlen
    obtain ⟨b, hb⟩ := exists_block hview hbuf
    have hmem : p ∈ loose := hloose p ⟨b, hb⟩ (hfresh p hbuf)
    refine ⟨loose.erase p, ⟨hviews, ?_⟩, ?_⟩
    · rw [hptr, hbuf]
      exact hex'.give hmem (Function.update_self ..)
    · rw [Finset.card_erase_of_mem hmem]
      omega

section Represents
variable (h : Represents st s lost)
include h

theorem Represents.len (i : ℕ) : (st.vars i).len = (s i).len := view_len (h.view i)

theorem Represents.cap (i : ℕ) : (st.vars i).cap = (s i).cap := view_cap (h.view i)

/-- The length of a variable is set. -/
theorem Represents.setLen (i : ℕ) (len : ℤ) :
    Represents { st with vars := Function.update st.vars i { st.vars i with len := len } }
      (Function.update s i { s i with len := len }) lost := by
  refine ⟨fun k => ?_, ?_⟩
  · dsimp only
    by_cases hk : k = i
    · rw [hk, Function.update_self, Function.update_self]
      exact view_setLen (h.view i) len
    · rw [Function.update_of_ne hk, Function.update_of_ne hk]
      exact h.view k
  · have hptr : (fun k => (Function.update st.vars i { st.vars i with len := len } k).buf) =
        fun k => (st.vars k).buf := by
      funext k
      by_cases hk : k = i
      · rw [hk, Function.update_self]
      · rw [Function.update_of_ne hk]
    show Exclusive st.heap _ lost
    rw [hptr]
    exact h.blocks

theorem truncateAt_simulates (i : ℕ) (len : ℤ) :
    Simulates (truncateAt st i len) ((s i).truncate len >>= fun ba => .ok (Function.update s i ba))
      (fun st' s' => ∃ lost', Represents st' s' lost' ∧ lost'.card = lost.card + 0) := by
  unfold truncateAt truncate
  rw [h.cap i]
  split_ifs
  · exact rfl
  · exact .ok ⟨lost, h.setLen i len, rfl⟩

theorem writeDataAt_simulates (i : ℕ) (k : ℤ) (bytes : List UInt8) :
    Simulates (writeDataAt st i k bytes) (writeBlock (s i).data k bytes)
      (fun st' b => st'.vars = st.vars ∧
        Represents st' (Function.update s i { s i with buf := (s i).buf.map fun _ => b }) lost) := by
  have hview := h.view i
  unfold writeDataAt writeAt
  rw [bytesAt_view hview]
  simp only [bind, StateT.bind, Except.bind, Mem.lift]
  cases hwrite : writeBlock (s i).data k bytes with
  | error e => exact rfl
  | ok b =>
    cases hbuf : (st.vars i).buf with
    | none =>
      refine .ok ⟨rfl, ?_⟩
      have hnone : (s i).buf = none := by
        rw [ByteArray.view, hbuf] at hview
        rw [← Option.some.inj hview]
      have hsame : { s i with buf := (s i).buf.map fun _ => b } = s i := by
        rcases hs : s i with ⟨buf, len, cap⟩
        rw [hs] at hnone
        simp only at hnone
        rw [hnone, Option.map_none]
      rw [hsame, Function.update_eq_self]
      exact h
    | some p =>
      rw [ByteArray.view, hbuf] at hview
      obtain ⟨c, hc, heq⟩ := Option.map_eq_some_iff.mp hview
      simp only [Mem.store, hc]
      refine .ok ⟨rfl, fun k => ?_, h.blocks.store hc⟩
      by_cases hk : k = i
      · rw [hk, Function.update_self]
        simp only [ByteArray.view, hbuf, block_set hc, if_true, ← heq, Option.map_some]
      · rw [Function.update_of_ne hk]
        exact view_set (h.view k) hc (fun hkp => hk (h.blocks.one hkp hbuf)) _

theorem reserveAt_simulates (i j : ℕ) (junk : ℕ → UInt8) :
    Simulates (reserveAt st i j junk) (reserve s i j junk)
      (fun st' s' => ∃ lost', Represents st' s' lost' ∧ lost'.card = lost.card + 0) := by
  unfold reserveAt reserve
  rw [h.cap i, h.len i, h.len j]
  refine (Simulates.fault _).bind ?_
  rintro _ remain rfl
  show Simulates (if _ < (s j).len then _ else _) (if _ < (s j).len then _ else _) _
  split_ifs
  · refine (Simulates.fault _).bind ?_
    rintro larger _ rfl
    have hput := put_simulates (i := i) h (reallocAt_simulates junk larger (h.view i))
    rwa [bind_assoc] at hput
  · exact .ok ⟨lost, h, rfl⟩

theorem appendAt_simulates (i j : ℕ) (junk : ℕ → UInt8) :
    Simulates (appendAt st i j junk) (append s i j junk)
      (fun st' s' => ∃ lost', Represents st' s' lost' ∧ lost'.card = lost.card + 0) := by
  refine (reserveAt_simulates h i j junk).bind ?_
  rintro st s ⟨lost', h, hcard⟩
  have hread : Simulates (readAt (st.vars j).buf 0 (st.vars j).len st.heap)
      (readBlock (s j).data 0 (s j).length) (fun r b => r = (b, st.heap)) := by
    rw [readAt, bytesAt_view (h.view j), h.len j]
    exact Simulates.lift _
  refine hread.bind ?_
  rintro _ src rfl
  dsimp only
  rw [h.len i]
  refine (writeDataAt_simulates h i (s i).len src).bind ?_
  rintro st' b ⟨-, h'⟩
  rw [h'.len i, h'.len j]
  refine (Simulates.fault _).bind ?_
  rintro len _ rfl
  exact .ok ⟨lost', h'.setLen i len, hcard⟩

end Represents

/-- The values of a program, where `n` blocks have been lost. -/
def Loses (st : Store) (s : Vars) (n : ℕ) : Prop := ∃ lost, Represents st s lost ∧ lost.card = n

theorem loses_empty : Loses .empty (fun _ => .null) 0 := ⟨∅, ⟨fun _ => rfl, .start⟩, rfl⟩

/-- **One statement does on the heap what it does to the values**; a `Slice` loses one block. -/
theorem exec_simulates {n : ℕ} (junk : ℕ → UInt8) (c : Call) (h : Loses st s n) :
    Simulates (c.exec junk st) (c.run s) (fun st' s' => Loses st' s' (n + c.slices)) := by
  obtain ⟨lost, h, rfl⟩ := h
  cases c with
  | slice i j off len => exact put_simulates h (sliceAt_simulates junk off len (h.view j))
  | plain op =>
    cases op with
    | null i => exact put_simulates (m := nullAt) (a := .ok null) h (.ok built_null)
    | ofLength i junk len => exact put_simulates h (ofLengthAt_simulates junk len)
    | ofBuffer i buf len cap => exact put_simulates h (ofBufferAt_simulates junk buf len cap)
    | copy i j | assign i j => exact put_simulates h (copyAt_simulates junk (h.view j))
    | append i j junk => exact appendAt_simulates h i j junk
    | slice i j off => exact put_simulates h (sliceAt_simulates junk off (-1) (h.view j))
    | truncate i len => exact truncateAt_simulates h i len
    | write i k bytes =>
      show Simulates (writeDataAt st i k bytes) ((writeBlock (s i).data k bytes >>= _) >>= _) _
      rw [bind_assoc, ← bind_pure (writeDataAt st i k bytes)]
      refine (writeDataAt_simulates h i k bytes).bind ?_
      rintro st' b ⟨-, h'⟩
      exact .ok ⟨lost, h', rfl⟩

/-! ### Programs -/

theorem calls_simulate {n : ℕ} (junk : ℕ → UInt8) (calls : List Call) (h : Loses st s n) :
    Simulates (calls.foldlM (Call.exec junk) st) (calls.foldlM Call.run s)
      (fun st' s' => Loses st' s' (n + (calls.map Call.slices).sum)) := by
  have hstep : ∀ {n st s} (c : Call), Loses st s n →
      Simulates (c.exec junk st) (c.run s) (fun st' s' => Loses st' s' (n + c.slices)) :=
    exec_simulates junk
  exact Simulates.run_cost (R := fun n st s => Loses st s n) hstep calls h

/-- **Programs with pointers do what programs on values do.** A program fails on the heap exactly where it
fails on values, with the same error and never because of a pointer to a block that was freed. After it
each non-null variable has a block of its own with its value, and beside these blocks there is one for each
`Slice`, to which nothing points. -/
theorem program_simulates (junk : ℕ → UInt8) (calls : List Call) :
    Simulates (calls.foldlM (Call.exec junk) .empty) (calls.foldlM Call.run fun _ => .null)
      (fun st s => ∃ lost, Represents st s lost ∧ lost.card = (calls.map Call.slices).sum) := by
  have hrun := calls_simulate junk calls loses_empty
  rwa [Nat.zero_add] at hrun

end LibMumble.ByteArray
