import LibMumble.ByteArray.Pointers
import LibMumble.UVBio

/-! # The queue of the BIO with its pointers

The list of `UVBioState` as it is on the heap. Every `ByteArray` in it, every parameter that is passed by
value and every local variable is an object of its own, with a name that is used once. `Mirrors` says
which arrays the objects in the list stand for, that no other object is left, and how many blocks have
been lost. What `OnRead` and OpenSSL do with the queue then does on the heap what it does on values
(`uses_simulate`), and each `Read` with less room than the front array has bytes loses one block. The
block that `AllocCallback` has made for a transfer is not on this heap: `OnRead` only reads it. -/

namespace LibMumble.UVBioState

open Lib LibMumble.ByteArray

/-! ### The methods -/

/-- The objects of the list in their order, and the first name that has not been used. -/
structure Queue where
  store : Store
  bufs : List ℕ
  next : ℕ

/-- Statements on the objects. -/
def Queue.exec (junk : ℕ → UInt8) (q : Queue) (calls : List Call) : Except (Misuse Fault) Queue := do
  let store ← calls.foldlM (Call.exec junk) q.store
  return { q with store := store }

variable (junk : ℕ → UInt8)

/-- The object `ba` is passed by value, and the parameter is copied into a new node of the list. -/
def newNodeAt (q : Queue) (ba : ℕ) : Except (Misuse Fault) (ℕ × Queue) := do
  let param := q.next
  let node := q.next + 1
  let q ← q.exec junk [.plain (.copy param ba), .plain (.copy node param), .plain (.null param)]
  return (node, { q with next := node + 1 })

/-- `UVBioState::PutNewBuffer`. -/
def putNewBufferAt (q : Queue) (ba : ℕ) : Except (Misuse Fault) Queue := do
  let (node, q) ← newNodeAt junk q ba
  return { q with bufs := q.bufs ++ [node] }

/-- `UVBioState::PutOldBuffer`. -/
def putOldBufferAt (q : Queue) (ba : ℕ) : Except (Misuse Fault) Queue := do
  let (node, q) ← newNodeAt junk q ba
  return { q with bufs := node :: q.bufs }

/-- `UVBioState::GetBuffer`, with the object that the caller gets. -/
def getBufferAt (q : Queue) : Except (Misuse Fault) (ℕ × Queue) :=
  match q.bufs with
  | [] => .error (.fault .assertion)
  | n :: rest => do
    let front := q.next
    let q ← q.exec junk [.plain (.copy front n), .plain (.null n)]
    return (front, { q with bufs := rest, next := front + 1 })

/-- `UVBioState::Read`, but for the flags: the value returned and the bytes written to `buf`. -/
def readAt (q : Queue) (len : ℤ) : Except (Misuse Fault) (ℤ × List UInt8 × Queue) :=
  if q.bufs = [] then .ok (-1, [], q)
  else do
    let (ba, q) ← getBufferAt junk q
    if len < (q.store.vars ba).len then do
      let remain := q.next
      let q ← q.exec junk [.plain (.slice remain ba len)]
      let q ← putOldBufferAt junk { q with next := remain + 1 } remain
      let (data, heap) ← ByteArray.readAt (q.store.vars ba).buf 0 len q.store.heap
      let q ← { q with store := { q.store with heap := heap } }.exec junk
        [.plain (.null remain), .plain (.null ba)]
      return (len, data, q)
    else do
      let length := (q.store.vars ba).len
      let (data, heap) ← ByteArray.readAt (q.store.vars ba).buf 0 length q.store.heap
      let q ← { q with store := { q.store with heap := heap } }.exec junk [.plain (.null ba)]
      return (length, data, q)

/-- What `OnRead` does with the buffer that it is given. -/
def onReadAt (q : Queue) (buf : List UInt8) (len cap : ℤ) : Except (Misuse Fault) Queue := do
  let b := q.next
  let store ← put q.store b (ofBufferAt junk (some buf) len cap)
  let q ← putNewBufferAt junk { q with store := store, next := b + 1 } b
  q.exec junk [.plain (.null b)]

/-! ### What the objects stand for -/

/-- **The list on the heap**: its objects stand for the arrays in `bufs`, nothing else is left but `n` blocks
that have been lost. -/
def Mirrors (q : Queue) (bufs : List ByteArray) (n : ℕ) : Prop :=
  ∃ s, Loses q.store s n ∧ q.bufs.map s = bufs ∧ q.bufs.Nodup ∧ (∀ k ∈ q.bufs, k < q.next) ∧
    ∀ k ∉ q.bufs, s k = .null

variable {junk} {q : Queue} {s : Vars} {bufs : List ByteArray} {k n : ℕ} {len : ℤ}

theorem mirrors_empty : Mirrors ⟨.empty, [], 0⟩ [] 0 :=
  ⟨fun _ => .null, loses_empty, rfl, List.nodup_nil, by simp, fun _ _ => rfl⟩

/-- Statements on the objects, and what they give in values. -/
theorem exec_simulates {calls : List Call} {α : Type} {a : Except Fault α} {g : α → Vars}
    (h : Loses q.store s n) (hrun : calls.foldlM Call.run s = a >>= fun x => .ok (g x)) :
    Simulates (q.exec junk calls) a (fun q' x => q'.bufs = q.bufs ∧ q'.next = q.next ∧
      Loses q'.store (g x) (n + (calls.map Call.slices).sum)) := by
  have hcalls := calls_simulate junk calls h
  rw [hrun] at hcalls
  rw [← bind_pure a]
  exact hcalls.of_map.bind fun store x hx => .ok ⟨rfl, rfl, hx⟩

theorem newNodeAt_simulates (h : Loses q.store s n) (hfresh : s q.next = .null) (ba : ℕ) :
    Simulates (newNodeAt junk q ba) ((s ba).copy >>= copy) (fun r b => r.1 = q.next + 1 ∧
      r.2.bufs = q.bufs ∧ r.2.next = q.next + 2 ∧
      Loses r.2.store (Function.update s (q.next + 1) b) n) := by
  have hrun : [Call.plain (.copy q.next ba), .plain (.copy (q.next + 1) q.next),
      .plain (.null q.next)].foldlM Call.run s =
      ((s ba).copy >>= copy) >>= fun b => .ok (Function.update s (q.next + 1) b) := by
    simp only [List.foldlM_cons, List.foldlM_nil, Call.run, Op.run, bind_assoc, pure_bind,
      Function.update_self]
    refine congrArg _ (funext fun a => congrArg _ (funext fun b => ?_))
    show Except.ok (Function.update (Function.update (Function.update s q.next a) (q.next + 1) b)
      q.next .null) = _
    rw [Function.update_comm (by omega), Function.update_idem, ← hfresh, Function.update_eq_self]
  rw [← bind_pure ((s ba).copy >>= copy)]
  refine (exec_simulates h hrun).bind ?_
  rintro q' b ⟨hbufs, -, hl⟩
  exact .ok ⟨rfl, hbufs, rfl, hl⟩

theorem putNewBufferAt_simulates (h : Loses q.store s n) (hfresh : s q.next = .null) (ba : ℕ) :
    Simulates (putNewBufferAt junk q ba) ((s ba).copy >>= copy) (fun q' b =>
      q'.bufs = q.bufs ++ [q.next + 1] ∧ q'.next = q.next + 2 ∧
      Loses q'.store (Function.update s (q.next + 1) b) n) := by
  rw [← bind_pure ((s ba).copy >>= copy)]
  refine (newNodeAt_simulates h hfresh ba).bind ?_
  rintro ⟨node, q'⟩ b ⟨rfl, hbufs, hnext, hl⟩
  exact .ok ⟨congrArg (· ++ [q.next + 1]) hbufs, hnext, hl⟩

theorem putOldBufferAt_simulates (h : Loses q.store s n) (hfresh : s q.next = .null) (ba : ℕ) :
    Simulates (putOldBufferAt junk q ba) ((s ba).copy >>= copy) (fun q' b =>
      q'.bufs = (q.next + 1) :: q.bufs ∧ q'.next = q.next + 2 ∧
      Loses q'.store (Function.update s (q.next + 1) b) n) := by
  rw [← bind_pure ((s ba).copy >>= copy)]
  refine (newNodeAt_simulates h hfresh ba).bind ?_
  rintro ⟨node, q'⟩ b ⟨rfl, hbufs, hnext, hl⟩
  exact .ok ⟨congrArg ((q.next + 1) :: ·) hbufs, hnext, hl⟩

theorem getBufferAt_simulates {rest : List ℕ} (h : Loses q.store s n) (hbufs : q.bufs = k :: rest) :
    Simulates (getBufferAt junk q) (s k).copy (fun r a => r.1 = q.next ∧ r.2.bufs = rest ∧
      r.2.next = q.next + 1 ∧
      Loses r.2.store (Function.update (Function.update s q.next a) k .null) n) := by
  unfold getBufferAt
  rw [hbufs]
  have hrun : [Call.plain (.copy q.next k), .plain (.null k)].foldlM Call.run s =
      (s k).copy >>= fun a => .ok (Function.update (Function.update s q.next a) k .null) := by
    simp only [List.foldlM_cons, List.foldlM_nil, Call.run, Op.run, bind_assoc, pure_bind]
    rfl
  rw [← bind_pure (s k).copy]
  refine (exec_simulates h hrun).bind ?_
  rintro q' a ⟨-, -, hl⟩
  exact .ok ⟨rfl, rfl, rfl, hl⟩

/-- Local objects are destroyed. -/
theorem exec_nulls (h : Loses q.store s n) (locals : List ℕ) :
    ∃ q', q.exec junk (locals.map fun i => .plain (.null i)) = .ok q' ∧ q'.bufs = q.bufs ∧
      q'.next = q.next ∧ Loses q'.store (locals.foldl (fun s i => Function.update s i .null) s) n := by
  have hrun : ∀ s : Vars, (locals.map fun i => Call.plain (.null i)).foldlM Call.run s =
      .ok (locals.foldl (fun s i => Function.update s i .null) s) := by
    induction locals with
    | nil => exact fun _ => rfl
    | cons i locals ih => exact fun s => ih (Function.update s i .null)
  have hsum : ((locals.map fun i => Call.plain (.null i)).map Call.slices).sum = 0 := by
    simp [Function.comp_def, Call.slices]
  obtain ⟨q', hq', hbufs, hnext, hl⟩ := @exec_simulates junk q s n _ _ (.ok ())
    (fun _ => locals.foldl (fun s i => Function.update s i .null) s) h (hrun s)
  rw [hsum] at hl
  exact ⟨q', hq', hbufs, hnext, hl⟩

/-- A read of the bytes of an object. -/
theorem readAt_simulates (h : Loses q.store s n) (off size : ℤ) :
    Simulates (ByteArray.readAt (q.store.vars k).buf off size q.store.heap)
      (readBlock (s k).data off size) (fun r b => r = (b, q.store.heap)) := by
  obtain ⟨lost, hrep, -⟩ := h
  rw [ByteArray.readAt, bytesAt_view (hrep.view k)]
  exact Simulates.lift _

/-- `Read` with a front array, in values. -/
theorem read_cons (flags : BioFlags) (ba : ByteArray) (rest : List ByteArray) (len : ℤ) :
    (⟨flags, ⟨ba :: rest⟩⟩ : Bio).read len = ba.copy >>= fun a =>
      if len < a.length then a.slice len (-1) >>= fun r => (r.copy >>= copy) >>= fun b =>
        readBlock a.data 0 len >>= fun data => .ok (len, data, ⟨flags, ⟨b :: rest⟩⟩)
      else readBlock a.data 0 a.length >>= fun data => .ok (a.length, data, ⟨flags, ⟨rest⟩⟩) := by
  have hhas : hasBuffers ⟨ba :: rest⟩ = true := by simp [hasBuffers]
  simp only [Bio.read, hhas, getBuffer, putOldBuffer, bind_assoc, pure_bind, not_true_eq_false,
    if_false]
  rfl

/-- `Read` slices the front array, which has more bytes than there is room for. -/
def splits (st : UVBioState) (len : ℤ) : ℕ :=
  match st.getBuffer with
  | .ok (ba, _) => if len < ba.length then 1 else 0
  | .error _ => 0

theorem splits_of_copy {ba a : ByteArray} (h : ba.copy = .ok a) (rest : List ByteArray) (len : ℤ) :
    splits ⟨ba :: rest⟩ len = if len < a.length then 1 else 0 := by
  simp only [splits, getBuffer, h]
  rfl

/-- **`Read` on the heap**: it loses one block when it slices. -/
theorem read_simulates (h : Mirrors q bufs n) (flags : BioFlags) (len : ℤ) :
    Simulates (readAt junk q len) ((⟨flags, ⟨bufs⟩⟩ : Bio).read len) (fun r b => r.1 = b.1 ∧
      r.2.1 = b.2.1 ∧ Mirrors r.2.2 b.2.2.ptr.bufs (n + splits ⟨bufs⟩ len)) := by
  obtain ⟨s, hl, rfl, hnodup, hlt, hnull⟩ := h
  unfold readAt
  cases hbufs : q.bufs with
  | nil =>
    rw [if_pos rfl]
    refine .ok ⟨rfl, rfl, s, hl, by rw [hbufs], hnodup, hlt, hnull⟩
  | cons k rest =>
    rw [if_neg (by simp), List.map_cons, read_cons]
    rw [hbufs] at hnodup hlt hnull
    have hk : k < q.next := hlt k (by simp)
    have hfresh : ∀ j, q.next ≤ j → s j = .null := fun j hj => hnull j fun hmem => by
      have hj' := hlt j hmem
      omega
    have hrest : ∀ j ∈ rest, j < q.next ∧ j ≠ k := fun j hj =>
      ⟨hlt j (by simp [hj]), fun heq => (List.nodup_cons.mp hnodup).1 (heq ▸ hj)⟩
    refine (getBufferAt_simulates hl hbufs).known.bind ?_
    rintro ⟨front, q1⟩ a ⟨⟨rfl, hb1, hn1, hl1⟩, ha⟩
    have hlen : (q1.store.vars q.next).len = a.length := by
      obtain ⟨lost, hrep, -⟩ := hl1
      rw [hrep.len, Function.update_of_ne (by omega), Function.update_self]
      rfl
    dsimp only at hb1 hn1 hl1 ⊢
    rw [hlen, splits_of_copy ha]
    split_ifs with hlt'
    · -- the rest of the array is put back, in a node of its own
      set s1 := Function.update (Function.update s q.next a) k .null with hs1
      have hs1a : s1 q.next = a := by
        rw [hs1, Function.update_of_ne (by omega), Function.update_self]
      have hs1f : ∀ j, q.next < j → s1 j = .null := fun j hj => by
        rw [hs1, Function.update_of_ne (by omega), Function.update_of_ne (by omega)]
        exact hfresh j hj.le
      have hslice : [Call.plain (.slice q1.next q.next len)].foldlM Call.run s1 =
          a.slice len (-1) >>= fun r => .ok (Function.update s1 (q.next + 1) r) := by
        simp only [List.foldlM_cons, List.foldlM_nil, Call.run, Op.run, hs1a, bind_assoc, hn1]
        rfl
      refine (exec_simulates hl1 hslice).bind ?_
      rintro q2 r ⟨hb2, hn2, hl2⟩
      have hput := @putOldBufferAt_simulates junk { q2 with next := q.next + 1 + 1 } _ _ hl2
        (by
          show Function.update s1 (q.next + 1) r (q.next + 1 + 1) = .null
          rw [Function.update_of_ne (by omega), hs1f _ (by omega)]) (q.next + 1)
      rw [Function.update_self] at hput
      rw [hn1]
      refine hput.bind ?_
      rintro q3 b ⟨hb3, hn3, hl3⟩
      dsimp only at hb3 hn3 hl3
      have hread := @readAt_simulates q3 _ q.next _ hl3 0 len
      rw [Function.update_of_ne (by omega), Function.update_of_ne (by omega), hs1a] at hread
      refine hread.bind ?_
      rintro _ data rfl
      obtain ⟨q4, hq4, hb4, hn4, hl4⟩ := @exec_nulls junk q3 _ _ hl3 [q.next + 1, q.next]
      have hq4' : q3.exec junk [.plain (.null (q.next + 1)), .plain (.null q.next)] = .ok q4 := hq4
      dsimp only
      rw [hq4']
      have hval : ∀ j, [q.next + 1, q.next].foldl (fun s i => Function.update s i .null)
          (Function.update (Function.update s1 (q.next + 1) r) (q.next + 1 + 1 + 1) b) j =
          if j = q.next + 1 + 1 + 1 then b else if j = k then .null else s j := fun j => by
        simp only [List.foldl_cons, List.foldl_nil, hs1, Function.update_apply]
        split_ifs <;> first | rfl | omega | exact (hfresh _ (by omega)).symm
      have hb : q4.bufs = (q.next + 1 + 1 + 1) :: rest := by rw [hb4, hb3, hb2, hb1]
      have hnode : ∀ j ∈ rest, j ≠ q.next + 1 + 1 + 1 := fun j hj => by
        have hj' := (hrest j hj).1
        omega
      refine .ok ⟨rfl, rfl, _, hl4, ?_, ?_, ?_, fun j hj => ?_⟩
      · rw [hb, List.map_cons, hval, if_pos rfl]
        refine congrArg (b :: ·) (List.map_congr_left fun j hj => ?_)
        rw [hval, if_neg (hnode j hj), if_neg (hrest j hj).2]
      · rw [hb]
        exact List.nodup_cons.mpr ⟨fun hmem => hnode _ hmem rfl, (List.nodup_cons.mp hnodup).2⟩
      · rw [hb, hn4, hn3]
        intro j hj
        rcases List.mem_cons.mp hj with rfl | hj
        · omega
        · have hj' := (hrest j hj).1
          omega
      · rw [hb, List.mem_cons, not_or] at hj
        rw [hval, if_neg hj.1]
        split_ifs with h1
        · rfl
        · exact hnull j (by simp [h1, hj.2])
    · -- the whole array is read, and its object destroyed
      have hread := @readAt_simulates q1 _ q.next _ hl1 0 a.length
      rw [Function.update_of_ne (by omega), Function.update_self] at hread
      refine hread.bind ?_
      rintro _ data rfl
      obtain ⟨q2, hq2, hb2, hn2, hl2⟩ := @exec_nulls junk q1 _ n hl1 [q.next]
      have hq2' : q1.exec junk [.plain (.null q.next)] = .ok q2 := hq2
      dsimp only
      rw [hq2']
      have hval : ∀ j, Function.update (Function.update (Function.update s q.next a) k .null)
          q.next .null j = if j = k then .null else s j := fun j => by
        simp only [Function.update_apply]
        split_ifs with h1 h2 h3
        · rfl
        · rw [h1, hfresh _ le_rfl]
        · rfl
        · rfl
      refine .ok ⟨rfl, rfl, _, hl2, ?_, ?_, ?_, fun j hj => ?_⟩
      · rw [hb2, hb1]
        exact List.map_congr_left fun j hj => (hval j).trans (if_neg (hrest j hj).2)
      · rw [hb2, hb1]
        exact (List.nodup_cons.mp hnodup).2
      · rw [hb2, hb1, hn2, hn1]
        exact fun j hj => Nat.lt_succ_of_lt (hrest j hj).1
      · rw [hb2, hb1] at hj
        refine (hval j).trans ?_
        split_ifs with h1
        · rfl
        · exact hnull j (by simp [h1, hj])

/-- What `OnRead` does, in values. -/
def onRead (st : UVBioState) (buf : List UInt8) (len cap : ℤ) : Except Fault UVBioState := do
  let b ← ofBuffer (some buf) len cap
  st.putNewBuffer b

/-- **`OnRead` on the heap** loses nothing. -/
theorem onRead_simulates (h : Mirrors q bufs n) (buf : List UInt8) (len cap : ℤ) :
    Simulates (onReadAt junk q buf len cap) (onRead ⟨bufs⟩ buf len cap)
      (fun q' st => Mirrors q' st.bufs n) := by
  obtain ⟨s, hl, rfl, hnodup, hlt, hnull⟩ := h
  have hfresh : ∀ j, q.next ≤ j → s j = .null := fun j hj => hnull j fun hmem => by
    have hj' := hlt j hmem
    omega
  have hmake : Simulates (put q.store q.next (ofBufferAt junk (some buf) len cap))
      (ofBuffer (some buf) len cap >>= fun b => .ok (Function.update s q.next b))
      (fun store s' => Loses store s' n) := by
    obtain ⟨lost, hrep, rfl⟩ := hl
    exact put_simulates hrep (ofBufferAt_simulates junk _ _ _)
  have hvalue : onRead ⟨q.bufs.map s⟩ buf len cap = ofBuffer (some buf) len cap >>= fun b =>
      (b.copy >>= copy) >>= fun b' => .ok ⟨q.bufs.map s ++ [b']⟩ := by
    simp only [onRead, putNewBuffer, bind_assoc]
    rfl
  rw [hvalue]
  refine hmake.of_map.bind ?_
  rintro store b hl1
  have hput := @putNewBufferAt_simulates junk { q with store := store, next := q.next + 1 } _ _ hl1
    (by
      show Function.update s q.next b (q.next + 1) = .null
      rw [Function.update_of_ne (by omega), hfresh _ (by omega)]) q.next
  rw [Function.update_self] at hput
  refine hput.bind ?_
  rintro q2 b' ⟨hb2, hn2, hl2⟩
  dsimp only at hb2 hn2 hl2
  obtain ⟨q3, hq3, hb3, hn3, hl3⟩ := @exec_nulls junk q2 _ n hl2 [q.next]
  have hq3' : q2.exec junk [.plain (.null q.next)] = .ok q3 := hq3
  rw [hq3']
  have hval : ∀ j, [q.next].foldl (fun s i => Function.update s i .null)
      (Function.update (Function.update s q.next b) (q.next + 1 + 1) b') j =
      if j = q.next + 1 + 1 then b' else s j := fun j => by
    simp only [List.foldl_cons, List.foldl_nil, Function.update_apply]
    split_ifs <;> first | rfl | omega | exact (hfresh _ (by omega)).symm
  have hb : q3.bufs = q.bufs ++ [q.next + 1 + 1] := by rw [hb3, hb2]
  have hnode : ∀ j ∈ q.bufs, j ≠ q.next + 1 + 1 := fun j hj => by
    have hj' := hlt j hj
    omega
  refine .ok ⟨_, hl3, ?_, ?_, ?_, fun j hj => ?_⟩
  · rw [hb, List.map_append, List.map_singleton, hval, if_pos rfl]
    refine congrArg (· ++ [b']) (List.map_congr_left fun j hj => ?_)
    rw [hval, if_neg (hnode j hj)]
  · rw [hb]
    refine List.nodup_append.mpr ⟨hnodup, List.nodup_singleton _, fun j hj j' hj' => ?_⟩
    rw [List.mem_singleton.mp hj']
    exact hnode j hj
  · rw [hb, hn3, hn2]
    intro j hj
    rcases List.mem_append.mp hj with hj | hj
    · have hj' := hlt j hj
      omega
    · rw [List.mem_singleton.mp hj]
      omega
  · rw [hb, List.mem_append, List.mem_singleton, not_or] at hj
    rw [hval, if_neg hj.2, hnull j hj.1]

/-! ### The BIO in use -/

/-- What is done with the queue: `OnRead` by libuv, with a `ssize_t` and a buffer whose length is a
`size_t`, and `Read` by OpenSSL. -/
inductive Use
  | onRead (nread : ℕ) (buf : List UInt8)
  | read (len : ℤ)

/-- The BIO with the results of `Read`, and how often `Read` has sliced. -/
structure Reader where
  bio : Bio
  got : List (ℤ × List UInt8)
  splits : ℕ

def Reader.use (r : Reader) : Use → Except Fault Reader
  | .onRead nread buf => do
    let st ← onRead r.bio.ptr buf (castInt nread) (castInt buf.length)
    return { r with bio := { r.bio with ptr := st } }
  | .read len => do
    let (ret, data, bio) ← r.bio.read len
    return ⟨bio, r.got ++ [(ret, data)], r.splits + r.bio.ptr.splits len⟩

/-- The queue on the heap with the results of `Read`. -/
structure ReaderAt where
  queue : Queue
  got : List (ℤ × List UInt8)

def ReaderAt.use (junk : ℕ → UInt8) (r : ReaderAt) : Use → Except (Misuse Fault) ReaderAt
  | .onRead nread buf => do
    let q ← onReadAt junk r.queue buf (castInt nread) (castInt buf.length)
    return { r with queue := q }
  | .read len => do
    let (ret, data, q) ← readAt junk r.queue len
    return ⟨q, r.got ++ [(ret, data)]⟩

/-- The heap agrees with the values. -/
def Agrees (r : ReaderAt) (v : Reader) : Prop :=
  r.got = v.got ∧ Mirrors r.queue v.bio.ptr.bufs v.splits

theorem use_simulates {r : ReaderAt} {v : Reader} (junk : ℕ → UInt8) (u : Use) (h : Agrees r v) :
    Simulates (r.use junk u) (v.use u) Agrees := by
  obtain ⟨hgot, hm⟩ := h
  cases u with
  | onRead nread buf =>
    simp only [ReaderAt.use, Reader.use]
    generalize castInt nread = len
    generalize castInt buf.length = cap
    refine (onRead_simulates hm buf len cap).bind ?_
    rintro q st hq
    exact .ok ⟨hgot, hq⟩
  | read len =>
    refine (read_simulates hm v.bio.flags len).bind ?_
    rintro ⟨ret, data, q⟩ ⟨ret', data', bio⟩ ⟨rfl, rfl, hq⟩
    exact .ok ⟨by rw [hgot], hq⟩

/-- **Whatever libuv and OpenSSL do with the queue**, on the heap it does what it does on values: `Read`
returns the same numbers and bytes, every array in the list has a block of its own, no pointer to a
block that was freed is used, and what is live beside the blocks of the list is one block for each `Read`
that had less room than the front array has bytes. -/
theorem uses_simulate (junk : ℕ → UInt8) (uses : List Use) :
    Simulates (uses.foldlM (ReaderAt.use junk) ⟨⟨.empty, [], 0⟩, []⟩)
      (uses.foldlM Reader.use ⟨.create, [], 0⟩) Agrees :=
  Simulates.run (use_simulates junk) uses ⟨rfl, mirrors_empty⟩

end LibMumble.UVBioState
