import LibMumble.UVBio
import LibMumble.Lib.Run

/-! # The bytes on the wire

`Write` gives `uv_write` an address and a length, and its caller may use the memory again as soon as
`Write` has returned. libuv keeps the requests it cannot send at once, and reads the memory of a
request when it sends it. So the queued requests stand for the bytes that are at their addresses now
(`Wire.pending`), and as long as no overwrite changes those, what was sent followed by what is
pending is what was written (`Wire.Faithful`). -/

namespace LibMumble

open Lib

/-- The memory that a request refers to. -/
def UVBuf.bytes (memory : ℕ → UInt8) (r : UVBuf) : List UInt8 :=
  (List.range' r.base r.len).map memory

/-- Memory after these bytes were put at `addr`. -/
def poke (memory : ℕ → UInt8) (addr : ℕ) (bytes : List UInt8) : ℕ → UInt8 :=
  fun i => if addr ≤ i then bytes.getD (i - addr) (memory i) else memory i

/-- A BIO, the memory of the process and the stream below. -/
structure Wire where
  bio : Bio
  memory : ℕ → UInt8
  /-- what the requests that `uv_write` took have still to send, in their order -/
  queue : List UVBuf
  sent : List UInt8
  /-- the bytes that the successful calls of `Write` were given, when they were called -/
  written : List UInt8

namespace Wire

def new (memory : ℕ → UInt8) : Wire := ⟨.create, memory, [], [], []⟩

/-- The bytes now at the addresses of the queued requests. -/
def pending (w : Wire) : List UInt8 := (w.queue.map (·.bytes w.memory)).flatten

inductive Act
  /-- `Write`, for which `uv_write` returns `uvWrite` -/
  | write (buf : ℕ) (len uvWrite : ℤ)
  | overwrite (addr : ℕ) (bytes : List UInt8)
  /-- the next `n` bytes of the first request are sent -/
  | send (n : ℕ)

/-- `Write` of an `int` number of bytes; `uv_write` keeps the request unless it fails. -/
def write (buf : ℕ) (len uvWrite : ℤ) (w : Wire) : Wire :=
  let (ret, req, bio) := w.bio.write buf len uvWrite
  { w with
    bio := bio
    queue := if uvWrite = uvOK then w.queue ++ [req] else w.queue
    written := if ret = len then w.written ++ UVBuf.bytes w.memory ⟨buf, len.toNat⟩ else w.written }

/-- The first request sends `n` bytes, and is done when nothing is left of it. -/
def send (n : ℕ) (r : UVBuf) (rest : List UVBuf) (w : Wire) : Wire :=
  { w with
    queue := if n = r.len then rest else ⟨r.base + n, r.len - n⟩ :: rest
    sent := w.sent ++ UVBuf.bytes w.memory ⟨r.base, n⟩ }

/-- One step. -/
def step (w : Wire) : Act → Option Wire
  | .write buf len uvWrite =>
    if 0 ≤ len ∧ len < 2 ^ 31 then some (w.write buf len uvWrite) else none
  | .overwrite addr bytes => some { w with memory := poke w.memory addr bytes }
  | .send n =>
    match w.queue with
    | r :: rest => if n ≤ r.len then some (w.send n r rest) else none
    | [] => none

/-- An overwrite changes no byte that a request has still to send. -/
def SparesQueued (w : Wire) : Act → Prop
  | .overwrite addr bytes => ∀ r ∈ w.queue, r.bytes (poke w.memory addr bytes) = r.bytes w.memory
  | _ => True

instance (w : Wire) : DecidablePred (SparesQueued w)
  | .write _ _ _ => .isTrue trivial
  | .overwrite _ _ => inferInstanceAs (Decidable (∀ r ∈ w.queue, _))
  | .send _ => .isTrue trivial

/-- What was sent and what is going to be sent is what was written. -/
def Faithful (w : Wire) : Prop := w.sent ++ w.pending = w.written

variable {w w' : Wire}

theorem faithful_new (memory : ℕ → UInt8) : Faithful (new memory) := rfl

/-- The bytes of a request are those of its first part and those of the rest. -/
theorem bytes_append (memory : ℕ → UInt8) (base : ℕ) {n len : ℕ} (h : n ≤ len) :
    UVBuf.bytes memory ⟨base, n⟩ ++ UVBuf.bytes memory ⟨base + n, len - n⟩ =
      UVBuf.bytes memory ⟨base, len⟩ := by
  have hrange : List.range' base n ++ List.range' (base + n) (len - n) = List.range' base len := by
    have := @List.range'_append base n (len - n) 1
    rwa [Nat.one_mul, Nat.add_sub_cancel' h] at this
  rw [UVBuf.bytes, UVBuf.bytes, ← List.map_append, hrange, UVBuf.bytes]

theorem faithful_write {buf : ℕ} {len uvWrite : ℤ} (h0 : 0 ≤ len) (hlt : len < 2 ^ 31)
    (h : Faithful w) : Faithful (w.write buf len uvWrite) := by
  unfold write
  simp only [Bio.write_eq]
  by_cases herr : uvWrite = uvOK
  · have hlen : (len % 2 ^ 64).toNat = len.toNat := by omega
    simp only [herr, ne_eq, not_true_eq_false, if_false, if_true, hlen, Faithful, pending,
      List.map_append, List.map_cons, List.map_nil, List.flatten_append, List.flatten_cons,
      List.flatten_nil, List.append_nil]
    rw [← List.append_assoc]
    exact congrArg (· ++ _) h
  · have hret : (-1 : ℤ) ≠ len := by omega
    simpa only [herr, ne_eq, not_false_eq_true, if_true, if_false, if_neg hret] using h

theorem faithful_overwrite {addr : ℕ} {bytes : List UInt8}
    (hs : SparesQueued w (.overwrite addr bytes)) (h : Faithful w) :
    Faithful { w with memory := poke w.memory addr bytes } := by
  have hp : pending { w with memory := poke w.memory addr bytes } = w.pending := by
    rw [pending, pending, List.map_congr_left hs]
  rw [Faithful, hp]
  exact h

theorem faithful_send {n : ℕ} {r : UVBuf} {rest : List UVBuf} (hq : w.queue = r :: rest)
    (hn : n ≤ r.len) (h : Faithful w) : Faithful (w.send n r rest) := by
  have hw : w.sent ++ (r.bytes w.memory ++ (rest.map (·.bytes w.memory)).flatten) = w.written := by
    rw [Faithful, pending, hq] at h
    exact h
  have hr : r.bytes w.memory = UVBuf.bytes w.memory ⟨r.base, n⟩ ++
      UVBuf.bytes w.memory ⟨r.base + n, r.len - n⟩ := (bytes_append _ _ hn).symm
  unfold send Faithful pending
  split_ifs with hall
  · subst hall
    rw [← hw, List.append_assoc]
  · rw [← hw, hr]
    simp only [List.map_cons, List.flatten_cons, List.append_assoc]

/-- **The step lemma.** -/
theorem faithful_step {a : Act} (hok : SparesQueued w a) (hs : step w a = some w')
    (h : Faithful w) : Faithful w' := by
  cases a with
  | write buf len uvWrite =>
    simp only [step, Option.ite_none_right_eq_some, Option.some.injEq] at hs
    obtain ⟨⟨h0, hlt⟩, rfl⟩ := hs
    exact faithful_write h0 hlt h
  | overwrite addr bytes =>
    obtain rfl := Option.some.inj hs
    exact faithful_overwrite hok h
  | send n =>
    simp only [step] at hs
    split at hs
    next r rest hq =>
      simp only [Option.ite_none_right_eq_some, Option.some.injEq] at hs
      obtain ⟨hn, rfl⟩ := hs
      exact faithful_send hq hn h
    next => cases hs

/-- **The bytes sent are a prefix of the bytes written**, in runs in which no overwrite changes bytes
that are still to be sent. -/
theorem sent_prefix_written {memory : ℕ → UInt8} {as : List Act}
    (h : Run step SparesQueued (new memory) as w) : w.sent <+: w.written :=
  ⟨w.pending, h.invariant (faithful_new memory) fun _ _ _ hi hok hs => faithful_step hok hs hi⟩

/-- The buffer is used again after its first bytes were sent, for the part that is on the wire. -/
theorem sent_prefix_written_partial : ∃ w, Run step SparesQueued (new fun _ => 1)
    [.write 0 3 0, .send 2, .overwrite 0 [7, 7], .write 0 2 0, .send 1, .send 1] w ∧
    w.sent = [1, 1, 1, 7] ∧ w.sent <+: w.written := by
  obtain ⟨w, hr, hw⟩ := exists_run_of_exec (by decide : (exec step SparesQueued
    [.write 0 3 0, .send 2, .overwrite 0 [7, 7], .write 0 2 0, .send 1, .send 1]
    (new fun _ => 1)).any (fun w => w.sent = [1, 1, 1, 7]) = true)
  exact ⟨w, hr, of_decide_eq_true hw, sent_prefix_written hr⟩

/-- The request waits until its buffer is used again. -/
theorem overwritten_before_sent : ∃ as w, Run step Any (new fun _ => 1) as w ∧
    w.sent = [7, 1] ∧ w.written = [1, 1] ∧ ¬ w.sent <+: w.written := by
  obtain ⟨w, hr, hw⟩ := exists_run_of_exec (by decide : (exec step Any
    [.write 0 2 0, .overwrite 0 [7], .send 2] (new fun _ => 1)).any
    (fun w => w.sent = [7, 1] ∧ w.written = [1, 1] ∧ ¬ w.sent <+: w.written) = true)
  exact ⟨_, w, hr, of_decide_eq_true hw⟩

end Wire

end LibMumble
