import LibMumble.ByteArray.Slice
import LibMumble.Lib.Program

/-! # Memory safety

A program that uses `ByteArray` as its header documents it stays inside of its blocks, except in three
places. The constructor reads as many bytes of its buffer as the capacity asks for; `Slice` writes all
bytes that remain into a block of as many as were asked for; and nothing stops `Append` at `INT_MAX`
bytes. Without them a program is safe (`calls_safe_iff`), whatever the lengths and capacities are that
it has brought about. -/

namespace LibMumble.ByteArray

open Lib

/-- A statement of a program that may also slice with a length. -/
inductive Call
  | plain (op : Op)
  /-- `ByteArray i(j.Slice(off, len));` -/
  | slice (i j : ℕ) (off len : ℤ)

def Call.run (s : Vars) : Call → Except Fault Vars
  | .plain op => op.run s
  | .slice i j off len => do
    let ba ← (s j).slice off len
    return Function.update s i ba

/-- **The documented use.** Lengths and capacities are `int`s and a buffer has as many bytes as its length
says; slices are of what is in the array, and `Truncate` and `Data()` stay within the capacity. -/
def Documented (s : Vars) : Call → Prop
  | .plain (.ofLength _ _ len) => len < 2 ^ 31
  | .plain (.ofBuffer _ (some src) len cap) => (len : ℤ) < 2 ^ 31 ∧ -2 ^ 31 ≤ cap ∧ cap < 2 ^ 31 ∧
      len ≤ src.length
  | .plain (.slice _ j off) => 0 ≤ off ∧ off ≤ (s j).length
  | .plain (.truncate i len) => 0 ≤ len ∧ len ≤ (s i).capacity
  | .plain (.write i k new) => 0 ≤ k ∧ k + new.length ≤ (s i).capacity
  | .slice _ j off len => 0 ≤ off ∧ off ≤ (s j).length ∧
      (len = -1 ∨ 0 ≤ len ∧ len ≤ (s j).length - off)
  | .plain (.null _) | .plain (.ofBuffer _ none _ _) | .plain (.copy _ _) | .plain (.assign _ _)
  | .plain (.append _ _ _) => True

/-- **What keeps to the blocks**: a capacity is not above what is readable at the buffer, a slice with a
length goes to the end, and the length after `Append` is an `int`. -/
def KeepsInside (s : Vars) : Call → Prop
  | .plain (.ofBuffer _ (some src) _ cap) => cap ≤ src.length
  | .plain (.append i j _) => (s i).length + (s j).length < 2 ^ 31
  | .slice _ j off len => len = -1 ∨ off + len = (s j).length
  | .plain (.null _) | .plain (.ofLength _ _ _) | .plain (.ofBuffer _ none _ _) | .plain (.copy _ _)
  | .plain (.assign _ _) | .plain (.slice _ _ _) | .plain (.truncate _ _) | .plain (.write _ _ _) => True

instance decidableDocumented (s : Vars) : (c : Call) → Decidable (Documented s c)
  | .plain (.ofLength _ _ _) => inferInstanceAs (Decidable (_ < _))
  | .plain (.ofBuffer _ (some _) _ _) | .plain (.slice _ _ _) | .plain (.truncate _ _) | .plain (.write _ _ _)
  | .slice _ _ _ _ => inferInstanceAs (Decidable (_ ∧ _))
  | .plain (.null _) | .plain (.ofBuffer _ none _ _) | .plain (.copy _ _) | .plain (.assign _ _)
  | .plain (.append _ _ _) => .isTrue trivial

instance decidableKeepsInside (s : Vars) : (c : Call) → Decidable (KeepsInside s c)
  | .plain (.ofBuffer _ (some _) _ _) => inferInstanceAs (Decidable (_ ≤ _))
  | .plain (.append _ _ _) => inferInstanceAs (Decidable (_ < _))
  | .slice _ _ _ _ => inferInstanceAs (Decidable (_ ∨ _))
  | .plain (.null _) | .plain (.ofLength _ _ _) | .plain (.ofBuffer _ none _ _) | .plain (.copy _ _)
  | .plain (.assign _ _) | .plain (.slice _ _ _) | .plain (.truncate _ _) | .plain (.write _ _ _) => .isTrue trivial

/-! ### One statement -/

variable {s : Vars} {b : ByteArray} {i j : ℕ} {c : Call}

/-- A computation that succeeds with a well-formed array. -/
def Sound (e : Except Fault ByteArray) : Prop := ∃ ba, e = .ok ba ∧ ba.WellFormed

theorem Gives.sound {e : Except Fault ByteArray} {v : Option (List UInt8)} (h : Gives e v) : Sound e := by
  obtain ⟨ba, he, hw, -⟩ := h
  exact ⟨ba, he, hw⟩

theorem not_sound_error (f : Fault) : ¬ Sound (.error f) := by
  rintro ⟨ba, he, -⟩
  cases he

/-- A statement that puts an array into a variable is safe if the array is. -/
theorem put_sound_iff (hs : Good s) {e : Except Fault ByteArray} :
    (∃ t, (do
        let ba ← e
        return Function.update s i ba) = Except.ok t ∧ Good t) ↔ Sound e := by
  constructor
  · rintro ⟨t, ht, hgood⟩
    rcases e with f | ba
    · cases ht
    · obtain rfl := Except.ok.inj ht
      have hba := hgood i
      rw [Function.update_self] at hba
      exact ⟨ba, rfl, hba⟩
  · rintro ⟨ba, rfl, hw⟩
    exact ⟨Function.update s i ba, rfl, hs.update hw⟩

/-- The constructor copies `cap` bytes, of which only `len` need be there. -/
theorem ofBuffer_sound_iff {src : List UInt8} {len : ℕ} {cap : ℤ} (hlen : (len : ℤ) < 2 ^ 31)
    (hcap : cap < 2 ^ 31) (hsrc : len ≤ src.length) :
    Sound (ofBuffer (some src) len cap) ↔ cap ≤ src.length := by
  by_cases hle : cap ≤ src.length
  · have hok : (Op.ofBuffer 0 (some src) len cap).Permitted fun _ => none := ⟨hlen, hcap, hsrc, hle⟩
    exact iff_of_true (ofBuffer_gives hok).sound hle
  · have hread : mallocMemcpy cap src 0 cap = .error .outOfBounds := by
      rw [mallocMemcpy, if_neg (by omega), if_neg (lt_irrefl _), readBlock, if_neg (by omega)]
    have hrun : ofBuffer (some src) len cap = .error .outOfBounds := by
      have h1 : ¬ cap = -1 := by omega
      have h2 : ¬ cap < len := by omega
      simp only [ofBuffer, if_neg h1, if_neg h2, hread, bind, Except.bind]
    rw [hrun]
    exact iff_of_false (not_sound_error _) hle

theorem append_sound_iff {junk : ℕ → UInt8} (hs : Good s) :
    (∃ t, append s i j junk = .ok t ∧ Good t) ↔ (s i).length + (s j).length < 2 ^ 31 := by
  have hi := (hs i).length_bytes
  have hj := (hs j).length_bytes
  by_cases hsum : (s i).len + (s j).len < 2 ^ 31
  · obtain ⟨ba, hrun, hw, -⟩ := @append_gives s i j junk hs (by omega)
    exact iff_of_true ⟨_, hrun, hs.update hw⟩ hsum
  · have hrun : append s i j junk = .error .overflow := append_overflow (hs i) (by omega)
    refine iff_of_false ?_ hsum
    rintro ⟨t, ht, -⟩
    rw [hrun] at ht
    cases ht

section WellFormed
variable (h : b.WellFormed)
include h

theorem WellFormed.slice_sound {off : ℤ} (h0 : 0 ≤ off) (h1 : off ≤ b.length) :
    Sound (b.slice off (-1)) := by
  have hlen := h.length_bytes
  have hle : off ≤ b.len := h1
  exact (slice_gives h h0 (by omega)).sound

theorem WellFormed.slice_sound_iff {off len : ℤ} (h0 : 0 ≤ off) (h1 : off ≤ b.length)
    (h2 : len = -1 ∨ 0 ≤ len ∧ len ≤ b.length - off) :
    Sound (b.slice off len) ↔ len = -1 ∨ off + len = b.length := by
  have hlength : b.length = b.len := rfl
  rw [hlength] at h1 h2 ⊢
  rcases h2 with rfl | ⟨hlen, hle⟩
  · exact iff_of_true (h.slice_sound h0 h1) (.inl rfl)
  · by_cases hend : off + len = b.len
    · exact iff_of_true ⟨_, h.slice_to_end h0 hlen hend, h.slice_wellFormed h0 hlen hend⟩ (.inr hend)
    · rw [h.slice_short h0 hlen (by omega)]
      exact iff_of_false (not_sound_error _) (by omega)

/-- The length may also grow, up to the capacity. -/
theorem WellFormed.truncate_sound {len : ℤ} (h0 : 0 ≤ len) (h1 : len ≤ b.capacity) :
    Sound (b.truncate len) :=
  ⟨{ b with len := len }, if_neg (not_lt.mpr h1), fun hb => by
    have hnull := h.null hb
    have hcap : len ≤ b.cap := h1
    exact ⟨show len = 0 by omega, hnull.2⟩, h.cap_eq, h0, h1, h.cap_lt⟩

theorem WellFormed.write_sound {k : ℤ} {new : List UInt8} (h0 : 0 ≤ k)
    (h1 : k + new.length ≤ b.capacity) : Sound (b.writeData k new) := by
  have hc := h.cap_eq_data
  have hcap : k + new.length ≤ b.cap := h1
  refine ⟨⟨b.buf.map fun _ => splice b.data k.toNat new, b.len, b.cap⟩, ?_, ?_⟩
  · rw [writeData, writeBlock_ok h0 (by omega)]
    rfl
  · exact wellFormed_rewrite h (length_splice (by omega)) h.len_nonneg h.len_le

end WellFormed

/-- **A statement is safe** exactly if it keeps to the blocks. -/
theorem call_safe_iff (hs : Good s) (hd : Documented s c) :
    (∃ t, c.run s = .ok t ∧ Good t) ↔ KeepsInside s c := by
  cases c with
  | slice i j off len =>
    obtain ⟨h0, h1, h2⟩ := hd
    exact (put_sound_iff hs).trans ((hs j).slice_sound_iff h0 h1 h2)
  | plain op =>
    cases op with
    | null i => exact iff_of_true ⟨_, rfl, hs.update wellFormed_null⟩ trivial
    | ofLength i junk len =>
      exact (put_sound_iff hs).trans (iff_of_true (ofLength_gives hd).sound trivial)
    | ofBuffer i buf len cap =>
      rcases buf with _ | src
      · exact (put_sound_iff hs).trans (iff_of_true ⟨null, rfl, wellFormed_null⟩ trivial)
      · obtain ⟨hlen, -, hcap, hsrc⟩ := hd
        exact (put_sound_iff hs).trans (ofBuffer_sound_iff hlen hcap hsrc)
    | copy i j => exact (put_sound_iff hs).trans (iff_of_true (copy_gives (hs j)).sound trivial)
    | assign i j => exact (put_sound_iff hs).trans (iff_of_true (copy_gives (hs j)).sound trivial)
    | append i j junk => exact append_sound_iff hs
    | slice i j off =>
      exact (put_sound_iff hs).trans (iff_of_true ((hs j).slice_sound hd.1 hd.2) trivial)
    | truncate i len =>
      exact (put_sound_iff hs).trans (iff_of_true ((hs i).truncate_sound hd.1 hd.2) trivial)
    | write i k new =>
      exact (put_sound_iff hs).trans (iff_of_true ((hs i).write_sound hd.1 hd.2) trivial)

/-! ### Programs -/

/-- **A program is safe**, at each of its statements and in each state it reaches, exactly if all its
statements keep to the blocks. -/
theorem calls_safe_iff {calls : List Call} (hs : Good s)
    (hd : Along Call.run Documented calls s) :
    Succeeds Call.run Good calls s ↔ Along Call.run KeepsInside calls s :=
  succeeds_iff call_safe_iff hs hd

/-- An array with room is appended to itself twice, sliced to its end, and grown again over bytes that were
cut off. -/
theorem calls_safe_iff_append : Succeeds Call.run Good
    [.plain (.ofBuffer 0 (some [1, 2, 9, 9]) 2 4), .plain (.append 0 0 fun _ => 7),
      .plain (.append 0 0 fun _ => 7), .slice 1 0 5 3, .plain (.truncate 0 1),
      .plain (.append 0 1 fun _ => 7), .plain (.truncate 0 8)] (fun _ => .null) :=
  (calls_safe_iff (fun _ => wellFormed_null) (by decide)).mpr (by decide)

/-- A capacity above the length of the buffer, a slice of the first two of three bytes, and `2 ^ 30` bytes
appended to themselves. -/
theorem calls_unsafe :
    (Along Call.run Documented [.plain (.ofBuffer 0 (some [1, 2]) 2 4)] (fun _ => .null) ∧
      [.plain (.ofBuffer 0 (some [1, 2]) 2 4)].foldlM Call.run (fun _ => .null) =
        Except.error .outOfBounds) ∧
    (Along Call.run Documented [.plain (.ofBuffer 0 (some [1, 2, 3]) 3 (-1)), .slice 1 0 0 2]
        (fun _ => .null) ∧
      [.plain (.ofBuffer 0 (some [1, 2, 3]) 3 (-1)), .slice 1 0 0 2].foldlM Call.run (fun _ => .null) =
        Except.error .outOfBounds) ∧
    Along Call.run Documented
        [.plain (.ofLength 0 (fun _ => 0) (2 ^ 30)), .plain (.append 0 0 fun _ => 0)]
        (fun _ => .null) ∧
      [.plain (.ofLength 0 (fun _ => 0) (2 ^ 30)), .plain (.append 0 0 fun _ => 0)].foldlM Call.run
        (fun _ => .null) = Except.error .overflow :=
  ⟨⟨by decide, rfl⟩, ⟨by decide, rfl⟩, by decide, rfl⟩

end LibMumble.ByteArray
