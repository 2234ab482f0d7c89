import Mathlib.Data.List.Basic
import Mathlib.Data.List.Infix

/-! # Reading a byte stream in pieces

What a read of at most `n` items may do to a stream of pending items: on an empty stream it answers
nothing, otherwise it takes a non-empty prefix of at most `n` items. Nothing is said about how long
the prefix is, so the relation covers every way of cutting the stream.

A deterministic decoder reads a stream in pieces of its own choice, first up to the end of a preamble
and then to give out what it decodes from the rest. All it does is a function of what it has consumed
and how much it has given out, so the way in which the stream arrives can only show through the
pieces it gets. In the preamble it takes no more than it needs. -/

namespace LibMumble.Lib

variable {α β : Type*}

/-- **One read**: `Takes n pending answer rest`. -/
inductive Takes (n : ℕ) : List α → Option (List α) → List α → Prop
  | empty : Takes n [] none []
  | piece {d rest : List α} (hne : d ≠ []) (hle : d.length ≤ n) : Takes n (d ++ rest) (some d) rest

namespace Takes

variable {n : ℕ} {p r : List α} {a : Option (List α)}

/-- No item is lost, repeated or moved. -/
theorem intact (h : Takes n p a r) : a.getD [] ++ r = p := by
  cases h <;> rfl

theorem eq_none_iff (h : Takes n p a r) : a = none ↔ p = [] := by
  cases h with
  | empty => simp
  | piece hne _ => simp [hne]

theorem of_some {d : List α} (h : Takes n p (some d) r) : d ≠ [] ∧ d.length ≤ n ∧ p = d ++ r := by
  cases h with
  | piece hne hle => exact ⟨hne, hle, rfl⟩

end Takes

/-! ### Decoders -/

structure StreamDecoder (α β : Type*) where
  /-- the preamble is over, having consumed this -/
  done : List α → Bool
  /-- how much it asks for next in the preamble -/
  needs : List α → ℕ
  /-- what is decoded from this -/
  plain : List α → List β
  /-- how much it asks for before it gives something out, if it asks at all, having given out that
  much, for a caller with that much room -/
  asks : List α → ℕ → ℕ → Option ℕ
  /-- how much it gives out -/
  gives : List α → ℕ → ℕ → ℕ
  needs_pos : ∀ c, 0 < needs c
  needs_only : ∀ c y z, done c = false → y ≠ [] → z ≠ [] → (y ++ z).length ≤ needs c →
    done (c ++ y) = false
  plain_mono : ∀ c x, plain c <+: plain (c ++ x)
  plain_preamble : ∀ c, (∀ c', c' <+: c → done c' = true → c' = c) → plain c = []
  asks_pos : ∀ c d room n, asks c d room = some n → 0 < n
  asks_none : ∀ c d room, asks c d room = none → d < (plain c).length
  gives_pos : ∀ c d room, 0 < room → d < (plain c).length → 0 < gives c d room
  gives_le : ∀ c d room, 0 < room → d < (plain c).length →
    gives c d room ≤ room ∧ d + gives c d room ≤ (plain c).length

namespace StreamDecoder

variable (D : StreamDecoder α β)

/-- The preamble is not over before the end of `c`. -/
def InPreamble (c : List α) : Prop := ∀ c', c' <+: c → D.done c' = true → c' = c

theorem inPreamble_nil : D.InPreamble [] := fun _ h _ => List.prefix_nil.mp h

variable {D} {c y : List α}

/-- **A read in the preamble does not overshoot its end.** -/
theorem InPreamble.extend (h : D.InPreamble c) (hd : D.done c = false) (hy : y.length ≤ D.needs c) :
    D.InPreamble (c ++ y) := by
  intro c' hc' hdone
  rcases List.prefix_or_prefix_of_prefix hc' (List.prefix_append c y) with hpre | ⟨y', rfl⟩
  · have := h c' hpre hdone
    subst this
    rw [hd] at hdone
    cases hdone
  · obtain ⟨z, hz⟩ := hc'
    rw [List.append_assoc, List.append_cancel_left_eq] at hz
    by_cases hy' : y' = []
    · rw [hy', List.append_nil, hd] at hdone
      cases hdone
    · by_cases hznil : z = []
      · rw [hznil, List.append_nil] at hz
        rw [hz]
      · have := D.needs_only c y' z hd hy' hznil (by rwa [hz])
        rw [this] at hdone
        cases hdone

theorem InPreamble.plain_eq_nil (h : D.InPreamble c) : D.plain c = [] := D.plain_preamble c h

theorem plain_length_le (x : List α) : (D.plain c).length ≤ (D.plain (c ++ x)).length :=
  (D.plain_mono c x).length_le

/-- What was given out of a shorter stream was given out of the longer one. -/
theorem take_plain {d : ℕ} (hd : d ≤ (D.plain c).length) (x : List α) :
    (D.plain (c ++ x)).take d = (D.plain c).take d := by
  obtain ⟨t, ht⟩ := D.plain_mono c x
  rw [← ht, List.take_append_of_le_length hd]

end StreamDecoder

end LibMumble.Lib
