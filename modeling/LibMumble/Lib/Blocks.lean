import LibMumble.Lib.Ownership
import Mathlib.Algebra.Ring.Nat
import Mathlib.Data.Finset.Insert
import Mathlib.Data.Finset.Card
import Mathlib.Logic.Function.Basic

/-! # Blocks of a heap

The heap of a program with pointers: an address is the number of an allocation, so that none is ever
handed out twice and a pointer to a block that was freed points to nothing. `Exclusive H ptr loose` says
that the blocks that are live are those of the owners, each with a block of its own or none, and apart from
them the blocks in `loose`, to which no owner points: temporaries, and what has been lost.

A program on the heap is held to one on values by `Simulates`, fault for fault. -/

namespace LibMumble.Lib

/-! ### The heap -/

/-- The allocations in their order; what was freed is `none`. -/
abbrev Blocks (β : Type*) := List (Option (List β))

variable {β ι : Type*} {H : Blocks β} {p q : ℕ} {b c : List β}

namespace Blocks

/-- The block at an address. -/
def block (H : Blocks β) (p : ℕ) : Option (List β) := H[p]?.join

theorem block_alloc : block (H ++ [some b]) q = if q = H.length then some b else block H q := by
  unfold block
  split_ifs with h
  · rw [h, List.getElem?_concat_length]
    rfl
  · rcases Nat.lt_or_gt_of_ne h with hlt | hgt
    · rw [List.getElem?_append_left hlt]
    · rw [List.getElem?_eq_none (by simp; omega), List.getElem?_eq_none (by omega)]

theorem lt_of_block (h : block H p = some b) : p < H.length := by
  by_contra hle
  rw [block, List.getElem?_eq_none (by omega)] at h
  cases h

theorem block_set (h : block H p = some b) (o : Option (List β)) :
    block (H.set p o) q = if q = p then o else block H q := by
  unfold block
  split_ifs with hq
  · rw [hq, List.getElem?_set_self (lt_of_block h)]
    rfl
  · rw [List.getElem?_set_ne (Ne.symm hq)]

@[simp] theorem block_length : block H H.length = none := by
  rw [block, List.getElem?_eq_none le_rfl]
  rfl

end Blocks

open Blocks

/-- **The blocks that are live**: one for each owner that has a pointer, and the loose ones. -/
structure Exclusive (H : Blocks β) (ptr : ι → Option ℕ) (loose : Finset ℕ) : Prop where
  live : ∀ {o p}, ptr o = some p → ∃ b, block H p = some b
  one : ∀ {o o' p}, ptr o = some p → ptr o' = some p → o = o'
  away : ∀ {o p}, p ∈ loose → ptr o ≠ some p
  all : ∀ {p}, (∃ b, block H p = some b) ↔ p ∈ loose ∨ ∃ o, ptr o = some p

namespace Exclusive

variable {ptr : ι → Option ℕ} {loose : Finset ℕ} {o : ι}

theorem start : Exclusive ([] : Blocks β) (fun _ : ι => none) ∅ :=
  ⟨by simp, by simp, by simp, by simp [block]⟩

section Exclusive
variable (h : Exclusive H ptr loose)
include h

theorem block_of_loose (hp : p ∈ loose) : ∃ b, block H p = some b := h.all.mpr (Or.inl hp)

theorem length_notMem : H.length ∉ loose := fun hmem => by
  obtain ⟨b, hb⟩ := h.block_of_loose hmem
  rw [block_length] at hb
  cases hb

/-- A new block is loose. -/
theorem alloc (b : List β) : Exclusive (H ++ [some b]) ptr (insert H.length loose) where
  live hp := by
    obtain ⟨c, hc⟩ := h.live hp
    exact ⟨c, by rw [block_alloc, if_neg (lt_of_block hc).ne, hc]⟩
  one := h.one
  away hmem hp := by
    rcases Finset.mem_insert.mp hmem with rfl | hmem
    · obtain ⟨c, hc⟩ := h.live hp
      exact (lt_of_block hc).ne rfl
    · exact h.away hmem hp
  all {p} := by
    rw [block_alloc, Finset.mem_insert]
    split_ifs with hp
    · exact iff_of_true ⟨b, rfl⟩ (Or.inl (Or.inl hp))
    · rw [h.all, or_iff_right hp]

/-- New blocks are loose. -/
theorem allocs (T : List (List β)) : ∃ loose', Exclusive (H ++ T.map some) ptr loose' ∧
    loose'.card = loose.card + T.length ∧
    ∀ p, (∃ b, block (H ++ T.map some) p = some b) → H.length ≤ p → p ∈ loose' := by
  have hall : ∃ loose', Exclusive (H ++ T.map some) ptr loose' ∧
      loose'.card = loose.card + T.length := by
    induction T generalizing H loose with
    | nil => exact ⟨loose, by simpa using h, rfl⟩
    | cons b T ih =>
      obtain ⟨loose', h', hcard⟩ := ih (h.alloc b)
      refine ⟨loose', by simpa using h', ?_⟩
      rw [hcard, Finset.card_insert_of_notMem h.length_notMem, List.length_cons]
      omega
  obtain ⟨loose', h', hcard⟩ := hall
  refine ⟨loose', h', hcard, fun p hp hle => ?_⟩
  rcases h'.all.mp hp with hmem | ⟨o, ho⟩
  · exact hmem
  · obtain ⟨b, hb⟩ := h.live ho
    have hlt := lt_of_block hb
    omega

variable [DecidableEq ι]

/-- An owner without a block is given a loose one. -/
theorem give (hp : p ∈ loose) (ho : ptr o = none) :
    Exclusive H (Function.update ptr o (some p)) (loose.erase p) where
  live {o' q} hq := by
    by_cases ho' : o' = o
    · rw [ho', Function.update_self] at hq
      exact Option.some.inj hq ▸ h.block_of_loose hp
    · rw [Function.update_of_ne ho'] at hq
      exact h.live hq
  one {o1 o2 q} h1 h2 := by
    by_cases ho1 : o1 = o <;> by_cases ho2 : o2 = o
    · rw [ho1, ho2]
    · rw [ho1, Function.update_self] at h1
      rw [Function.update_of_ne ho2] at h2
      exact absurd h2 (h.away (Option.some.inj h1 ▸ hp))
    · rw [ho2, Function.update_self] at h2
      rw [Function.update_of_ne ho1] at h1
      exact absurd h1 (h.away (Option.some.inj h2 ▸ hp))
    · rw [Function.update_of_ne ho1] at h1
      rw [Function.update_of_ne ho2] at h2
      exact h.one h1 h2
  away {o' q} hq := by
    obtain ⟨hne, hq⟩ := Finset.mem_erase.mp hq
    by_cases ho' : o' = o
    · rw [ho', Function.update_self]
      exact fun heq => hne (Option.some.inj heq).symm
    · rw [Function.update_of_ne ho']
      exact h.away hq
  all {q} := by
    rw [h.all, Finset.mem_erase]
    constructor
    · rintro (hq | ⟨o', hq⟩)
      · by_cases heq : q = p
        · exact Or.inr ⟨o, by rw [Function.update_self, heq]⟩
        · exact Or.inl ⟨heq, hq⟩
      · have ho' : o' ≠ o := by
          rintro rfl
          rw [ho] at hq
          cases hq
        exact Or.inr ⟨o', by rw [Function.update_of_ne ho', hq]⟩
    · rintro (⟨-, hq⟩ | ⟨o', hq⟩)
      · exact Or.inl hq
      · by_cases ho' : o' = o
        · rw [ho', Function.update_self] at hq
          exact Or.inl (Option.some.inj hq ▸ hp)
        · rw [Function.update_of_ne ho'] at hq
          exact Or.inr ⟨o', hq⟩

/-- The block of an owner becomes loose. -/
theorem drop (hp : ptr o = some p) :
    Exclusive H (Function.update ptr o none) (insert p loose) where
  live {o' q} hq := by
    by_cases ho' : o' = o
    · rw [ho', Function.update_self] at hq
      cases hq
    · rw [Function.update_of_ne ho'] at hq
      exact h.live hq
  one {o1 o2 q} h1 h2 := by
    have hne : ∀ {o'}, Function.update ptr o none o' = some q → ptr o' = some q := fun {o'} hq => by
      by_cases ho' : o' = o
      · rw [ho', Function.update_self] at hq
        cases hq
      · rwa [Function.update_of_ne ho'] at hq
    exact h.one (hne h1) (hne h2)
  away {o' q} hq := by
    by_cases ho' : o' = o
    · simp [ho']
    · rw [Function.update_of_ne ho']
      rcases Finset.mem_insert.mp hq with rfl | hq
      · exact fun heq => ho' (h.one heq hp)
      · exact h.away hq
  all {q} := by
    rw [h.all, Finset.mem_insert]
    constructor
    · rintro (hq | ⟨o', hq⟩)
      · exact Or.inl (Or.inr hq)
      · by_cases ho' : o' = o
        · rw [ho', hp] at hq
          exact Or.inl (Or.inl (Option.some.inj hq).symm)
        · exact Or.inr ⟨o', by rw [Function.update_of_ne ho', hq]⟩
    · rintro ((rfl | hq) | ⟨o', hq⟩)
      · exact Or.inr ⟨o, hp⟩
      · exact Or.inl hq
      · by_cases ho' : o' = o
        · rw [ho', Function.update_self] at hq
          cases hq
        · rw [Function.update_of_ne ho'] at hq
          exact Or.inr ⟨o', hq⟩

omit [DecidableEq ι] in
/-- A loose block is freed. -/
theorem free (hp : p ∈ loose) : Exclusive (H.set p none) ptr (loose.erase p) := by
  obtain ⟨b, hb⟩ := h.block_of_loose hp
  refine ⟨fun {o q} hq => ?_, h.one, fun {o q} hq => h.away (Finset.mem_of_mem_erase hq), fun {q} => ?_⟩
  · have hne : q ≠ p := by
      rintro rfl
      exact h.away hp hq
    rw [block_set hb, if_neg hne]
    exact h.live hq
  · rw [block_set hb, Finset.mem_erase]
    split_ifs with heq
    · refine iff_of_false (by simp) ?_
      rintro (⟨hne, -⟩ | ⟨o', hq⟩)
      · exact hne heq
      · exact h.away (heq ▸ hp) hq
    · rw [h.all, and_iff_right heq]

omit [DecidableEq ι] in
/-- The bytes of a block change. -/
theorem store (hb : block H p = some b) : Exclusive (H.set p (some c)) ptr loose := by
  refine ⟨fun {o q} hq => ?_, h.one, h.away, fun {q} => ?_⟩
  · rw [block_set hb]
    split_ifs
    · exact ⟨c, rfl⟩
    · exact h.live hq
  · rw [← h.all, block_set hb]
    split_ifs with heq
    · exact iff_of_true ⟨c, rfl⟩ ⟨b, by rw [heq, hb]⟩
    · rfl

end Exclusive

end Exclusive

/-! ### Programs on the heap -/

/-- A program on the heap. -/
abbrev Mem (β : Type) (ε : Type) := StateT (Blocks β) (Except (Misuse ε))

namespace Mem

variable {β ε α : Type}

/-- The program fails. -/
def lift (r : Except ε α) : Mem β ε α := fun H =>
  match r with
  | .ok a => .ok (a, H)
  | .error e => .error (.fault e)

/-- A new block. -/
def alloc (b : List β) : Mem β ε ℕ := fun H => .ok (H.length, H ++ [some b])

/-- All of a block is read. -/
def load (p : ℕ) : Mem β ε (List β) := fun H =>
  match block H p with
  | some b => .ok (b, H)
  | none => .error .dead

/-- A block is overwritten. -/
def store (p : ℕ) (b : List β) : Mem β ε Unit := fun H =>
  match block H p with
  | some _ => .ok ((), H.set p (some b))
  | none => .error .dead

def free (p : ℕ) : Mem β ε Unit := fun H =>
  match block H p with
  | some _ => .ok ((), H.set p none)
  | none => .error .dead

end Mem

/-- An error of the program. -/
def fault {ε α : Type*} : Except ε α → Except (Misuse ε) α
  | .ok a => .ok a
  | .error e => .error (.fault e)

/-! ### Simulation -/

section Simulates

universe u v

variable {σ σ' : Type u} {τ τ' : Type v} {ι : Type*} {ε : Type}

/-- **A program on pointers does what one on values does**: it fails where this fails, with the same
error, and otherwise gives a related result. -/
def Simulates (r : Except (Misuse ε) τ) (a : Except ε σ) (R : τ → σ → Prop) : Prop :=
  match a with
  | .ok s => ∃ t, r = .ok t ∧ R t s
  | .error e => r = .error (.fault e)

namespace Simulates

variable {r : Except (Misuse ε) τ} {a : Except ε σ} {R : τ → σ → Prop} {R' : τ' → σ' → Prop}
  {f : τ → Except (Misuse ε) τ'} {g : σ → Except ε σ'}

theorem ok {t : τ} {s : σ} (h : R t s) : Simulates (.ok t : Except (Misuse ε) τ) (.ok s) R :=
  ⟨t, rfl, h⟩

/-- **The rule of composition.** -/
theorem bind (h : Simulates r a R) (hf : ∀ t s, R t s → Simulates (f t) (g s) R') :
    Simulates (r >>= f) (a >>= g) R' := by
  cases a with
  | ok s =>
    obtain ⟨t, rfl, hR⟩ := h
    exact hf t s hR
  | error e =>
    have hr : r = .error (.fault e) := h
    rw [hr]
    exact rfl

theorem imp {Q : τ → σ → Prop} (h : Simulates r a R) (hQ : ∀ t s, R t s → Q t s) :
    Simulates r a Q := by
  cases a with
  | ok s =>
    obtain ⟨t, ht, hR⟩ := h
    exact ⟨t, ht, hQ t s hR⟩
  | error e => exact h

/-- What the program on values gives is known. -/
theorem known (h : Simulates r a R) : Simulates r a (fun t s => R t s ∧ a = .ok s) := by
  cases a with
  | ok s =>
    obtain ⟨t, ht, hR⟩ := h
    exact ⟨t, ht, hR, rfl⟩
  | error e => exact h

/-- The values may be mapped. -/
theorem of_map {g : σ → σ'} {R : τ → σ' → Prop} (h : Simulates r (a >>= fun s => .ok (g s)) R) :
    Simulates r a (fun t s => R t (g s)) := by
  cases a with
  | ok s => exact h
  | error e => exact h

/-- The rule of composition, on the heap. -/
theorem seq {β α α' : Type} {σ σ' : Type u} {H : Blocks β} {m : Mem β ε α} {f : α → Mem β ε α'}
    {a : Except ε σ} {g : σ → Except ε σ'} {R : α × Blocks β → σ → Prop}
    {R' : α' × Blocks β → σ' → Prop} (h : Simulates (m H) a R)
    (hf : ∀ x H' s, R (x, H') s → Simulates (f x H') (g s) R') :
    Simulates ((m >>= f) H) (a >>= g) R' :=
  h.bind fun r s hR => hf r.1 r.2 s hR

theorem fault (a : Except ε σ) : Simulates (Lib.fault a) a Eq := by
  cases a with
  | ok s => exact .ok rfl
  | error e => exact rfl

theorem lift {β α : Type} {H : Blocks β} (a : Except ε α) :
    Simulates (Mem.lift a H) a (fun r s => r = (s, H)) := by
  cases a with
  | ok s => exact .ok rfl
  | error e => exact rfl

/-- **The rule of a run**, for relations that count something. -/
theorem run_cost {step : τ → ι → Except (Misuse ε) τ} {spec : σ → ι → Except ε σ} {R : ℕ → τ → σ → Prop}
    {cost : ι → ℕ}
    (hstep : ∀ {n t s} (i : ι), R n t s → Simulates (step t i) (spec s i) (R (n + cost i))) :
    ∀ (is : List ι) {n : ℕ} {t : τ} {s : σ}, R n t s →
      Simulates (is.foldlM step t) (is.foldlM spec s) (R (n + (is.map cost).sum)) := by
  intro is
  induction is with
  | nil => exact fun h => .ok h
  | cons i is ih =>
    intro n t s h
    rw [List.foldlM_cons, List.foldlM_cons, List.map_cons, List.sum_cons, ← Nat.add_assoc]
    exact (hstep i h).bind fun _ _ h' => ih h'

/-- The rule of a run. -/
theorem run {step : τ → ι → Except (Misuse ε) τ} {spec : σ → ι → Except ε σ} {t : τ} {s : σ}
    (hstep : ∀ {t s} (i : ι), R t s → Simulates (step t i) (spec s i) R) (is : List ι) (h : R t s) :
    Simulates (is.foldlM step t) (is.foldlM spec s) R :=
  @run_cost _ _ _ _ step spec (fun _ => R) (fun _ => 0) (fun i h => hstep i h) is 0 t s h

end Simulates

end Simulates

end LibMumble.Lib
