import Mathlib.Order.Defs.Unbundled
import Mathlib.Tactic.SplitIfs
import Mathlib.Tactic.Tauto

/-! # Sorted sets

A set with a comparison, kept as the ascending list of its elements, as `std::set` does. The difference
of two sets walks over both lists at once, as `std::set_difference` does, which is right because they
are sorted. -/

namespace LibMumble.Lib

variable {α : Type*}

/-! ### Walks over sorted lists -/

section Walks

variable {lt : α → α → Prop} {x y z : α} {s t : List α}

/-- What is below the first element of a sorted list is not in it. -/
theorem notMem_of_lt [IsStrictTotalOrder α lt] (h : (y :: t).Pairwise lt) (hxy : lt x y) : x ∉ y :: t := by
  have hirrefl : ¬ lt x x := Std.Irrefl.irrefl x
  intro hx
  rcases List.mem_cons.mp hx with rfl | hx
  · exact hirrefl hxy
  · exact hirrefl (IsTrans.trans _ _ _ hxy ((List.pairwise_cons.mp h).1 x hx))

variable (lt) [DecidableRel lt]

/-- Puts an element at its place, unless it is there. -/
def insertSorted (x : α) : List α → List α
  | [] => [x]
  | y :: s => if lt x y then x :: y :: s else if lt y x then y :: insertSorted x s else y :: s

/-- The elements of the first list that the second one does not have. -/
def differenceSorted : List α → List α → List α
  | [], _ => []
  | x :: s, [] => x :: s
  | x :: s, y :: t =>
    if lt x y then x :: differenceSorted s (y :: t)
    else if lt y x then differenceSorted (x :: s) t
    else differenceSorted s t
termination_by s t => s.length + t.length

variable {lt} [IsStrictTotalOrder α lt]

theorem mem_insertSorted : z ∈ insertSorted lt x s ↔ z = x ∨ z ∈ s := by
  induction s with
  | nil => simp [insertSorted]
  | cons y s ih =>
    unfold insertSorted
    split_ifs with h1 h2
    · simp
    · rw [List.mem_cons, ih, List.mem_cons]
      tauto
    · have hxy : x = y := Std.Trichotomous.trichotomous x y h1 h2
      rw [hxy, List.mem_cons]
      tauto

theorem sorted_insertSorted (h : s.Pairwise lt) : (insertSorted lt x s).Pairwise lt := by
  induction s with
  | nil => simp [insertSorted]
  | cons y s ih =>
    obtain ⟨hy, hs⟩ := List.pairwise_cons.mp h
    unfold insertSorted
    split_ifs with h1 h2
    · refine List.pairwise_cons.mpr ⟨fun z hz => ?_, h⟩
      rcases List.mem_cons.mp hz with rfl | hz
      · exact h1
      · exact IsTrans.trans _ _ _ h1 (hy z hz)
    · refine List.pairwise_cons.mpr ⟨fun z hz => ?_, ih hs⟩
      rcases mem_insertSorted.mp hz with rfl | hz
      · exact h2
      · exact hy z hz
    · exact h

/-- **The walk gives the difference**, since nothing that was passed comes again. -/
theorem mem_differenceSorted (hs : s.Pairwise lt) (ht : t.Pairwise lt) :
    z ∈ differenceSorted lt s t ↔ z ∈ s ∧ z ∉ t := by
  fun_induction differenceSorted lt s t with
  | case1 => simp
  | case2 => simp
  | case3 x s y t h ih =>
    have hx : x ∉ y :: t := notMem_of_lt ht h
    rw [List.mem_cons, ih (List.pairwise_cons.mp hs).2 ht]
    constructor
    · rintro (rfl | ⟨hz, hzt⟩)
      · exact ⟨List.mem_cons_self, hx⟩
      · exact ⟨List.mem_cons_of_mem x hz, hzt⟩
    · rintro ⟨hz, hzt⟩
      rcases List.mem_cons.mp hz with rfl | hz
      · exact .inl rfl
      · exact .inr ⟨hz, hzt⟩
  | case4 x s y t h1 h2 ih =>
    have hy : y ∉ x :: s := notMem_of_lt hs h2
    rw [ih hs (List.pairwise_cons.mp ht).2, List.mem_cons (a := z) (b := y)]
    refine and_congr_right fun hz => ?_
    have hzy : z ≠ y := fun heq => hy (heq ▸ hz)
    tauto
  | case5 x s y t h1 h2 ih =>
    have hxy : x = y := Std.Trichotomous.trichotomous x y h1 h2
    obtain ⟨hxs, hs'⟩ := List.pairwise_cons.mp hs
    have hirrefl : ¬ lt x x := Std.Irrefl.irrefl x
    have hx : x ∉ s := fun hmem => hirrefl (hxs x hmem)
    subst hxy
    rw [ih hs' (List.pairwise_cons.mp ht).2]
    constructor
    · rintro ⟨hz, hzt⟩
      have hzx : z ≠ x := fun heq => hx (heq ▸ hz)
      exact ⟨List.mem_cons_of_mem x hz, fun hmem => (List.mem_cons.mp hmem).elim hzx hzt⟩
    · rintro ⟨hz, hzt⟩
      rcases List.mem_cons.mp hz with rfl | hz
      · exact absurd List.mem_cons_self hzt
      · exact ⟨hz, fun hmem => hzt (List.mem_cons_of_mem x hmem)⟩

end Walks

/-! ### Sets -/

/-- A set with the comparison `lt`. -/
structure SortedSet (lt : α → α → Prop) where
  toList : List α
  sorted : toList.Pairwise lt

namespace SortedSet

variable {lt : α → α → Prop} [DecidableRel lt] [IsStrictTotalOrder α lt] {x z : α}
  {s t : SortedSet lt}

def empty : SortedSet lt := ⟨[], .nil⟩

def insert (s : SortedSet lt) (x : α) : SortedSet lt :=
  ⟨insertSorted lt x s.toList, sorted_insertSorted s.sorted⟩

/-- The elements of a list, in whatever order they are inserted. -/
def ofList (l : List α) : SortedSet lt := l.foldl insert empty

/-- The difference, inserted into a new set. -/
def difference (s t : SortedSet lt) : SortedSet lt := ofList (differenceSorted lt s.toList t.toList)

theorem mem_foldl_insert (l : List α) : z ∈ (l.foldl insert s).toList ↔ z ∈ s.toList ∨ z ∈ l := by
  induction l generalizing s with
  | nil => simp
  | cons x l ih =>
    rw [List.foldl_cons, ih, List.mem_cons, insert, mem_insertSorted]
    tauto

theorem mem_ofList {l : List α} : z ∈ (ofList l : SortedSet lt).toList ↔ z ∈ l := by
  rw [ofList, mem_foldl_insert]
  simp [empty]

theorem mem_difference : z ∈ (s.difference t).toList ↔ z ∈ s.toList ∧ z ∉ t.toList := by
  rw [difference, mem_ofList, mem_differenceSorted s.sorted t.sorted]

end SortedSet

end LibMumble.Lib
