import Mathlib.Data.List.Nodup
import Mathlib.Logic.Function.Basic

/-! # Updates under keys

A family of cells, and a list of values each of which is put into the cell under its own key. What a cell
comes to hold depends only on the values under its key and on their order (`foldl_applyAt`). -/

namespace LibMumble.Lib

variable {ι : Type*} [DecidableEq ι] {α β : ι → Type*}

/-- The values under a key. -/
def valuesAt (i : ι) (l : List (Sigma β)) : List (β i) :=
  l.filterMap fun x => if h : x.1 = i then some (h ▸ x.2) else none

/-- One value is put into its cell. -/
def applyAt (put : ∀ i, α i → β i → α i) (g : ∀ i, α i) (x : Sigma β) : ∀ i, α i :=
  Function.update g x.1 (put x.1 (g x.1) x.2)

variable {i j : ι} {l l' : List (Sigma β)} {put : ∀ i, α i → β i → α i}

@[simp] theorem valuesAt_nil : valuesAt i ([] : List (Sigma β)) = [] := rfl

theorem valuesAt_self (v : β i) (l : List (Sigma β)) : valuesAt i (⟨i, v⟩ :: l) = v :: valuesAt i l := by
  simp [valuesAt]

theorem valuesAt_other (h : j ≠ i) (v : β j) (l : List (Sigma β)) :
    valuesAt i (⟨j, v⟩ :: l) = valuesAt i l := by
  simp [valuesAt, h]

theorem valuesAt_append : valuesAt i (l ++ l') = valuesAt i l ++ valuesAt i l' := List.filterMap_append

/-- **Each cell gets its own values.** -/
theorem foldl_applyAt (l : List (Sigma β)) (g : ∀ i, α i) (i : ι) :
    l.foldl (applyAt put) g i = (valuesAt i l).foldl (put i) (g i) := by
  induction l generalizing g with
  | nil => rfl
  | cons x l ih =>
    obtain ⟨j, v⟩ := x
    rw [List.foldl_cons, ih]
    by_cases h : j = i
    · subst h
      rw [valuesAt_self, List.foldl_cons, applyAt, Function.update_self]
    · rw [valuesAt_other h, applyAt, Function.update_of_ne (Ne.symm h)]

theorem valuesAt_map_self (vs : List (β i)) : valuesAt i (vs.map (Sigma.mk i)) = vs := by
  induction vs with
  | nil => rfl
  | cons v vs ih => rw [List.map_cons, valuesAt_self, ih]

theorem valuesAt_map_other (h : j ≠ i) (vs : List (β j)) : valuesAt i (vs.map (Sigma.mk j)) = [] := by
  induction vs with
  | nil => rfl
  | cons v vs ih => rw [List.map_cons, valuesAt_other h, ih]

theorem valuesAt_flatMap_notMem {keys : List ι} (h : i ∉ keys) (f : ∀ i, List (β i)) :
    valuesAt i (keys.flatMap fun j => (f j).map (Sigma.mk j)) = [] := by
  induction keys with
  | nil => rfl
  | cons j keys ih =>
    rw [List.mem_cons, not_or] at h
    rw [List.flatMap_cons, valuesAt_append, valuesAt_map_other (Ne.symm h.1), ih h.2, List.append_nil]

/-- The values are listed key by key. -/
theorem valuesAt_flatMap {keys : List ι} (hnd : keys.Nodup) (hi : i ∈ keys) (f : ∀ i, List (β i)) :
    valuesAt i (keys.flatMap fun j => (f j).map (Sigma.mk j)) = f i := by
  induction keys with
  | nil => cases hi
  | cons j keys ih =>
    obtain ⟨hj, hnd⟩ := List.nodup_cons.mp hnd
    rw [List.flatMap_cons, valuesAt_append]
    by_cases h : j = i
    · subst h
      rw [valuesAt_map_self, valuesAt_flatMap_notMem hj, List.append_nil]
    · have hmem : i ∈ keys := (List.mem_cons.mp hi).resolve_left (Ne.symm h)
      rw [valuesAt_map_other h, ih hnd hmem, List.nil_append]

end LibMumble.Lib
