import Mathlib.Data.List.Forall2

/-! # Wild cards for whole labels

A text is a sequence of labels with separators between them, and an expression is a text in which the
label that is the wild card alone stands for any label. `Substituted` says on whole texts that one is
an instance of the other; label by label it is a comparison of two lists (`substituted_iff`). -/

namespace LibMumble.Lib

variable {α : Type*} [DecidableEq α] {sep star : α} {s e h l : List α}

/-! ### Labels -/

theorem notMem_of_mem_splitOn (hl : l ∈ s.splitOn sep) : sep ∉ l := by
  induction s generalizing l with
  | nil =>
    obtain rfl : l = [] := by simpa using hl
    simp
  | cons x s ih =>
    rw [List.splitOn_cons_eq_if_modifyHead] at hl
    obtain ⟨first, others, hsplit⟩ := List.exists_cons_of_ne_nil (List.splitOn_ne_nil sep s)
    rw [hsplit] at ih hl
    by_cases hx : x = sep
    · rw [if_pos (by rw [hx, beq_self_eq_true]), List.mem_cons] at hl
      rcases hl with rfl | hl
      · simp
      · exact ih hl
    · rw [if_neg (by simpa using hx), List.modifyHead_cons, List.mem_cons] at hl
      rcases hl with rfl | hl
      · have hfirst := ih (l := first) (by simp)
        simp [hfirst, Ne.symm hx]
      · exact ih (by simp [hl])

/-- There is one label more than there are separators. -/
theorem length_splitOn (s : List α) (sep : α) : (s.splitOn sep).length = s.count sep + 1 := by
  induction s with
  | nil => rfl
  | cons x s ih =>
    rw [List.splitOn_cons_eq_if_modifyHead, List.count_cons]
    by_cases hx : x = sep
    · simp [hx, ih]
    · simp [hx, ih]

/-- A map that keeps the separators apart from all else can be applied first. -/
theorem splitOn_map {f : α → α} (hf : ∀ x, f x = sep ↔ x = sep) (s : List α) :
    (s.map f).splitOn sep = (s.splitOn sep).map (List.map f) := by
  induction s with
  | nil => rfl
  | cons x s ih =>
    obtain ⟨first, others, hsplit⟩ := List.exists_cons_of_ne_nil (List.splitOn_ne_nil sep s)
    rw [List.map_cons, List.splitOn_cons_eq_if_modifyHead, List.splitOn_cons_eq_if_modifyHead, ih,
      hsplit]
    by_cases hx : x = sep
    · have hfx : f sep = sep := (hf sep).mpr rfl
      simp [hx, hfx]
    · have hfx := mt (hf x).mp hx
      simp [hx, hfx]

/-! ### Substitution -/

/-- What may stand for a label: for the wild card every text without a separator, but the empty one
only if not `full`; any other label stands for itself. -/
def Replaces (sep star : α) (full : Prop) (l r : List α) : Prop :=
  if l = [star] then sep ∉ r ∧ (full → r ≠ []) else r = l

/-- `h` is `e` with each label replaced. -/
def Substituted (sep star : α) (full : Prop) (e h : List α) : Prop :=
  ∃ labels, List.Forall₂ (Replaces sep star full) (e.splitOn sep) labels ∧
    h = [sep].intercalate labels

/-- What replaces a label is one. -/
theorem Replaces.notMem {full : Prop} {r : List α} (hr : Replaces sep star full l r) (hl : sep ∉ l) :
    sep ∉ r := by
  unfold Replaces at hr
  split_ifs at hr with hs
  · exact hr.1
  · rwa [hr]

/-- **Substitution is label by label.** -/
theorem substituted_iff {full : Prop} (hfull : full → [] ∉ h.splitOn sep) :
    Substituted sep star full e h ↔
      List.Forall₂ (fun l r => l = [star] ∨ l = r) (e.splitOn sep) (h.splitOn sep) := by
  constructor
  · rintro ⟨labels, hall, rfl⟩
    have hlen := hall.length_eq
    have hfree : ∀ r ∈ labels, sep ∉ r := by
      intro r hr
      obtain ⟨i, hi, rfl⟩ := List.getElem_of_mem hr
      have hrep := List.Forall₂.get hall (by omega) hi
      exact hrep.notMem (notMem_of_mem_splitOn (List.getElem_mem _))
    have hne : labels ≠ [] := by
      have hpos := List.length_pos_iff.mpr (List.splitOn_ne_nil sep e)
      rw [← List.length_pos_iff]
      omega
    rw [List.splitOn_intercalate sep hfree hne]
    refine hall.imp fun l r hr => ?_
    unfold Replaces at hr
    split_ifs at hr with hs
    · exact .inl hs
    · exact .inr hr.symm
  · intro hall
    refine ⟨h.splitOn sep, ?_, (List.intercalate_splitOn sep).symm⟩
    obtain ⟨hlen, hzip⟩ := List.forall₂_iff_zip.mp hall
    refine List.forall₂_iff_zip.mpr ⟨hlen, fun {l r} hmem => ?_⟩
    have hr := (List.of_mem_zip hmem).2
    unfold Replaces
    split_ifs with hs
    · refine ⟨notMem_of_mem_splitOn hr, fun hf hnil => hfull hf ?_⟩
      rwa [← hnil]
    · exact ((hzip hmem).resolve_left hs).symm

end LibMumble.Lib
