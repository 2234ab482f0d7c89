import Mathlib.Data.List.Basic

/-! # Histories in which every entry is justified by the entries before it

`History P l` says that each entry `x` of `l` stands in the relation `P` to the part of `l` before
it. This is how an ordering law on a growing log is kept: an appended entry has to be justified once,
by the log it is appended to (`history_snoc`), and the law can be read off at any later time. -/

namespace LibMumble.Lib

variable {α : Type*}

/-- Every entry is justified by the entries before it. -/
def History (P : List α → α → Prop) (l : List α) : Prop :=
  ∀ pre x post, l = pre ++ x :: post → P pre x

variable {P Q : List α → α → Prop} {l : List α} {x : α}

theorem history_nil : History P [] := by
  intro pre x post h
  simp at h

theorem history_snoc : History P (l ++ [x]) ↔ History P l ∧ P l x := by
  constructor
  · intro h
    refine ⟨fun pre y post hl => h pre y (post ++ [x]) (by simp [hl]), h l x [] rfl⟩
  · rintro ⟨hl, hx⟩ pre y post he
    rcases List.eq_nil_or_concat post with rfl | ⟨post', z, rfl⟩
    · obtain ⟨rfl, hy⟩ := List.append_inj' he rfl
      cases hy
      exact hx
    · rw [List.concat_eq_append, ← List.cons_append, ← List.append_assoc] at he
      obtain ⟨rfl, -⟩ := List.append_inj' he rfl
      exact hl pre y post' rfl

/-- Entries that need no justification can be appended. -/
theorem History.append {new : List α} (h : History P l) (hn : ∀ y ∈ new, ∀ pre, P pre y) :
    History P (l ++ new) := by
  induction new generalizing l with
  | nil => rwa [List.append_nil]
  | cons y new ih =>
    have hy : History P (l ++ [y]) := history_snoc.mpr ⟨h, hn y List.mem_cons_self l⟩
    rw [List.append_cons]
    exact ih hy fun z hz => hn z (List.mem_cons_of_mem y hz)

theorem History.of_mem (h : History P l) (hx : x ∈ l) :
    ∃ pre post, l = pre ++ x :: post ∧ P pre x := by
  obtain ⟨pre, post, hl⟩ := List.append_of_mem hx
  exact ⟨pre, post, hl, h pre x post hl⟩

/-- An entry that no earlier copy of it allows occurs at most once. -/
theorem History.count_le_one [BEq α] [LawfulBEq α] (h : History P l)
    (hP : ∀ pre, P pre x → x ∉ pre) : l.count x ≤ 1 := by
  by_cases hx : x ∈ l
  · obtain ⟨pre, post, rfl⟩ := List.append_of_mem hx
    have hpre : x ∉ pre := hP pre (h pre x post rfl)
    have hpost : x ∉ post := by
      intro hm
      obtain ⟨a, b, rfl⟩ := List.append_of_mem hm
      have := hP _ (h (pre ++ x :: a) x b (by simp))
      simp at this
    have h1 := List.count_eq_zero_of_not_mem hpre
    have h2 := List.count_eq_zero_of_not_mem hpost
    have hcount : (pre ++ x :: post).count x = 1 := by
      rw [List.count_append, List.count_cons_self, h1, h2]
    omega
  · have h0 := List.count_eq_zero_of_not_mem hx
    omega

end LibMumble.Lib
