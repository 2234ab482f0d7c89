import Mathlib.Data.List.Basic
import Mathlib.Data.List.Infix

/-! # Programs of steps that may fail

A program is a list of actions, each of which gives the next state or an error. `Along p` says that each
action meets `p` in the state in which it is taken; after an error nothing is taken. `Succeeds` says that
no action fails and that each state reached keeps an invariant, and `succeeds_iff` finds the condition for
it from the condition for one step. -/

namespace LibMumble.Lib

variable {σ ι ε : Type*}

/-- What holds of a result, if there is one. -/
def After (e : Except ε σ) (p : σ → Prop) : Prop :=
  match e with
  | .ok t => p t
  | .error _ => True

instance decidableAfter {p : σ → Prop} [DecidablePred p] : (e : Except ε σ) → Decidable (After e p)
  | .ok t => inferInstanceAs (Decidable (p t))
  | .error _ => .isTrue trivial

/-- Every action meets `p` where it is taken. -/
def Along (step : σ → ι → Except ε σ) (p : σ → ι → Prop) : List ι → σ → Prop
  | [], _ => True
  | i :: is, s => p s i ∧ After (step s i) (Along step p is)

instance decidableAlong {step : σ → ι → Except ε σ} {p : σ → ι → Prop} [∀ s i, Decidable (p s i)] :
    (is : List ι) → (s : σ) → Decidable (Along step p is s)
  | [], _ => .isTrue trivial
  | i :: is, s => @instDecidableAnd _ _ _ (@decidableAfter _ _ _ (decidableAlong is) (step s i))

/-- No action fails, and each state that is reached has the invariant. -/
def Succeeds (step : σ → ι → Except ε σ) (inv : σ → Prop) (is : List ι) (s : σ) : Prop :=
  ∀ pre, pre <+: is → ∃ t, pre.foldlM step s = .ok t ∧ inv t

variable {step : σ → ι → Except ε σ} {inv : σ → Prop} {p q : σ → ι → Prop} {is : List ι} {i : ι}
  {s : σ}

theorem succeeds_cons (hs : inv s) : Succeeds step inv (i :: is) s ↔
    ∃ t, step s i = .ok t ∧ inv t ∧ Succeeds step inv is t := by
  constructor
  · intro h
    obtain ⟨t, ht, hinv⟩ := h [i] (List.prefix_append [i] is)
    have hstep : step s i = .ok t := by
      rw [List.foldlM_cons] at ht
      rcases hi : step s i with e | t'
      · rw [hi] at ht
        cases ht
      · rw [hi] at ht
        exact ht
    refine ⟨t, hstep, hinv, fun pre hpre => ?_⟩
    obtain ⟨u, hu, hinv'⟩ := h (i :: pre) ((List.prefix_cons_inj i).mpr hpre)
    rw [List.foldlM_cons, hstep] at hu
    exact ⟨u, hu, hinv'⟩
  · rintro ⟨t, hstep, -, h⟩ pre hpre
    rcases pre with _ | ⟨i', pre⟩
    · exact ⟨s, rfl, hs⟩
    · obtain ⟨rfl, hpre'⟩ := List.cons_prefix_cons.mp hpre
      obtain ⟨u, hu, hinv⟩ := h pre hpre'
      refine ⟨u, ?_, hinv⟩
      rw [List.foldlM_cons, hstep]
      exact hu

/-- **The rule of a program that may fail**: if `q` is the condition under which a step that meets `p`
succeeds and keeps the invariant, then a program that meets `p` succeeds if and only if it meets `q`. -/
theorem succeeds_iff
    (hstep : ∀ {s i}, inv s → p s i → ((∃ t, step s i = .ok t ∧ inv t) ↔ q s i)) (hs : inv s)
    (hp : Along step p is s) : Succeeds step inv is s ↔ Along step q is s := by
  induction is generalizing s with
  | nil =>
    refine iff_of_true (fun pre hpre => ?_) trivial
    rw [List.prefix_nil.mp hpre]
    exact ⟨s, rfl, hs⟩
  | cons i is ih =>
    obtain ⟨hpi, hrest⟩ := hp
    rw [succeeds_cons hs, Along]
    constructor
    · rintro ⟨t, ht, hinv, hall⟩
      rw [ht] at hrest ⊢
      exact ⟨(hstep hs hpi).mp ⟨t, ht, hinv⟩, (ih hinv hrest).mp hall⟩
    · rintro ⟨hq, hall⟩
      obtain ⟨t, ht, hinv⟩ := (hstep hs hpi).mpr hq
      rw [ht] at hrest hall
      exact ⟨t, ht, hinv, (ih hinv hrest).mpr hall⟩

end LibMumble.Lib
