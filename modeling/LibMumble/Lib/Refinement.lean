import Mathlib.Data.List.Basic

/-! # Data refinement

A machine with fallible steps `step : σ → ι → Except ε σ` is held to an abstract one that cannot fail,
`spec : τ → ι → τ`, along an abstraction function. `Refines` asks for it one step at a time, from
states with an invariant and for actions that the abstract state permits; `Refines.run` carries it to
programs, and `Refines.congr` says that nothing but the abstract state is observable. -/

namespace LibMumble.Lib

variable {σ τ ι ε : Type*}

/-- **One step refines one abstract step**, where `ok` permits it, and keeps the invariant. -/
structure Refines (step : σ → ι → Except ε σ) (spec : τ → ι → τ) (ok : τ → ι → Prop) (inv : σ → Prop)
    (abs : σ → τ) : Prop where
  step : ∀ {s : σ} {i : ι}, inv s → ok (abs s) i →
    ∃ s', step s i = .ok s' ∧ inv s' ∧ abs s' = spec (abs s) i

/-- Every action of a program is permitted where it is taken. -/
def Legal (spec : τ → ι → τ) (ok : τ → ι → Prop) : List ι → τ → Prop
  | [], _ => True
  | i :: is, t => ok t i ∧ Legal spec ok is (spec t i)

instance decidableLegal {spec : τ → ι → τ} {ok : τ → ι → Prop} [∀ t i, Decidable (ok t i)] :
    (is : List ι) → (t : τ) → Decidable (Legal spec ok is t)
  | [], _ => .isTrue trivial
  | i :: is, t => @instDecidableAnd _ _ _ (decidableLegal is (spec t i))

namespace Refines

variable {step : σ → ι → Except ε σ} {spec : τ → ι → τ} {ok : τ → ι → Prop} {inv : σ → Prop}
  {abs : σ → τ} {s s' : σ}

/-- **A program refines the abstract program.** -/
theorem run (h : Refines step spec ok inv abs) : ∀ {is : List ι} {s : σ}, inv s →
    Legal spec ok is (abs s) →
      ∃ s', is.foldlM step s = .ok s' ∧ inv s' ∧ abs s' = is.foldl spec (abs s)
  | [], s, hi, _ => ⟨s, rfl, hi, rfl⟩
  | i :: is, s, hi, ⟨hok, hl⟩ => by
    obtain ⟨s1, h1, hi1, ha1⟩ := h.step hi hok
    rw [← ha1] at hl
    obtain ⟨s2, h2, hi2, ha2⟩ := h.run hi1 hl
    refine ⟨s2, ?_, hi2, ?_⟩
    · rw [List.foldlM_cons, h1]
      exact h2
    · rw [ha2, ha1, List.foldl_cons]

/-- A program cannot tell states apart that have the same abstraction. -/
theorem congr (h : Refines step spec ok inv abs) {is : List ι} (hi : inv s) (hi' : inv s')
    (heq : abs s = abs s') (hl : Legal spec ok is (abs s)) : ∃ t t', is.foldlM step s = .ok t ∧
      is.foldlM step s' = .ok t' ∧ inv t ∧ inv t' ∧ abs t = abs t' := by
  obtain ⟨t, ht, hit, hat⟩ := h.run hi hl
  rw [heq] at hl
  obtain ⟨t', ht', hit', hat'⟩ := h.run hi' hl
  exact ⟨t, t', ht, ht', hit, hit', by rw [hat, hat', heq]⟩

end Refines

end LibMumble.Lib
