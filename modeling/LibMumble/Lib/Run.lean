import Mathlib.Data.List.Basic
import Mathlib.Logic.Basic

/-! # Runs of a partial step function

A system is given by `step : σ → α → Option σ`: in a state, an action either is not possible or
leads to one next state. `Run step ok s as t` says that the actions `as` lead from `s` to `t` and
that every action, when it is taken, meets the side condition `ok` on it and the state before it.
Nondeterminism is in the choice of the actions, so a property of all runs is a property of every
order of events. -/

namespace LibMumble.Lib

variable {σ α : Type*}

/-- **A run**: each action is possible and meets the side condition. -/
inductive Run (step : σ → α → Option σ) (ok : σ → α → Prop) : σ → List α → σ → Prop
  | nil (s : σ) : Run step ok s [] s
  | cons {s t u : σ} {a : α} {as : List α} (hok : ok s a) (hs : step s a = some t)
      (h : Run step ok t as u) : Run step ok s (a :: as) u

/-- The side condition that asks nothing. -/
def Any : σ → α → Prop := fun _ _ => True

instance (s : σ) (a : α) : Decidable (Any s a) := .isTrue trivial

/-- The state a list of actions leads to, if all of them are possible and allowed. -/
def exec (step : σ → α → Option σ) (ok : σ → α → Prop) [∀ s a, Decidable (ok s a)] :
    List α → σ → Option σ
  | [], s => some s
  | a :: as, s => if ok s a then (step s a).bind (exec step ok as) else none

variable {step : σ → α → Option σ} {ok : σ → α → Prop} {s t : σ} {as : List α}

/-- **The invariant rule**: what holds at the start and is preserved by every step that meets the
side condition holds at the end. -/
theorem Run.invariant {I : σ → Prop} (h : Run step ok s as t) (h0 : I s)
    (hstep : ∀ s a t, I s → ok s a → step s a = some t → I t) : I t := by
  induction h with
  | nil => exact h0
  | cons hok hs _ ih => exact ih (hstep _ _ _ h0 hok hs)

/-- The rule for what a run keeps of its first state, when an invariant holds along it. -/
theorem Run.keeps {I : σ → Prop} {R : σ → σ → Prop} (h : Run step ok s as t) (h0 : I s)
    (hI : ∀ s a t, I s → ok s a → step s a = some t → I t) (hrefl : ∀ s, R s s)
    (hstep : ∀ s a t u, I s → ok s a → step s a = some t → R t u → R s u) : R s t := by
  induction h with
  | nil => exact hrefl _
  | cons hok hs _ ih => exact hstep _ _ _ _ h0 hok hs (ih (hI _ _ _ h0 hok hs))

theorem Run.mono {ok' : σ → α → Prop} (h : Run step ok s as t) (hok : ∀ s a, ok s a → ok' s a) :
    Run step ok' s as t := by
  induction h with
  | nil => exact .nil _
  | cons ha hs _ ih => exact .cons (hok _ _ ha) hs ih

/-- The steps of two runs with the same actions are the same. -/
theorem Run.and {ok' : σ → α → Prop} (h : Run step ok s as t) (h' : Run step ok' s as t) :
    Run step (fun s a => ok s a ∧ ok' s a) s as t := by
  induction h with
  | nil => exact .nil _
  | cons hok hs _ ih =>
    cases h' with
    | cons hok' hs' h' =>
      obtain rfl := Option.some.inj (hs.symm.trans hs')
      exact .cons ⟨hok, hok'⟩ hs (ih h')

/-- What holds at the end either held all along or was brought about by a step, after which it held
all along. -/
theorem Run.held_or_changed {P : σ → Prop} (h : Run step ok s as t) (h1 : P t) :
    Run step (fun s a => ok s a ∧ P s) s as t ∧ P s ∨ ∃ pre a post u v, as = pre ++ a :: post ∧
      Run step ok s pre u ∧ ok u a ∧ step u a = some v ∧ ¬ P u ∧ P v ∧
      Run step (fun s a => ok s a ∧ P s) v post t := by
  induction h with
  | nil => exact Or.inl ⟨.nil _, h1⟩
  | @cons s s' t a as hok hs _ ih =>
    rcases ih h1 with ⟨hrest, hP⟩ | ⟨pre, b, post, u, v, rfl, hpre, hb, hstep, hu, hv, hpost⟩
    · by_cases hPs : P s
      · exact Or.inl ⟨.cons ⟨hok, hPs⟩ hs hrest, hPs⟩
      · exact Or.inr ⟨[], a, as, s, s', rfl, .nil _, hok, hs, hPs, hP, hrest⟩
    · exact Or.inr ⟨a :: pre, b, post, u, v, rfl, .cons hok hs hpre, hb, hstep, hu, hv, hpost⟩

/-- **The last change**: what holds at the end and not at the start was brought about by a step, after
which it held all along. -/
theorem Run.last_change {P : σ → Prop} (h : Run step ok s as t) (h0 : ¬ P s) (h1 : P t) :
    ∃ pre a post u v, as = pre ++ a :: post ∧ Run step ok s pre u ∧ ok u a ∧ step u a = some v ∧
      ¬ P u ∧ P v ∧ Run step (fun s a => ok s a ∧ P s) v post t :=
  (h.held_or_changed h1).resolve_left fun hheld => h0 hheld.2

/-- A side condition on the actions alone. -/
theorem Run.and_forall {q : α → Prop} (h : Run step ok s as t) (hq : ∀ a ∈ as, q a) :
    Run step (fun s a => ok s a ∧ q a) s as t := by
  induction h with
  | nil => exact .nil _
  | cons hok hs _ ih =>
    exact .cons ⟨hok, hq _ List.mem_cons_self⟩ hs (ih fun b hb => hq b (List.mem_cons_of_mem _ hb))

/-- **A run meets a side condition if each of its steps does**, as it is taken. -/
theorem Run.iff_forall (h : Run step Any s as t) : Run step ok s as t ↔
    ∀ pre a post u v, as = pre ++ a :: post → Run step Any s pre u → step u a = some v →
      ok u a := by
  constructor
  · intro hrun
    clear h
    induction hrun with
    | nil => exact fun pre a post u v has => by simp at has
    | @cons s t' t a as hok hs hrest ih =>
      intro pre b post u v has hu hv
      cases pre with
      | nil =>
        obtain ⟨rfl, rfl⟩ := List.cons.inj has
        cases hu
        exact hok
      | cons c pre =>
        obtain ⟨rfl, rfl⟩ := List.cons.inj has
        cases hu with
        | cons _ hs' hu =>
          rw [hs, Option.some.injEq] at hs'
          subst hs'
          exact ih pre b post u v rfl hu hv
  · intro hall
    induction h with
    | nil => exact .nil _
    | @cons s t' t a as hok hs hrest ih =>
      refine .cons (hall [] a as s t' rfl (.nil _) hs) hs (ih fun pre b post u v has hu hv => ?_)
      exact hall (a :: pre) b post u v (by rw [has, List.cons_append]) (.cons hok hs hu) hv

/-! ### Reachability -/

/-- Some continuation leads to a state with the property. -/
def Reaches (step : σ → α → Option σ) (ok : σ → α → Prop) (P : σ → Prop) (s : σ) : Prop :=
  ∃ as t, Run step ok s as t ∧ P t

section Reaches

variable {P Q I : σ → Prop} {a : α}

theorem Reaches.now (h : P s) : Reaches step ok P s := ⟨[], s, .nil s, h⟩

theorem Reaches.after (hok : ok s a) (hs : step s a = some t) (h : Reaches step ok P t) :
    Reaches step ok P s := by
  obtain ⟨as, u, hrun, hu⟩ := h
  exact ⟨a :: as, u, .cons hok hs hrun, hu⟩

theorem Run.append {u : σ} {bs : List α} (h : Run step ok s as t) (h' : Run step ok t bs u) :
    Run step ok s (as ++ bs) u := by
  induction h with
  | nil => exact h'
  | cons hok hs _ ih => exact .cons hok hs (ih h')

/-- One thing after another. -/
theorem Reaches.then (h : Reaches step ok P s) (h' : ∀ t, P t → Reaches step ok Q t) :
    Reaches step ok Q s := by
  obtain ⟨as, t, hrun, ht⟩ := h
  obtain ⟨bs, u, hrun', hu⟩ := h' t ht
  exact ⟨as ++ bs, u, hrun.append hrun', hu⟩

/-- **The progress rule**: a measure that some step makes smaller until the property holds. -/
theorem Reaches.of_measure (μ : σ → ℕ) (h : ∀ s, I s → ¬ P s →
    ∃ a t, ok s a ∧ step s a = some t ∧ I t ∧ μ t < μ s) (hI : I s) :
    Reaches step ok (fun t => I t ∧ P t) s := by
  induction hn : μ s using Nat.strongRecOn generalizing s with
  | ind n ih =>
    by_cases hP : P s
    · exact .now ⟨hI, hP⟩
    · obtain ⟨a, t, hok, hs, ht, hlt⟩ := h s hI hP
      exact .after hok hs (ih (μ t) (hn ▸ hlt) ht rfl)

end Reaches

theorem run_of_exec [∀ s a, Decidable (ok s a)] :
    ∀ {as : List α} {s : σ}, exec step ok as s = some t → Run step ok s as t
  | [], s, h => by
    simp only [exec, Option.some.injEq] at h
    subst h
    exact .nil _
  | a :: as, s, h => by
    simp only [exec, Option.ite_none_right_eq_some, Option.bind_eq_some_iff] at h
    obtain ⟨hok, s', hs, h⟩ := h
    exact .cons hok hs (run_of_exec h)

/-- A run found by executing its actions, with a property of its end. -/
theorem exists_run_of_exec [∀ s a, Decidable (ok s a)] {p : σ → Bool}
    (h : (exec step ok as s).any p = true) : ∃ t, Run step ok s as t ∧ p t = true := by
  obtain ⟨t, ht, hp⟩ := (Option.any_eq_true _ _).mp h
  exact ⟨t, run_of_exec ht, hp⟩

end LibMumble.Lib
