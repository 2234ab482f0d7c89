import Mathlib.Data.Multiset.AddSub
import Mathlib.Data.Multiset.MapFold

/-! # Programs that own objects

A library hands out objects, which are given back by the release function of their kind. A program in
`Own` computes with pointers to them, and goes wrong (`Misuse.dead`) when it uses or releases what is not
live, or releases it as something that it is not. `Owns L m Q E` says of a program that owns the objects
`L` that it never goes wrong, whatever else is live, that this stays as it is, that a result meets `Q`
with the objects that the program then owns, and that an error of its own meets `E`. `Leaves m r left`
says of a program that begins with nothing what it computes, and the kinds of what it leaves behind. -/

namespace LibMumble.Lib

/-- A pointer to an object of a kind. -/
abbrev Ptr (κ : Type*) := κ × ℕ

/-- The objects that are live, with the number of the next one. -/
structure Heap (κ : Type*) where
  next : ℕ
  live : Multiset (Ptr κ)
  /-- an object that is handed out is none of those that are live -/
  fresh : ∀ p ∈ live, p.2 < next

inductive Misuse (ε : Type*)
  /-- an error of the program -/
  | fault (e : ε)
  /-- an object that is not live -/
  | dead
  deriving DecidableEq, Repr

/-- A program that owns objects. -/
def Own (κ : Type) (ε : Type) (α : Type) : Type := Heap κ → Except (Misuse ε) (α × Heap κ)

variable {κ ε α β : Type} [DecidableEq κ]

namespace Own

instance : Monad (Own κ ε) where
  pure a h := .ok (a, h)
  bind m f h := match m h with
    | .ok (a, h') => f a h'
    | .error e => .error e

/-- The program fails. -/
def lift (r : Except ε α) : Own κ ε α := fun h =>
  match r with
  | .ok a => .ok (a, h)
  | .error e => .error (.fault e)

/-- A new object. -/
def acquire (k : κ) : Own κ ε (Ptr κ) := fun h =>
  .ok ((k, h.next), ⟨h.next + 1, (k, h.next) ::ₘ h.live, fun p hp => by
    rcases Multiset.mem_cons.mp hp with rfl | hp
    · exact Nat.lt_succ_self _
    · exact Nat.lt_succ_of_lt (h.fresh p hp)⟩)

/-- A function that needs the object. -/
def use (p : Ptr κ) : Own κ ε Unit := fun h => if p ∈ h.live then .ok ((), h) else .error .dead

/-- The release function of the kind of the object. -/
def release (p : Ptr κ) : Own κ ε Unit := fun h =>
  if p ∈ h.live then
    .ok ((), ⟨h.next, h.live.erase p, fun q hq => h.fresh q (Multiset.mem_of_mem_erase hq)⟩)
  else .error .dead

/-- The release functions do nothing with a null pointer. -/
def releaseOption : Option (Ptr κ) → Own κ ε Unit
  | some p => release p
  | none => pure ()

end Own

open Own

/-- **What a program does with the objects it owns.** -/
def Owns (L : Multiset (Ptr κ)) (m : Own κ ε α) (Q : α → Multiset (Ptr κ) → Prop)
    (E : ε → Prop) : Prop :=
  ∀ (h : Heap κ) (F : Multiset (Ptr κ)), h.live = L + F → match m h with
    | .ok (a, h') => ∃ L', h'.live = L' + F ∧ Q a L'
    | .error (.fault e) => E e
    | .error .dead => False

variable {L L' : Multiset (Ptr κ)} {m : Own κ ε α} {f : α → Own κ ε β}
  {Q : α → Multiset (Ptr κ) → Prop} {R : β → Multiset (Ptr κ) → Prop} {E : ε → Prop} {p : Ptr κ}

namespace Owns

omit [DecidableEq κ] in
theorem pure {a : α} (h : Q a L) : Owns L (Pure.pure a : Own κ ε α) Q E :=
  fun _ _ hh => ⟨L, hh, h⟩

omit [DecidableEq κ] in
/-- **The rule of composition.** -/
theorem bind (hm : Owns L m Q E) (hf : ∀ a L', Q a L' → Owns L' (f a) R E) :
    Owns L (m >>= f) R E := by
  intro h F hh
  have hrun := hm h F hh
  show match (match m h with
    | .ok (a, h') => f a h'
    | .error e => .error e) with
    | .ok (a, h') => ∃ L', h'.live = L' + F ∧ R a L'
    | .error (.fault e) => E e
    | .error .dead => False
  rcases hres : m h with (e | _) | ⟨a, h'⟩ <;> rw [hres] at hrun
  · exact hrun
  · exact hrun
  · obtain ⟨L', hlive, hQ⟩ := hrun
    exact hf a L' hQ h' F hlive

omit [DecidableEq κ] in
/-- The rule of composition, after a program that only changes what is owned. -/
theorem next {m : Own κ ε Unit} {f : Unit → Own κ ε β} (hm : Owns L m (fun _ L'' => L'' = L') E)
    (hf : Owns L' (f ()) R E) : Owns L (m >>= f) R E :=
  hm.bind fun _ _ hL => hL ▸ hf

omit [DecidableEq κ] in
/-- **The rule of consequence.** -/
theorem imp {Q' : α → Multiset (Ptr κ) → Prop} (hm : Owns L m Q E)
    (hQ : ∀ a L', Q a L' → Q' a L') : Owns L m Q' E := by
  intro h F hh
  have hrun := hm h F hh
  rcases hres : m h with (e | _) | ⟨a, h'⟩ <;> rw [hres] at hrun
  · exact hrun
  · exact hrun
  · obtain ⟨L', hlive, hq⟩ := hrun
    exact ⟨L', hlive, hQ a L' hq⟩

omit [DecidableEq κ] in
/-- The rule of consequence, for the errors. -/
theorem impError {E' : ε → Prop} (hm : Owns L m Q E) (hE : ∀ e, E e → E' e) : Owns L m Q E' := by
  intro h F hh
  have hrun := hm h F hh
  rcases hres : m h with (e | _) | ⟨a, h'⟩ <;> rw [hres] at hrun
  · exact hE e hrun
  · exact hrun
  · exact hrun

omit [DecidableEq κ] in
/-- **The frame rule**: what else the program owns it still owns. -/
theorem frame (hm : Owns L m Q E) (G : Multiset (Ptr κ)) :
    Owns (L + G) m (fun a L' => ∃ L'', L' = L'' + G ∧ Q a L'') E := by
  intro h F hh
  have hrun := hm h (G + F) (by rw [hh, Multiset.add_assoc])
  rcases hres : m h with (e | _) | ⟨a, h'⟩ <;> rw [hres] at hrun
  · exact hrun
  · exact hrun
  · obtain ⟨L', hlive, hQ⟩ := hrun
    exact ⟨L' + G, by rw [hlive, Multiset.add_assoc], L', rfl, hQ⟩

omit [DecidableEq κ] in
theorem lift {r : Except ε α} (herr : ∀ e, r = .error e → E e) :
    Owns L (Own.lift r) (fun a L' => r = .ok a ∧ L' = L) E := by
  intro h F hh
  cases r with
  | ok a => exact ⟨L, hh, rfl, rfl⟩
  | error e => exact herr e rfl

omit [DecidableEq κ] in
theorem acquire {k : κ} :
    Owns L (Own.acquire k : Own κ ε (Ptr κ)) (fun p L' => p.1 = k ∧ L' = {p} + L) E := by
  intro h F hh
  refine ⟨{(k, h.next)} + L, ?_, rfl, rfl⟩
  rw [Multiset.singleton_add, Multiset.cons_add, ← hh]

theorem use (hp : p ∈ L) : Owns L (Own.use p : Own κ ε Unit) (fun _ L' => L' = L) E := by
  intro h F hh
  have hmem : p ∈ h.live := by
    rw [hh]
    exact Multiset.mem_add.mpr (Or.inl hp)
  simp only [Own.use, if_pos hmem]
  exact ⟨L, hh, rfl⟩

/-- The one release of an object that the program owns. -/
theorem release (hL : L = {p} + L') :
    Owns L (Own.release p : Own κ ε Unit) (fun _ L'' => L'' = L') E := by
  intro h F hh
  have hlive : h.live = p ::ₘ (L' + F) := by
    rw [hh, hL, Multiset.singleton_add, Multiset.cons_add]
  have hmem : p ∈ h.live := by
    rw [hlive]
    exact Multiset.mem_cons_self p _
  simp only [Own.release, if_pos hmem]
  refine ⟨L', ?_, rfl⟩
  rw [hlive, Multiset.erase_cons_head]

end Owns

namespace Own

/-- A function that hands out an object, or the null pointer. -/
def acquireOption (k : κ) : Option α → Own κ ε (Option (Ptr κ × α))
  | none => pure none
  | some a => do
    let p ← acquire k
    return some (p, a)

/-- The release functions of a number of objects, one after another. -/
def releaseAll : List (Option (Ptr κ)) → Own κ ε Unit
  | [] => pure ()
  | p :: ps => do
    releaseOption p
    releaseAll ps

end Own

/-- The objects of pointers that may be null. -/
def owned (ps : List (Option (Ptr κ))) : Multiset (Ptr κ) := (ps.filterMap id : List (Ptr κ))

omit [DecidableEq κ] in
@[simp] theorem owned_nil : owned ([] : List (Option (Ptr κ))) = 0 := rfl

omit [DecidableEq κ] in
@[simp] theorem owned_none (ps : List (Option (Ptr κ))) : owned (none :: ps) = owned ps := rfl

omit [DecidableEq κ] in
@[simp] theorem owned_some : owned [some p] = {p} := rfl

omit [DecidableEq κ] in
theorem owned_append (ps qs : List (Option (Ptr κ))) :
    owned (ps ++ qs) = owned ps + owned qs := by
  rw [owned, List.filterMap_append, ← Multiset.coe_add]
  rfl

omit [DecidableEq κ] in
theorem owned_cons (o : Option (Ptr κ)) (os : List (Option (Ptr κ))) :
    owned (o :: os) = owned [o] + owned os := owned_append [o] os

omit [DecidableEq κ] in
theorem Owns.acquireOption {k : κ} {o : Option α} :
    Owns L (Own.acquireOption k o : Own κ ε _) (fun r L' => r.map (·.2) = o ∧
      (∀ p ∈ r, p.1.1 = k) ∧ L' = owned [r.map (·.1)] + L) E := by
  cases o with
  | none => exact .pure ⟨rfl, nofun, (Multiset.zero_add L).symm⟩
  | some a =>
    refine Owns.acquire.bind ?_
    rintro p _ ⟨hp, rfl⟩
    exact .pure ⟨rfl, by simpa using hp, rfl⟩

theorem Owns.releaseOption {o : Option (Ptr κ)} (hL : L = owned [o] + L') :
    Owns L (Own.releaseOption o : Own κ ε Unit) (fun _ L'' => L'' = L') E := by
  cases o with
  | none =>
    rw [hL, owned_none, owned_nil, Multiset.zero_add]
    exact .pure rfl
  | some p => exact .release hL

/-- **All of them are released.** -/
theorem Owns.releaseAll {ps : List (Option (Ptr κ))} (hL : L = owned ps + L') :
    Owns L (Own.releaseAll ps : Own κ ε Unit) (fun _ L'' => L'' = L') E := by
  induction ps generalizing L with
  | nil =>
    rw [hL, owned_nil, Multiset.zero_add]
    exact .pure rfl
  | cons o ps ih =>
    rw [owned_cons, Multiset.add_assoc] at hL
    exact (Owns.releaseOption hL).bind fun _ _ hL' => ih hL'

/-! ### What is left behind -/

/-- What is left behind, by kind. -/
def kinds (objects : Multiset (Ptr κ)) : Multiset κ := objects.map (·.1)

omit [DecidableEq κ] in
@[simp] theorem kinds_zero : kinds (0 : Multiset (Ptr κ)) = 0 := rfl

omit [DecidableEq κ] in
@[simp] theorem kinds_singleton (p : Ptr κ) : kinds {p} = {p.1} := rfl

omit [DecidableEq κ] in
@[simp] theorem kinds_add (H G : Multiset (Ptr κ)) : kinds (H + G) = kinds H + kinds G :=
  Multiset.map_add _ _ _

/-- **The program computes `r`**, and leaves behind objects of these kinds and no others. -/
def Leaves (m : Own κ ε α) (r : Except ε α) (left : Multiset κ) : Prop :=
  Owns 0 m (fun a H => r = .ok a ∧ kinds H = left) (fun e => r = .error e)

namespace Leaves

variable {r : Except ε α} {left left' : Multiset κ} {a : α}

omit [DecidableEq κ] in
theorem pure (a : α) : Leaves (Pure.pure a : Own κ ε α) (.ok a) 0 := Owns.pure ⟨rfl, rfl⟩

omit [DecidableEq κ] in
/-- Whatever else the program owns. -/
theorem within (h : Leaves m r left) (H : Multiset (Ptr κ)) : Owns H m
    (fun a H' => r = .ok a ∧ ∃ new, H' = new + H ∧ kinds new = left) (fun e => r = .error e) := by
  have hframe := h.frame H
  rw [Multiset.zero_add] at hframe
  refine hframe.imp ?_
  rintro a _ ⟨new, rfl, hr, hnew⟩
  exact ⟨hr, new, rfl, hnew⟩

omit [DecidableEq κ] in
theorem within_ok (h : Leaves m (.ok a) left) (H : Multiset (Ptr κ)) :
    Owns H m (fun b H' => b = a ∧ ∃ new, H' = new + H ∧ kinds new = left) E := by
  refine ((h.within H).impError nofun).imp ?_
  rintro b _ ⟨hb, hnew⟩
  exact ⟨(Except.ok.inj hb).symm, hnew⟩

omit [DecidableEq κ] in
/-- **One program after another leaves what both leave.** -/
theorem bind {g : α → Except ε β} (h : Leaves m r left)
    (hf : ∀ a, r = .ok a → Leaves (f a) (g a) left') :
    Leaves (m >>= f) (r >>= g) (left + left') := by
  have herr : ∀ e, r = .error e → (r >>= g) = .error e := by
    rintro e rfl
    rfl
  refine (h.impError herr).bind ?_
  rintro a H ⟨rfl, hleft⟩
  refine ((hf a rfl).within H).imp ?_
  rintro b _ ⟨hb, new, rfl, hnew⟩
  exact ⟨hb, by rw [kinds_add, hleft, hnew, Multiset.add_comm]⟩

omit [DecidableEq κ] in
theorem seq {r : Except ε β} (h : Leaves m (.ok a) left) (hf : Leaves (f a) r left') :
    Leaves (m >>= f) r (left + left') := by
  refine h.bind (g := fun _ => r) ?_
  intro b hb
  obtain rfl := Except.ok.inj hb
  exact hf

end Leaves

end LibMumble.Lib
