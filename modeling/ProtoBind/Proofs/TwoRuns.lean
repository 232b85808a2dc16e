import Mathlib.Data.List.Forall2
import ProtoBind.Error

/-!
# Two runs side by side

Two computations are alike if both fail with the same error or both give results that are related.
-/

set_option autoImplicit false

namespace ProtoBind

theorem any_toOption_iff {α : Type} {x : Except Error α} {p : α → Bool} :
    x.toOption.any p = true ↔ ∃ a, x = .ok a ∧ p a = true := by
  cases x with
  | error e => simp [Except.toOption]
  | ok a => simp [Except.toOption]

/-- The same error, or related results. -/
inductive Alike {α β : Type} (R : α → β → Prop) : Except Error α → Except Error β → Prop where
  | error (e : Error) : Alike R (.error e) (.error e)
  | ok {a : α} {b : β} (h : R a b) : Alike R (.ok a) (.ok b)

namespace Alike

variable {α β γ δ : Type} {R : α → β → Prop} {S : γ → δ → Prop}

theorem imp {R' : α → β → Prop} (h : ∀ a b, R a b → R' a b) {x : Except Error α} {y : Except Error β}
    (hRun : Alike R x y) : Alike R' x y := by
  cases hRun with
  | error e => exact .error e
  | ok hResult => exact .ok (h _ _ hResult)

theorem of_eq {x y : Except Error α} (h : x = y) : Alike Eq x y := by
  subst h
  cases x with
  | error e => exact .error e
  | ok a => exact .ok rfl

theorem bind {x : Except Error α} {y : Except Error β} {f : α → Except Error γ}
    {g : β → Except Error δ} (hFirst : Alike R x y) (hNext : ∀ a b, R a b → Alike S (f a) (g b)) :
    Alike S (x >>= f) (y >>= g) := by
  cases hFirst with
  | error e => exact .error e
  | ok hResult => exact hNext _ _ hResult

theorem map {f : α → γ} {g : β → δ} (h : ∀ a b, R a b → S (f a) (g b)) {x : Except Error α}
    {y : Except Error β} (hRun : Alike R x y) : Alike S (x.map f) (y.map g) := by
  cases hRun with
  | error e => exact .error e
  | ok hResult => exact .ok (h _ _ hResult)

theorem mapM {f : γ → Except Error α} {g : γ → Except Error β} {items : List γ}
    (h : ∀ item ∈ items, Alike R (f item) (g item)) :
    Alike (List.Forall₂ R) (items.mapM f) (items.mapM g) := by
  induction items with
  | nil => exact .ok .nil
  | cons item rest ih =>
    rw [List.mapM_cons, List.mapM_cons]
    refine bind (h item List.mem_cons_self) ?_
    intro a b hHead
    refine bind (ih fun other hOther => h other (List.mem_cons_of_mem _ hOther)) ?_
    intro as bs hTail
    exact .ok (.cons hHead hTail)

end Alike

end ProtoBind
