import Multilevel.Proofs.Results

/-!
# Results that are alike

Two computations are alike when both give values, and these are in some relation, or both give
errors, which are in another. Computations whose steps are alike are alike, and so are loops over
lists whose entries correspond.
-/
namespace Multilevel

variable {ε δ α β γ : Type}

inductive Alike (E : ε → δ → Prop) (R : β → γ → Prop) : Except ε β → Except δ γ → Prop
  | ok {b : β} {c : γ} (related : R b c) : Alike E R (.ok b) (.ok c)
  | error {e : ε} {d : δ} (related : E e d) : Alike E R (.error e) (.error d)

namespace Alike

variable {E : ε → δ → Prop} {R : β → γ → Prop} {x : Except ε β} {y : Except δ γ}

theorem imp {F : ε → δ → Prop} (weaker : ∀ e d, E e d → F e d) (alike : Alike E R x y) :
    Alike F R x y := by
  cases alike with
  | ok related => exact .ok related
  | error related => exact .error (weaker _ _ related)

theorem bind {β' γ' : Type} {S : β' → γ' → Prop} {f : β → Except ε β'} {g : γ → Except δ γ'}
    (first : Alike E R x y) (next : ∀ b c, R b c → Alike E S (f b) (g c)) :
    Alike E S (x >>= f) (y >>= g) := by
  cases first with
  | ok related => exact next _ _ related
  | error related => exact .error related

theorem map {β' γ' : Type} {S : β' → γ' → Prop} {f : β → β'} {g : γ → γ'} (first : Alike E R x y)
    (next : ∀ b c, R b c → S (f b) (g c)) : Alike E S (f <$> x) (g <$> y) := by
  cases first with
  | ok related => exact .ok (next _ _ related)
  | error related => exact .error related

variable {α' : Type} {P : α → α' → Prop} {xs : List α} {ys : List α'}

theorem mapM {f : α → Except ε β} {g : α' → Except δ γ}
    (each : ∀ a b, P a b → Alike E R (f a) (g b)) (lists : List.Forall₂ P xs ys) :
    Alike E (List.Forall₂ R) (xs.mapM f) (ys.mapM g) := by
  induction lists with
  | nil => exact .ok .nil
  | cons related _ ih =>
    rw [List.mapM_cons, List.mapM_cons]
    exact (each _ _ related).bind fun b c first => ih.bind fun _ _ rest => .ok (.cons first rest)

theorem mapM_eq {f : α → Except ε β} {g : α' → Except δ β}
    (each : ∀ a b, P a b → Alike E Eq (f a) (g b)) (lists : List.Forall₂ P xs ys) :
    Alike E Eq (xs.mapM f) (ys.mapM g) := by
  have together := mapM each lists
  rwa [List.forall₂_eq_eq_eq] at together

theorem mapM_eq_self {f : α → Except ε β} {g : α → Except δ β}
    (each : ∀ a, Alike E Eq (f a) (g a)) (xs : List α) : Alike E Eq (xs.mapM f) (xs.mapM g) :=
  mapM_eq (P := Eq) (by rintro a _ rfl; exact each a) (List.forall₂_refl xs)

theorem foldlM {f : β → α → Except ε β} {g : γ → α' → Except δ γ} {b : β} {c : γ}
    (round : ∀ b c a a', R b c → P a a' → Alike E R (f b a) (g c a'))
    (lists : List.Forall₂ P xs ys) (start : R b c) :
    Alike E R (xs.foldlM f b) (ys.foldlM g c) := by
  induction lists generalizing b c with
  | nil => exact .ok start
  | cons related _ ih =>
    rw [List.foldlM_cons, List.foldlM_cons]
    exact (round _ _ _ _ start related).bind fun _ _ => ih

end Alike
end Multilevel
