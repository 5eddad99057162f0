import Mathlib.Data.List.Basic

/-!
# What is left of a list

`Loses p l out`: `out` is `l` without some of its elements that have `p`. `Thins D`
is the same for a condition on an element and what stands before and behind it.
-/

namespace Thinning

variable {α : Type} {p : α → Prop} {D : List α → α → List α → Prop} {x : α}
  {pre l l' out out' : List α}

inductive Loses (p : α → Prop) : List α → List α → Prop
  | nil : Loses p [] []
  | keep (x : α) {l out : List α} : Loses p l out → Loses p (x :: l) (x :: out)
  | drop {x : α} {l out : List α} : p x → Loses p l out → Loses p (x :: l) out

/-- `out` is left of `l`, read behind `pre`, when elements go that `D` lets go. -/
inductive Thins (D : List α → α → List α → Prop) : List α → List α → List α → Prop
  | nil {pre : List α} : Thins D pre [] []
  | keep {pre : List α} (x : α) {l out : List α} : Thins D (pre ++ [x]) l out →
      Thins D pre (x :: l) (x :: out)
  | drop {pre : List α} {x : α} {l out : List α} : D pre x l → Thins D (pre ++ [x]) l out →
      Thins D pre (x :: l) out

theorem Loses.refl (l : List α) : Loses p l l := by
  induction l with
  | nil => exact .nil
  | cons x l ih => exact .keep x ih

theorem Loses.append (h : Loses p l out) (h' : Loses p l' out') : Loses p (l ++ l') (out ++ out') := by
  induction h with
  | nil => exact h'
  | keep x _ ih => exact .keep x ih
  | drop hx _ ih => exact .drop hx ih

theorem Loses.all (h : ∀ x ∈ l, p x) : Loses p l [] := by
  induction l with
  | nil => exact .nil
  | cons x l ih =>
    exact .drop (h x List.mem_cons_self) (ih fun y hy => h y (List.mem_cons_of_mem x hy))

theorem Loses.filter (q : α → Bool) (h : ∀ x ∈ l, q x = false → p x) : Loses p l (l.filter q) := by
  induction l with
  | nil => exact .nil
  | cons x l ih =>
    have hl := ih fun y hy => h y (List.mem_cons_of_mem x hy)
    cases hx : q x with
    | true =>
      rw [List.filter_cons_of_pos hx]
      exact .keep x hl
    | false =>
      rw [List.filter_cons_of_neg (by simp [hx])]
      exact .drop (h x List.mem_cons_self hx) hl

theorem Loses.trans (h : Loses p l l') (h' : Loses p l' out) : Loses p l out := by
  induction h generalizing out with
  | nil => exact h'
  | keep x _ ih =>
    cases h' with
    | keep _ h' => exact .keep x (ih h')
    | drop hx h' => exact .drop hx (ih h')
  | drop hx _ ih => exact .drop hx (ih h')

theorem Loses.sublist (h : Loses p l out) : out.Sublist l := by
  induction h with
  | nil => exact .slnil
  | keep x _ ih => exact ih.cons_cons x
  | drop _ _ ih => exact ih.cons _

theorem Thins.refl (pre l : List α) : Thins D pre l l := by
  induction l generalizing pre with
  | nil => exact .nil
  | cons x l ih => exact .keep x (ih (pre ++ [x]))

theorem Thins.sublist (h : Thins D pre l out) : out.Sublist l := by
  induction h with
  | nil => exact .slnil
  | keep x _ ih => exact ih.cons_cons x
  | drop _ _ ih => exact ih.cons _

/-- Later elements let an element go that could go without them. -/
def Persists (D : List α → α → List α → Prop) : Prop :=
  ∀ pre x post more, D pre x post → D pre x (post ++ more)

theorem Thins.append (hD : Persists D) (h : Thins D pre l out) (h' : Thins D (pre ++ l) l' out') :
    Thins D pre (l ++ l') (out ++ out') := by
  induction h with
  | nil => simpa using h'
  | keep x _ ih =>
    refine .keep x (ih ?_)
    simpa using h'
  | drop hx _ ih =>
    refine .drop (hD _ _ _ _ hx) (ih ?_)
    simpa using h'

theorem Thins.loses (hp : ∀ pre x post, p x → D pre x post) (h : Thins D pre l out)
    (h' : Loses p out out') : Thins D pre l out' := by
  induction h generalizing out' with
  | nil =>
    cases h'
    exact .nil
  | keep x _ ih =>
    cases h' with
    | keep _ h' => exact .keep x (ih h')
    | drop hx h' => exact .drop (hp _ _ _ hx) (ih h')
  | drop hx _ ih => exact .drop hx (ih h')

end Thinning
