import Mathlib.Data.List.Basic

/-!
# Lists that end in blocks

A list read as one block after another: so many elements that all have a
property, behind a list with a property of its own.
-/

namespace Blocks

variable {α : Type} {P : α → Prop} {Q : List α → Prop} {n m : Nat} {l : List α} {x : α}

/-- The last `n` elements have `P`, and the list before them has `Q`. -/
def EndsIn (P : α → Prop) (n : Nat) (Q : List α → Prop) (l : List α) : Prop :=
  ∃ front block, l = front ++ block ∧ Q front ∧ block.length = n ∧ ∀ x ∈ block, P x

theorem EndsIn.start (hl : Q l) : EndsIn P 0 Q l :=
  ⟨l, [], by simp, hl, rfl, by simp⟩

theorem EndsIn.snoc (h : EndsIn P n Q l) (hx : P x) : EndsIn P (n + 1) Q (l ++ [x]) := by
  obtain ⟨front, block, rfl, hq, hn, hp⟩ := h
  refine ⟨front, block ++ [x], by simp, hq, by simp [hn], fun y hy => ?_⟩
  rcases List.mem_append.mp hy with hy | hy
  · exact hp y hy
  · simp only [List.mem_singleton] at hy
    exact hy ▸ hx

theorem EndsIn.join (h : EndsIn P n (EndsIn (fun _ => True) m Q) l) :
    EndsIn (fun _ => True) (m + n) Q l := by
  obtain ⟨_, last, rfl, ⟨front, block, rfl, hq, hm, -⟩, hn, -⟩ := h
  exact ⟨front, block ++ last, by simp, hq, by simp [hm, hn], fun _ _ => trivial⟩

theorem EndsIn.length_le (h : EndsIn P n Q l) (hq : ∀ l, Q l → m ≤ l.length) :
    m + n ≤ l.length := by
  obtain ⟨front, block, rfl, hfront, hn, -⟩ := h
  have := hq front hfront
  simp only [List.length_append]
  omega

/-- How many elements with `p` the list ends in. -/
def runLength (p : α → Bool) (l : List α) : Nat := (l.reverse.takeWhile p).length

@[simp] theorem runLength_nil (p : α → Bool) : runLength p [] = 0 := rfl

@[simp] theorem runLength_concat (p : α → Bool) (l : List α) (x : α) :
    runLength p (l ++ [x]) = if p x then runLength p l + 1 else 0 := by
  simp only [runLength, List.reverse_append, List.reverse_singleton, List.singleton_append,
    List.takeWhile_cons]
  split <;> simp

theorem runLength_endsIn (p : α → Bool) (l : List α) :
    EndsIn (fun x => p x = true) (runLength p l) (fun _ => True) l := by
  refine ⟨(l.reverse.dropWhile p).reverse, (l.reverse.takeWhile p).reverse, ?_, trivial, ?_, ?_⟩
  · rw [← List.reverse_append, List.takeWhile_append_dropWhile, List.reverse_reverse]
  · simp [runLength]
  · intro x hx
    exact List.all_eq_true.mp List.all_takeWhile x (List.mem_reverse.mp hx)

end Blocks
