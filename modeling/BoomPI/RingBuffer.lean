import Mathlib.Algebra.Order.Ring.Nat
import Mathlib.Algebra.Group.Fin.Basic
import Mathlib.Data.List.OfFn

/-!
# Ring buffers

An array read from a head index on, around its end. `Holds blank r q`: read so, the
array is the queue `q` with blank slots behind it.
-/

/-- An array with the index of its oldest element and the number of elements. -/
structure RingBuffer (α : Type) (n : Nat) where
  slots : Vector α n
  head : Fin n
  count : Nat
  deriving DecidableEq, Repr

namespace RingBuffer

variable {α : Type} {n : Nat} {r : RingBuffer α n} {q : List α} {x blank : α} {k : Fin n}

def unrolled (r : RingBuffer α n) : List α := List.ofFn fun k => r.slots[r.head + k]

def tail [NeZero n] (r : RingBuffer α n) : Fin n := r.head + Fin.ofNat n r.count

def cleared [NeZero n] (blank : α) : RingBuffer α n := { slots := .replicate n blank, head := 0, count := 0 }

def set (r : RingBuffer α n) (i : Fin n) (x : α) : RingBuffer α n := { r with slots := r.slots.set i x }

def front (r : RingBuffer α n) : α := r.slots[r.head]

def pop [NeZero n] (r : RingBuffer α n) (blank : α) : RingBuffer α n :=
  { slots := r.slots.set r.head blank, head := r.head + 1, count := r.count - 1 }

def grow (r : RingBuffer α n) : RingBuffer α n := { r with count := r.count + 1 }

def push [NeZero n] (r : RingBuffer α n) (x : α) : RingBuffer α n := (r.set r.tail x).grow

def update [NeZero n] (r : RingBuffer α n) (f : α → α) : RingBuffer α n :=
  (List.range r.count).foldl
    (fun r offset => r.set (r.head + Fin.ofNat n offset) (f r.slots[r.head + Fin.ofNat n offset])) r

structure Holds (blank : α) (r : RingBuffer α n) (q : List α) : Prop where
  unrolled : r.unrolled = q ++ List.replicate (n - q.length) blank
  count : r.count = q.length

@[simp] theorem length_unrolled (r : RingBuffer α n) : r.unrolled.length = n := by simp [unrolled]

theorem unrolled_getElem (r : RingBuffer α n) (k : Nat) (hk : k < n) (hu : k < r.unrolled.length) :
    r.unrolled[k] = r.slots[r.head + ⟨k, hk⟩] := by
  simp [unrolled]

theorem Holds.length_le (h : Holds blank r q) : q.length ≤ n := by
  have := congrArg List.length h.unrolled
  simp only [length_unrolled, List.length_append, List.length_replicate] at this
  omega

theorem Holds.grow (h : Holds blank r q) (hlt : q.length < n) : Holds blank r.grow (q ++ [blank]) := by
  refine ⟨?_, by simp [RingBuffer.grow, h.count]⟩
  have : n - q.length = n - (q ++ [blank]).length + 1 := by simp; omega
  have hsame : r.grow.unrolled = r.unrolled := rfl
  rw [hsame, h.unrolled, this, List.replicate_succ]
  simp

theorem unrolled_set (r : RingBuffer α n) (k : Fin n) (x : α) :
    (r.set (r.head + k) x).unrolled = r.unrolled.set k x := by
  refine List.ext_getElem (by simp) fun i hi _ => ?_
  have hin : i < n := by simpa using hi
  rw [unrolled_getElem _ i hin, List.getElem_set, unrolled_getElem _ i hin (by simpa using hin)]
  simp only [RingBuffer.set, Fin.getElem_fin, Vector.getElem_set, Fin.val_inj, add_right_inj]
  by_cases hk : (k : Nat) = i
  · simp [← hk]
  · have : k ≠ ⟨i, hin⟩ := fun h => hk (congrArg Fin.val h)
    simp [hk, this]

theorem Holds.set (h : Holds blank r q) (hk : (k : Nat) < q.length) (x : α) :
    Holds blank (r.set (r.head + k) x) (q.set k x) := by
  refine ⟨?_, by simpa [RingBuffer.set] using h.count⟩
  rw [unrolled_set, h.unrolled, List.set_append_left _ _ hk, List.length_set]

variable [NeZero n]

theorem Holds.cleared (blank : α) : Holds blank (cleared blank : RingBuffer α n) [] := by
  refine ⟨?_, rfl⟩
  refine List.ext_getElem (by simp) fun i hi _ => ?_
  simp [RingBuffer.unrolled, RingBuffer.cleared]

theorem Holds.front (h : Holds blank r (x :: q)) : r.front = x := by
  have hn : 0 < n := Nat.pos_of_ne_zero (NeZero.ne n)
  have h0 := unrolled_getElem r 0 hn (by simpa using hn)
  simp only [h.unrolled] at h0
  simpa [RingBuffer.front] using h0.symm

theorem unrolled_pop (r : RingBuffer α n) (blank : α) :
    (r.pop blank).unrolled = r.unrolled.tail ++ [blank] := by
  have hn : 0 < n := Nat.pos_of_ne_zero (NeZero.ne n)
  refine List.ext_getElem (by simp; omega) fun i hi _ => ?_
  have hin : i < n := by simpa using hi
  rw [unrolled_getElem _ i hin]
  simp only [RingBuffer.pop, Fin.getElem_fin, Vector.getElem_set, Fin.val_inj, add_assoc]
  by_cases hlast : i + 1 < n
  · have hone : (1 : Fin n) + ⟨i, hin⟩ = ⟨i + 1, hlast⟩ := by
      refine Fin.ext ?_
      simp [Fin.val_add, Nat.add_comm, Nat.mod_eq_of_lt hlast]
    have hne : ¬ r.head = r.head + ⟨i + 1, hlast⟩ := by
      rw [left_eq_add]
      exact fun h => absurd (congrArg Fin.val h) (by simp)
    simp only [hone, if_neg hne]
    rw [List.getElem_append_left (by simp; omega), List.getElem_tail,
      unrolled_getElem _ _ hlast (by simpa using hlast)]
    rfl
  · have hone : (1 : Fin n) + ⟨i, hin⟩ = 0 := by
      refine Fin.ext ?_
      have : i + 1 = n := by omega
      simp [Fin.val_add, Nat.add_comm, this]
    have hlen : i = r.unrolled.tail.length := by simp; omega
    simp only [hone, add_zero, if_true]
    rw [List.getElem_append_right (by omega)]
    simp

theorem Holds.pop (h : Holds blank r (x :: q)) : Holds blank (r.pop blank) q := by
  have hlen := h.length_le
  refine ⟨?_, by simp [RingBuffer.pop, h.count]⟩
  have : n - q.length = n - (x :: q).length + 1 := by
    simp only [List.length_cons] at hlen ⊢
    omega
  rw [unrolled_pop, h.unrolled, this, List.replicate_succ']
  simp

theorem Holds.push (h : Holds blank r q) (hlt : q.length < n) (x : α) :
    Holds blank (r.push x) (q ++ [x]) := by
  have hk : ((Fin.ofNat n r.count : Fin n) : Nat) = q.length := by
    simp [h.count, Nat.mod_eq_of_lt hlt]
  have hset := (h.grow hlt).set (k := Fin.ofNat n r.count) (by simp [h.count, Nat.mod_eq_of_lt hlt]) x
  have hlast : (q ++ [blank]).set q.length x = q ++ [x] := by simp
  rw [hk, hlast] at hset
  exact hset

theorem tail_grow (r : RingBuffer α n) : r.grow.tail = r.tail + 1 := by
  refine Fin.ext ?_
  simp [RingBuffer.tail, RingBuffer.grow, Fin.val_add, Fin.ofNat, Nat.add_assoc]

theorem Holds.tail_pop (h : Holds blank r (x :: q)) : (r.pop blank).tail = r.tail := by
  refine Fin.ext ?_
  simp [RingBuffer.tail, RingBuffer.pop, h.count, Fin.val_add, Fin.ofNat, Nat.add_assoc, Nat.add_comm 1]

@[simp] theorem tail_set (r : RingBuffer α n) (i : Fin n) (x : α) : (r.set i x).tail = r.tail := rfl

theorem Holds.tail_sub_one (h : Holds blank r (q ++ [x])) (hlt : q.length < n) :
    r.tail - 1 = r.head + ⟨q.length, hlt⟩ := by
  rw [sub_eq_iff_eq_add, add_assoc]
  refine Fin.ext ?_
  simp [RingBuffer.tail, h.count, Fin.val_add, Fin.ofNat]

omit [NeZero n] in
theorem Holds.back_lt (h : Holds blank r (q ++ [x])) : q.length < n := by
  have hle := h.length_le
  rw [List.length_append, List.length_singleton] at hle
  exact hle

theorem Holds.back (h : Holds blank r (q ++ [x])) : r.slots[r.tail - 1] = x := by
  have hlt : q.length < n := h.back_lt
  have hget := unrolled_getElem r q.length hlt (by rwa [length_unrolled])
  simp only [h.unrolled] at hget
  simp only [h.tail_sub_one hlt]
  simpa using hget.symm

theorem Holds.setBack (h : Holds blank r (q ++ [x])) (y : α) :
    Holds blank (r.set (r.tail - 1) y) (q ++ [y]) := by
  have hlt : q.length < n := h.back_lt
  have hset := h.set (k := ⟨q.length, hlt⟩) (by simp) y
  rw [h.tail_sub_one hlt]
  simpa using hset

theorem Holds.get (h : Holds blank r q) {i : Nat} (hi : i < q.length) :
    r.slots[r.head + Fin.ofNat n i] = q[i] := by
  have hn : i < n := Nat.lt_of_lt_of_le hi h.length_le
  have hget := unrolled_getElem r i hn (by rwa [length_unrolled])
  have hofNat : Fin.ofNat n i = ⟨i, hn⟩ := Fin.ext (Nat.mod_eq_of_lt hn)
  simp only [h.unrolled, List.getElem_append_left hi] at hget
  rw [hofNat]
  exact hget.symm

theorem Holds.update (h : Holds blank r q) (f : α → α) : Holds blank (r.update f) (q.map f) := by
  -- after k rounds the first k elements are replaced
  have hrounds : ∀ k, k ≤ q.length → Holds blank ((List.range k).foldl
      (fun r offset => r.set (r.head + Fin.ofNat n offset) (f r.slots[r.head + Fin.ofNat n offset])) r)
      ((q.take k).map f ++ q.drop k) := by
    intro k
    induction k with
    | zero => exact fun _ => by simpa using h
    | succ k ih =>
      intro hk
      have hi := ih (Nat.le_of_succ_le hk)
      have hlen : ((q.take k).map f).length = k := by
        simp [Nat.min_eq_left (Nat.le_of_succ_le hk)]
      have hn : k < n := Nat.lt_of_lt_of_le hk h.length_le
      have hget := hi.get (i := k) (by simp; omega)
      have hset := hi.set (k := Fin.ofNat n k) (by simp [Nat.mod_eq_of_lt hn]; omega) (f q[k])
      rw [List.getElem_append_right (by rw [hlen])] at hget
      simp only [hlen, Nat.sub_self, List.getElem_drop, Nat.add_zero] at hget
      rw [List.range_succ, List.foldl_append, List.foldl_cons, List.foldl_nil, hget]
      have hmod : ((Fin.ofNat n k : Fin n) : Nat) = k := Nat.mod_eq_of_lt hn
      rw [hmod, List.set_append_right _ _ (by rw [hlen]), hlen, Nat.sub_self, List.drop_eq_getElem_cons hk,
        List.set_cons_zero] at hset
      rw [List.take_succ_eq_append_getElem hk, List.map_append, List.append_assoc]
      exact hset
  have hall := hrounds q.length (Nat.le_refl _)
  rw [List.take_length, List.drop_length, List.append_nil] at hall
  rw [RingBuffer.update, h.count]
  exact hall

end RingBuffer
