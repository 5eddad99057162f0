import Mathlib.Algebra.Order.Ring.Nat
import Mathlib.Data.List.Basic

/-!
# Machines, runs and invariants

A machine is a set of initial states with an executable step function: a label
carries every choice the environment makes, so a run is a list of labels.
`ReachableUnder C` is what the runs reach whose steps all meet `C`, a condition
on the state before the step and on its label.
-/

namespace Lts

universe u v w

structure Machine (S : Type u) (L : Type v) where
  Init : S → Prop
  step : S → L → Option S

namespace Machine

variable {S : Type u} {L : Type v}

/-- The states reached by runs whose every step meets `C`. -/
inductive ReachableUnder (M : Machine S L) (C : S → L → Prop) : S → Prop
  | init {s} : M.Init s → ReachableUnder M C s
  | step {s l t} : ReachableUnder M C s → C s l → M.step s l = some t → ReachableUnder M C t

def Reachable (M : Machine S L) : S → Prop := M.ReachableUnder fun _ _ => True

/-- Execute the labels in order; `none` when one of them is not enabled. -/
def run (M : Machine S L) : S → List L → Option S
  | s, [] => some s
  | s, l :: ls => (M.step s l).bind fun t => M.run t ls

/-- The same machine, begun in `s`. -/
def begunIn (M : Machine S L) (s : S) : Machine S L := { M with Init := (· = s) }

variable {M : Machine S L} {C D : S → L → Prop} {I J : S → Prop} {s t : S} {l : L} {ls ks : List L}

theorem ReachableUnder.mono (h : M.ReachableUnder C s) (hcd : ∀ s l, C s l → D s l) :
    M.ReachableUnder D s := by
  induction h with
  | init h => exact .init h
  | step _ hc hs ih => exact .step ih (hcd _ _ hc) hs

theorem ReachableUnder.reachable (h : M.ReachableUnder C s) : M.Reachable s :=
  h.mono fun _ _ _ => trivial

theorem Reachable.step (h : M.Reachable s) (hs : M.step s l = some t) : M.Reachable t :=
  ReachableUnder.step h trivial hs

/-- The invariant rule: what holds initially and is kept by every step meeting
the condition holds in every state such runs reach. -/
theorem ReachableUnder.invariant (h : M.ReachableUnder C s) (h0 : ∀ s, M.Init s → I s)
    (hstep : ∀ s l t, I s → C s l → M.step s l = some t → I t) : I s := by
  induction h with
  | init h => exact h0 _ h
  | step _ hc hs ih => exact hstep _ _ _ ih hc hs

theorem ReachableUnder.invariant_with (h : M.ReachableUnder C s)
    (hJ : ∀ s, M.ReachableUnder C s → J s) (h0 : ∀ s, M.Init s → I s)
    (hstep : ∀ s l t, J s → J t → I s → C s l → M.step s l = some t → I t) : I s := by
  induction h with
  | init h => exact h0 _ h
  | step hr hc hs ih => exact hstep _ _ _ (hJ _ hr) (hJ _ (hr.step hc hs)) ih hc hs

theorem Reachable.invariant (h : M.Reachable s) (h0 : ∀ s, M.Init s → I s)
    (hstep : ∀ s l t, I s → M.step s l = some t → I t) : I s :=
  ReachableUnder.invariant h h0 fun s l t hi _ hs => hstep s l t hi hs

@[simp] theorem run_nil : M.run s [] = some s := rfl

theorem run_cons : M.run s (l :: ls) = (M.step s l).bind fun t => M.run t ls := rfl

theorem run_append : M.run s (ls ++ ks) = (M.run s ls).bind fun t => M.run t ks := by
  induction ls generalizing s with
  | nil => rfl
  | cons l ls ih =>
    cases h : M.step s l with
    | none => simp [run_cons, h]
    | some t => simp [run_cons, h, ih]

theorem Reachable.run (h : M.Reachable s) (hr : M.run s ls = some t) : M.Reachable t := by
  induction ls generalizing s with
  | nil => cases hr; exact h
  | cons l ls ih =>
    rw [run_cons, Option.bind_eq_some_iff] at hr
    obtain ⟨u, hu, hr⟩ := hr
    exact ih (h.step hu) hr

/-- A run that ends in a state with a decidable property, by evaluating it. -/
theorem exists_of_run (M : Machine S L) (s : S) (ls : List L) (p : S → Bool) (h0 : M.Init s)
    (hr : (M.run s ls).map p = some true) :
    ∃ t, M.run s ls = some t ∧ M.Reachable t ∧ p t = true := by
  rw [Option.map_eq_some_iff] at hr
  obtain ⟨t, ht, hp⟩ := hr
  exact ⟨t, ht, Reachable.run (ReachableUnder.init h0) ht, hp⟩

/-- Every step of a run is related by `R`. -/
def Along (M : Machine S L) (R : S → L → S → Prop) : S → List L → Prop
  | _, [] => True
  | s, l :: ls => ∀ t, M.step s l = some t → R s l t ∧ M.Along R t ls

/-- Two relations that agree on the steps from states with `I` agree along runs, when
the first one leads to states with `I`. -/
theorem along_iff {R Q : S → L → S → Prop} (hI : I s) (hC : M.Along (fun s l _ => C s l) s ls)
    (hiff : ∀ s l t, I s → C s l → M.step s l = some t → (R s l t ↔ Q s l t))
    (hkeep : ∀ s l t, I s → C s l → M.step s l = some t → R s l t → I t) :
    M.Along R s ls ↔ M.Along Q s ls := by
  induction ls generalizing s with
  | nil => exact Iff.rfl
  | cons l ls ih =>
    constructor
    · intro h t hs
      obtain ⟨hr, hrest⟩ := h t hs
      obtain ⟨hc, hC⟩ := hC t hs
      exact ⟨(hiff s l t hI hc hs).mp hr, (ih (hkeep s l t hI hc hs hr) hC).mp hrest⟩
    · intro h t hs
      obtain ⟨hq, hrest⟩ := h t hs
      obtain ⟨hc, hC⟩ := hC t hs
      have hr := (hiff s l t hI hc hs).mpr hq
      exact ⟨hr, (ih (hkeep s l t hI hc hs hr) hC).mpr hrest⟩

theorem Along.of_forall {R : S → L → S → Prop} (h : ∀ s l t, R s l t) : M.Along R s ls := by
  induction ls generalizing s with
  | nil => trivial
  | cons l ls ih => exact fun t _ => ⟨h s l t, ih⟩

def runIf (M : Machine S L) (c : S → L → Bool) : S → List L → Option S
  | s, [] => some s
  | s, l :: ls => if c s l then (M.step s l).bind fun t => M.runIf c t ls else none

theorem runIf_begunIn {c : S → L → Bool} : (M.begunIn t).runIf c s ls = M.runIf c s ls := by
  induction ls generalizing s with
  | nil => rfl
  | cons l ls ih =>
    rw [runIf, runIf]
    exact if_congr Iff.rfl (congrArg _ (funext fun _ => ih)) rfl

theorem ReachableUnder.runIf {c : S → L → Bool} (h : M.ReachableUnder C s)
    (hc : ∀ s l, c s l = true → C s l) (hr : M.runIf c s ls = some t) : M.ReachableUnder C t := by
  induction ls generalizing s with
  | nil => cases hr; exact h
  | cons l ls ih =>
    rw [Machine.runIf, Option.ite_none_right_eq_some, Option.bind_eq_some_iff] at hr
    obtain ⟨hl, u, hu, hr⟩ := hr
    exact ih (h.step (hc _ _ hl) hu) hr

theorem along_of_runIf {c : S → L → Bool} (hc : ∀ s l, c s l = true → C s l)
    (h : (M.runIf c s ls).isSome = true) : M.Along (fun s l _ => C s l) s ls := by
  induction ls generalizing s with
  | nil => trivial
  | cons l ls ih =>
    intro t hs
    rw [runIf] at h
    split at h
    · rename_i hl
      rw [hs] at h
      exact ⟨hc s l hl, ih h⟩
    · cases h

theorem exists_of_runIf (M : Machine S L) (c : S → L → Bool) (hc : ∀ s l, c s l = true → C s l)
    (s : S) (ls : List L) (p : S → Bool) (h0 : M.Init s)
    (hr : (M.runIf c s ls).map p = some true) :
    ∃ t, M.ReachableUnder C t ∧ p t = true := by
  rw [Option.map_eq_some_iff] at hr
  obtain ⟨t, ht, hp⟩ := hr
  exact ⟨t, ReachableUnder.runIf (.init h0) hc ht, hp⟩

/-- A run, and from its end a run whose steps all meet a condition a check decides. -/
theorem exists_of_run_runIf (M : Machine S L) (c : S → L → Bool)
    (hc : ∀ s l, c s l = true → C s l) (s : S) (ls ks : List L) (p : S → S → Bool) (h0 : M.Init s)
    (hr : ((M.run s ls).bind fun t => (M.runIf c t ks).map (p t)) = some true) :
    ∃ t u, M.Reachable t ∧ (M.begunIn t).ReachableUnder C u ∧ p t u = true := by
  rw [Option.bind_eq_some_iff] at hr
  obtain ⟨t, ht, hr⟩ := hr
  rw [Option.map_eq_some_iff] at hr
  obtain ⟨u, hu, hp⟩ := hr
  have hrun : (M.begunIn t).runIf c t ks = some u := hu ▸ runIf_begunIn
  exact ⟨t, u, Reachable.run (ReachableUnder.init h0) ht, ReachableUnder.runIf (.init rfl) hc hrun,
    hp⟩

-- ---------------------------------------------------------------------------
-- Observers
-- ---------------------------------------------------------------------------

/-- A state with what an observer has noted of the run to it. -/
structure Observed (S : Type u) (G : Type w) where
  state : S
  notes : G
  deriving DecidableEq, Repr

variable {G : Type w} {o o' : Observed S G} {note : G → S → L → S → G} {g : G}

/-- The machine with an observer: no step depends on what it notes. -/
def observed (M : Machine S L) (g : G) (note : G → S → L → S → G) :
    Machine (Observed S G) L where
  Init o := M.Init o.state ∧ o.notes = g
  step o l := (M.step o.state l).map fun t => ⟨t, note o.notes o.state l t⟩

theorem observed_step (h : (M.observed g note).step o l = some o') :
    M.step o.state l = some o'.state ∧ o'.notes = note o.notes o.state l o'.state := by
  obtain ⟨t, ht, rfl⟩ := Option.map_eq_some_iff.mp h
  exact ⟨ht, rfl⟩

theorem observed_reachable (h : (M.observed g note).Reachable o) : M.Reachable o.state := by
  refine Reachable.invariant (I := fun o => M.Reachable o.state) h
    (fun o ho => .init ho.1) fun o l o' ho hs => ?_
  exact Reachable.step ho (observed_step hs).1

theorem observed_invariant {K : S → G → Prop} (h : (M.observed g note).Reachable o)
    (hJ : ∀ s, M.Reachable s → J s) (h0 : ∀ s, M.Init s → K s g)
    (hstep : ∀ s n l t, J s → J t → K s n → M.step s l = some t → K t (note n s l t)) :
    K o.state o.notes := by
  refine ReachableUnder.invariant_with (I := fun o => K o.state o.notes) h
    (fun o ho => hJ _ (observed_reachable ho)) (fun o ho => ?_) fun o l o' hj hj' hk _ hs => ?_
  · rw [ho.2]
    exact h0 _ ho.1
  · obtain ⟨hs, hnotes⟩ := observed_step hs
    rw [hnotes]
    exact hstep _ _ _ _ hj hj' hk hs

theorem exists_observed (h : M.Reachable s) (g : G) (note : G → S → L → S → G) :
    ∃ notes, (M.observed g note).Reachable ⟨s, notes⟩ := by
  induction h with
  | init h => exact ⟨g, .init ⟨h, rfl⟩⟩
  | step _ _ hs ih =>
    obtain ⟨notes, ih⟩ := ih
    exact ⟨_, Reachable.step ih (congrArg (Option.map _) hs)⟩

end Machine

-- ---------------------------------------------------------------------------
-- Logs
-- ---------------------------------------------------------------------------

variable {α : Type u} {log es before after : List α} {x e : α}

/-- An entry of a log that has grown is an old one or a new one. -/
theorem log_split (h : log ++ es = before ++ e :: after) :
    (∃ mid, log = before ++ e :: mid ∧ after = mid ++ es) ∨
      ∃ mid, before = log ++ mid ∧ es = mid ++ e :: after := by
  rcases List.append_eq_append_iff.mp h with ⟨mid, hbefore, hes⟩ | ⟨mid, hlog, hmid⟩
  · exact .inr ⟨mid, hbefore, hes⟩
  · cases mid with
    | nil => exact .inr ⟨[], by simpa using hlog.symm, by simpa using hmid.symm⟩
    | cons x mid =>
      cases hmid
      exact .inl ⟨mid, hlog, rfl⟩

theorem log_split_snoc (h : log ++ [x] = before ++ e :: after) :
    (after = [] ∧ log = before ∧ x = e) ∨ ∃ mid, after = mid ++ [x] ∧ log = before ++ e :: mid := by
  rcases log_split h with ⟨mid, hlog, hafter⟩ | ⟨mid, rfl, hnew⟩
  · exact .inr ⟨mid, hafter, hlog⟩
  · cases mid with
    | nil =>
      cases hnew
      exact .inl ⟨rfl, (List.append_nil _).symm, rfl⟩
    | cons y mid => simp at hnew

end Lts
