import Mathlib.Data.List.Basic

/-!
# Runs of a guarded transition system

A deterministic system with an alphabet of operations, each of which may be
performed only in the states that enable it.  A run is a finite list of
operations; it is admissible when every operation is enabled in the state the
earlier ones lead to.  The one rule proved here is the invariant rule: what holds
initially and survives every enabled operation holds at the end of every
admissible run, hence — prefixes of admissible runs being admissible — in every
state such a run passes through.
-/

/-- A deterministic transition system with guarded operations. -/
structure TransitionSystem (σ α : Type*) where
  /-- The operations that may be performed in a state. -/
  enabled : σ → α → Prop
  /-- The state an operation leads to. -/
  step : σ → α → σ

namespace TransitionSystem

variable {σ α : Type*} (sys : TransitionSystem σ α)

/-- The state a list of operations leads to. -/
def run (s : σ) (ops : List α) : σ := ops.foldl sys.step s

@[simp] theorem run_nil (s : σ) : sys.run s [] = s := rfl

@[simp] theorem run_cons (s : σ) (op : α) (ops : List α) :
    sys.run s (op :: ops) = sys.run (sys.step s op) ops := rfl

theorem run_append (s : σ) (pre post : List α) :
    sys.run s (pre ++ post) = sys.run (sys.run s pre) post :=
  List.foldl_append

/-- Every operation of the list is enabled when its turn comes. -/
def Admissible : σ → List α → Prop
  | _, [] => True
  | s, op :: ops => sys.enabled s op ∧ Admissible (sys.step s op) ops

@[simp] theorem admissible_nil (s : σ) : sys.Admissible s [] := trivial

@[simp] theorem admissible_cons (s : σ) (op : α) (ops : List α) :
    sys.Admissible s (op :: ops) ↔ sys.enabled s op ∧ sys.Admissible (sys.step s op) ops :=
  Iff.rfl

theorem admissible_append (s : σ) (pre post : List α) :
    sys.Admissible s (pre ++ post) ↔
      sys.Admissible s pre ∧ sys.Admissible (sys.run s pre) post := by
  induction pre generalizing s with
  | nil => simp
  | cons op pre ih =>
      simp only [List.cons_append, admissible_cons, run_cons, ih, and_assoc]

instance decidableAdmissible [∀ s op, Decidable (sys.enabled s op)] :
    ∀ s ops, Decidable (sys.Admissible s ops)
  | _, [] => isTrue trivial
  | s, op :: ops => @instDecidableAnd _ _ _ (decidableAdmissible (sys.step s op) ops)

/-- **The invariant rule.** -/
theorem run_induction (inv : σ → Prop)
    (preserved : ∀ s op, inv s → sys.enabled s op → inv (sys.step s op))
    {s : σ} (initial : inv s) {ops : List α} (admissible : sys.Admissible s ops) :
    inv (sys.run s ops) := by
  induction ops generalizing s with
  | nil => exact initial
  | cons op ops ih => exact ih (preserved s op initial admissible.1) admissible.2

/-- The states admissible runs from `s` lead to. -/
def Reachable (s t : σ) : Prop := ∃ ops, sys.Admissible s ops ∧ sys.run s ops = t

theorem Reachable.refl (s : σ) : sys.Reachable s s := ⟨[], trivial, rfl⟩

theorem Reachable.tail {sys : TransitionSystem σ α} {s t : σ} (h : sys.Reachable s t) (op : α)
    (enabled : sys.enabled t op) : sys.Reachable s (sys.step t op) := by
  obtain ⟨ops, admissible, rfl⟩ := h
  refine ⟨ops ++ [op], ?_, ?_⟩
  · rw [admissible_append]
    exact ⟨admissible, enabled, trivial⟩
  · rw [run_append]
    rfl

theorem Reachable.trans {sys : TransitionSystem σ α} {s t u : σ} (h : sys.Reachable s t)
    (h' : sys.Reachable t u) : sys.Reachable s u := by
  obtain ⟨pre, hpre, rfl⟩ := h
  obtain ⟨post, hpost, rfl⟩ := h'
  refine ⟨pre ++ post, ?_, sys.run_append s pre post⟩
  rw [admissible_append]
  exact ⟨hpre, hpost⟩

/-- The invariant rule, for reachable states. -/
theorem Reachable.induction {sys : TransitionSystem σ α} (inv : σ → Prop) {s t : σ}
    (preserved : ∀ s op, inv s → sys.enabled s op → inv (sys.step s op))
    (initial : inv s) (h : sys.Reachable s t) : inv t := by
  obtain ⟨ops, admissible, rfl⟩ := h
  exact run_induction sys inv preserved initial admissible

/-- The system with fewer operations. -/
def restrict (permits : σ → α → Prop) : TransitionSystem σ α where
  enabled := fun s op => sys.enabled s op ∧ permits s op
  step := sys.step

end TransitionSystem
