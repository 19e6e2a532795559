import Mathlib.Data.List.Basic
import Mathlib.Data.List.Nodup

/-!
# Unfolding a pointer structure

A structure of nodes in which each node lists the nodes it points to can be walked down
from a node for a given number of levels.  `nodes` lists what such a walk meets, in the
order in which it is met, each node with the number of levels still to go.

Nothing is assumed about the structure: the walk may meet a node twice, also on its way
from that node itself, and then the list has it twice.  Where the list has no node twice
the walk goes over a tree.
-/

namespace Unfolding

variable {ν : Type*}

/-- The nodes a walk of `level` levels meets, with the levels left below each. -/
def nodes (kids : ν → List ν) : (level : ℕ) → ν → List (ℕ × ν)
  | 0, p => [(0, p)]
  | level + 1, p => (level + 1, p) :: (kids p).flatMap (nodes kids level)

variable {kids kids' : ν → List ν} {level : ℕ} {p q : ν}

theorem self_mem (kids : ν → List ν) (level : ℕ) (p : ν) : (level, p) ∈ nodes kids level p := by
  cases level with
  | zero => exact List.mem_singleton_self _
  | succ level => exact List.mem_cons_self

theorem mem_succ {l : ℕ} :
    (l, q) ∈ nodes kids (level + 1) p ↔
      (l = level + 1 ∧ q = p) ∨ ∃ c ∈ kids p, (l, q) ∈ nodes kids level c := by
  rw [nodes, List.mem_cons, List.mem_flatMap, Prod.mk.injEq]

/-- The walk goes down. -/
theorem le_of_mem {l : ℕ} (h : (l, q) ∈ nodes kids level p) : l ≤ level := by
  induction level generalizing p with
  | zero =>
      rw [nodes, List.mem_singleton, Prod.mk.injEq] at h
      exact Nat.le_of_eq h.1
  | succ level ih =>
      rcases mem_succ.mp h with ⟨rfl, -⟩ | ⟨c, -, hc⟩
      · exact Nat.le_refl _
      · exact Nat.le_succ_of_le (ih hc)

/-- Only the node the walk starts from has all its levels left. -/
theorem eq_of_mem_top (h : (level, q) ∈ nodes kids level p) : q = p := by
  cases level with
  | zero =>
      rw [nodes, List.mem_singleton, Prod.mk.injEq] at h
      exact h.2
  | succ level =>
      rcases mem_succ.mp h with ⟨-, rfl⟩ | ⟨c, -, hc⟩
      · rfl
      · exact absurd (le_of_mem hc) (Nat.not_succ_le_self level)

/-- A walk reads the pointers of the nodes it does not end in. -/
theorem nodes_congr (h : ∀ l q, (l + 1, q) ∈ nodes kids level p → kids' q = kids q) :
    nodes kids' level p = nodes kids level p := by
  induction level generalizing p with
  | zero => rfl
  | succ level ih =>
      have hp : kids' p = kids p := h level p (self_mem kids (level + 1) p)
      rw [nodes, nodes, hp]
      refine congrArg _ (List.flatMap_congr fun c hc => ih fun l q hq => ?_)
      exact h l q (mem_succ.mpr (.inr ⟨c, hc, hq⟩))

/-- Fewer pointers, fewer nodes. -/
theorem mem_of_kids_subset (h : ∀ q, kids' q ⊆ kids q) {n : ℕ × ν} (hn : n ∈ nodes kids' level p) :
    n ∈ nodes kids level p := by
  induction level generalizing p with
  | zero => exact hn
  | succ level ih =>
      obtain ⟨l, q⟩ := n
      rcases mem_succ.mp hn with htop | ⟨c, hc, hq⟩
      · exact mem_succ.mpr (.inl htop)
      · exact mem_succ.mpr (.inr ⟨c, h p hc, ih hq⟩)

end Unfolding
