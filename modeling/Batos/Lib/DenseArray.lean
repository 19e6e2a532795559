import Mathlib.Data.List.Basic
import Mathlib.Data.List.Perm.Basic
import Mathlib.Logic.Function.Basic

/-!
# Dense arrays

A set kept in an array of slots of which exactly the first `count` are in use.  A new
item goes to the first free slot; to remove an item, the last one is moved into its
place.  The order of the items is therefore not kept, and `Represents` speaks of lists
only up to permutation after a removal (`Represents.removeAt`).
-/

/-- Slots, and how many of them are in use. -/
structure DenseArray (α : Type*) where
  slots : ℕ → Option α
  count : ℕ

namespace DenseArray

open Function

variable {α : Type*}

/-- No slot in use. -/
def empty : DenseArray α where
  slots := fun _ => none
  count := 0

/-- Put an item into the first free slot. -/
def push (a : DenseArray α) (x : α) : DenseArray α where
  slots := update a.slots a.count (some x)
  count := a.count + 1

/-- Empty a slot by moving the last item into it. -/
def removeAt (a : DenseArray α) (index : ℕ) : DenseArray α where
  slots := update
    (if index ≠ a.count - 1 then update a.slots index (a.slots (a.count - 1)) else a.slots)
    (a.count - 1) none
  count := a.count - 1

/-- The first slot in use that holds the item. -/
def indexOf [DecidableEq α] (a : DenseArray α) (x : α) : Option ℕ :=
  (List.range a.count).find? fun index => decide (a.slots index = some x)

/-- The array holds the items of the list, in order, and nothing else. -/
structure Represents (a : DenseArray α) (items : List α) : Prop where
  count : a.count = items.length
  slots : ∀ index, a.slots index = items[index]?

namespace Represents

variable {a : DenseArray α} {items : List α} {x : α} {index : ℕ}

theorem empty : (DenseArray.empty : DenseArray α).Represents [] := ⟨rfl, fun _ => rfl⟩

theorem eq_empty (h : a.Represents []) : a = .empty := by
  obtain ⟨slots, count⟩ := a
  obtain rfl : count = 0 := h.count
  obtain rfl : slots = fun _ => none := funext h.slots
  rfl

theorem push (h : a.Represents items) (x : α) : (a.push x).Represents (items ++ [x]) where
  count := by simp [DenseArray.push, h.count]
  slots := by
    intro index
    change update a.slots a.count (some x) index = _
    rw [List.getElem?_append, update_apply, h.count]
    by_cases heq : index = items.length
    · simp [heq]
    · by_cases hlt : index < items.length
      · simp [heq, hlt, h.slots]
      · rw [if_neg heq, if_neg hlt, h.slots, List.getElem?_eq_none (by omega),
          List.getElem?_eq_none (by simp; omega)]

theorem indexOf_of_mem [DecidableEq α] (h : a.Represents items) (hx : x ∈ items) :
    ∃ index, a.indexOf x = some index ∧ items[index]? = some x := by
  obtain ⟨index, hindex⟩ := List.mem_iff_getElem?.mp hx
  have hlt : index < items.length := by
    by_contra hge
    rw [List.getElem?_eq_none (by omega)] at hindex
    cases hindex
  have hsome : (a.indexOf x).isSome = true := by
    rw [indexOf, List.find?_isSome]
    refine ⟨index, List.mem_range.mpr (h.count ▸ hlt), ?_⟩
    simpa [h.slots] using hindex
  obtain ⟨found, hfound⟩ := Option.isSome_iff_exists.mp hsome
  refine ⟨found, hfound, ?_⟩
  have hholds := List.find?_some hfound
  rw [← h.slots]
  simpa using hholds

theorem indexOf_of_not_mem [DecidableEq α] (h : a.Represents items) (hx : x ∉ items) :
    a.indexOf x = none := by
  rw [indexOf, List.find?_eq_none]
  intro index _
  rw [h.slots]
  simpa using fun hindex => hx (List.mem_of_getElem? hindex)

/-- **Removal moves the last item**, so that what is left is the rest of the list, in
another order. -/
theorem removeAt (h : a.Represents items) (hindex : items[index]? = some x) :
    ∃ rest, (a.removeAt index).Represents rest ∧ items.Perm (x :: rest) := by
  rcases List.eq_nil_or_concat items with rfl | ⟨init, last, rfl⟩
  · cases hindex
  rw [List.concat_eq_append] at h hindex ⊢
  have hcount : a.count - 1 = init.length := by simp [h.count]
  have hslots : ∀ i, i ≠ init.length → a.slots i = init[i]? := by
    intro i hi
    rw [h.slots, List.getElem?_append]
    split_ifs with hlt
    · rfl
    · rw [List.getElem?_eq_none (by simp; omega), List.getElem?_eq_none (by omega)]
  have hlast : a.slots init.length = some last := by
    rw [h.slots]
    exact List.getElem?_concat_length
  by_cases heq : index = init.length
  · subst heq
    obtain rfl : last = x := by simpa using hindex
    refine ⟨init, ⟨hcount, fun i => ?_⟩, List.perm_append_singleton _ _⟩
    simp only [DenseArray.removeAt, hcount, ne_eq, not_true, if_false, update_apply]
    split_ifs with hi
    · rw [hi, List.getElem?_eq_none (Nat.le_refl _)]
    · exact hslots i hi
  · have hlt : index < init.length := by
      by_contra hge
      rw [List.getElem?_eq_none (by simp; omega)] at hindex
      cases hindex
    rw [List.getElem?_append_left hlt, List.getElem?_eq_getElem hlt, Option.some_inj] at hindex
    refine ⟨init.set index last, ⟨?_, fun i => ?_⟩, ?_⟩
    · rw [List.length_set]
      exact hcount
    · simp only [DenseArray.removeAt, hcount, ne_eq, heq, not_false_eq_true, if_true, hlast,
        update_apply, List.getElem?_set]
      by_cases hi : i = init.length
      · rw [if_pos hi, if_neg (by omega), hi, List.getElem?_eq_none (Nat.le_refl _)]
      · rw [if_neg hi]
        by_cases hsame : i = index
        · rw [if_pos hsame, if_pos hsame.symm, if_pos hlt]
        · rw [if_neg hsame, if_neg fun h => hsame h.symm]
          exact hslots i hi
    · calc
        List.Perm (init ++ [last]) (last :: init) := List.perm_append_singleton _ _
        List.Perm _ (last :: x :: init.eraseIdx index) := by
          rw [← hindex]
          exact (List.getElem_cons_eraseIdx_perm hlt).symm.cons last
        List.Perm _ (x :: last :: init.eraseIdx index) := List.Perm.swap ..
        List.Perm _ (x :: init.set index last) := (List.set_perm_cons_eraseIdx hlt last).symm.cons x

end Represents

/-- Adding an item and removing the last one are inverse. -/
theorem removeAt_push (a : DenseArray α) (x : α) (hfree : a.slots a.count = none) :
    (a.push x).removeAt a.count = a := by
  obtain ⟨slots, count⟩ := a
  change slots count = none at hfree
  simp only [push, removeAt, Nat.add_sub_cancel, ne_eq, not_true, if_false, update_idem]
  rw [← hfree, update_eq_self]

end DenseArray
