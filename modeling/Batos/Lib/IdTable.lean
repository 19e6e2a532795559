import Mathlib.Data.Finset.Card
import Mathlib.Data.Fintype.Card
import Mathlib.Data.Fintype.EquivFin

/-!
# Tables indexed by identity

A table with one slot for each identity from 1 to the capacity, and a separate count of
the slots in use.  An object knows its own identity, and whoever looks it up goes to the
slot of that identity only.

`Keyed` says that every object sits in the slot of its identity, so that looking it up
there finds it exactly when it is in the table; `Counted` says that the count is right.
-/

/-- Slots, a count of those in use, and whether the table has been set up. -/
structure IdTable (ρ : Type*) (capacity : ℕ) where
  slots : Fin capacity → Option ρ := fun _ => none
  count : ℕ := 0
  initialized : Bool := false

namespace IdTable

open Function

variable {ρ : Type*} {capacity : ℕ}

/-- The slot of an identity, which has one if it is between 1 and the capacity. -/
def slotOf (capacity id : ℕ) : Option (Fin capacity) :=
  if h : id ≠ 0 ∧ id ≤ capacity then some ⟨id - 1, by omega⟩ else none

theorem slotOf_eq_some {id : ℕ} {index : Fin capacity} :
    slotOf capacity id = some index ↔ id = index.val + 1 := by
  have hlt := index.isLt
  unfold slotOf
  split_ifs with h
  · rw [Option.some_inj, Fin.ext_iff]
    change id - 1 = index.val ↔ _
    omega
  · simp only [false_iff]
    omega

/-- The object in the slot of an identity. -/
def find (table : IdTable ρ capacity) (id : ℕ) : Option ρ :=
  (slotOf capacity id).bind table.slots

/-- Fill a slot. -/
def insert (table : IdTable ρ capacity) (index : Fin capacity) (x : ρ) : IdTable ρ capacity :=
  { table with slots := update table.slots index (some x), count := table.count + 1 }

/-- Empty a slot. -/
def erase (table : IdTable ρ capacity) (index : Fin capacity) : IdTable ρ capacity :=
  { table with slots := update table.slots index none, count := table.count - 1 }

/-- The object is in the table. -/
def Mem (table : IdTable ρ capacity) (x : ρ) : Prop := ∃ index, table.slots index = some x

/-- The slots in use. -/
def occupied (table : IdTable ρ capacity) : Finset (Fin capacity) :=
  Finset.univ.filter fun index => (table.slots index).isSome = true

/-- The count is the number of slots in use. -/
def Counted (table : IdTable ρ capacity) : Prop := table.count = table.occupied.card

/-- Every object is in the slot of its identity. -/
def Keyed (table : IdTable ρ capacity) (key : ρ → ℕ) : Prop :=
  ∀ index x, table.slots index = some x → key x = index.val + 1

section Lemmas

variable {table : IdTable ρ capacity} {key : ρ → ℕ} {index : Fin capacity} {x y : ρ}

theorem slots_insert (index' : Fin capacity) : (table.insert index x).slots index' =
    if index' = index then some x else table.slots index' :=
  update_apply ..

theorem slots_erase (index' : Fin capacity) : (table.erase index).slots index' =
    if index' = index then none else table.slots index' :=
  update_apply ..

theorem mem_occupied : index ∈ table.occupied ↔ table.slots index ≠ none := by
  rw [occupied, Finset.mem_filter, and_iff_right (Finset.mem_univ index), Option.isSome_iff_ne_none]

theorem find_of_slotOf {id : ℕ} (h : slotOf capacity id = some index) :
    table.find id = table.slots index := by
  rw [find, h]
  rfl

/-- The slots count from zero, the ids from one. -/
theorem find_eq_some {id : ℕ} :
    table.find id = some x ↔ ∃ index, id = index.val + 1 ∧ table.slots index = some x := by
  simp only [find, Option.bind_eq_some_iff, slotOf_eq_some]

/-- Looking an object up by its identity finds it if it is there. -/
theorem Keyed.find_iff (h : table.Keyed key) : table.find (key x) = some x ↔ table.Mem x := by
  rw [find_eq_some]
  exact ⟨fun ⟨index, _, hslot⟩ => ⟨index, hslot⟩, fun ⟨index, hslot⟩ =>
    ⟨index, h index x hslot, hslot⟩⟩

/-- An object is in one slot. -/
theorem Keyed.slot_unique (h : table.Keyed key) {index' : Fin capacity}
    (hslot : table.slots index = some x) (hslot' : table.slots index' = some x) :
    index = index' := by
  have hkey := h index x hslot
  rw [h index' x hslot'] at hkey
  exact Fin.ext (by omega)

theorem Keyed.eq_of_key (h : table.Keyed key) (hx : table.Mem x) (hy : table.Mem y)
    (hkey : key x = key y) : x = y := by
  obtain ⟨index, hslot⟩ := hx
  obtain ⟨index', hslot'⟩ := hy
  obtain rfl : index = index' := by
    rw [h index x hslot, h index' y hslot'] at hkey
    exact Fin.ext (by omega)
  exact Option.some.inj (hslot.symm.trans hslot')

theorem mem_insert : (table.insert index x).Mem y ↔
    y = x ∨ ∃ index', index' ≠ index ∧ table.slots index' = some y := by
  constructor
  · rintro ⟨index', hslot⟩
    rw [slots_insert] at hslot
    split_ifs at hslot with heq
    · exact .inl (Option.some.inj hslot).symm
    · exact .inr ⟨index', heq, hslot⟩
  · rintro (rfl | ⟨index', hne, hslot⟩)
    · exact ⟨index, update_self _ _ _⟩
    · exact ⟨index', (update_of_ne hne _ _).trans hslot⟩

/-- Filling a free slot adds an object. -/
theorem mem_insert_of_free (hfree : table.slots index = none) :
    (table.insert index x).Mem y ↔ y = x ∨ table.Mem y := by
  rw [mem_insert]
  refine or_congr_right ⟨fun ⟨index', _, hslot⟩ => ⟨index', hslot⟩, fun ⟨index', hslot⟩ => ?_⟩
  refine ⟨index', ?_, hslot⟩
  rintro rfl
  rw [hfree] at hslot
  cases hslot

/-- Emptying the slot of an object removes that object. -/
theorem Keyed.mem_erase (h : table.Keyed key) (hslot : table.slots index = some x) :
    (table.erase index).Mem y ↔ table.Mem y ∧ y ≠ x := by
  constructor
  · rintro ⟨index', hslot'⟩
    rw [slots_erase] at hslot'
    split_ifs at hslot' with heq
    refine ⟨⟨index', hslot'⟩, ?_⟩
    rintro rfl
    exact heq (h.slot_unique hslot' hslot)
  · rintro ⟨⟨index', hslot'⟩, hne⟩
    refine ⟨index', ?_⟩
    rw [slots_erase, if_neg ?_]
    · exact hslot'
    · rintro rfl
      exact hne (Option.some.inj (hslot'.symm.trans hslot))

/-- An entry at the slot of its key. -/
theorem Keyed.insert (h : table.Keyed key) (hkey : key x = index.val + 1) :
    (table.insert index x).Keyed key := by
  intro index' y hslot
  rw [slots_insert] at hslot
  split_ifs at hslot with heq
  · rw [heq, ← Option.some.inj hslot, hkey]
  · exact h index' y hslot

theorem Keyed.erase (h : table.Keyed key) : (table.erase index).Keyed key := by
  intro index' y hslot
  rw [slots_erase] at hslot
  split_ifs at hslot
  exact h index' y hslot

/-- Only the identities of the objects in the table matter. -/
theorem Keyed.congr (h : table.Keyed key) {key' : ρ → ℕ}
    (hkey : ∀ x, table.Mem x → key' x = key x) :
    table.Keyed key' := by
  intro index x hslot
  rw [hkey x ⟨index, hslot⟩]
  exact h index x hslot

theorem Counted.insert (h : table.Counted) (hfree : table.slots index = none) (x : ρ) :
    (table.insert index x).Counted := by
  have hnew : index ∉ table.occupied := fun hmem => mem_occupied.mp hmem hfree
  have heq : (table.insert index x).occupied = Insert.insert index table.occupied := by
    ext index'
    rw [Finset.mem_insert, mem_occupied, mem_occupied, slots_insert]
    split_ifs with hsame
    · simp [hsame]
    · simp [hsame]
  rw [Counted, heq, Finset.card_insert_of_notMem hnew, ← h]
  rfl

/-- One entry less is counted. -/
theorem Counted.erase (h : table.Counted) (hslot : table.slots index = some x) :
    (table.erase index).Counted := by
  have hmem : index ∈ table.occupied := mem_occupied.mpr (by rw [hslot]; exact nofun)
  have heq : (table.erase index).occupied = table.occupied.erase index := by
    ext index'
    rw [Finset.mem_erase, mem_occupied, mem_occupied, slots_erase]
    split_ifs with hsame
    · simp [hsame]
    · simp [hsame]
  rw [Counted, heq, Finset.card_erase_of_mem hmem, ← h]
  rfl

/-- With an object in the table the count is not zero. -/
theorem Counted.ne_zero (h : table.Counted) (hslot : table.slots index = some x) :
    table.count ≠ 0 := by
  rw [h]
  exact Finset.card_ne_zero_of_mem (mem_occupied.mpr (by rw [hslot]; exact nofun))

/-- With a free slot the table is not full. -/
theorem Counted.lt_capacity (h : table.Counted) (hfree : table.slots index = none) :
    table.count < capacity := by
  have hlt : table.occupied.card < (Finset.univ : Finset (Fin capacity)).card :=
    Finset.card_lt_card ⟨Finset.subset_univ _, fun hsub =>
      mem_occupied.mp (hsub (Finset.mem_univ index)) hfree⟩
  rw [h]
  rwa [Finset.card_univ, Fintype.card_fin] at hlt

/-- Filling a free slot and emptying it again are inverse. -/
theorem erase_insert (hfree : table.slots index = none) (x : ρ) :
    (table.insert index x).erase index = table := by
  obtain ⟨slots, count, initialized⟩ := table
  change slots index = none at hfree
  simp only [insert, erase, update_idem, Nat.add_sub_cancel]
  rw [← hfree, update_eq_self]

end Lemmas

end IdTable
