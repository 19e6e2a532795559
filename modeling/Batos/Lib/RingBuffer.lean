import Mathlib.Data.List.Nodup
import Mathlib.Data.Nat.ModEq

/-!
# Ring buffers

A queue kept in a fixed ring of slots: `count` items are read from `head` on, modulo
the capacity, and `tail` is the slot after the last of them.  A full ring has its head
at its tail, so neither of the two says how many items there are.  Items are also
removed from the middle, by moving every later item one slot forward.

`Represents` says which list a ring stands for.  It fixes the contents of every slot,
the empty ones included; each operation is then the list operation one expects
(`Represents.push`, `peek_eq`, `Represents.pop`, `contains_iff`,
`Represents.remove`), wherever the head happens to be.
-/

/-- A ring of slots. -/
structure RingBuffer (α : Type*) (capacity : ℕ) where
  slots : Fin capacity → Option α
  head : Fin capacity
  tail : Fin capacity
  count : ℕ

namespace RingBuffer

open Function List

variable {α : Type*} {capacity : ℕ} [NeZero capacity]

/-- The slot `offset` places after `start`. -/
def position (start : Fin capacity) (offset : ℕ) : Fin capacity :=
  Fin.ofNat capacity (start.val + offset)

/-- The ring with no item, read from slot 0. -/
def empty : RingBuffer α capacity where
  slots := fun _ => none
  head := 0
  tail := 0
  count := 0

/-- Store an item at the tail. -/
def push (b : RingBuffer α capacity) (a : α) : RingBuffer α capacity where
  slots := update b.slots b.tail (some a)
  head := b.head
  tail := position b.tail 1
  count := b.count + 1

/-- The item at the head. -/
def peek (b : RingBuffer α capacity) : Option α :=
  if b.count = 0 then none else b.slots b.head

/-- Take the item at the head. -/
def pop (b : RingBuffer α capacity) : Option α × RingBuffer α capacity :=
  if b.count = 0 then (none, b)
  else
    (b.slots b.head,
      { slots := update b.slots b.head none
        head := position b.head 1
        tail := b.tail
        count := b.count - 1 })

/-- Move the items at the offsets from `offset + 1` to `offset + steps` one slot forward. -/
def closeGap (start : Fin capacity) (offset steps : ℕ) (slots : Fin capacity → Option α) :
    Fin capacity → Option α :=
  (List.range' offset steps).foldl
    (fun slots shift =>
      update slots (position start shift) (slots (position start (shift + 1)))) slots

section Search

variable [DecidableEq α]

/-- Is the item in the ring? -/
def contains (b : RingBuffer α capacity) (a : α) : Bool :=
  (List.range b.count).any fun offset => decide (b.slots (position b.head offset) = some a)

/-- Remove the first occurrence of an item; `none` when there is none. -/
def remove (b : RingBuffer α capacity) (a : α) : Option (RingBuffer α capacity) :=
  match (List.range b.count).find? fun offset =>
      decide (b.slots (position b.head offset) = some a) with
  | none => none
  | some offset =>
      let slots := closeGap b.head offset (b.count - 1 - offset) b.slots
      let tail := position b.tail (capacity - 1)
      some
        { slots := update slots tail none
          head := b.head
          tail := tail
          count := b.count - 1 }

end Search

/-- The items from the head on. -/
def toList (b : RingBuffer α capacity) : List α :=
  (List.range b.count).filterMap fun offset => b.slots (position b.head offset)

/-! ## Positions -/

@[simp] theorem position_zero (start : Fin capacity) : position start 0 = start := by
  apply Fin.ext
  exact Nat.mod_eq_of_lt start.isLt

/-- Offsets add up. -/
@[simp] theorem position_position (start : Fin capacity) (i j : ℕ) :
    position (position start i) j = position start (i + j) := by
  apply Fin.ext
  change ((start.val + i) % capacity + j) % capacity = (start.val + (i + j)) % capacity
  rw [Nat.mod_add_mod, Nat.add_assoc]

theorem position_add_capacity (start : Fin capacity) (i : ℕ) :
    position start (i + capacity) = position start i := by
  apply Fin.ext
  change (start.val + (i + capacity)) % capacity = (start.val + i) % capacity
  rw [← Nat.add_assoc, Nat.add_mod_right]

/-- Less than one turn apart, different offsets are different slots. -/
theorem position_inj {start : Fin capacity} {i j : ℕ} (hi : i < capacity) (hj : j < capacity) :
    position start i = position start j ↔ i = j := by
  refine ⟨fun h => ?_, fun h => by rw [h]⟩
  have hmod : start.val + i ≡ start.val + j [MOD capacity] := congrArg Fin.val h
  exact (Nat.ModEq.add_left_cancel' start.val hmod).eq_of_lt_of_lt hi hj

/-- Offsets below the capacity are different slots. -/
theorem update_position (slots : Fin capacity → Option α) (start : Fin capacity) (x : Option α)
    {i j : ℕ} (hi : i < capacity) (hj : j < capacity) :
    update slots (position start i) x (position start j) =
      if j = i then x else slots (position start j) := by
  simp only [update_apply, position_inj hj hi]

/-! ## The list a ring stands for -/

/-- The ring holds the items of the list, in order from its head, and nothing else. -/
structure Represents (b : RingBuffer α capacity) (items : List α) : Prop where
  count : b.count = items.length
  bound : items.length ≤ capacity
  tail : b.tail = position b.head items.length
  slots : ∀ offset < capacity, b.slots (position b.head offset) = items[offset]?

theorem represents_empty : (empty : RingBuffer α capacity).Represents [] where
  count := rfl
  bound := Nat.zero_le _
  tail := (position_zero _).symm
  slots := fun _ _ => rfl

namespace Represents

variable {b : RingBuffer α capacity} {items : List α}

theorem slots_of_lt (h : b.Represents items) {offset : ℕ} (hoffset : offset < b.count) :
    b.slots (position b.head offset) = items[offset]? :=
  h.slots offset (hoffset.trans_le (h.count.trans_le h.bound))

theorem toList_eq (h : b.Represents items) : b.toList = items := by
  have hslots : b.toList = (List.range items.length).filterMap fun offset => items[offset]? := by
    rw [toList, h.count]
    refine filterMap_congr fun offset hoffset => ?_
    rw [mem_range, ← h.count] at hoffset
    exact h.slots_of_lt hoffset
  rw [hslots]
  -- reading a list offset by offset gives it back
  clear hslots h
  induction items with
  | nil => rfl
  | cons a items ih =>
      rw [length_cons, range_succ_eq_map, filterMap_cons, List.getElem?_cons_zero,
        filterMap_map]
      exact congrArg (a :: ·) ih

theorem peek_eq (h : b.Represents items) : b.peek = items.head? := by
  unfold peek
  cases items with
  | nil => exact if_pos h.count
  | cons a items =>
      have hcount : b.count = items.length + 1 := h.count
      have hslot := h.slots_of_lt (show 0 < b.count by omega)
      rw [position_zero] at hslot
      rw [if_neg (by omega), hslot]
      rfl

theorem push (h : b.Represents items) (hroom : b.count < capacity) (a : α) :
    (b.push a).Represents (items ++ [a]) where
  count := by
    rw [length_append, ← h.count]
    rfl
  bound := by
    rw [length_append, ← h.count]
    exact hroom
  tail := by
    change position b.tail 1 = position b.head _
    rw [h.tail, position_position, length_append, length_singleton]
  slots := by
    intro offset hoffset
    have hlength : items.length < capacity := h.count ▸ hroom
    change update b.slots b.tail (some a) (position b.head offset) = _
    rw [h.tail, update_position _ _ _ hlength hoffset, h.slots offset hoffset]
    rcases Nat.lt_trichotomy offset items.length with hlt | rfl | hgt
    · rw [if_neg hlt.ne, List.getElem?_append_left hlt]
    · rw [if_pos rfl, List.getElem?_concat_length]
    · rw [if_neg hgt.ne', List.getElem?_eq_none hgt.le, List.getElem?_eq_none]
      rw [length_append, length_singleton]
      exact hgt

theorem pop {a : α} (h : b.Represents (a :: items)) :
    ∃ b' : RingBuffer α capacity, b.pop = (some a, b') ∧ b'.Represents items := by
  have hcount : b.count = items.length + 1 := h.count
  have hbound : items.length + 1 ≤ capacity := h.bound
  have hslot := h.slots_of_lt (show 0 < b.count by omega)
  rw [position_zero, List.getElem?_cons_zero] at hslot
  unfold RingBuffer.pop
  rw [if_neg (by omega), hslot]
  refine ⟨_, rfl, ?_, ?_, ?_, ?_⟩
  · change b.count - 1 = items.length
    omega
  · omega
  · change b.tail = position (position b.head 1) items.length
    rw [h.tail, position_position, length_cons, Nat.add_comm]
  · intro offset hoffset
    change update b.slots b.head none (position (position b.head 1) offset) = _
    rw [position_position, Nat.add_comm]
    rcases Nat.lt_or_ge (offset + 1) capacity with hlt | hge
    · have hupdate := update_position b.slots b.head none (Nat.pos_of_neZero capacity) hlt
      rw [position_zero] at hupdate
      rw [hupdate, if_neg (Nat.succ_ne_zero offset), h.slots _ hlt, List.getElem?_cons_succ]
    · -- the slot that was the head
      obtain rfl : capacity = offset + 1 := by omega
      have hturn := position_add_capacity b.head 0
      rw [Nat.zero_add, position_zero] at hturn
      rw [hturn, update_self, List.getElem?_eq_none (by omega)]

section Search

variable [DecidableEq α]

/-- The search sees the elements only. -/
theorem contains_iff (h : b.Represents items) (a : α) : b.contains a = true ↔ a ∈ items := by
  rw [contains, any_eq_true, mem_iff_getElem?]
  constructor
  · rintro ⟨offset, hoffset, hslot⟩
    rw [mem_range] at hoffset
    exact ⟨offset, (h.slots_of_lt hoffset).symm.trans (of_decide_eq_true hslot)⟩
  · rintro ⟨offset, hitem⟩
    have hoffset : offset < b.count := by
      rw [h.count]
      exact (List.getElem?_eq_some_iff.mp hitem).1
    exact ⟨offset, mem_range.mpr hoffset, decide_eq_true ((h.slots_of_lt hoffset).trans hitem)⟩

end Search

end Represents

/-! ## Removal -/

theorem closeGap_succ (start : Fin capacity) (offset steps : ℕ) (slots : Fin capacity → Option α) :
    closeGap start offset (steps + 1) slots =
      update (closeGap start offset steps slots) (position start (offset + steps))
        (closeGap start offset steps slots (position start (offset + steps + 1))) := by
  unfold closeGap
  rw [range'_concat, foldl_append, Nat.one_mul]
  rfl

/-- Closing a gap moves the items behind it and no other. -/
theorem closeGap_position (start : Fin capacity) (offset : ℕ) (slots : Fin capacity → Option α)
    {steps : ℕ} (hsteps : offset + steps < capacity) {i : ℕ} (hi : i < capacity) :
    closeGap start offset steps slots (position start i) =
      if offset ≤ i ∧ i < offset + steps then slots (position start (i + 1))
      else slots (position start i) := by
  induction steps generalizing i with
  | zero =>
      rw [if_neg (by omega)]
      rfl
  | succ steps ih =>
      rw [closeGap_succ, update_position _ _ _ (by omega) hi]
      by_cases hlast : i = offset + steps
      · subst hlast
        rw [if_pos rfl, if_pos (by omega), ih (by omega) (by omega), if_neg (by omega)]
      · rw [if_neg hlast, ih (by omega) hi]
        exact if_congr (by omega) rfl rfl

section Search

variable [DecidableEq α] {b : RingBuffer α capacity} {items : List α}

theorem Represents.remove_of_not_mem (h : b.Represents items) {a : α} (ha : a ∉ items) :
    b.remove a = none := by
  have hnone : (List.range b.count).find? (fun offset =>
      decide (b.slots (position b.head offset) = some a)) = none := by
    rw [List.find?_eq_none]
    intro offset hoffset hslot
    rw [mem_range] at hoffset
    rw [decide_eq_true_eq, h.slots_of_lt hoffset] at hslot
    exact ha (mem_of_getElem? hslot)
  unfold RingBuffer.remove
  rw [hnone]

/-- **Removal keeps the order of the other items.** -/
theorem Represents.remove (h : b.Represents items) {a : α} (ha : a ∈ items) :
    ∃ b' : RingBuffer α capacity, b.remove a = some b' ∧ b'.Represents (items.erase a) := by
  have hlength : items.idxOf a < items.length := List.idxOf_lt_length_iff.mpr ha
  have hbound := h.bound
  have hcount := h.count
  have hfind : (List.range b.count).find? (fun offset =>
      decide (b.slots (position b.head offset) = some a)) = some (items.idxOf a) := by
    rw [List.find?_range_eq_some]
    refine ⟨?_, mem_range.mpr (by omega), fun offset hoffset => ?_⟩
    · rw [decide_eq_true_eq, h.slots_of_lt (by omega)]
      exact List.getElem?_idxOf ha
    · rw [Bool.not_eq_true', decide_eq_false_iff_not, h.slots_of_lt (by omega)]
      intro hitem
      obtain ⟨hlt, hitem⟩ := List.getElem?_eq_some_iff.mp hitem
      have hnot := not_of_lt_findIdx (p := (· == a)) hoffset
      rw [hitem] at hnot
      exact absurd (beq_self_eq_true a) (Bool.eq_false_iff.mp hnot)
  have hlast : position b.tail (capacity - 1) = position b.head (items.length - 1) := by
    rw [h.tail, position_position, ← position_add_capacity b.head (items.length - 1)]
    congr 1
    omega
  have herase : (items.erase a).length = items.length - 1 := length_erase_of_mem ha
  unfold RingBuffer.remove
  rw [hfind]
  refine ⟨_, rfl, ?_, ?_, ?_, ?_⟩
  · change b.count - 1 = _
    rw [herase, h.count]
  · omega
  · change position b.tail (capacity - 1) = position b.head _
    rw [hlast, herase]
  · intro offset hoffset
    change update (closeGap _ _ _ _) (position b.tail _) none (position b.head offset) = _
    rw [hlast, update_position _ _ _ (by omega) hoffset,
      closeGap_position _ _ _ (by omega) hoffset, erase_eq_eraseIdx_of_idxOf rfl,
      List.getElem?_eraseIdx]
    rcases Nat.lt_trichotomy offset (items.length - 1) with hlt | rfl | hgt
    · rw [if_neg hlt.ne]
      by_cases hbefore : offset < items.idxOf a
      · rw [if_neg (by omega), if_pos hbefore, h.slots _ hoffset]
      · rw [if_pos (by omega), if_neg hbefore, h.slots _ (by omega)]
    · rw [if_pos rfl, if_neg (by omega), List.getElem?_eq_none (by omega)]
    · rw [if_neg hgt.ne', if_neg (by omega), if_neg (by omega), h.slots _ hoffset,
        List.getElem?_eq_none (by omega), List.getElem?_eq_none (by omega)]

end Search

end RingBuffer
