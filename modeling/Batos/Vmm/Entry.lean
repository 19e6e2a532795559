import Batos.Pmm.Frames

/-!
# Page-table entries and virtual addresses

The 64-bit words the MMU walks.  An entry carries flags in its low and high bits
and a frame address in between; a virtual address is four nine-bit indices above
a page offset.  The source manipulates both with masks and shifts.  The lemmas
here read every mask bit by bit (`getLsbD`), once, and say for each of the three
ways `vmm.c` composes an entry what its flags and its address are.
-/

namespace Batos

open BitVec

variable {p va va' : Word}

/-! ## Entries -/

/-- `VMM_PRESENT`. -/
abbrev vmmPresent : Word := 0x1

/-- `VMM_WRITABLE`. -/
abbrev vmmWritable : Word := 0x2

/-- `VMM_USER`. -/
abbrev vmmUser : Word := 0x4

/-- `VMM_HUGE`. -/
abbrev vmmHuge : Word := 0x80

/-- `ADDRESS_MASK`. -/
abbrev addressMask : Word := 0x000FFFFFFFFFF000

/-- The test `entry & flag`, for a flag of one bit. -/
def hasFlag (flag entry : Word) : Bool := entry &&& flag != 0

/-- `entry & VMM_PRESENT`. -/
abbrev isPresent (entry : Word) : Bool := hasFlag vmmPresent entry

/-- `entry & VMM_HUGE`. -/
abbrev isHuge (entry : Word) : Bool := hasFlag vmmHuge entry

/-- The frame address in an entry. -/
def entryAddress (entry : Word) : Word := entry &&& addressMask

/-- A flag is one bit of the entry. -/
theorem hasFlag_eq_getLsbD {flag : Word} {k : ℕ} (hflag : flag = BitVec.twoPow 64 k)
    (hk : k < 64) (entry : Word) : hasFlag flag entry = entry.getLsbD k := by
  unfold hasFlag
  rw [hflag, and_twoPow]
  cases entry.getLsbD k with
  | false => rfl
  | true =>
      rw [if_pos rfl, bne_iff_ne]
      intro hzero
      have hbit := congrArg (fun w => w.getLsbD k) hzero
      simp [hk] at hbit

theorem isPresent_eq (entry : Word) : isPresent entry = entry.getLsbD 0 :=
  hasFlag_eq_getLsbD (by decide) (by decide) entry

theorem isHuge_eq (entry : Word) : isHuge entry = entry.getLsbD 7 :=
  hasFlag_eq_getLsbD (by decide) (by decide) entry

theorem hasWritable_eq (entry : Word) : hasFlag vmmWritable entry = entry.getLsbD 1 :=
  hasFlag_eq_getLsbD (by decide) (by decide) entry

theorem hasUser_eq (entry : Word) : hasFlag vmmUser entry = entry.getLsbD 2 :=
  hasFlag_eq_getLsbD (by decide) (by decide) entry

/-- The address field is bits 12 to 51. -/
theorem addressMask_getLsbD (i : ℕ) :
    addressMask.getLsbD i = (decide (12 ≤ i) && decide (i < 52)) := by
  by_cases hi : i < 64
  · have hall : ∀ j : Fin 64,
        addressMask.getLsbD j = (decide (12 ≤ (j : ℕ)) && decide ((j : ℕ) < 52)) := by
      decide
    exact hall ⟨i, hi⟩
  · rw [getLsbD_of_ge _ _ (by omega)]
    have : ¬ i < 52 := by omega
    simp [this]

theorem entryAddress_getLsbD (entry : Word) (i : ℕ) :
    (entryAddress entry).getLsbD i =
      (entry.getLsbD i && (decide (12 ≤ i) && decide (i < 52))) := by
  rw [entryAddress, getLsbD_and, addressMask_getLsbD]

/-- The address of a frame that fits an entry. -/
def FrameAligned (p : Word) : Prop := entryAddress p = p

instance (p : Word) : Decidable (FrameAligned p) := inferInstanceAs (Decidable (_ = _))

/-- The address in an entry is that of a frame. -/
theorem frameAligned_entryAddress (entry : Word) : FrameAligned (entryAddress entry) := by
  unfold FrameAligned entryAddress
  rw [BitVec.and_assoc, BitVec.and_self]

/-- The address of a frame leaves the flags of an entry alone. -/
theorem FrameAligned.getLsbD_low (h : FrameAligned p) {i : ℕ} (hi : i < 12) :
    p.getLsbD i = false := by
  rw [← h, entryAddress_getLsbD]
  have : ¬ 12 ≤ i := by omega
  simp [this]

/-- Frame addresses below 4 PiB fit an entry. -/
theorem frameAligned_of_lt (haligned : p.toNat % 4096 = 0) (hlt : p.toNat < 2 ^ 52) :
    FrameAligned p := by
  refine eq_of_getLsbD_eq fun i _ => ?_
  rw [entryAddress_getLsbD]
  by_cases hlow : 12 ≤ i
  · by_cases hhigh : i < 52
    · simp [hlow, hhigh]
    · have hbit : p.getLsbD i = false := by
        rw [BitVec.getLsbD]
        exact Nat.testBit_lt_two_pow (hlt.trans_le (Nat.pow_le_pow_right (by decide) (by omega)))
      simp [hbit]
  · have hbit : p.getLsbD i = false := by
      have hmod : (p.toNat % 2 ^ 12).testBit i = false := by
        rw [show p.toNat % 2 ^ 12 = 0 from haligned, Nat.zero_testBit]
      rw [Nat.testBit_mod_two_pow] at hmod
      have : i < 12 := by omega
      simpa [BitVec.getLsbD, this] using hmod
    simp [hbit]

theorem FrameAligned.toNat_mod (h : FrameAligned p) : p.toNat % 4096 = 0 := by
  have hlow : p &&& 0xFFF = 0 := by
    rw [← h, entryAddress, BitVec.and_assoc]
    have : addressMask &&& 0xFFF = 0#64 := by decide
    rw [this, and_zero]
    rfl
  exact (and_pageMask_eq_zero_iff p).mp hlow

/-- The entry `get_or_create_table` installs for a new child. -/
def tableEntry (child flags : Word) : Word :=
  child ||| vmmPresent ||| vmmWritable ||| (flags &&& vmmUser)

/-- The leaf entry `vmm_map_page` installs. -/
def leafEntry (physical flags : Word) : Word :=
  (physical &&& addressMask) ||| vmmPresent ||| (flags &&& (vmmWritable ||| vmmUser))

/-- The entry of a copied table: the flags of the source entry with the address of
the new child. -/
def copiedEntry (child entry : Word) : Word := child ||| (entry &&& ~~~addressMask)

section Compose

variable {child : Word} (h : FrameAligned child) (flags physical entry : Word)

include h

omit h in
/-- A link to a table is present. -/
theorem isPresent_tableEntry : isPresent (tableEntry child flags) = true := by
  rw [isPresent_eq, tableEntry]
  simp

theorem isHuge_tableEntry : isHuge (tableEntry child flags) = false := by
  rw [isHuge_eq, tableEntry]
  simp only [getLsbD_or, getLsbD_and, h.getLsbD_low (by decide : 7 < 12)]
  rw [show vmmPresent.getLsbD 7 = false by decide, show vmmWritable.getLsbD 7 = false by decide,
    show vmmUser.getLsbD 7 = false by decide]
  simp

omit h in
/-- A link to a table is writable, whatever was asked for. -/
theorem hasWritable_tableEntry : hasFlag vmmWritable (tableEntry child flags) = true := by
  rw [hasWritable_eq, tableEntry]
  simp only [getLsbD_or]
  rw [show vmmWritable.getLsbD 1 = true by decide]
  simp

/-- A link to a table is for users if the page is. -/
theorem hasUser_tableEntry :
    hasFlag vmmUser (tableEntry child flags) = hasFlag vmmUser flags := by
  rw [hasUser_eq, hasUser_eq, tableEntry]
  simp only [getLsbD_or, getLsbD_and, h.getLsbD_low (by decide : 2 < 12)]
  rw [show vmmPresent.getLsbD 2 = false by decide, show vmmWritable.getLsbD 2 = false by decide,
    show vmmUser.getLsbD 2 = true by decide]
  simp

/-- A link to a table holds its address. -/
theorem entryAddress_tableEntry : entryAddress (tableEntry child flags) = child := by
  have hflags : (vmmPresent ||| vmmWritable ||| (flags &&& vmmUser)) &&& addressMask = 0#64 := by
    rw [and_or_distrib_right, BitVec.and_assoc]
    rw [show vmmUser &&& addressMask = 0#64 by decide, and_zero]
    decide
  rw [tableEntry, BitVec.or_assoc, BitVec.or_assoc, entryAddress, and_or_distrib_right,
    ← BitVec.or_assoc vmmPresent, hflags, or_zero]
  exact h

/-- A link to a copied table is present if the original is. -/
theorem isPresent_copiedEntry : isPresent (copiedEntry child entry) = isPresent entry := by
  rw [isPresent_eq, isPresent_eq, copiedEntry, getLsbD_or, getLsbD_and,
    h.getLsbD_low (by decide), show (~~~addressMask).getLsbD 0 = true by decide]
  simp

theorem isHuge_copiedEntry : isHuge (copiedEntry child entry) = isHuge entry := by
  rw [isHuge_eq, isHuge_eq, copiedEntry, getLsbD_or, getLsbD_and,
    h.getLsbD_low (by decide), show (~~~addressMask).getLsbD 7 = true by decide]
  simp

/-- A link to a copied table holds the address of the copy. -/
theorem entryAddress_copiedEntry : entryAddress (copiedEntry child entry) = child := by
  rw [copiedEntry, entryAddress, and_or_distrib_right, BitVec.and_assoc,
    show ~~~addressMask &&& addressMask = 0#64 by decide, and_zero, or_zero]
  exact h

/-- Copying an entry keeps all bits outside the address. -/
theorem copiedEntry_and_flags :
    copiedEntry child entry &&& ~~~addressMask = entry &&& ~~~addressMask := by
  have hchild : child &&& ~~~addressMask = 0#64 := by
    rw [← h, entryAddress, BitVec.and_assoc, show addressMask &&& ~~~addressMask = 0#64 by decide,
      and_zero]
  rw [copiedEntry, and_or_distrib_right, hchild, zero_or, BitVec.and_assoc,
    BitVec.and_self]

omit h in
theorem isPresent_leafEntry : isPresent (leafEntry physical flags) = true := by
  rw [isPresent_eq, leafEntry]
  simp only [getLsbD_or]
  rw [show vmmPresent.getLsbD 0 = true by decide]
  simp

omit h in
/-- A leaf holds the address field of what was asked for. -/
theorem entryAddress_leafEntry :
    entryAddress (leafEntry physical flags) = entryAddress physical := by
  have hflags : (vmmPresent ||| (flags &&& (vmmWritable ||| vmmUser))) &&& addressMask = 0#64 := by
    rw [and_or_distrib_right, BitVec.and_assoc]
    rw [show (vmmWritable ||| vmmUser) &&& addressMask = 0#64 by decide, and_zero]
    decide
  rw [leafEntry, BitVec.or_assoc, entryAddress, and_or_distrib_right, hflags,
    or_zero, BitVec.and_assoc, BitVec.and_self, entryAddress]

omit h in
/-- A leaf has the rights that were asked for. -/
theorem hasWritable_leafEntry :
    hasFlag vmmWritable (leafEntry physical flags) = hasFlag vmmWritable flags := by
  rw [hasWritable_eq, hasWritable_eq, leafEntry]
  simp only [getLsbD_or, getLsbD_and]
  rw [show addressMask.getLsbD 1 = false by decide, show vmmPresent.getLsbD 1 = false by decide,
    show vmmWritable.getLsbD 1 = true by decide]
  simp

omit h in
theorem hasUser_leafEntry :
    hasFlag vmmUser (leafEntry physical flags) = hasFlag vmmUser flags := by
  rw [hasUser_eq, hasUser_eq, leafEntry]
  simp only [getLsbD_or, getLsbD_and]
  rw [show addressMask.getLsbD 2 = false by decide, show vmmPresent.getLsbD 2 = false by decide,
    show vmmWritable.getLsbD 2 = false by decide, show vmmUser.getLsbD 2 = true by decide]
  simp

end Compose

@[simp] theorem isPresent_zero : isPresent 0#64 = false := by decide

/-! ## Virtual addresses -/

instance neZero_tableEntries : NeZero 512 := ⟨by decide⟩

/-- Nine bits of a virtual address. -/
def pageIndex (shift : ℕ) (va : Word) : Fin 512 :=
  ⟨((va >>> shift) &&& 0x1FF).toNat, by
    rw [toNat_and]
    exact lt_of_le_of_lt Nat.and_le_right (by decide)⟩

/-- `pml4_index`. -/
def pml4Index (va : Word) : Fin 512 := pageIndex 39 va

/-- `pdpt_index`. -/
def pdptIndex (va : Word) : Fin 512 := pageIndex 30 va

/-- `pd_index`. -/
def pdIndex (va : Word) : Fin 512 := pageIndex 21 va

/-- `pt_index`. -/
def ptIndex (va : Word) : Fin 512 := pageIndex 12 va

/-- The index a walk uses in a table of the given level. -/
def levelIndex (level : ℕ) (va : Word) : Fin 512 := pageIndex (12 + 9 * level) va

/-- An index is nine bits of the address. -/
theorem pageIndex_val (shift : ℕ) (va : Word) :
    (pageIndex shift va : ℕ) = va.toNat / 2 ^ shift % 512 := by
  change ((va >>> shift) &&& 0x1FF).toNat = _
  rw [toNat_and, toNat_ushiftRight, Nat.shiftRight_eq_div_pow]
  exact Nat.and_two_pow_sub_one_eq_mod _ 9

/-- Canonical addresses: bits 47 to 63 agree. -/
def Canonical (va : Word) : Prop := va.toNat < 2 ^ 47 ∨ 2 ^ 64 - 2 ^ 47 ≤ va.toNat

instance (va : Word) : Decidable (Canonical va) := inferInstanceAs (Decidable (_ ∨ _))

/-- The four indices of a canonical address determine its page. -/
theorem page_eq_of_indices (hva : Canonical va) (hva' : Canonical va')
    (h₃ : pml4Index va = pml4Index va') (h₂ : pdptIndex va = pdptIndex va')
    (h₁ : pdIndex va = pdIndex va') (h₀ : ptIndex va = ptIndex va') :
    va.toNat / 4096 = va'.toNat / 4096 := by
  have e₃ := congrArg Fin.val h₃
  have e₂ := congrArg Fin.val h₂
  have e₁ := congrArg Fin.val h₁
  have e₀ := congrArg Fin.val h₀
  simp only [pml4Index, pdptIndex, pdIndex, ptIndex, pageIndex_val] at e₃ e₂ e₁ e₀
  unfold Canonical at hva hva'
  omega

/-- Addresses of one page have the same indices. -/
theorem levelIndex_eq_of_page (h : va.toNat / 4096 = va'.toNat / 4096) (level : ℕ) :
    levelIndex level va = levelIndex level va' := by
  apply Fin.ext
  rw [levelIndex, levelIndex, pageIndex_val, pageIndex_val, Nat.pow_add, ← Nat.div_div_eq_div_mul,
    ← Nat.div_div_eq_div_mul, show (2 : ℕ) ^ 12 = 4096 from rfl, h]

end Batos
