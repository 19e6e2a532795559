import Batos.Vmm.Merge

/-!
# Software translation against the processor's

`vmm_translate` walks the tables of a root the way the processor does, and besides looks
up every table it meets in the registry: it must have the level it is met at and belong to
the root.  `ownedTranslate` is the processor's walk with this condition and the processor's
address: the bits of the leaf above the page, and the bits of the virtual address below it.

The two find the same leaves.  They disagree on the address of some of them, because the
source takes bits 51:12 of the leaf whatever the size of the page.  In a 2 MiB or 1 GiB leaf
the bits below the page are no part of the address: bit 12 selects a memory type (PAT),
the others are reserved.  `vmmTranslate_eq_owned_iff` says on which leaves and addresses
this shows.

`vmm_inspect_mapping` is the same walk once more, and promises the base of the frame.  It keeps
the promise on 4 KiB pages.  For a huge leaf it returns the address of the byte, as
`vmm_translate` does (`inspectMapping_agrees_iff`).
-/

namespace Batos

open BitVec Option

/-- The tables the processor visits on the way to an address, with their levels. -/
def mmuTables (memory : Word → Fin 512 → Word) : (level : ℕ) → (p va : Word) → List (ℕ × Word)
  | 0, p, _ => [(0, p)]
  | level + 1, p, va =>
      let entry := memory p (levelIndex (level + 1) va)
      (level + 1, p) :: if isPresent entry = true ∧ isHuge entry = false then
        mmuTables memory level (entryAddress entry) va else []

/-- Every table on the way to the address is registered, with its level, as one of the
root's. -/
def ownsPath (s : Paging) (owner : Word) (tables : List (ℕ × Word)) : Bool :=
  tables.all fun (level, p) => verifyPageTableRecord s p level owner

/-- What the processor makes of an address, if it gets there through tables of the root. -/
def ownedTranslate (s : Paging) (root va : Word) : Option Word :=
  if ownsPath s root (mmuTables s.memory vmmLevelPml4 root va) then
    (mmuTranslate s.memory root va).map Translation.physical
  else none

/-! ## The same leaves -/

section Leaves

variable {s : Paging} {owner va : Word}

theorem ownsPath_cons (level : ℕ) (p : Word) (tables : List (ℕ × Word)) :
    ownsPath s owner ((level, p) :: tables) =
      (verifyPageTableRecord s p level owner && ownsPath s owner tables) := rfl

/-- Nothing is found through a table that is not the root's. -/
theorem walk_of_not_owned {level : ℕ} {p : Word} (h : verifyPageTableRecord s p level owner = false)
    (va : Word) : s.tables.walk owner level p va = none := by
  refine Tables.walk_of_not_verified (Tables.verified_eq_none fun t ht hl ho => ?_) va
  rw [verifyPageTableRecord_iff.mpr ⟨t, ht, hl, ho⟩] at h
  cases h

/-- **The checked walk is the processor's walk, through owned tables.** -/
theorem walk_eq_ownedWalk (level : ℕ) (p : Word) :
    s.tables.walk owner level p va =
      if ownsPath s owner (mmuTables s.memory level p va) then
        mmuWalk s.memory level p va else none := by
  induction level generalizing p with
  | zero =>
      rw [mmuTables, ownsPath_cons]
      cases hp : verifyPageTableRecord s p 0 owner with
      | false =>
          rw [walk_of_not_owned hp]
          rfl
      | true =>
          obtain ⟨t, ht, hl, ho⟩ := verifyPageTableRecord_iff.mp hp
          rw [Tables.walk_zero ht hl ho, mmuWalk, memory_of_tables ht]
          rfl
  | succ level ih =>
      rw [mmuTables, ownsPath_cons]
      cases hp : verifyPageTableRecord s p (level + 1) owner with
      | false =>
          rw [walk_of_not_owned hp]
          rfl
      | true =>
          obtain ⟨t, ht, hl, ho⟩ := verifyPageTableRecord_iff.mp hp
          rw [Tables.walk_succ ht hl ho, mmuWalk, memory_of_tables ht, Bool.true_and]
          generalize t.entries (levelIndex (level + 1) va) = entry
          cases hpresent : isPresent entry with
          | false => simp
          | true =>
              cases hhuge : isHuge entry with
              | true => simp [ownsPath]
              | false => simpa using ih (entryAddress entry)

/-- The levels of leaves. -/
theorem level_of_mmuWalk {memory : Word → Fin 512 → Word} {level l : ℕ} {p entry : Word}
    (h : mmuWalk memory level p va = some (l, entry)) : l ≤ level ∧ l ≠ vmmLevelPml4 := by
  induction level generalizing p with
  | zero =>
      rw [mmuWalk, Tables.leafOf] at h
      split_ifs at h
      obtain ⟨rfl, -⟩ := Prod.mk.inj (some.inj h)
      exact ⟨le_rfl, by decide⟩
  | succ level ih =>
      rw [mmuWalk] at h
      split_ifs at h with hpresent hhuge htop
      · obtain ⟨rfl, -⟩ := Prod.mk.inj (some.inj h)
        exact ⟨le_rfl, htop⟩
      · obtain ⟨hle, hne⟩ := ih h
        exact ⟨hle.trans (Nat.le_succ level), hne⟩

end Leaves

/-! ## The addresses -/

/-- The address the source reports for a leaf of any size. -/
theorem leafAddress_eq {level : ℕ} (hlevel : level < vmmLevelPml4) (va entry : Word) :
    leafAddress va (level, entry) = entryAddress entry ||| (va &&& offsetMask level) := by
  match level, hlevel with
  | 0, _ => rfl
  | 1, _ => rfl
  | 2, _ => rfl

/-- Bits below the page do no harm where the virtual address has them too. -/
theorem or_and_eq_iff (base va mask : Word) :
    base ||| (va &&& mask) = (base &&& ~~~mask) ||| (va &&& mask) ↔
      base &&& mask &&& ~~~va = 0 := by
  rw [eq_of_getLsbD_eq_iff, eq_of_getLsbD_eq_iff]
  refine forall_congr' fun i => forall_congr' fun hi => ?_
  have hzero : (0 : Word).getLsbD i = false := getLsbD_zero
  rw [hzero]
  simp only [getLsbD_or, getLsbD_and, getLsbD_not, hi, decide_true, Bool.true_and]
  cases base.getLsbD i <;> cases va.getLsbD i <;> cases mask.getLsbD i <;> decide

/-- **When the software translation is the processor's.**  For every state and every root
and address, `vmm_translate` succeeds exactly when the processor finds a leaf through tables
of the root.  It returns the processor's address exactly when the bits that the address
field of the leaf has below the page, if any, are also bits of the virtual address. -/
theorem vmmTranslate_eq_owned_iff (s : Paging) (root va : Word) :
    (vmmTranslate s root va).isSome = (ownedTranslate s root va).isSome ∧
      (vmmTranslate s root va = ownedTranslate s root va ↔
        ∀ level entry, ownsPath s root (mmuTables s.memory vmmLevelPml4 root va) = true →
          mmuWalk s.memory vmmLevelPml4 root va = some (level, entry) →
          entryAddress entry &&& offsetMask level &&& ~~~va = 0) := by
  rw [vmmTranslate_eq, Tables.lookup, walk_eq_ownedWalk, ownedTranslate]
  by_cases howns : ownsPath s root (mmuTables s.memory vmmLevelPml4 root va) = true
  swap
  · rw [if_neg howns, if_neg howns]
    exact ⟨rfl, iff_of_true rfl fun _ _ h => absurd h howns⟩
  rw [if_pos howns, if_pos howns, mmuTranslate]
  cases hwalk : mmuWalk s.memory vmmLevelPml4 root va with
  | none => exact ⟨rfl, iff_of_true rfl fun _ _ _ hleaf => absurd hleaf.symm (some_ne_none _)⟩
  | some leaf =>
      obtain ⟨level, entry⟩ := leaf
      obtain ⟨hle, hne⟩ := level_of_mmuWalk hwalk
      refine ⟨rfl, ?_⟩
      rw [map_some, map_some, map_some, some.injEq,
        leafAddress_eq (lt_of_le_of_ne hle hne), or_and_eq_iff]
      constructor
      · rintro hbits level' entry' - heq
        obtain ⟨rfl, rfl⟩ := Prod.mk.inj (some.inj heq)
        exact hbits
      · exact fun hall => hall level entry howns rfl

/-- The boot loader's hierarchy of `loaderBoot`, with the PAT bit set in its 1 GiB leaf. -/
def patMemory (p : Word) (index : Fin 512) : Word :=
  if p = 0x1F000 ∧ index = 0 then 0x20003
  else if p = 0x20000 ∧ index = 0 then 0x1083
  else 0

def patBoot : MmBoot :=
  { loaderBoot with
    memory := patMemory
    initialised := by decide +kernel }

/-- **The PAT bit of a copied leaf shows up in the address**: the kernel root maps the first
1 GiB to itself, and address 0 translates to `0x1000`. -/
theorem pat_bit_in_translation :
    (mmSystem demoImage).Admissible patBoot.start [.prepare] ∧
      let s := ((mmSystem demoImage).run patBoot.start [.prepare]).vmm.paging
      vmmVerifyPageTableRoot s 0x2000 = true ∧ vmmTranslate s 0x2000 0 = some 0x1000 ∧
        ownedTranslate s 0x2000 0 = some 0 := by
  refine ⟨⟨trivial, trivial⟩, ?_, ?_, ?_⟩
  · decide +kernel
  · decide +kernel
  · decide +kernel

/-! ## Inspection -/

/-- The bits of a leaf that `vmm_inspect_mapping` reports. -/
def leafFlags : ℕ × Word → Word
  | (0, entry) => entry &&& (vmmPresent ||| vmmWritable ||| vmmUser)
  | (_, entry) => entry &&& (vmmPresent ||| vmmWritable ||| vmmUser ||| vmmHuge)

/-- The address that `vmm_inspect_mapping` reports. -/
def inspectedAddress (va : Word) : ℕ × Word → Word
  | (0, entry) => entryAddress entry
  | leaf => leafAddress va leaf

theorem vmmInspectMapping_eq (s : Paging) (root va : Word) :
    vmmInspectMapping s root va =
      (s.tables.lookup root va).map fun leaf => (inspectedAddress va leaf, leafFlags leaf) := by
  unfold vmmInspectMapping
  rw [walkPageTables_eq]
  refine congrArg (Option.map · _) (funext fun leaf => ?_)
  obtain ⟨level, entry⟩ := leaf
  match level with
  | 0 => rfl
  | 1 => rfl
  | level + 2 => rfl

/-- The frame address of a leaf has no bits below the page. -/
theorem entryAddress_and_pageMask (entry : Word) : entryAddress entry &&& 0xFFF = 0 := by
  rw [entryAddress, BitVec.and_assoc, show addressMask &&& 0xFFF = 0#64 by decide, and_zero]
  rfl

/-- The byte address of a leaf has the page offset of the virtual address. -/
theorem leafAddress_and_pageMask (va : Word) (leaf : ℕ × Word) :
    leafAddress va leaf &&& 0xFFF = va &&& 0xFFF := by
  have hmask : ∀ entry mask : Word, mask &&& 0xFFF = 0xFFF →
      (entryAddress entry ||| (va &&& mask)) &&& 0xFFF = va &&& 0xFFF := by
    intro entry mask hmask
    rw [and_or_distrib_right, entryAddress_and_pageMask, BitVec.and_assoc, hmask]
    exact zero_or
  obtain ⟨level, entry⟩ := leaf
  match level with
  | 0 => exact hmask entry 0xFFF (by decide)
  | 1 => exact hmask entry 0x1FFFFF (by decide)
  | level + 2 => exact hmask entry 0x3FFFFFFF (by decide)

/-- Clearing the bits of a mask changes nothing exactly where none of them is set. -/
theorem eq_and_not_iff (a mask : Word) : a = a &&& ~~~mask ↔ a &&& mask = 0 := by
  have hor := or_and_eq_iff a 0 mask
  rw [show (0 : Word) = 0#64 from rfl, zero_and, or_zero, or_zero,
    not_zero, and_allOnes] at hor
  exact hor

/-- The inspected address is the base of the 4 KiB frame for a page, and for an address that is
the first of its 4 KiB. -/
theorem inspectedAddress_eq_base_iff (va : Word) (leaf : ℕ × Word) :
    inspectedAddress va leaf = leafAddress va leaf &&& ~~~0xFFF ↔ leaf.1 = 0 ∨
      va &&& 0xFFF = 0 := by
  obtain ⟨level, entry⟩ := leaf
  match level with
  | 0 =>
      refine iff_of_true ?_ (.inl rfl)
      change entryAddress entry = (entryAddress entry ||| (va &&& 0xFFF)) &&& ~~~0xFFF
      rw [and_or_distrib_right, ← (eq_and_not_iff _ _).mpr (entryAddress_and_pageMask entry),
        BitVec.and_assoc, show (0xFFF : Word) &&& ~~~0xFFF = 0#64 by decide, and_zero,
        or_zero]
  | level + 1 =>
      rw [show inspectedAddress va (level + 1, entry) = leafAddress va (level + 1, entry) from rfl,
        eq_and_not_iff, leafAddress_and_pageMask]
      exact (or_iff_right (Nat.succ_ne_zero level)).symm

/-- What `vmm_inspect_mapping` promises, against `vmm_translate` and the leaf in memory. -/
structure Paging.InspectionAgrees (s : Paging) (root va : Word) : Prop where
  succeeds : vmmInspectMapping s root va ≠ none ↔ vmmTranslate s root va ≠ none
  base : ∀ physical flags, vmmInspectMapping s root va = some (physical, flags) →
    ∃ address, vmmTranslate s root va = some address ∧ physical = address &&& ~~~0xFFF
  flags : ∀ physical flags, vmmInspectMapping s root va = some (physical, flags) →
    ∃ leaf, mmuWalk s.memory vmmLevelPml4 root va = some leaf ∧ flags = leafFlags leaf

/-- **When inspection agrees with translation.**  For every state, root and address, exactly if
the address is not mapped by a huge leaf or is the first of its 4 KiB.  What can go wrong is the
address: the two succeed together always, and the flags are those of the leaf. -/
theorem inspectMapping_agrees_iff (s : Paging) (root va : Word) :
    (s.InspectionAgrees root va ↔
      ∀ level entry, ownsPath s root (mmuTables s.memory vmmLevelPml4 root va) = true →
        mmuWalk s.memory vmmLevelPml4 root va = some (level, entry) → level = 0 ∨
        va &&& 0xFFF = 0) ∧
    (vmmInspectMapping s root va ≠ none ↔ vmmTranslate s root va ≠ none) ∧
    ∀ physical flags, vmmInspectMapping s root va = some (physical, flags) →
      ∃ leaf, mmuWalk s.memory vmmLevelPml4 root va = some leaf ∧ flags = leafFlags leaf := by
  have hinspect := vmmInspectMapping_eq s root va
  have htranslate := vmmTranslate_eq s root va
  rw [Tables.lookup, walk_eq_ownedWalk] at hinspect htranslate
  have hsucceeds : vmmInspectMapping s root va ≠ none ↔ vmmTranslate s root va ≠ none := by
    rw [hinspect, htranslate, ne_eq, ne_eq, map_eq_none_iff, map_eq_none_iff]
  have hflags : ∀ physical flags, vmmInspectMapping s root va = some (physical, flags) →
      ∃ leaf, mmuWalk s.memory vmmLevelPml4 root va = some leaf ∧ flags = leafFlags leaf := by
    intro physical flags heq
    rw [hinspect] at heq
    obtain ⟨leaf, hleaf, hresult⟩ := map_eq_some_iff.mp heq
    split_ifs at hleaf
    exact ⟨leaf, hleaf, (Prod.mk.inj hresult).2.symm⟩
  refine ⟨⟨fun hagrees level entry howns hwalk => ?_, fun hbase => ⟨hsucceeds, ?_, hflags⟩⟩,
    hsucceeds, hflags⟩
  · rw [if_pos howns, hwalk] at hinspect htranslate
    obtain ⟨address, haddress, hphysical⟩ := hagrees.base _ _ hinspect
    obtain rfl := some.inj (htranslate.symm.trans haddress)
    exact (inspectedAddress_eq_base_iff va (level, entry)).mp hphysical
  · intro physical flags heq
    rw [hinspect] at heq
    obtain ⟨⟨level, entry⟩, hleaf, hresult⟩ := map_eq_some_iff.mp heq
    rw [hleaf] at htranslate
    refine ⟨_, htranslate, ?_⟩
    split_ifs at hleaf with howns
    rw [← (Prod.mk.inj hresult).1]
    exact (inspectedAddress_eq_base_iff va (level, entry)).mpr (hbase level entry howns hleaf)

/-- The kernel root shares the loader's 1 GiB leaf at 0.  Inspecting the byte at `0x123` returns
`0x123` and not the base of its frame. -/
theorem inspectMapping_not_base :
    (mmSystem demoImage).Admissible loaderBoot.start [.prepare] ∧
      let s := ((mmSystem demoImage).run loaderBoot.start [.prepare]).vmm.paging
      vmmVerifyPageTableRoot s 0x2000 = true ∧ vmmTranslate s 0x2000 0x123 = some 0x123 ∧
        vmmInspectMapping s 0x2000 0x123 = some (0x123, 0x83) := by
  refine ⟨⟨trivial, trivial⟩, ?_, ?_, ?_⟩
  · decide +kernel
  · decide +kernel
  · decide +kernel

end Batos
