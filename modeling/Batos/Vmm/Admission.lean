import Batos.Vmm.PageMap
import Batos.Pmm.Init

/-!
# When a page can be mapped

The exact condition under which `vmm_map_page` succeeds, in terms of the state before the call
(`vmmMapPage_succeeds_iff`).  Its arguments have to pass the checks, the page must not be mapped
nor the way to it be blocked by a huge page, and there have to be as many free frames and as
many spare records as there are page tables missing on the way.

Of the addresses the checks look at nothing but the alignment.  The descent uses 36 of the 52
bits of the virtual page number, and the entry holds 40 of the 52 bits of the frame number.  So
a call that succeeds need not have mapped the page it was given, nor to the frame it was given
(`mapPage_represents_iff`).
-/

namespace Batos

open Finset (mem_filter mem_range range)

/-! ## Room for page tables -/

/-- How many frames `pmm_alloc_frame` has left. -/
def Pmm.available (s : Pmm) : ℕ :=
  if s.frameBitmap = 0 then 0 else ((range s.totalFrames).filter s.Free).card

/-- How many records are left for page tables. -/
def Paging.spareRecords (s : Paging) : ℕ :=
  SlotRegistry.spare PageTableRecord.inUse vmmMaxPageTables s.records

/-- There is room for `k` page tables. -/
def Paging.CanAllocate (s : Paging) (k : ℕ) : Prop := k ≤ s.pmm.available ∧ k ≤ s.spareRecords

instance (s : Paging) (k : ℕ) : Decidable (s.CanAllocate k) := inferInstanceAs (Decidable (_ ∧ _))

section Room

variable {s s' : Paging} {k : ℕ}

theorem Paging.CanAllocate.mono (h : s.CanAllocate k) {j : ℕ} (hle : j ≤ k) : s.CanAllocate j :=
  ⟨hle.trans h.1, hle.trans h.2⟩

theorem Pmm.available_pos_iff {s : Pmm} : 0 < s.available ↔ s.frameBitmap ≠ 0 ∧ ∃ f, s.Free f := by
  unfold Pmm.available
  by_cases hnull : s.frameBitmap = 0
  · rw [if_pos hnull]
    exact iff_of_false (Nat.lt_irrefl 0) fun h => h.1 hnull
  · rw [if_neg hnull, Finset.card_pos]
    constructor
    · rintro ⟨f, hf⟩
      exact ⟨hnull, f, (mem_filter.mp hf).2⟩
    · rintro ⟨-, f, hf⟩
      exact ⟨f, mem_filter.mpr ⟨mem_range.mpr hf.2.1, hf⟩⟩

theorem Pmm.available_reserve {s : Pmm} {f : ℕ} (hinstalled : s.frameBitmap ≠ 0)
    (hfree : s.Free f) :
    (s.reserve f).available + 1 = s.available := by
  unfold Pmm.available
  rw [if_neg hinstalled, if_neg (show (s.reserve f).frameBitmap ≠ 0 from hinstalled)]
  have hset : (range (s.reserve f).totalFrames).filter (s.reserve f).Free =
      ((range s.totalFrames).filter s.Free).erase f := by
    ext g
    rw [Finset.mem_erase, mem_filter, mem_filter]
    have hused := Pmm.used_reserve s f g
    constructor
    · rintro ⟨hrange, hpos, hlt, hclear⟩
      rw [hused, Bool.or_eq_false_iff, decide_eq_false_iff_not] at hclear
      exact ⟨hclear.1, hrange, hpos, hlt, hclear.2⟩
    · rintro ⟨hne, hrange, hpos, hlt, hclear⟩
      refine ⟨hrange, hpos, hlt, ?_⟩
      rw [hused, hclear, decide_eq_false hne]
      rfl
  rw [hset]
  exact Finset.card_erase_add_one (mem_filter.mpr ⟨mem_range.mpr hfree.2.1, hfree⟩)

/-- **When `allocate_page_table` succeeds**, and what it leaves. -/
theorem allocatePageTable_room (h : s.Booked) {level : ℕ} (hlevel : level ≤ vmmLevelPml4)
    (owner : Word) :
    (¬ s.CanAllocate 1 ∧ (allocatePageTable s level owner).1 = none) ∨
      ∃ c s', allocatePageTable s level owner = (some c, s') ∧ s.tables c = none ∧
        (∀ k, s'.CanAllocate k ↔ s.CanAllocate (k + 1)) ∧ s'.memory c = fun _ => 0 := by
  unfold allocatePageTable
  rcases pmmAllocFrame_cases s.pmm with ⟨heq, hnone⟩ | ⟨f, hfree, -, hinstalled, heq⟩
  · left
    refine ⟨fun hroom => ?_, by simp only [heq, if_true]⟩
    obtain ⟨hinstalled, f, hfree⟩ := Pmm.available_pos_iff.mp hroom.1
    exact hnone hinstalled f hfree
  · have hne := (h.sound.releases_reserve hinstalled hfree).nonzero
    have havailable := Pmm.available_reserve hinstalled hfree
    simp only [heq, if_neg hne]
    unfold registerPageTable
    rw [if_neg hne, if_neg (Nat.not_lt.mpr hlevel)]
    cases hclaim : SlotRegistry.claim PageTableRecord.inUse vmmMaxPageTables {}
        (fun record : PageTableRecord =>
          { record with
            physicalAddress := frameAddress f
            ownerPml4 := if level = vmmLevelPml4 ∧ owner = 0 then frameAddress f else owner
            level := level
            inUse := true }) s.records with
    | none =>
        refine .inl ⟨fun hroom => ?_, ?_⟩
        · exact Bool.false_ne_true ((congrArg Option.isSome hclaim).symm.trans
            (SlotRegistry.claim_isSome_iff.mpr hroom.2))
        · rw [show (zeroPage { s with pmm := s.pmm.reserve f } (frameAddress f)).records = s.records
            from rfl, hclaim]
          rfl
    | some records =>
        have hspare := SlotRegistry.spare_claim (fun _ => rfl) hclaim
        rw [show (zeroPage { s with pmm := s.pmm.reserve f } (frameAddress f)).records = s.records
          from rfl, hclaim]
        refine .inr ⟨frameAddress f, _, rfl, ?_, fun k => ?_, Function.update_self _ _ _⟩
        · refine h.tables_of_free ?_
          rwa [frameOf_frameAddress (h.sound.lt_of_free hfree)]
        · show k ≤ (s.pmm.reserve f).available ∧ k ≤ SlotRegistry.spare _ _ records ↔
            k + 1 ≤ s.pmm.available ∧ k + 1 ≤ s.spareRecords
          rw [← havailable, Paging.spareRecords, ← hspare, Nat.add_le_add_iff_right,
            Nat.add_le_add_iff_right]

end Room

/-! ## The descent -/

/-- How many tables are missing on the way from a table to the page table of an address; `none`
if the way is blocked or the page is mapped. -/
def Paging.missingTables (s : Paging) (owner va : Word) : (level : ℕ) → Word → Option ℕ
  | 0, p => if isPresent (s.memory p (levelIndex 0 va)) then none else some 0
  | level + 1, p =>
      if isPresent (s.memory p (levelIndex (level + 1) va)) then
        (verifyExistingChildTable s (s.memory p (levelIndex (level + 1) va)) level owner).bind
          (missingTables s owner va level)
      else some (level + 1)

/-- The way from a table to an unmapped page is open, and there is room for the missing tables. -/
def Paging.Feasible (s : Paging) (owner va : Word) (level : ℕ) (p : Word) : Prop :=
  ∃ k, s.missingTables owner va level p = some k ∧ s.CanAllocate k

section Descent

variable {s : Paging} {owner va parent : Word} {t : Table} {level : ℕ}

/-- An empty table lacks everything below it. -/
theorem Paging.missingTables_of_empty {p : Word} (hempty : s.memory p = fun _ => 0) (level : ℕ) :
    s.missingTables owner va level p = some level := by
  have hnone : ∀ i, isPresent (s.memory p i) = false := by
    intro i
    rw [hempty]
    exact isPresent_zero
  cases level with
  | zero | succ => rw [Paging.missingTables, if_neg (by rw [hnone]; decide)]

/-- One step of the descent keeps the question open, or answers it with no. -/
theorem getOrCreateTable_missing (h : s.Inv ∅) (htab : s.tables parent = some t)
    (hlevel : t.level = level + 1) (owner va flags : Word) :
    (¬ s.Feasible owner va (level + 1) parent ∧
        (getOrCreateTable s parent (levelIndex (level + 1) va) flags level owner).1 = none) ∨
      ∃ c created s', getOrCreateTable s parent (levelIndex (level + 1) va) flags level owner =
          (some (c, created), s') ∧
        (s.Feasible owner va (level + 1) parent ↔ s'.Feasible owner va level c) := by
  have hle : t.level ≤ vmmLevelPml4 := h.wf.level_le (Tables.forest_info htab)
  unfold getOrCreateTable
  by_cases hpresent : isPresent (s.memory parent (levelIndex (level + 1) va)) = true
  · rw [if_pos hpresent]
    cases hchild : verifyExistingChildTable s (s.memory parent (levelIndex (level + 1) va))
      level owner with
    | none =>
        refine .inl ⟨fun ⟨k, hk, _⟩ => ?_, rfl⟩
        rw [Paging.missingTables, if_pos hpresent, hchild] at hk
        cases hk
    | some c =>
        refine .inr ⟨c, false, s, rfl, ?_⟩
        unfold Paging.Feasible
        rw [Paging.missingTables, if_pos hpresent, hchild, Option.bind_some]
  · rw [if_neg hpresent]
    have hmissing : s.missingTables owner va (level + 1) parent = some (level + 1) := by
      rw [Paging.missingTables, if_neg hpresent]
    rcases allocatePageTable_room h.booked (show level ≤ vmmLevelPml4 by omega) owner with
      ⟨hno, heq⟩ | ⟨c, s', heq, hfresh, hroom, hempty⟩
    · refine .inl ⟨fun ⟨k, hk, hroom⟩ => ?_, ?_⟩
      · rw [hmissing, Option.some.injEq] at hk
        exact hno (hroom.mono (by omega))
      · cases hresult : allocatePageTable s level owner with
        | mk child s' =>
            rw [hresult] at heq
            obtain rfl : child = none := heq
            rfl
    · rw [heq]
      have hne : c ≠ parent := (ne_of_eq_none htab hfresh).symm
      -- the new child is empty, so all tables below it are missing
      have hempty' : (s'.write parent (levelIndex (level + 1) va) (tableEntry c flags)).memory c =
          fun _ => 0 := by
        rw [memory_write_of_ne hne, hempty]
      have hroom' : ∀ k, (s'.write parent (levelIndex (level + 1) va)
          (tableEntry c flags)).CanAllocate k ↔ s.CanAllocate (k + 1) := hroom
      refine .inr ⟨c, true, _, rfl, ?_⟩
      unfold Paging.Feasible
      rw [hmissing, Paging.missingTables_of_empty hempty']
      simp only [Option.some.injEq, exists_eq_left', hroom']

/-- **One step of the descent**, together with the table it leads to. -/
theorem getOrCreateTable_feasible (h : s.Inv ∅) (htab : s.tables parent = some t)
    (hlevel : t.level = level + 1) (howner : t.owner = owner) {va : Word} {index : Fin 512}
    (hindex : levelIndex (level + 1) va = index) (flags : Word) :
    (∃ s', getOrCreateTable s parent index flags level owner = (none, s') ∧
        ¬ s.Feasible owner va (level + 1) parent) ∨
      ∃ c created s' u, getOrCreateTable s parent index flags level owner =
          (some (c, created), s') ∧
        (s.Feasible owner va (level + 1) parent ↔ s'.Feasible owner va level c) ∧ s'.Inv ∅ ∧
        s'.tables c = some u ∧ u.level = level ∧ u.owner = owner := by
  subst hindex
  rcases getOrCreateTable_cases h htab level hlevel howner (levelIndex (level + 1) va) flags with
    ⟨s', heq, -⟩ | ⟨c, created, s', u, heq, -, hinv, hu⟩
  · rcases getOrCreateTable_missing h htab hlevel owner va flags with
      ⟨hno, -⟩ | ⟨c, created, s'', heq', -⟩
    · exact .inl ⟨s', heq, hno⟩
    · rw [heq] at heq'
      cases heq'
  · rcases getOrCreateTable_missing h htab hlevel owner va flags with
      ⟨-, hnone⟩ | ⟨c', created', s'', heq', hiff⟩
    · rw [heq] at hnone
      cases hnone
    · rw [heq] at heq'
      cases heq'
      exact .inr ⟨c, created, s', u, heq, hiff, hinv, hu⟩

end Descent

/-! ## The calls that succeed -/

/-- What `vmm_map_page` asks of its arguments and of the state. -/
structure Paging.Admits (s : Paging) (pml4 va pa flags : Word) : Prop where
  flags : flags &&& ~~~(vmmWritable ||| vmmUser) = 0
  root : vmmVerifyPageTableRoot s pml4 = true
  va_aligned : va &&& 0xFFF = 0
  pa_aligned : pa &&& 0xFFF = 0
  feasible : s.Feasible pml4 va vmmLevelPml4 pml4

section Calls

variable {s : Paging}

/-- **When `vmm_map_page` succeeds.** -/
theorem vmmMapPage_succeeds_iff (h : s.Inv ∅) (pml4 va pa flags : Word) :
    (vmmMapPage s pml4 va pa flags).1 = 0 ↔ s.Admits pml4 va pa flags := by
  have hfail : ¬ (-1 : ℤ) = 0 := by decide
  unfold vmmMapPage
  split_ifs with hzero hflags hroot hva hpa
  · refine iff_of_false hfail fun hadmits => ?_
    obtain ⟨t, ht, -⟩ := vmmVerifyPageTableRoot_iff.mp hadmits.root
    rw [hzero, tables_zero] at ht
    cases ht
  · exact iff_of_false hfail fun hadmits => hflags hadmits.flags
  · exact iff_of_false hfail fun hadmits => Bool.false_ne_true (hroot.symm.trans hadmits.root)
  · exact iff_of_false hfail fun hadmits => hva hadmits.va_aligned
  · exact iff_of_false hfail fun hadmits => hpa hadmits.pa_aligned
  rw [not_not] at hflags hva hpa
  rw [Bool.not_eq_false] at hroot
  have hadmits : s.Admits pml4 va pa flags ↔ s.Feasible pml4 va vmmLevelPml4 pml4 :=
    ⟨fun hadmits => hadmits.feasible, fun hfeasible => ⟨hflags, hroot, hva, hpa, hfeasible⟩⟩
  rw [hadmits]
  obtain ⟨t₃, ht₃, hl₃, ho₃⟩ := vmmVerifyPageTableRoot_iff.mp hroot
  -- PML4 to PDPT
  rcases getOrCreateTable_feasible h ht₃ hl₃ ho₃ (show _ = pml4Index va from rfl) flags with
    ⟨s₁, heq, hno⟩ | ⟨pdpt, b₂, s₁, t₂, heq, hiff₂, hinv₁, ht₂, hl₂, ho₂⟩
  · simp only [heq]
    exact iff_of_false hfail hno
  simp only [heq]
  rw [show s.Feasible pml4 va vmmLevelPml4 pml4 ↔ _ from hiff₂]
  -- PDPT to PD
  rcases getOrCreateTable_feasible hinv₁ ht₂ hl₂ ho₂ (show _ = pdptIndex va from rfl) flags with
    ⟨s₂, heq, hno⟩ | ⟨pd, b₁, s₂, t₁, heq, hiff₁, hinv₂, ht₁, hl₁, ho₁⟩
  · simp only [heq]
    exact iff_of_false hfail hno
  simp only [heq]
  rw [hiff₁]
  -- PD to PT
  rcases getOrCreateTable_feasible hinv₂ ht₁ hl₁ ho₁ (show _ = pdIndex va from rfl) flags with
    ⟨s₃, heq, hno⟩ | ⟨pt, b₀, s₃, t₀, heq, hiff₀, hinv₃, ht₀, hl₀, ho₀⟩
  · simp only [heq]
    exact iff_of_false hfail hno
  simp only [heq]
  rw [hiff₀]
  unfold Paging.Feasible
  rw [Paging.missingTables]
  by_cases hpresent : isPresent (s₃.memory pt (ptIndex va)) = true
  · rw [if_pos hpresent, if_pos (show isPresent (s₃.memory pt (levelIndex 0 va)) =
      true from hpresent)]
    refine iff_of_false hfail ?_
    rintro ⟨k, hk, -⟩
    cases hk
  · rw [if_neg hpresent, if_neg (show ¬ isPresent (s₃.memory pt (levelIndex 0 va)) =
      true from hpresent)]
    exact iff_of_true rfl ⟨0, rfl, Nat.zero_le _, Nat.zero_le _⟩

end Calls

/-! ## Addresses the entries cannot hold -/

/-- A mapping that is what the call asked for: the addresses fit the entry and the indices, the
page translates to the frame, and no other page of the address space starts to translate. -/
structure Paging.Represents (s s' : Paging) (pml4 va pa : Word) : Prop where
  canonical : Canonical va
  physical : pa.toNat < 2 ^ 52
  translates : vmmTranslate s' pml4 va = some pa
  alone : ∀ va', Canonical va' → va'.toNat / 4096 ≠ va.toNat / 4096 →
    vmmTranslate s pml4 va' = none → vmmTranslate s' pml4 va' = none

/-- What a successful `vmm_map_page` does for any addresses: every address with the same indices
starts to translate, and the entry holds the bits 12 to 51 of the physical address. -/
theorem Paging.Maps.translate_any {s s' : Paging} {pml4 va pa flags : Word} (h : s.Inv ∅)
    (hmaps : s.Maps pml4 va pa flags s') :
    vmmTranslate s' pml4 va = some (entryAddress pa) ∧
      ∀ va', vmmTranslate s' pml4 va' ≠ none ↔
        Tables.SamePath va' va ∨ vmmTranslate s pml4 va' ≠ none := by
  obtain ⟨-, hafter⟩ := hmaps.lookup h
  have htranslate : ∀ {p : Paging} {va' : Word}, vmmTranslate p pml4 va' ≠ none ↔
      p.tables.lookup pml4 va' ≠ none := by
    intro p va'
    rw [← Option.isSome_iff_ne_none, vmmTranslate_isSome, Option.isSome_iff_ne_none]
  constructor
  · have hleaf := hafter va
    rw [if_pos (.refl va)] at hleaf
    rw [vmmTranslate_of_page hleaf, entryAddress_leafEntry, hmaps.va_aligned,
      show (0 : Word) = 0#64 from rfl, BitVec.or_zero]
  · intro va'
    rw [htranslate, htranslate, hafter va']
    by_cases hpath : Tables.SamePath va' va
    · rw [if_pos hpath]
      exact iff_of_true (Option.some_ne_none _) (.inl hpath)
    · rw [if_neg hpath]
      exact (or_iff_right hpath).symm

/-- **`vmm_map_page` does not reject what it cannot represent.**  In every reachable state and for
all arguments, a call that returns 0 has mapped the page it was given to the frame it was given,
and nothing else, exactly if the virtual address is canonical and the physical address has 52
bits, or the call does not return 0 at all.  When it does, the entry holds the lower 52 bits of the
physical address only, and the pages that start to translate are those with the four indices of
the virtual address. -/
theorem mapPage_represents_iff (image : KernelImage) (boot : MmBoot) {m : Mm}
    (hm : (mmSystem image).Reachable boot.start m) (pml4 va pa flags : Word) :
    (((vmmMapPage m.vmm.paging pml4 va pa flags).1 = 0 →
        m.vmm.paging.Represents (vmmMapPage m.vmm.paging pml4 va pa flags).2 pml4 va pa) ↔
      Canonical va ∧ pa.toNat < 2 ^ 52 ∨ ¬ m.vmm.paging.Admits pml4 va pa flags) ∧
    ((vmmMapPage m.vmm.paging pml4 va pa flags).1 = 0 →
      vmmTranslate (vmmMapPage m.vmm.paging pml4 va pa flags).2 pml4 va = some (entryAddress pa) ∧
      ∀ va', vmmTranslate (vmmMapPage m.vmm.paging pml4 va pa flags).2 pml4 va' ≠ none ↔
        Tables.SamePath va' va ∨ vmmTranslate m.vmm.paging pml4 va' ≠ none) := by
  obtain ⟨ops, hops, rfl⟩ := hm
  have hinv := (Mm.inv_run image boot hops).paging
  obtain ⟨m, hm⟩ : ∃ m, m = (mmSystem image).run boot.start ops := ⟨_, rfl⟩
  rw [← hm] at hinv ⊢
  have hsucceeds := vmmMapPage_succeeds_iff hinv pml4 va pa flags
  rcases vmmMapPage_cases hinv pml4 va pa flags with ⟨s', heq, -⟩ | ⟨s', heq, hinv', hmaps⟩
  · rw [heq] at hsucceeds ⊢
    have hfail : ¬ (-1 : ℤ) = 0 := by decide
    exact ⟨iff_of_true (fun hzero => absurd hzero hfail) (.inr fun hadmits =>
      hfail (hsucceeds.mpr hadmits)), fun hzero => absurd hzero hfail⟩
  · rw [heq] at hsucceeds ⊢
    refine ⟨⟨fun himp => ?_, fun hor _ => ?_⟩, fun _ => hmaps.translate_any hinv⟩
    · have hrepresents := himp rfl
      exact .inl ⟨hrepresents.canonical, hrepresents.physical⟩
    · obtain ⟨hva, hpa⟩ := hor.resolve_right (not_not.mpr (hsucceeds.mp rfl))
      obtain ⟨htranslate, hothers, -⟩ := hmaps.translate hinv hinv' hva hpa
      refine ⟨hva, hpa, ?_, fun va' hva' hne hnone => (hothers va' hva' hne).trans hnone⟩
      have hself := htranslate 0#64 (by decide)
      rwa [BitVec.add_zero, BitVec.add_zero] at hself

/-- On the small machine, mapping the page at 2⁴⁸ + 4 MiB succeeds and maps the one at 4 MiB, and
mapping to the frame at 2⁵² + 32 KiB succeeds and maps to the one at 32 KiB. -/
theorem mapPage_drops_bits :
    (vmmMapPage demoBoot.start.vmm.paging 0x2000 0x1000000400000 0x8000 2).1 = 0 ∧
    ¬ Canonical 0x1000000400000 ∧ vmmTranslate demoBoot.start.vmm.paging 0x2000 0x400000 = none ∧
    vmmTranslate (vmmMapPage demoBoot.start.vmm.paging 0x2000 0x1000000400000 0x8000 2).2 0x2000
      0x400000 = some 0x8000 ∧
    (vmmMapPage demoBoot.start.vmm.paging 0x2000 0x400000 0x10000000008000 2).1 = 0 ∧
    vmmTranslate (vmmMapPage demoBoot.start.vmm.paging 0x2000 0x400000 0x10000000008000 2).2 0x2000
      0x400000 = some 0x8000 := by
  refine ⟨?_, ?_, ?_, ?_, ?_, ?_⟩ <;> decide +kernel

/-- The same page with addresses that fit. -/
theorem mapPage_represents_iff_demo :
    demoBoot.start.vmm.paging.Represents
      (vmmMapPage demoBoot.start.vmm.paging 0x2000 0x400000 0x8000 2).2 0x2000 0x400000 0x8000 := by
  have hok : (vmmMapPage demoBoot.start.vmm.paging 0x2000 0x400000 0x8000 2).1 = 0 := by
    decide +kernel
  have hfits : Canonical 0x400000 ∧ (0x8000 : Word).toNat < 2 ^ 52 := by decide
  exact (mapPage_represents_iff demoImage demoBoot (.refl _ demoBoot.start) 0x2000 0x400000 0x8000
    2).1.mpr (.inl hfits) hok

end Batos
