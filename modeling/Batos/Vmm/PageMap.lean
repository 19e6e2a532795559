import Batos.Vmm.Descent
import Batos.Vmm.Run

/-!
# Address spaces as page maps

What the operations of `vmm.c` do to `vmm_translate` and `vmm_inspect_mapping`, in
every state a run of the memory subsystem can reach.

Two roots own disjoint sets of tables, so an operation on one leaves every answer
about the other alone (`isolation`).  Within one address space `vmm_map_page` and
`vmm_unmap_page` act as insertion into and deletion from a map of pages
(`pageMap_correct`).  A `vmm_map_page` that fails has undone whatever it had begun
(`mapPage_transactional`).
-/

namespace Batos

variable {va pml4 pa flags : Word} {s s' : Paging}

/-! ## Isolation -/

/-- The operations that work on one address space. -/
inductive MmOp.On (root : Word) : MmOp → Prop
  | mapPage (va pa flags : Word) : On root (.mapPage root va pa flags)
  | unmapPage (va : Word) : On root (.unmapPage root va)
  | destroy : On root (.destroy root)

/-- An operation on one address space keeps the tables of all others. -/
theorem Mm.Inv.keeps_other {m : Mm} (h : m.Inv) (image : KernelImage) {a : Word} {op : MmOp}
    (hop : op.On a) {q : Word} {t : Table} (hq : m.vmm.paging.tables q = some t)
    (hne : t.owner ≠ a) : (m.step image op).vmm.paging.tables q = some t := by
  cases hop with
  | mapPage va pa flags =>
      change (vmmMapPage m.vmm.paging a va pa flags).2.tables q = some t
      rcases vmmMapPage_cases h.paging a va pa flags with ⟨s', heq, -, hsame⟩ | ⟨s', heq, -, hmaps⟩
      · rw [heq, hsame.tables]
        exact hq
      · rw [heq]
        exact (hmaps.grows h.paging).others hq hne
  | unmapPage va =>
      change (vmmUnmapPage m.vmm.paging a va).2.tables q = some t
      rcases vmmUnmapPage_cases h.paging.wf a va with
        ⟨heq, -⟩ | ⟨_, pt, u, -, -, -, -, hu, -, huo, -, heq, -⟩
      · rw [heq]
        exact hq
      · rw [heq, tables_write, Tables.writeEntry_of_ne ?_]
        · exact hq
        · rintro rfl
          obtain rfl := Option.some.inj (hu.symm.trans hq)
          exact hne huo
  | destroy =>
      change (vmmDestroyAddressSpace m.vmm a).2.paging.tables q = some t
      rcases vmmDestroyAddressSpace_cases h.paging a with ⟨s', epoch, heq, hstamps⟩ |
        ⟨s', epoch, spaces, cloned, r, heq, -, hr, hrl, -, -, hprunes⟩
      · rw [heq, hstamps.same.tables]
        exact hq
      · rw [heq]
        refine hprunes.keeps_of_owner h.paging hr hq ?_
        have hro : r.owner = a := h.paging.wf.root_self (by rw [Tables.forest_info hr, hrl])
        rw [hro]
        exact hne

/-- **Address spaces are isolated.**  In every reachable state, mapping, unmapping or
destroying in one address space, with any arguments and any outcome, changes no answer
about another live one, for any of the 2⁶⁴ virtual addresses. -/
theorem isolation (image : KernelImage) (boot : MmBoot) {ops : List MmOp}
    (hops : (mmSystem image).Admissible boot.start ops) {m : Mm}
    (hm : (mmSystem image).run boot.start ops = m) {a b : Word} (hne : a ≠ b)
    (hb : vmmVerifyPageTableRoot m.vmm.paging b = true) {op : MmOp} (hop : op.On a) (va : Word) :
    vmmTranslate (m.step image op).vmm.paging b va = vmmTranslate m.vmm.paging b va ∧
      vmmInspectMapping (m.step image op).vmm.paging b va =
        vmmInspectMapping m.vmm.paging b va := by
  have hinv : m.Inv := hm ▸ Mm.inv_run image boot hops
  obtain ⟨t, ht, hl, ho⟩ := vmmVerifyPageTableRoot_iff.mp hb
  have hlookup : (m.step image op).vmm.paging.tables.lookup b va =
      m.vmm.paging.tables.lookup b va := by
    refine Tables.walk_congr hinv.paging.wf (fun q u hq huo => ?_) ht hl ho
    refine hinv.keeps_other image hop hq ?_
    rw [huo]
    exact hne.symm
  exact ⟨vmmTranslate_congr hlookup, vmmInspectMapping_congr hlookup⟩

/-- The kernel's root `0x2000` has a page at `0x400000`, a second root `0x3000` none. -/
def demoPages : Mm :=
  (mmSystem demoImage).run demoBoot.start [.createAddressSpace, .mapPage 0x2000 0x400000 0x8000 2]

/-- The kernel's page is not affected by a mapping of the same address in another space. -/
theorem isolation_demo :
    vmmTranslate (demoPages.step demoImage (.mapPage 0x3000 0x400000 0x9000 2)).vmm.paging
      0x2000 0x400123 = some 0x8123 :=
  (isolation demoImage demoBoot (a := 0x3000) (by decide +kernel) rfl (by decide)
    (by decide +kernel) (.mapPage 0x400000 0x9000 2) 0x400123).1.trans (by decide +kernel)


/-! ## The page map -/

/-- The addresses of one page. -/
theorem toNat_add_offset (hva : va &&& 0xFFF = 0) {o : Word} (ho : o.toNat < 4096) :
    (va + o).toNat / 4096 = va.toNat / 4096 ∧ (va + o) &&& 0xFFF = o ∧ va + o = va ||| o := by
  have hmod := (and_pageMask_eq_zero_iff va).mp hva
  have hlt := va.isLt
  have hsum : (va + o).toNat = va.toNat + o.toNat := by
    rw [BitVec.toNat_add, Nat.mod_eq_of_lt (by omega)]
  refine ⟨by omega, ?_, ?_⟩
  · apply BitVec.eq_of_toNat_eq
    rw [BitVec.toNat_and, hsum]
    refine (Nat.and_two_pow_sub_one_eq_mod _ 12).trans ?_
    omega
  · apply BitVec.eq_of_toNat_eq
    rw [hsum, BitVec.toNat_or]
    obtain ⟨k, hk⟩ : 2 ^ 12 ∣ va.toNat := Nat.dvd_of_mod_eq_zero hmod
    rw [hk]
    exact Nat.two_pow_add_eq_or_of_lt ho k

/-- **A successful `vmm_map_page`, as seen by a walk**: the addresses of one page, which
led nowhere before, lead to the new leaf. -/
theorem Paging.Maps.lookup (h : s.Inv ∅) (hmaps : s.Maps pml4 va pa flags s') :
    s.tables.lookup pml4 va = none ∧
      ∀ va', s'.tables.lookup pml4 va' =
        if Tables.SamePath va' va then some (0, leafEntry pa flags)
        else s.tables.lookup pml4 va' := by
  obtain ⟨root, hroot, hlevel, howner⟩ := hmaps.root
  obtain ⟨s₃, pt, t, hdesc, rfl⟩ := hmaps.descends h
  obtain ⟨root', hroot', hl', ho', -⟩ := hdesc.grows.keeps hroot
  have hwrite := Tables.lookup_writeLeaf hdesc.inv.wf hroot' (hl'.trans hlevel)
    (ho'.trans howner) hdesc.path hdesc.table hdesc.level
  refine ⟨?_, fun va' => ?_⟩
  · -- storing the word that is there already changes nothing
    have hsame : s₃.tables.writeEntry pt (levelIndex 0 va) (t.entries (levelIndex 0 va)) =
        s₃.tables := by
      unfold Tables.writeEntry
      rw [hdesc.table, Option.map_some, Function.update_eq_self, ← hdesc.table,
        Function.update_eq_self]
    have hself := hwrite (t.entries (levelIndex 0 va)) va
    rw [hsame, if_pos (.refl va), hdesc.lookup] at hself
    rw [hself]
    exact if_pos hdesc.empty
  · rw [tables_write, ← hdesc.lookup]
    refine (hwrite (leafEntry pa flags) va').trans ?_
    rw [Tables.leafOf, isPresent_leafEntry]
    rfl

/-- A successful `vmm_map_page`, in terms of translations. -/
theorem Paging.Maps.translate (h : s.Inv ∅) (hmaps : s.Maps pml4 va pa flags s') (hinv : s'.Inv ∅)
    (hva : Canonical va) (hpa : pa.toNat < 2 ^ 52) :
    (∀ o : Word, o.toNat < 4096 → vmmTranslate s' pml4 (va + o) = some (pa + o)) ∧
      (∀ va', Canonical va' → va'.toNat / 4096 ≠ va.toNat / 4096 →
        vmmTranslate s' pml4 va' = vmmTranslate s pml4 va') ∧
      (vmmUnmapPage s' pml4 va).1 = some pa ∧
      ∀ va', vmmTranslate (vmmUnmapPage s' pml4 va).2 pml4 va' = vmmTranslate s pml4 va' := by
  obtain ⟨hbefore, hafter⟩ := hmaps.lookup h
  have haddr : entryAddress (leafEntry pa flags) = pa := by
    rw [entryAddress_leafEntry]
    exact frameAligned_of_lt ((and_pageMask_eq_zero_iff pa).mp hmaps.pa_aligned) hpa
  refine ⟨fun o ho => ?_, fun va' hva' hne => ?_, ?_⟩
  · obtain ⟨hpage, hoffset, -⟩ := toNat_add_offset hmaps.va_aligned ho
    have hleaf := hafter (va + o)
    rw [if_pos (Tables.samePath_of_page hpage)] at hleaf
    rw [vmmTranslate_of_page hleaf, haddr, hoffset, (toNat_add_offset hmaps.pa_aligned ho).2.2]
  · refine vmmTranslate_congr ?_
    rw [hafter, if_neg fun hsame => hne ((Tables.samePath_iff hva' hva).mp hsame)]
  · have hleaf := hafter va
    rw [if_pos (.refl va)] at hleaf
    rcases vmmUnmapPage_cases hinv.wf pml4 va with
      ⟨-, hnone⟩ | ⟨root, pt, t, -, -, -, -, -, -, -, hlookup, heq, hcleared⟩
    · exact absurd hleaf (hnone hmaps.va_aligned _)
    · rw [hleaf, Option.some.injEq, Prod.mk.injEq] at hlookup
      rw [heq, ← hlookup.2]
      refine ⟨congrArg some haddr, fun va' => vmmTranslate_congr ?_⟩
      rw [hcleared, hafter]
      split_ifs with hpath
      · rw [hpath.lookup, hbefore]
      · rfl

/-- **Map, unmap and translate form a page map.**  In every reachable state a
successful `vmm_map_page` makes the page translate to the frame, byte by byte, and
changes no other canonical address; the `vmm_unmap_page` that follows reports the
frame and restores every translation; and a page that translates already is never
mapped. -/
theorem pageMap_correct (image : KernelImage) (boot : MmBoot) {ops : List MmOp}
    (hops : (mmSystem image).Admissible boot.start ops) {s : Paging}
    (hs : ((mmSystem image).run boot.start ops).vmm.paging = s) (root : Word) {va : Word}
    (hva : Canonical va) {pa : Word} (hpa : pa.toNat < 2 ^ 52) (flags : Word) :
    ((vmmMapPage s root va pa flags).1 = 0 →
      (∀ o : Word, o.toNat < 4096 →
        vmmTranslate (vmmMapPage s root va pa flags).2 root (va + o) = some (pa + o)) ∧
      (∀ va', Canonical va' → va'.toNat / 4096 ≠ va.toNat / 4096 →
        vmmTranslate (vmmMapPage s root va pa flags).2 root va' = vmmTranslate s root va') ∧
      (vmmUnmapPage (vmmMapPage s root va pa flags).2 root va).1 = some pa ∧
      ∀ va', vmmTranslate (vmmUnmapPage (vmmMapPage s root va pa flags).2 root va).2 root va' =
        vmmTranslate s root va') ∧
    (vmmTranslate s root va ≠ none → (vmmMapPage s root va pa flags).1 ≠ 0) := by
  have hinv : s.Inv ∅ := hs ▸ (Mm.inv_run image boot hops).paging
  rcases vmmMapPage_cases hinv root va pa flags with ⟨s', heq, -⟩ | ⟨s', heq, hinv', hmaps⟩
  · rw [heq]
    have hfail : (-1 : ℤ) ≠ 0 := by decide
    exact ⟨fun hzero => absurd hzero hfail, fun _ => hfail⟩
  · rw [heq]
    refine ⟨fun _ => hmaps.translate hinv hinv' hva hpa, fun hsome => absurd ?_ hsome⟩
    rw [← Option.not_isSome_iff_eq_none, vmmTranslate_isSome, (hmaps.lookup hinv).1]
    exact Bool.false_ne_true

/-- Mapping the kernel's first page on the small machine succeeds, so its bytes
translate. -/
theorem pageMap_correct_demo :
    vmmTranslate (vmmMapPage demoBoot.start.vmm.paging 0x2000 0x400000 0x8000 2).2 0x2000
      (0x400000 + 0x123) = some (0x8000 + 0x123) :=
  ((@pageMap_correct demoImage demoBoot [] trivial _ rfl 0x2000 0x400000 (by decide) 0x8000
    (by decide) 2).1 (by decide +kernel)).1 0x123 (by decide)

/-! ## A mapping that fails -/

/-- What is registered, the words of the live tables and the bitmap of the PMM are the same. -/
structure Paging.Unchanged (s s' : Paging) : Prop where
  records : ∀ p level owner,
    (∃ r, s'.Live r ∧ r.physicalAddress = p ∧ r.level = level ∧ r.ownerPml4 = owner) ↔
      ∃ r, s.Live r ∧ r.physicalAddress = p ∧ r.level = level ∧ r.ownerPml4 = owner
  contents : ∀ r, s.Live r → s'.memory r.physicalAddress = s.memory r.physicalAddress
  bitmap : s'.pmm.bitmapBytes = s.pmm.bitmapBytes

/-- The records in use, read off the registered tables. -/
theorem Paging.Inv.exists_live_iff (h : s.Inv ∅) {p owner : Word} {level : ℕ} :
    (∃ r, s.Live r ∧ r.physicalAddress = p ∧ r.level = level ∧ r.ownerPml4 = owner) ↔
      ∃ t, s.tables p = some t ∧ t.level = level ∧ t.owner = owner := by
  constructor
  · rintro ⟨r, hr, rfl, rfl, rfl⟩
    exact ⟨_, h.tables_of_live hr, rfl, rfl⟩
  · rintro ⟨t, ht, rfl, rfl⟩
    exact live_of_tables ht

/-- States with the same tables and the same bits differ in nothing that counts. -/
theorem Paging.Same.unchanged (hsame : s.Same s') (h : s.Inv ∅) (h' : s'.Inv ∅) :
    s.Unchanged s' where
  records p level owner := by rw [h'.exists_live_iff, h.exists_live_iff, hsame.tables]
  contents r hr := by
    have ht := h.tables_of_live hr
    exact memory_of_tables ((congrFun hsame.tables _).trans ht)
  bitmap := bitmap_ext hsame.used

/-- **A failed `vmm_map_page` changes nothing.**  In every reachable state and for all
arguments, whatever made the call fail and however many tables it had created by then. -/
theorem mapPage_transactional (image : KernelImage) (boot : MmBoot) {m : Mm}
    (hm : (mmSystem image).Reachable boot.start m) (pml4 va pa flags : Word)
    (hfail : (vmmMapPage m.vmm.paging pml4 va pa flags).1 = -1) :
    m.vmm.paging.Unchanged (vmmMapPage m.vmm.paging pml4 va pa flags).2 := by
  obtain ⟨ops, hops, rfl⟩ := hm
  have hinv := (Mm.inv_run image boot hops).paging
  rcases vmmMapPage_cases hinv pml4 va pa flags with ⟨s', heq, hinv', hsame⟩ | ⟨s', heq, -⟩
  · rw [heq]
    exact hsame.unchanged hinv hinv'
  · rw [heq] at hfail
    cases hfail

/-- With two frames left, the call fails at the third table it needs. -/
theorem mapPage_transactional_demo :
    smallBoot.start.vmm.paging.Unchanged
      (vmmMapPage smallBoot.start.vmm.paging 0x2000 0x400000 0x8000 2).2 :=
  mapPage_transactional demoImage smallBoot (.refl _ smallBoot.start) 0x2000 0x400000 0x8000 2
    (by decide +kernel)

/-! ## A preparation that fails -/

/-- **A failed `vmm_prepare_address_space` changes nothing.**  In every reachable state and
for every hierarchy the processor may be using, wherever the call fails: in the clone, in any
of the copies, or at a huge entry of the source's PML4.  The records, the live tables, the
kernel's root among them, and the bitmap are the same, and so are all variables besides. -/
theorem prepare_transactional (image : KernelImage) (boot : MmBoot) {m : Mm}
    (hm : (mmSystem image).Reachable boot.start m)
    (hfail : (vmmPrepareAddressSpace m.vmm).1 = -1) :
    m.vmm.paging.Unchanged (vmmPrepareAddressSpace m.vmm).2.paging ∧
      (vmmPrepareAddressSpace m.vmm).2.paging.memory (vmmGetPml4 m.vmm) =
        m.vmm.paging.memory (vmmGetPml4 m.vmm) ∧
      (vmmPrepareAddressSpace m.vmm).2 =
        { m.vmm with paging := (vmmPrepareAddressSpace m.vmm).2.paging } := by
  obtain ⟨ops, hops, rfl⟩ := hm
  have hinv := Mm.inv_run image boot hops
  obtain ⟨kt, hkt, -⟩ := hinv.kernel
  rcases vmmPrepareAddressSpace_stages hinv.paging hkt hinv.stable_cr3 with
    ⟨code, s', heq, hinv', hsame, -⟩ | ⟨s₁, cloned, roots, s₂, -, heq⟩
  · rw [heq]
    refine ⟨hsame.unchanged hinv.paging hinv', ?_, rfl⟩
    have hkt' : s'.tables _ = some kt := (congrFun hsame.tables _).trans hkt
    exact (memory_of_tables hkt').trans (memory_of_tables hkt).symm
  · rw [heq] at hfail
    cases hfail

/-- A hierarchy with an empty PDPT in slot 0 and a huge entry in slot 1 of the PML4. -/
def hugeSlotMemory (p : Word) (index : Fin 512) : Word :=
  if p = 0x1F000 ∧ index = 0 then 0x20003 else if p = 0x1F000 ∧ index = 1 then 0x83 else 0

def hugeSlotBoot : MmBoot :=
  { demoBoot with
    memory := hugeSlotMemory
    initialised := by decide +kernel }

/-- Slot 1 makes the call fail after the clone and the copy of slot 0. -/
theorem prepare_transactional_demo :
    hugeSlotBoot.start.vmm.paging.Unchanged
      (vmmPrepareAddressSpace hugeSlotBoot.start.vmm).2.paging := by
  have hfail : (vmmPrepareAddressSpace hugeSlotBoot.start.vmm).1 = -1 := by decide +kernel
  exact (prepare_transactional demoImage hugeSlotBoot (.refl _ hugeSlotBoot.start) hfail).1

end Batos
