import Batos.Vmm.Epochs
import Batos.Vmm.KernelSections

/-!
# Address spaces of the kernel

`vmm_create_kernel_address_space` creates a root and maps the five ranges of the kernel image into
it.  It fails for a malformed image, for want of frames or records, and when two ranges meet in a
page; whatever has been built by then is destroyed again, by `vmm_destroy_address_space`, whose
result is not looked at.

It is always 0.  The tables of the new root form a tree, no check has stamped them with the number
of the next one (`Vmm/Epochs.lean`), and a new root is not active.  So a call that fails leaves the
tables, the bitmap and the records in use as they were, and a call that succeeds leaves a root in
which the pages of the image are mapped, and no other pages (`createKernelAddressSpace_exact`).
-/

namespace Batos

open AddressSpaceRecord (inUse pml4Physical)

variable {sec : Word × Word × Word} {image : KernelImage} {v : Vmm}

/-! ## The image -/

/-- The ranges of the image: what is in front of the text, text, read-only data, data and bss. -/
def KernelImage.ranges (image : KernelImage) : List (Word × Word) :=
  [(image.virtualBase, image.textStart), (image.textStart, image.textEnd),
    (image.rodataStart, image.rodataEnd), (image.dataStart, image.dataEnd),
    (image.bssStart, image.bssEnd)]

/-- The ranges that are written to. -/
def KernelImage.writableRanges (image : KernelImage) : List (Word × Word) :=
  [(image.virtualBase, image.textStart), (image.dataStart, image.dataEnd),
    (image.bssStart, image.bssEnd)]

/-- The ranges are those of the sections. -/
theorem KernelImage.ranges_eq (image : KernelImage) :
    image.ranges = image.sections.map fun sec => (sec.1, sec.2.1) := rfl

theorem KernelImage.range_of_mem (image : KernelImage) (h : sec ∈ image.sections) :
    (sec.1, sec.2.1) ∈ image.ranges := by
  rw [image.ranges_eq]
  exact List.mem_map_of_mem h

theorem KernelImage.exists_section (image : KernelImage) {range : Word × Word}
    (h : range ∈ image.ranges) : ∃ flags, (range.1, range.2, flags) ∈ image.sections := by
  rw [image.ranges_eq] at h
  obtain ⟨⟨start, stop, flags⟩, hsec, rfl⟩ := List.mem_map.mp h
  exact ⟨flags, hsec⟩

theorem KernelImage.mem_writableRanges (image : KernelImage) (range : Word × Word) :
    range ∈ image.writableRanges ↔ (range.1, range.2, vmmWritable) ∈ image.sections := by
  obtain ⟨start, stop⟩ := range
  simp [writableRanges, sections]

theorem KernelImage.flags_of_mem (image : KernelImage) (h : sec ∈ image.sections) :
    sec.2.2 = vmmWritable ∨ sec.2.2 = 0 := by
  simp only [sections, List.mem_cons, List.not_mem_nil, or_false] at h
  rcases h with rfl | rfl | rfl | rfl | rfl
  · exact Or.inl rfl
  · exact Or.inr rfl
  · exact Or.inr rfl
  · exact Or.inl rfl
  · exact Or.inl rfl

/-- The address is on a page that has a byte of one of the ranges. -/
def CoveredBy (ranges : List (Word × Word)) (va : Word) : Prop :=
  ∃ range ∈ ranges, SectionCovers range.1 range.2 va

/-- The virtual addresses of the image are canonical, and its physical addresses have at most 52
bits.  A range may end where the lower half of the canonical addresses ends. -/
structure KernelImage.WellPlaced (image : KernelImage) : Prop where
  canonical : ∀ range ∈ image.ranges, range.1 < range.2 →
    Canonical range.1 ∧ (Canonical range.2 ∨ range.2.toNat = 2 ^ 47)
  physical : image.physicalBase.toNat + image.imageSize.toNat ≤ 2 ^ 52

/-- An image in the upper half of the address space. -/
theorem KernelImage.WellPlaced.of_upper
    (hupper : ∀ range ∈ image.ranges, 2 ^ 64 - 2 ^ 47 ≤ range.1.toNat ∧
      2 ^ 64 - 2 ^ 47 ≤ range.2.toNat)
    (hphysical : image.physicalBase.toNat + image.imageSize.toNat ≤ 2 ^ 52) : image.WellPlaced :=
  ⟨fun range hrange _ => ⟨Or.inr (hupper range hrange).1, Or.inl (Or.inr (hupper range hrange).2)⟩,
    hphysical⟩

/-- What the call has found out about an image it has mapped. -/
structure KernelImage.Checked (image : KernelImage) : Prop where
  virtual_aligned : image.virtualBase.toNat % 4096 = 0
  physical_aligned : image.physicalBase.toNat % 4096 = 0
  inside : ∀ range ∈ image.ranges, range.1 < range.2 →
    image.virtualBase.toNat ≤ range.1.toNat ∧
      (range.2.toNat + 4095) / 4096 ≤
        (image.virtualBase.toNat + image.imageSize.toNat + 4095) / 4096

/-- A page of the image has a canonical address and lies in physical memory. -/
theorem KernelImage.Checked.page (h : image.Checked) (hplaced : image.WellPlaced) {va : Word}
    (hcovered : CoveredBy image.ranges va) (haligned : va.toNat % 4096 = 0) :
    Canonical va ∧ FrameAligned (image.physicalBase + (va - image.virtualBase)) := by
  obtain ⟨range, hrange, hlt, hfrom, hto⟩ := hcovered
  obtain ⟨hbase, hend⟩ := h.inside range hrange hlt
  obtain ⟨hstart, hstop⟩ := hplaced.canonical range hrange hlt
  have hphysical := hplaced.physical
  have hvirtual := h.virtual_aligned
  have hoffset : (va - image.virtualBase).toNat = va.toNat - image.virtualBase.toNat := by
    refine BitVec.toNat_sub_of_le ?_
    rw [BitVec.le_def]
    omega
  have hsum : (image.physicalBase + (va - image.virtualBase)).toNat =
      image.physicalBase.toNat + (va.toNat - image.virtualBase.toNat) := by
    rw [BitVec.toNat_add, hoffset]
    exact Nat.mod_eq_of_lt (by omega)
  have hphysicalAligned := h.physical_aligned
  refine ⟨?_, frameAligned_of_lt (by omega) (by omega)⟩
  unfold Canonical at hstart hstop ⊢
  omega

/-! ## Taking the new tree away again -/

section Undo

variable {v : Vmm} {root : Word} {s : Paging} {spaces : List AddressSpaceRecord}

/-- A root that has just been created is recorded, and is not active. -/
theorem Vmm.Orderly.new_root (h : v.Orderly) (hnew : v.paging.tables root = none)
    (henrols : v.Enrols root spaces) :
    root ≠ v.activeAddressSpacePml4 ∧
      SlotRegistry.find inUse pml4Physical root spaces =
        some { pml4Physical := root, state := .created, inUse := true } := by
  refine ⟨?_, (SlotRegistry.find_claim_self (fun _ => rfl) (fun _ => rfl) henrols.claim h.nodup
    henrols.notMem).choose_spec⟩
  rintro rfl
  obtain ⟨-, record, hactive, -⟩ := h.active henrols.nonzero
  exact Paging.Grown.not_root hnew (h.roots hactive)

/-- **The new tree can be destroyed**, and then everything is as it was. -/
theorem destroy_hosted (h : v.paging.Inv ∅) (horderly : v.Orderly)
    (hdated : s.Dated v.validationEpoch) (hnew : v.paging.tables root = none)
    (hhosts : v.paging.Hosts root s)
    (henrols : v.Enrols root spaces) :
    ∃ v', (vmmDestroyAddressSpace { v with paging := s, addressSpaceRecords := spaces } root).2 =
      v' ∧
      v.paging.Same v'.paging ∧ v'.paging.Inv ∅ ∧
      v'.addressSpaceRecords.filter inUse =
        v.addressSpaceRecords.filter inUse := by
  obtain ⟨hactive, hfind⟩ := horderly.new_root hnew henrols
  obtain ⟨t, ht, hl, ho⟩ := vmmVerifyPageTableRoot_iff.mp hhosts.live
  have hok : (vmmDestroyAddressSpace { v with paging := s, addressSpaceRecords := spaces } root).1 =
      0 := by
    refine (vmmDestroyAddressSpace_succeeds_iff
      (v := { v with paging := s, addressSpaceRecords := spaces }) hdated root).mpr ⟨hactive,
        ⟨_, (findAddressSpaceRecord_of_ne_zero henrols.nonzero).trans hfind, nofun⟩, ?_⟩
    refine hhosts.inv.tableTree ht hl fun index hpresent => (hhosts.plain ht ho ?_ hpresent).1
    rw [hl]
    decide
  rcases vmmDestroyAddressSpace_outcome
    (v := { v with paging := s, addressSpaceRecords := spaces }) hhosts.inv root with
    ⟨s', epoch, heq, -⟩ | ⟨s', epoch, t', heq, -, -, -, hinv, hgone, hprunes⟩
  · rw [heq] at hok
    cases hok
  rw [heq]
  refine ⟨_, rfl, ?_, hinv, SlotRegistry.filter_retire_claim (fun _ => rfl)
    (fun _ => rfl) (fun _ => rfl) henrols.claim henrols.notMem⟩
  have hextends := hhosts.grown.prune h hhosts.inv (Set.empty_subset _) hnew hprunes
  refine hextends.same_of_levels h hinv le_rfl fun q u hq hu => ?_
  -- a new table of the top level would be a new root
  refine lt_of_le_of_ne (hinv.wf.level_le (Tables.forest_info hu)) fun htop => ?_
  obtain ⟨hroot, hneRoot⟩ := hprunes.roots_subset hgone (Paging.mem_roots.mpr ⟨u, hu, htop⟩)
  obtain ⟨w, hw, -⟩ := Paging.mem_roots.mp ((hhosts.roots hroot).resolve_left hneRoot)
  rw [hq] at hw
  cases hw

end Undo

/-! ## The call -/

/-- A root that `vmm_create_address_space` returns is new, empty and recorded. -/
theorem vmmCreateAddressSpace_hosts (h : v.paging.Inv ∅) {root : Word} {v₁ : Vmm}
    (hcreate : vmmCreateAddressSpace v = (some root, v₁)) :
    ∃ s spaces, v₁ = { v with paging := s, addressSpaceRecords := spaces } ∧
      v.paging.tables root = none ∧ v.paging.Hosts root s ∧ (∀ va, s.tables.lookup root va = none) ∧
      v.Enrols root spaces := by
  rcases vmmCreateAddressSpace_cases h with ⟨s, heq, -⟩ | ⟨r, s, spaces, heq, hinv, halloc, henrols⟩
  · rw [heq] at hcreate
    cases hcreate
  obtain ⟨hr, hv⟩ := Prod.mk.inj (heq.symm.trans hcreate)
  obtain rfl := Option.some.inj hr
  have hroot := halloc.tables_self
  refine ⟨s, spaces, hv.symm, h.tables_of_free halloc.free, ⟨hinv, .of_allocates h halloc,
    halloc.roots_subset, vmmVerifyPageTableRoot_iff.mpr ⟨_, hroot, rfl, rfl⟩, .of_empty hinv hroot⟩,
    fun va => Tables.walk_empty hroot va, henrols⟩

/-- The pages of the image with their leaf entries. -/
def KernelImage.leaves (image : KernelImage) : Set (Word × Word) :=
  { x | ∃ sec ∈ image.sections, x ∈ sectionLeaves image.virtualBase image.physicalBase sec }

/-- The source's guard against overflow. -/
theorem toNat_add_of_le_sub {a b : Word} (h : b ≤ 0xFFFFFFFFFFFFFFFF - a) :
    (a + b).toNat = a.toNat + b.toNat := by
  have hmax : (0xFFFFFFFFFFFFFFFF : Word).toNat = 2 ^ 64 - 1 := rfl
  have hle : a ≤ 0xFFFFFFFFFFFFFFFF := by
    rw [BitVec.le_def, hmax]
    exact Nat.le_sub_one_of_lt a.isLt
  rw [BitVec.le_def, BitVec.toNat_sub_of_le hle, hmax] at h
  have ha := a.isLt
  rw [BitVec.toNat_add]
  exact Nat.mod_eq_of_lt (by omega)

/-- **The outcomes of `vmm_create_kernel_address_space`**: nothing has changed, or there is a new
root with the pages of the image. -/
theorem vmmCreateKernelAddressSpace_outcome (image : KernelImage) (h : v.paging.Inv ∅)
    (horderly : v.Orderly) (hdated : v.Dated) :
    (∃ v', vmmCreateKernelAddressSpace image v = (none, v') ∧ v.paging.Same v'.paging ∧
        v'.paging.Inv ∅ ∧ v'.addressSpaceRecords.filter inUse =
          v.addressSpaceRecords.filter inUse) ∨
      ∃ root v' s₁, vmmCreateKernelAddressSpace image v = (some root, v') ∧
        v.paging.Hosts root v'.paging ∧ image.Checked ∧
        (∀ va, s₁.tables.lookup root va = none) ∧ Paging.Gains root image.leaves s₁ v'.paging := by
  have hstay : ∃ v', ((none, v) : Option Word × Vmm) = (none, v') ∧ v.paging.Same v'.paging ∧
      v'.paging.Inv ∅ ∧ v'.addressSpaceRecords.filter inUse =
        v.addressSpaceRecords.filter inUse := ⟨v, rfl, .refl _, h, rfl⟩
  unfold vmmCreateKernelAddressSpace
  dsimp only
  split_ifs with hzero haligned hoverflow hend hround
  · exact Or.inl hstay
  · exact Or.inl hstay
  · exact Or.inl hstay
  · exact Or.inl hstay
  · exact Or.inl hstay
  have himage : (image.virtualBase + image.imageSize).toNat =
      image.virtualBase.toNat + image.imageSize.toNat :=
    toNat_add_of_le_sub (BitVec.not_lt.mp hoverflow)
  have hmapping := toNat_roundUp (BitVec.not_lt.mp hround)
  rw [himage] at hmapping
  rw [not_or, not_not, not_not, and_pageMask_eq_zero_iff, and_pageMask_eq_zero_iff] at haligned
  cases hcreate : vmmCreateAddressSpace v with
  | mk created v₁ =>
      cases created with
      | none =>
          rcases vmmCreateAddressSpace_cases h with
            ⟨s, heq, hinv, hsame⟩ | ⟨root, s, spaces, heq, -⟩
          · obtain rfl := (Prod.mk.inj (heq.symm.trans hcreate)).2
            exact Or.inl ⟨_, rfl, hsame, hinv, rfl⟩
          · rw [heq] at hcreate
            cases hcreate
      | some root =>
          have hdated₁ := hdated.createAddressSpace
          rw [hcreate] at hdated₁
          obtain ⟨s₁, spaces, rfl, hnew, hhosts, hempty, henrols⟩ :=
            vmmCreateAddressSpace_hosts h hcreate
          have hhosts₂ : v.paging.Hosts root (image.map root s₁).2 :=
            hhosts.mapKernelSections h hnew _ _ _ _
          have hdated₂ : (image.map root s₁).2.Dated v.validationEpoch :=
            Paging.Dated.mapKernelSections root _ _ _ _ hdated₁
          dsimp only
          by_cases hcode : (image.map root s₁).1 = 0
          · rw [if_neg (not_not.mpr hcode)]
            obtain ⟨hgains, hinside⟩ := mapKernelSections_gains image.sections hhosts.inv hcode
            refine Or.inr ⟨root, _, s₁, rfl, hhosts₂,
              ⟨haligned.1, haligned.2, fun range hrange hlt => ?_⟩, hempty,
              hgains⟩
            obtain ⟨flags, hsec⟩ := image.exists_section hrange
            obtain ⟨hbase, hstop⟩ := hinside _ hsec hlt
            rw [hmapping] at hstop
            exact ⟨hbase, Nat.le_of_mul_le_mul_right hstop (by decide)⟩
          · rw [if_pos hcode]
            obtain ⟨v', hv', hresult⟩ := destroy_hosted h horderly hdated₂ hnew hhosts₂ henrols
            refine Or.inl ⟨v', ?_, hresult⟩
            rw [← hv']

section Pages

variable {image : KernelImage} {s₀ s₁ s : Paging} {root va : Word}

/-- A page of a section, in the new address space. -/
theorem Paging.Hosts.page (h : s₀.Hosts root s) (hgains : Paging.Gains root image.leaves s₁ s)
    (hsec : sec ∈ image.sections) (hva : va &&& 0xFFF = 0)
    (hcovers : SectionCovers sec.1 sec.2.1 va)
    (hframe : FrameAligned (image.physicalBase + (va - image.virtualBase))) :
    vmmTranslate s root va = some (image.physicalBase + (va - image.virtualBase)) ∧
      effectiveRight vmmUser s root va = false ∧
      effectiveRight vmmWritable s root va = hasFlag vmmWritable sec.2.2 := by
  have hlookup : s.tables.lookup root va =
      some (0, leafEntry (image.physicalBase + (va - image.virtualBase)) sec.2.2) :=
    (hgains.lookup_of_mem (x := (va, _)) ⟨sec, hsec, hva, hcovers, rfl⟩).2
  have huser : hasFlag vmmUser sec.2.2 = false := by
    rcases image.flags_of_mem hsec with hflags | hflags
    · rw [hflags]
      decide
    · rw [hflags]
      decide
  obtain ⟨hwritable, hclosed⟩ := h.plain.effectiveRight h.inv.wf h.live hlookup
  refine ⟨?_, hclosed ?_, ?_⟩
  · rw [vmmTranslate_of_page hlookup, hva, entryAddress_leafEntry, hframe]
    exact congrArg some BitVec.or_zero
  · rw [hasUser_leafEntry]
    exact huser
  · rw [hwritable, hasWritable_leafEntry]

/-- No other page is mapped. -/
theorem Paging.Gains.covered (hgains : Paging.Gains root image.leaves s₁ s)
    (hplaced : image.WellPlaced) (hchecked : image.Checked)
    (hempty : ∀ va, s₁.tables.lookup root va = none) (hcanonical : Canonical va)
    (hva : va &&& 0xFFF = 0) (hmapped : vmmTranslate s root va ≠ none) :
    CoveredBy image.ranges va := by
  rw [← Option.isSome_iff_ne_none, vmmTranslate_isSome] at hmapped
  rcases hgains.lookup va with
    ⟨hsame, -⟩ | ⟨-, ⟨page, leaf⟩, ⟨sec, hsec, haligned, hcovers, -⟩, hpath, -⟩
  · rw [hsame, hempty] at hmapped
    cases hmapped
  · have hpage : CoveredBy image.ranges page :=
      ⟨(sec.1, sec.2.1), image.range_of_mem hsec, hcovers⟩
    rw [and_pageMask_eq_zero_iff] at haligned hva
    -- canonical addresses with one path are on one page
    have hcanonical' := (hchecked.page hplaced hpage haligned).1
    have hsamePage : va.toNat / 4096 = page.toNat / 4096 :=
      (Tables.samePath_iff hcanonical hcanonical').mp hpath
    have haligned' : page.toNat % 4096 = 0 := haligned
    obtain rfl : va = page := BitVec.eq_of_toNat_eq (by omega)
    exact hpage

/-- The pages of the image are mapped, and no others: a page translates exactly if it has a
byte of one of the five ranges, to the physical address of that part of the image; it is
closed to the user, and can be written exactly if it belongs to what is in front of the text,
to the data or to the bss. -/
def KernelImage.ExactlyMapped (image : KernelImage) (s : Paging) (root : Word) : Prop :=
  ∀ va, Canonical va → va &&& 0xFFF = 0 →
    (vmmTranslate s root va ≠ none ↔ CoveredBy image.ranges va) ∧
    (CoveredBy image.ranges va →
      vmmTranslate s root va = some (image.physicalBase + (va - image.virtualBase)) ∧
      effectiveRight vmmUser s root va = false ∧
      (effectiveRight vmmWritable s root va = true ↔ CoveredBy image.writableRanges va))

theorem Paging.Hosts.exactlyMapped (h : s₀.Hosts root s)
    (hgains : Paging.Gains root image.leaves s₁ s) (hplaced : image.WellPlaced)
    (hchecked : image.Checked)
    (hempty : ∀ va, s₁.tables.lookup root va = none) : image.ExactlyMapped s root := by
  intro va hcanonical hva
  have hpage : ∀ sec ∈ image.sections, SectionCovers sec.1 sec.2.1 va → _ := fun sec hsec hcovers =>
    h.page hgains hsec hva hcovers (hchecked.page hplaced ⟨_, image.range_of_mem hsec, hcovers⟩
      ((and_pageMask_eq_zero_iff va).mp hva)).2
  have hmapped : CoveredBy image.ranges va →
      vmmTranslate s root va = some (image.physicalBase + (va - image.virtualBase)) ∧
      effectiveRight vmmUser s root va = false ∧
      (effectiveRight vmmWritable s root va = true ↔ CoveredBy image.writableRanges va) := by
    rintro ⟨range, hrange, hcovers⟩
    obtain ⟨flags, hsec⟩ := image.exists_section hrange
    obtain ⟨htranslate, huser, hwritable⟩ := hpage _ hsec hcovers
    refine ⟨htranslate, huser, fun hright => ?_, ?_⟩
    · rcases image.flags_of_mem hsec with hflags | hflags
      · dsimp only at hflags
        rw [hflags] at hsec
        exact ⟨range, (image.mem_writableRanges range).mpr hsec, hcovers⟩
      · rw [hwritable, hflags] at hright
        exact absurd hright (by decide)
    · rintro ⟨range', hrange', hcovers'⟩
      rw [(hpage _ ((image.mem_writableRanges range').mp hrange') hcovers').2.2]
      exact show hasFlag vmmWritable vmmWritable = true by decide
  refine ⟨⟨fun hsome => ?_, fun hcovered => ?_⟩, hmapped⟩
  · exact hgains.covered hplaced hchecked hempty hcanonical hva hsome
  · rw [(hmapped hcovered).1]
    exact Option.some_ne_none _

end Pages

/-! ## Every reachable state -/

/-- Runs of the memory subsystem are runs of the calls of `vmm.h`. -/
theorem MmBoot.vmm_reachable (boot : MmBoot) {m : Mm}
    (hm : (mmSystem image).Reachable boot.start m) :
    (vmmSystem image).Reachable boot.vmmBoot.start m := by
  refine hm.induction (fun m => (vmmSystem image).Reachable boot.vmmBoot.start m) ?_ (.refl _ _)
  intro m op hreach hop
  refine hreach.tail op ?_
  cases op with
  | freeFrame address => exact hop
  | store address index value => exact hop
  | _ => exact trivial

/-- Nothing has been stamped before the first check. -/
theorem VmmBoot.dated_start (boot : VmmBoot) : boot.start.vmm.Dated := by
  have hbefore : (Vmm.beforeInit boot.pmmRun boot.memory boot.cr3).Dated :=
    fun r hr => absurd hr List.not_mem_nil
  exact hbefore.createAddressSpace

/-- **An address space of the kernel has exactly the pages of the image.**  For every image with
canonical virtual addresses that ends below 2⁵², in every reachable state: if
`vmm_create_kernel_address_space` returns a root, then the pages of the image are mapped in it, and
no others.  If it returns 0, then the records of page tables in use, the words of the tables, the
bitmap and the records of address spaces in use are as they were. -/
theorem createKernelAddressSpace_exact (image : KernelImage) (hplaced : image.WellPlaced)
    (boot : MmBoot) {m : Mm} (hm : (mmSystem image).Reachable boot.start m) :
    (∀ root v', vmmCreateKernelAddressSpace image m.vmm = (some root, v') →
      image.ExactlyMapped v'.paging root) ∧
    ∀ v', vmmCreateKernelAddressSpace image m.vmm = (none, v') →
      m.vmm.paging.Unchanged v'.paging ∧
        v'.addressSpaceRecords.filter inUse =
          m.vmm.addressSpaceRecords.filter inUse := by
  have hvmm := boot.vmm_reachable hm
  have horderly := (Mm.orderly_run image boot.vmmBoot.orderly_start hvmm).vmm
  have hdated := boot.vmmBoot.dated_start.of_reachable hvmm
  obtain ⟨ops, hops, rfl⟩ := hm
  have hinv := (Mm.inv_run image boot hops).paging
  rcases vmmCreateKernelAddressSpace_outcome image hinv horderly hdated with
    ⟨v', heq, hsame, hinv', hrecords⟩ | ⟨root, v', s₁, heq, hhosts, hchecked, hempty, hgains⟩
  · rw [heq]
    refine ⟨fun _ _ hcall => ?_, fun _ hcall => ?_⟩
    · cases hcall
    · obtain rfl := (Prod.mk.inj hcall).2
      exact ⟨hsame.unchanged hinv hinv', hrecords⟩
  · rw [heq]
    refine ⟨fun _ _ hcall => ?_, fun _ hcall => ?_⟩
    · obtain ⟨hroot, rfl⟩ := Prod.mk.inj hcall
      obtain rfl := Option.some.inj hroot
      exact hhosts.exactlyMapped hgains hplaced hchecked hempty
    · cases hcall

/-- Read-only data that begins on the last page of the text. -/
def sharedPageImage : KernelImage :=
  { demoImage with
    imageSize := 0x2000
    textEnd := 0xFFFFFFFF80000800
    rodataStart := 0xFFFFFFFF80000800
    rodataEnd := 0xFFFFFFFF80001800 }

/-- The small image is mapped; an image whose sections share a page is not, after the page of text
and three tables for it had been there. -/
theorem createKernelAddressSpace_exact_demo :
    demoImage.ExactlyMapped (vmmCreateKernelAddressSpace demoImage demoBoot.start.vmm).2.paging
      0x3000 ∧
      (vmmCreateKernelAddressSpace sharedPageImage demoBoot.start.vmm).1 = none ∧
      demoBoot.start.vmm.paging.Unchanged
        (vmmCreateKernelAddressSpace sharedPageImage demoBoot.start.vmm).2.paging := by
  have hok : (vmmCreateKernelAddressSpace demoImage demoBoot.start.vmm).1 = some 0x3000 := by
    decide +kernel
  have hfail : (vmmCreateKernelAddressSpace sharedPageImage demoBoot.start.vmm).1 = none := by
    decide +kernel
  have hplaced : demoImage.WellPlaced :=
    .of_upper (by simp [KernelImage.ranges, demoImage]) (by decide)
  have hplaced' : sharedPageImage.WellPlaced :=
    .of_upper (by simp [KernelImage.ranges, sharedPageImage, demoImage]) (by decide)
  have hpair : ∀ {result : Option Word × Vmm} {root}, result.1 = root →
      result = (root, result.2) := by
    rintro ⟨_, _⟩ _ rfl
    rfl
  have hmapped := (createKernelAddressSpace_exact demoImage hplaced demoBoot
    (.refl _ demoBoot.start)).1 _ _ (hpair hok)
  have hsame := (createKernelAddressSpace_exact sharedPageImage hplaced' demoBoot
    (.refl _ demoBoot.start)).2 _ (hpair hfail)
  exact ⟨hmapped, hfail, hsame.1⟩

end Batos
