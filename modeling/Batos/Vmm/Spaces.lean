import Batos.Vmm.Merge

/-!
# Registered address spaces

A PML4 is an address space once `register_address_space` has recorded it.  Three
things tie the records to the page tables: the kernel root is one of them, a new
root is recorded at once, and a destroyed root is struck off.  The standalone clone
of a preparation is the exception; it is a root that no record names, and only
`last_cloned_pml4` leads to it.

The module follows the recorded roots (`Vmm.spaces`) and the PML4 tables
(`Paging.roots`) through every operation, and reads off two facts about whole runs.
The kernel root stays live unless somebody destroys it while it is not active
(`kernel_stays_live`).  No table is lost as long as no second preparation replaces
the clone of an earlier one (`no_leak_run`).
-/

namespace Batos

open Option
open SlotRegistry (liveKeys)
open AddressSpaceRecord (inUse pml4Physical)

variable {s : Paging} {q owner c root : Word} {level : ℕ} {m : Mm} {op : MmOp}

/-- The roots with an address-space record in use. -/
def Vmm.spaces (v : Vmm) : Set Word := { q | (findAddressSpaceRecord v q).isSome = true }

/-- The registered PML4 tables. -/
def Paging.roots (s : Paging) : Set Word :=
  { q | ∃ record, findPageTableRecord s q = some record ∧ record.level = vmmLevelPml4 }

/-- The roots are the tables of the top level. -/
theorem Paging.mem_roots :
    q ∈ s.roots ↔ ∃ t, s.tables q = some t ∧ t.level = vmmLevelPml4 := by
  constructor
  · rintro ⟨record, hfind, hl⟩
    exact ⟨⟨record.level, record.ownerPml4, s.memory q⟩,
      tables_eq_some.mpr ⟨record, hfind, rfl, rfl, rfl⟩, hl⟩
  · rintro ⟨t, ht, hl⟩
    obtain ⟨record, hfind, hlevel, -⟩ := tables_eq_some.mp ht
    exact ⟨record, hfind, hlevel.trans hl⟩

theorem Paging.roots_congr {s' : Paging} (h : s'.tables = s.tables) : s'.roots = s.roots := by
  ext q
  rw [mem_roots, mem_roots, h]

/-! ## Roots -/

section Roots

variable {s s' : Paging}

/-- A child table is no root. -/
theorem Paging.ChildStep.roots_subset {parent flags : Word} {index : Fin 512} {b : Bool}
    (hstep : s.ChildStep parent index flags level owner b c s') (hlevel : level < vmmLevelPml4) :
    s'.roots ⊆ s.roots := by
  cases hstep with
  | existing edge => exact subset_rfl
  | created table parentLevel empty creates =>
      intro q hq
      obtain ⟨t, ht, hl⟩ := Paging.mem_roots.mp hq
      rw [creates.tables] at ht
      -- the new table is below the top level, and the parent has the level it had
      have hother : ∀ u, s.tables.insertTable c level owner q = some u → u.level = vmmLevelPml4 →
          q ∈ s.roots := by
        intro u hu hul
        by_cases hqc : q = c
        · rw [hqc, Tables.insertTable_self] at hu
          obtain rfl := some.inj hu
          exact absurd hul hlevel.ne
        · rw [Tables.insertTable_of_ne hqc] at hu
          exact Paging.mem_roots.mpr ⟨u, hu, hul⟩
      by_cases hqp : q = parent
      · cases hu : s.tables.insertTable c level owner q with
        | none =>
            rw [Tables.writeEntry, ← hqp, Function.update_self, hu] at ht
            cases ht
        | some u =>
            rw [← hqp, Tables.writeEntry_self hu] at ht
            obtain rfl := some.inj ht
            exact hother u hu hl
      · rw [Tables.writeEntry_of_ne hqp] at ht
        exact hother t ht hl

/-- `vmm_map_page` makes no roots. -/
theorem vmmMapPage_roots (h : s.Inv ∅) (pml4 va pa flags : Word) :
    (vmmMapPage s pml4 va pa flags).2.roots ⊆ s.roots := by
  rcases vmmMapPage_cases h pml4 va pa flags with ⟨s', heq, -, hsame⟩ | ⟨s', heq, -, hmaps⟩
  · rw [heq, Paging.roots_congr hsame.tables]
  · rw [heq]
    obtain ⟨pdpt, pd, pt, b₂, b₁, b₀, s₁, s₂, s₃, t, hstep₂, hstep₁, hstep₀, -, -, -, -, -, -, -,
      rfl⟩ := hmaps.descent
    have h₂ := hstep₂.roots_subset (by decide)
    have h₁ := hstep₁.roots_subset (by decide)
    have h₀ := hstep₀.roots_subset (by decide)
    -- a store changes no record
    exact (h₀.trans h₁).trans h₂

theorem vmmUnmapPage_roots (h : s.Inv ∅) (pml4 va : Word) :
    (vmmUnmapPage s pml4 va).2.roots = s.roots := by
  rcases vmmUnmapPage_cases h.wf pml4 va with ⟨heq, -⟩ | ⟨_, pt, t, -, -, -, -, -, -, -, -, heq, -⟩
  · rw [heq]
  · rw [heq]
    rfl

theorem mapKernelSections_roots (pml4 virtualBase physicalBase imageEnd : Word)
    (sections : List (Word × Word × Word)) (h : s.Inv ∅) :
    (mapKernelSections pml4 virtualBase physicalBase imageEnd sections s).2.roots ⊆ s.roots := by
  refine (mapKernelSections_induction (P := fun s' => s'.Inv ∅ ∧ s'.roots ⊆ s.roots)
    (fun s' va pa flags hs' => ?_) virtualBase physicalBase imageEnd sections ⟨h, subset_rfl⟩).2
  exact ⟨(vmmMapPage_evolves hs'.1 pml4 va pa flags).inv,
    (vmmMapPage_roots hs'.1 pml4 va pa flags).trans hs'.2⟩

/-- One new table is one new root at most. -/
theorem Paging.Allocates.roots_subset (h : s.Allocates c level owner s') :
    s'.roots ⊆ insert c s.roots := by
  intro q hq
  by_cases hqc : q = c
  · exact .inl hqc
  · obtain ⟨t, ht, hl⟩ := Paging.mem_roots.mp hq
    rw [h.tables_of_ne hqc] at ht
    exact .inr (Paging.mem_roots.mpr ⟨t, ht, hl⟩)

/-- Pruning a tree from its root strikes the root off. -/
theorem Paging.Prunes.roots_subset (hprunes : Paging.Prunes root s s')
    (hgone : s'.tables root = none) : s'.roots ⊆ s.roots \ {root} := by
  intro q hq
  obtain ⟨t, ht, hl⟩ := Paging.mem_roots.mp hq
  obtain ⟨u, hu, hlu, -⟩ := hprunes.sub ht
  refine ⟨Paging.mem_roots.mpr ⟨u, hu, hlu ▸ hl⟩, ?_⟩
  rintro rfl
  rw [hgone] at ht
  cases ht

end Roots

/-! ## Records -/

section Records

variable {v v' : Vmm}

theorem Vmm.mem_spaces :
    q ∈ v.spaces ↔ q ≠ 0 ∧ q ∈ liveKeys inUse
      pml4Physical v.addressSpaceRecords := by
  change (findAddressSpaceRecord v q).isSome = true ↔ _
  unfold findAddressSpaceRecord
  split
  · next hzero => simp [hzero]
  · next hzero =>
      rw [isSome_iff_ne_none, Ne, SlotRegistry.find_eq_none_iff, not_not]
      exact (and_iff_right hzero).symm

theorem Vmm.spaces_congr (h : v'.addressSpaceRecords = v.addressSpaceRecords) :
    v'.spaces = v.spaces := by
  ext q
  rw [mem_spaces, mem_spaces, h]

/-- A registration adds a root that was not recorded. -/
theorem Vmm.Enrols.spaces_eq {spaces : List AddressSpaceRecord} (h : v.Enrols root spaces) :
    root ∉ v.spaces ∧ ({ v with addressSpaceRecords := spaces } : Vmm).spaces =
      insert root v.spaces := by
  refine ⟨fun hmem => ?_, ?_⟩
  · have hsome : (findAddressSpaceRecord v root).isSome = true := hmem
    rw [h.fresh] at hsome
    cases hsome
  have hperm : (liveKeys inUse pml4Physical
      spaces).Perm (root :: liveKeys inUse
        pml4Physical v.addressSpaceRecords) :=
    SlotRegistry.liveKeys_claim_perm (fun _ => rfl) (fun _ => rfl) h.claim
  ext q
  rw [Set.mem_insert_iff, Vmm.mem_spaces, Vmm.mem_spaces]
  dsimp only
  rw [hperm.mem_iff, List.mem_cons]
  constructor
  · rintro ⟨hq, rfl | hmem⟩
    · exact .inl rfl
    · exact .inr ⟨hq, hmem⟩
  · rintro (rfl | ⟨hq, hmem⟩)
    · exact ⟨h.nonzero, .inl rfl⟩
    · exact ⟨hq, .inr hmem⟩

/-- Changing the lifecycle state of a record changes no root. -/
theorem Vmm.spaces_amendSpace (v : Vmm) (root : Word) (state : AddressSpaceState) :
    (v.amendSpace root fun record => { record with state := state }).spaces = v.spaces := by
  ext q
  rw [mem_spaces, mem_spaces]
  have hkeys : liveKeys inUse pml4Physical
      (v.amendSpace root fun record => { record with state := state }).addressSpaceRecords =
        liveKeys inUse pml4Physical
          v.addressSpaceRecords := SlotRegistry.liveKeys_amend (fun _ => rfl) fun _ => rfl
  rw [hkeys]

/-- Striking a root off leaves the others recorded. -/
theorem Vmm.mem_spaces_retire (hq : q ∈ v.spaces) (hne : q ≠ root)
    (h : v'.addressSpaceRecords = v.retireSpace root) : q ∈ v'.spaces := by
  obtain ⟨hzero, -⟩ := mem_spaces.mp hq
  change (findAddressSpaceRecord v q).isSome = true at hq
  change (findAddressSpaceRecord v' q).isSome = true
  unfold findAddressSpaceRecord at hq ⊢
  rw [if_neg hzero] at hq ⊢
  rw [h, Vmm.retireSpace, SlotRegistry.find_retire_of_ne (fun _ => rfl) hne]
  exact hq

end Records

/-! ## Operations -/

/-- Every root is an address space, or the standalone clone. -/
def Vmm.Covered (v : Vmm) : Prop :=
  ∀ q ∈ v.paging.roots, q ∈ v.spaces ∨ q = v.lastClonedPml4

/-- No record is lost, and no root that was led to. -/
structure Vmm.KeepsSpaces (v v' : Vmm) : Prop where
  spaces : v.spaces ⊆ v'.spaces
  covered : v.Covered → v'.Covered

section Operations

variable {v : Vmm}

/-- An operation that creates no root and touches no record. -/
theorem Vmm.KeepsSpaces.of_roots {v' : Vmm} (hspaces : v'.spaces = v.spaces)
    (hroots : v'.paging.roots ⊆ v.paging.roots) (hcloned : v'.lastClonedPml4 = v.lastClonedPml4) :
    v.KeepsSpaces v' where
  spaces := hspaces.ge
  covered := by
    intro hcovered q hq
    rw [hspaces, hcloned]
    exact hcovered q (hroots hq)

/-- `vmm_create_address_space` records the root it creates. -/
theorem vmmCreateAddressSpace_spaces (h : v.paging.Inv ∅) :
    (∃ s', vmmCreateAddressSpace v = (none, { v with paging := s' }) ∧
        s'.roots ⊆ v.paging.roots) ∨
      ∃ root s' spaces, vmmCreateAddressSpace v =
          (some root, { v with paging := s', addressSpaceRecords := spaces }) ∧ s'.Inv ∅ ∧
        v.paging.tables root = none ∧ s'.roots ⊆ insert root v.paging.roots ∧ root ∉ v.spaces ∧
        ({ v with addressSpaceRecords := spaces } : Vmm).spaces = insert root v.spaces := by
  rcases vmmCreateAddressSpace_cases h with
    ⟨s', heq, -, hsame⟩ | ⟨root, s', spaces, heq, hinv, halloc, henrols⟩
  · exact .inl ⟨s', heq, (Paging.roots_congr hsame.tables).le⟩
  · exact .inr ⟨root, s', spaces, heq, hinv, h.tables_of_free halloc.free, halloc.roots_subset,
      henrols.spaces_eq⟩

/-- The only new root is that of the new space. -/
theorem vmmCreateAddressSpace_keepsSpaces (h : v.paging.Inv ∅) :
    v.KeepsSpaces (vmmCreateAddressSpace v).2 := by
  rcases vmmCreateAddressSpace_spaces h with
    ⟨s', heq, hroots⟩ | ⟨root, s', spaces, heq, -, -, hroots, -, hspaces⟩
  · rw [heq]
    exact .of_roots rfl hroots rfl
  · rw [heq]
    have hspaces' : ({ v with paging := s', addressSpaceRecords := spaces } : Vmm).spaces =
        insert root v.spaces := hspaces
    refine ⟨?_, fun hcovered q hq => ?_⟩
    · rw [hspaces']
      exact Set.subset_insert _ _
    · rw [hspaces']
      rcases hroots hq with rfl | hold
      · exact .inl (Set.mem_insert _ _)
      · exact (hcovered q hold).imp_left (Set.mem_insert_of_mem _)

/-- `vmm_destroy_address_space` strikes off at most the root it is given. -/
theorem vmmDestroyAddressSpace_spaces (h : v.paging.Inv ∅) (root : Word) :
    (∀ q ∈ v.spaces, q ≠ root → q ∈ (vmmDestroyAddressSpace v root).2.spaces) ∧
      (v.Covered → (vmmDestroyAddressSpace v root).2.Covered) := by
  rcases vmmDestroyAddressSpace_outcome h root with
    ⟨s', epoch, heq, hstamps⟩ | ⟨s', epoch, t, heq, -, -, -, -, hgone, hprunes⟩
  · rw [heq]
    have hkeeps : v.KeepsSpaces { v with paging := s', validationEpoch := epoch } :=
      .of_roots rfl (Paging.roots_congr hstamps.tables).le rfl
    exact ⟨fun q hq _ => hkeeps.spaces hq, hkeeps.covered⟩
  · rw [heq]
    have hstay : ∀ q ∈ v.spaces, q ≠ root → q ∈ ({ v with
        paging := s', validationEpoch := epoch, addressSpaceRecords := v.retireSpace root,
        lastClonedPml4 := if v.lastClonedPml4 = root then 0 else v.lastClonedPml4 } : Vmm).spaces :=
      fun q hq hne => Vmm.mem_spaces_retire hq hne rfl
    refine ⟨hstay, fun hcovered q hq => ?_⟩
    obtain ⟨hold, hne⟩ := hprunes.roots_subset hgone hq
    rcases hcovered q hold with hspace | hcloned
    · exact .inl (hstay q hspace hne)
    · refine .inr ?_
      change q = if v.lastClonedPml4 = root then 0 else v.lastClonedPml4
      rw [if_neg fun heq => hne (hcloned.trans heq)]
      exact hcloned

/-- A failed `vmm_create_kernel_address_space` strikes off the root it created, and no
other. -/
theorem vmmCreateKernelAddressSpace_keepsSpaces (image : KernelImage) (h : v.paging.Inv ∅) :
    v.KeepsSpaces (vmmCreateKernelAddressSpace image v).2 := by
  have hcreate := vmmCreateAddressSpace_keepsSpaces h
  refine vmmCreateKernelAddressSpace_rule ⟨subset_rfl, id⟩ hcreate fun root v₁ hcall => ?_
  rcases vmmCreateAddressSpace_spaces h with
    ⟨s', heq, -⟩ | ⟨r, s₁, spaces, heq, hinv₁, -, -, hfresh, -⟩
  · rw [heq] at hcall
    cases hcall
  rw [heq] at hcreate hcall
  obtain ⟨hr, rfl⟩ := Prod.mk.inj hcall
  obtain rfl := some.inj hr
  have hmapped : ({ v with paging := s₁, addressSpaceRecords := spaces } : Vmm).KeepsSpaces
      { v with paging := (image.map r s₁).2, addressSpaceRecords := spaces } :=
    .of_roots rfl (mapKernelSections_roots r _ _ _ _ hinv₁) rfl
  have hbuilt : v.KeepsSpaces
      { v with paging := (image.map r s₁).2, addressSpaceRecords := spaces } :=
    ⟨hcreate.spaces.trans hmapped.spaces, fun hcovered =>
      hmapped.covered (hcreate.covered hcovered)⟩
  refine ⟨hbuilt, ?_⟩
  obtain ⟨hdrop, hcovered⟩ := vmmDestroyAddressSpace_spaces
    (v := { v with paging := (image.map r s₁).2, addressSpaceRecords := spaces })
    (mapKernelSections_evolves r _ _ _ _ hinv₁).inv r
  refine ⟨fun q hq => hdrop q (hbuilt.spaces hq) ?_, fun h => hcovered (hbuilt.covered h)⟩
  rintro rfl
  exact hfresh hq

/-- `vmm_activate_address_space` changes lifecycle states only. -/
theorem vmmActivateAddressSpace_spaces (v : Vmm) (root : Word) :
    (vmmActivateAddressSpace v root).2.spaces = v.spaces ∧
      (vmmActivateAddressSpace v root).2.paging = v.paging ∧
      (vmmActivateAddressSpace v root).2.kernelPml4 = v.kernelPml4 ∧
      (vmmActivateAddressSpace v root).2.lastClonedPml4 = v.lastClonedPml4 := by
  unfold vmmActivateAddressSpace
  split
  · exact ⟨rfl, rfl, rfl, rfl⟩
  · split
    · exact ⟨rfl, rfl, rfl, rfl⟩
    · split
      · exact ⟨rfl, rfl, rfl, rfl⟩
      · split
        · exact ⟨rfl, rfl, rfl, rfl⟩
        · dsimp only
          split
          · exact ⟨rfl, rfl, rfl, rfl⟩
          · split
            · refine ⟨(Vmm.spaces_amendSpace _ root .active).trans ?_, rfl, rfl, rfl⟩
              exact Vmm.spaces_amendSpace _ v.activeAddressSpacePml4 .inactive
            · exact ⟨Vmm.spaces_amendSpace _ root .active, rfl, rfl, rfl⟩

theorem vmmActivateAddressSpace_keepsSpaces (v : Vmm) (root : Word) :
    v.KeepsSpaces (vmmActivateAddressSpace v root).2 := by
  obtain ⟨hspaces, hpaging, -, hcloned⟩ := vmmActivateAddressSpace_spaces v root
  exact .of_roots hspaces (by rw [hpaging]) hcloned

/-- Publishing stores into one table and changes no record. -/
theorem roots_publishRoots (kernel source : Word) (roots : Fin 512 → Word) (s : Paging) :
    (publishRoots kernel source roots s).roots = s.roots := by
  have hrecords : ∀ (indices : List (Fin 512)) (s : Paging),
      (indices.foldl (fun s index => if roots index = 0 then s
        else s.write kernel index (copiedEntry (roots index) (s.memory source index))) s).records =
        s.records := by
    intro indices
    induction indices with
    | nil => exact fun _ => rfl
    | cons index indices ih =>
        intro s
        rw [List.foldl_cons, ih]
        split
        · rfl
        · rfl
  unfold Paging.roots findPageTableRecord publishRoots
  rw [hrecords]

/-- **A preparation creates one root**, the clone that `last_cloned_pml4` then names. -/
theorem vmmPrepareAddressSpace_spaces {kt : Table} (h : v.paging.Inv ∅)
    (hkernel : v.paging.tables v.kernelPml4 = some kt)
    (hsource : v.paging.Stable (v.cr3 &&& addressMask)) :
    (vmmPrepareAddressSpace v).2.spaces = v.spaces ∧
      ((vmmPrepareAddressSpace v).2.paging.roots ⊆ v.paging.roots ∧
          (vmmPrepareAddressSpace v).2.lastClonedPml4 = v.lastClonedPml4 ∨
        v.cr3 &&& addressMask ≠ v.kernelPml4 ∧ (vmmPrepareAddressSpace v).2.paging.roots ⊆
          insert (vmmPrepareAddressSpace v).2.lastClonedPml4 v.paging.roots) := by
  rcases vmmPrepareAddressSpace_stages h hkernel hsource with
    ⟨code, s', heq, -, hsame, -⟩ | ⟨s₁, cloned, roots, s₂, hprep, heq⟩
  · rw [heq]
    exact ⟨rfl, .inl ⟨(Paging.roots_congr hsame.tables).le, rfl⟩⟩
  · rw [heq]
    dsimp only
    rw [roots_publishRoots]
    refine ⟨Vmm.spaces_congr rfl, .inr ⟨hprep.source_ne, fun q hq => ?_⟩⟩
    obtain ⟨t, ht, hl⟩ := Paging.mem_roots.mp hq
    -- the copies are below the top level, and so are all tables of the clone but one
    cases ht₁ : s₁.tables q with
    | none => exact absurd hl (hprep.building.low q t ht₁ ht).ne
    | some t₁ =>
        obtain rfl := some.inj ((hprep.building.extends_.kept ht₁).symm.trans ht)
        cases ht₀ : v.paging.tables q with
        | none => exact .inl ((hprep.low q t₁ ht₀ ht₁).resolve_right fun hlt => hlt.ne hl)
        | some t₀ =>
            obtain rfl := some.inj ((hprep.extends_.kept ht₀).symm.trans ht₁)
            exact .inr (Paging.mem_roots.mpr ⟨t₀, ht₀, hl⟩)

end Operations

/-! ## The kernel root -/

/-- Callers keep to their own frames, and the kernel address space is given to
`vmm_destroy_address_space` only while it is the active one, where it is refused. -/
def Mm.Spares (m : Mm) : MmOp → Prop
  | .destroy pml4 => pml4 = vmmGetPml4 m.vmm → pml4 = m.vmm.activeAddressSpacePml4
  | op => m.Enabled op

/-- The memory subsystem with callers that spare the kernel root. -/
def sparingSystem (image : KernelImage) : TransitionSystem Mm MmOp where
  enabled := Mm.Spares
  step := Mm.step image

instance (image : KernelImage) (m : Mm) : ∀ op, Decidable ((sparingSystem image).enabled m op)
  | .destroy pml4 =>
      inferInstanceAs (Decidable (pml4 = vmmGetPml4 m.vmm → pml4 = m.vmm.activeAddressSpacePml4))
  | .createAddressSpace | .createKernelAddressSpace | .mapPage .. | .unmapPage .. | .activate _
  | .prepare | .allocFrame => isTrue trivial
  | .freeFrame address => inferInstanceAs (Decidable (address ∈ m.held))
  | .store address _ _ => inferInstanceAs (Decidable (address ∈ m.held))

/-- The kernel address space is the one `vmm_init` created, registered, accepted and
not in the free pool. -/
structure KernelLive (boot : MmBoot) (m : Mm) : Prop where
  named : vmmGetPml4 m.vmm = vmmGetPml4 boot.start.vmm
  registered : (findAddressSpaceRecord m.vmm (vmmGetPml4 m.vmm)).isSome = true
  verified : vmmVerifyPageTableRoot m.vmm.paging (vmmGetPml4 m.vmm) = true
  taken : ¬ m.vmm.paging.pmm.Free (frameOf (vmmGetPml4 m.vmm))

/-- No operation but `vmm_init` names a kernel root. -/
theorem Mm.Inv.kernelPml4_step (h : m.Inv) (image : KernelImage) (op : MmOp) :
    (m.step image op).vmm.kernelPml4 = m.vmm.kernelPml4 := by
  cases op with
  | createAddressSpace => exact (vmmCreateAddressSpace_evolves h.paging).kernelPml4
  | createKernelAddressSpace =>
      exact (vmmCreateKernelAddressSpace_evolves image h.paging).kernelPml4
  | mapPage pml4 va pa flags => rfl
  | unmapPage pml4 va => rfl
  | activate pml4 => exact (vmmActivateAddressSpace_spaces m.vmm pml4).2.2.1
  | prepare =>
      obtain ⟨kt, hkt, -⟩ := h.kernel
      change (vmmPrepareAddressSpace m.vmm).2.kernelPml4 = _
      rcases vmmPrepareAddressSpace_stages h.paging hkt h.stable_cr3 with
        ⟨code, s', heq, -⟩ | ⟨s₁, cloned, roots, s₂, -, heq⟩
      · rw [heq]
      · rw [heq]
  | destroy pml4 =>
      change (vmmDestroyAddressSpace m.vmm pml4).2.kernelPml4 = _
      rcases vmmDestroyAddressSpace_outcome h.paging pml4 with ⟨s', epoch, heq, -⟩ |
        ⟨s', epoch, t, heq, -⟩
      · rw [heq]
      · rw [heq]
  | allocFrame => rfl
  | freeFrame address => rfl
  | store address index value => rfl

/-- Every operation but a destruction keeps the recorded roots. -/
theorem Mm.Inv.keepsSpaces_step (h : m.Inv) (image : KernelImage) (op : MmOp)
    (hdestroy : ∀ pml4, op ≠ .destroy pml4) (hprepare : op ≠ .prepare) :
    m.vmm.KeepsSpaces (m.step image op).vmm := by
  cases op with
  | createAddressSpace => exact vmmCreateAddressSpace_keepsSpaces h.paging
  | createKernelAddressSpace => exact vmmCreateKernelAddressSpace_keepsSpaces image h.paging
  | mapPage pml4 va pa flags =>
      exact .of_roots rfl (vmmMapPage_roots h.paging pml4 va pa flags) rfl
  | unmapPage pml4 va => exact .of_roots rfl (vmmUnmapPage_roots h.paging pml4 va).le rfl
  | activate pml4 => exact vmmActivateAddressSpace_keepsSpaces m.vmm pml4
  | prepare => exact absurd rfl hprepare
  | destroy pml4 => exact absurd rfl (hdestroy pml4)
  | allocFrame => exact .of_roots rfl subset_rfl rfl
  | freeFrame address => exact .of_roots rfl subset_rfl rfl
  | store address index value => exact .of_roots rfl subset_rfl rfl

/-- A root that is spared stays recorded. -/
theorem Mm.Inv.mem_spaces_step (h : m.Inv) (image : KernelImage) (hq : q ∈ m.vmm.spaces)
    (hop : op ≠ .destroy q) : q ∈ (m.step image op).vmm.spaces := by
  cases op with
  | destroy pml4 =>
      refine (vmmDestroyAddressSpace_spaces h.paging pml4).1 q hq ?_
      rintro rfl
      exact hop rfl
  | prepare =>
      obtain ⟨kt, hkt, -⟩ := h.kernel
      exact (vmmPrepareAddressSpace_spaces h.paging hkt h.stable_cr3).1.ge hq
  | _ => exact (h.keepsSpaces_step image _ (by simp) (by simp)).spaces hq

/-- `vmm_init` records the kernel root. -/
theorem MmBoot.mem_spaces_start (boot : MmBoot) :
    vmmGetPml4 boot.start.vmm ∈ boot.start.vmm.spaces := by
  have hinit := boot.initialised
  change (vmmInit (Vmm.beforeInit boot.pmmRun boot.memory boot.cr3)).kernelPml4 ≠ 0 at hinit
  have hinv := Vmm.inv_beforeInit boot.owned boot.memory boot.cr3
  rcases vmmCreateAddressSpace_spaces hinv with
    ⟨s', heq, -⟩ | ⟨root, s', spaces, heq, -, -, -, -, hspaces⟩
  · refine absurd ?_ hinit
    simp [vmmInit, heq]
  · have hstart : vmmGetPml4 boot.start.vmm = root ∧
        boot.start.vmm.addressSpaceRecords = spaces := by
      constructor
      · simp [MmBoot.start, vmmInit, vmmGetPml4, heq]
      · simp [MmBoot.start, vmmInit, heq]
    have hmem : root ∈ ({ Vmm.beforeInit boot.pmmRun boot.memory boot.cr3 with
        addressSpaceRecords := spaces } : Vmm).spaces := hspaces ▸ Set.mem_insert _ _
    rw [hstart.1]
    exact (Vmm.spaces_congr hstart.2).ge hmem

/-- The invariant of runs that spare the kernel root. -/
structure Mm.KernelInv (root : Word) (m : Mm) : Prop where
  inv : m.Inv
  named : vmmGetPml4 m.vmm = root
  registered : root ∈ m.vmm.spaces

/-- Every call that spares the kernel root keeps it. -/
theorem Mm.KernelInv.step (h : m.KernelInv root) (image : KernelImage) (hop : m.Spares op) :
    (m.step image op).KernelInv root := by
  have hkernel : vmmGetPml4 (m.step image op).vmm = root :=
    (h.inv.kernelPml4_step image op).trans h.named
  by_cases hdestroy : op = .destroy root
  · -- the active root is refused, and nothing changes
    subst hdestroy
    have hactive : root = m.vmm.activeAddressSpacePml4 := hop h.named.symm
    have hstep : m.step image (.destroy root) = m := by
      change ({ m with vmm := (vmmDestroyAddressSpace m.vmm root).2 } : Mm) = m
      unfold vmmDestroyAddressSpace
      rw [if_pos hactive, ite_self]
    rw [hstep]
    exact h
  · refine ⟨h.inv.step image ?_, hkernel, h.inv.mem_spaces_step image h.registered hdestroy⟩
    cases op with
    | destroy pml4 =>
        change pml4 ≠ vmmGetPml4 m.vmm
        rw [h.named]
        rintro rfl
        exact hdestroy rfl
    | _ => exact hop

/-- **The kernel address space stays live** in every run that never asks for its
destruction while it is not active. -/
theorem kernel_stays_live (image : KernelImage) (boot : MmBoot) {ops : List MmOp}
    (hops : (sparingSystem image).Admissible boot.start ops) :
    KernelLive boot ((sparingSystem image).run boot.start ops) := by
  have h := (sparingSystem image).run_induction (Mm.KernelInv (vmmGetPml4 boot.start.vmm))
    (fun _ _ h hop => h.step image hop) ⟨boot.inv_start, rfl, boot.mem_spaces_start⟩ hops
  obtain ⟨t, ht, hl, ho⟩ := h.inv.kernel
  refine ⟨h.named, ?_, vmmVerifyPageTableRoot_iff.mpr ⟨t, ht, hl, ho⟩, fun hfree => ?_⟩
  · rw [h.named]
    exact h.registered
  · exact some_ne_none t (ht.symm.trans (h.inv.paging.tables_of_free hfree))

/-- Once active, the kernel root may even be asked to be destroyed. -/
theorem kernel_stays_live_demo :
    KernelLive demoBoot ((sparingSystem demoImage).run demoBoot.start
      [.createAddressSpace, .activate 0x2000, .destroy 0x2000]) :=
  kernel_stays_live demoImage demoBoot (by decide +kernel)

/-- A destroyed root is no longer accepted. -/
theorem Mm.Inv.verify_destroyed (h : m.Inv) (image : KernelImage)
    (hcode : (vmmDestroyAddressSpace m.vmm root).1 = 0) :
    vmmVerifyPageTableRoot (m.step image (.destroy root)).vmm.paging root = false := by
  change vmmVerifyPageTableRoot (vmmDestroyAddressSpace m.vmm root).2.paging root = false
  rcases vmmDestroyAddressSpace_outcome h.paging root with
    ⟨s', epoch, heq, -⟩ | ⟨s', epoch, t, heq, -, -, -, -, hgone, -⟩
  · rw [heq] at hcode
    exact absurd hcode (by decide : (-1 : ℤ) ≠ 0)
  · rw [heq, Bool.eq_false_iff]
    intro hverified
    obtain ⟨u, hu, -⟩ := vmmVerifyPageTableRoot_iff.mp hverified
    exact some_ne_none u (hu.symm.trans hgone)

set_option maxRecDepth 20000 in
theorem demoBoot_destroy :
    (vmmDestroyAddressSpace demoBoot.start.vmm (vmmGetPml4 demoBoot.start.vmm)).1 = 0 := by
  decide +kernel

/-- Before it is activated, the kernel root is destroyed on request, and its frame is
back in the free pool. -/
theorem kernel_root_destroyed :
    (vmmDestroyAddressSpace demoBoot.start.vmm (vmmGetPml4 demoBoot.start.vmm)).1 = 0 ∧
      vmmVerifyPageTableRoot (demoBoot.start.step demoImage
        (.destroy (vmmGetPml4 demoBoot.start.vmm))).vmm.paging (vmmGetPml4 demoBoot.start.vmm) =
          false ∧
      ¬ KernelLive demoBoot (demoBoot.start.step demoImage
        (.destroy (vmmGetPml4 demoBoot.start.vmm))) := by
  have hverify := demoBoot.inv_start.verify_destroyed demoImage demoBoot_destroy
  refine ⟨demoBoot_destroy, hverify, fun hlive => ?_⟩
  have hverified := hlive.verified
  rw [hlive.named, hverify] at hverified
  cases hverified

/-! ## Leaks -/

/-- Callers keep to their own frames and to other roots than the kernel's, and prepare
only before there is a clone, or where a preparation has nothing to do. -/
def Mm.SparesClone (m : Mm) : MmOp → Prop
  | .prepare => vmmGetLastClonedPml4 m.vmm = 0 ∨ m.vmm.cr3 &&& addressMask = vmmGetPml4 m.vmm
  | op => m.Enabled op

/-- The memory subsystem with callers that keep the clone of a preparation. -/
def cloneSparingSystem (image : KernelImage) : TransitionSystem Mm MmOp where
  enabled := Mm.SparesClone
  step := Mm.step image

instance (image : KernelImage) (m : Mm) :
    ∀ op, Decidable ((cloneSparingSystem image).enabled m op)
  | .prepare => inferInstanceAs (Decidable (_ ∨ _))
  | .destroy pml4 => inferInstanceAs (Decidable (pml4 ≠ vmmGetPml4 m.vmm))
  | .createAddressSpace | .createKernelAddressSpace | .mapPage .. | .unmapPage .. | .activate _
  | .allocFrame => isTrue trivial
  | .freeFrame address => inferInstanceAs (Decidable (address ∈ m.held))
  | .store address _ _ => inferInstanceAs (Decidable (address ∈ m.held))

theorem Mm.SparesClone.enabled (h : m.SparesClone op) : m.Enabled op := by
  cases op with
  | prepare => exact trivial
  | _ => exact h

/-- Every page-table record in use is reached, through present non-huge entries, from
a registered address space or from the last clone. -/
def NoLeak (m : Mm) : Prop :=
  ∀ r, m.vmm.paging.Live r → ∃ root path,
    ((findAddressSpaceRecord m.vmm root).isSome = true ∨ root = vmmGetLastClonedPml4 m.vmm) ∧
      tableAt m.vmm.paging.memory vmmLevelPml4 root path = some r.physicalAddress

/-- Every table hangs from its owner, and the owner is led to. -/
theorem Mm.Inv.noLeak (h : m.Inv) (hcovered : m.vmm.Covered) : NoLeak m := by
  intro r hr
  obtain ⟨hroot, hdesc⟩ := h.paging.wf.desc_owner (Tables.forest_info (h.paging.tables_of_live hr))
  obtain ⟨t, ht, hl, -⟩ := Tables.exists_of_forest_info hroot
  obtain ⟨path, hpath⟩ := Forest.exists_descend_of_desc hdesc
  refine ⟨r.ownerPml4, path, hcovered _ (Paging.mem_roots.mpr ⟨t, ht, hl⟩), ?_⟩
  rw [tableAt_eq_descend h.paging.wf ht hl]
  exact hpath

/-- A preparation without an earlier clone leaves every root led to. -/
theorem Mm.Inv.covered_prepare (h : m.Inv) (hcovered : m.vmm.Covered)
    (hop : vmmGetLastClonedPml4 m.vmm = 0 ∨ m.vmm.cr3 &&& addressMask = vmmGetPml4 m.vmm) :
    (vmmPrepareAddressSpace m.vmm).2.Covered := by
  obtain ⟨kt, hkt, -⟩ := h.kernel
  obtain ⟨hspaces, ⟨hroots, hcloned⟩ | ⟨hne, hroots⟩⟩ :=
    vmmPrepareAddressSpace_spaces h.paging hkt h.stable_cr3
  · exact (Vmm.KeepsSpaces.of_roots hspaces hroots hcloned).covered hcovered
  · intro q hq
    rw [hspaces]
    rcases hroots hq with rfl | hold
    · exact .inr rfl
    · refine (hcovered q hold).imp_right fun hcloned => ?_
      -- the zero that stands for no clone is no root
      obtain ⟨t, ht, -⟩ := Paging.mem_roots.mp hold
      refine absurd ?_ (h.paging.frames ht).nonzero
      exact hcloned.trans (hop.resolve_right hne)

/-- **Every root is that of a space**, or the last clone. -/
theorem Mm.Inv.covered_step (h : m.Inv) (image : KernelImage) (hcovered : m.vmm.Covered)
    (hop : m.SparesClone op) : (m.step image op).vmm.Covered := by
  by_cases hprepare : op = .prepare
  · subst hprepare
    exact h.covered_prepare hcovered hop
  · by_cases hdestroy : ∀ pml4, op ≠ .destroy pml4
    · exact (h.keepsSpaces_step image op hdestroy hprepare).covered hcovered
    · rw [not_forall] at hdestroy
      obtain ⟨pml4, hdestroy⟩ := hdestroy
      obtain rfl := not_not.mp hdestroy
      exact (vmmDestroyAddressSpace_spaces h.paging pml4).2 hcovered

/-- At boot the only root is the kernel's. -/
theorem MmBoot.covered_start (boot : MmBoot) : boot.start.vmm.Covered := by
  have hinv := Vmm.inv_beforeInit boot.owned boot.memory boot.cr3
  have hnone : (Vmm.beforeInit boot.pmmRun boot.memory boot.cr3).Covered := by
    intro q hq
    obtain ⟨t, ht, -⟩ := Paging.mem_roots.mp hq
    rw [Vmm.tables_beforeInit] at ht
    cases ht
  have hcreated := (vmmCreateAddressSpace_keepsSpaces hinv).covered hnone
  have hcloned : (vmmCreateAddressSpace (Vmm.beforeInit boot.pmmRun boot.memory
      boot.cr3)).2.lastClonedPml4 = 0 := by
    rcases vmmCreateAddressSpace_cases hinv with ⟨s', heq, -⟩ | ⟨root, s', spaces, heq, -⟩
    · rw [heq]
      rfl
    · rw [heq]
      rfl
  intro q hq
  rcases hcreated q hq with hspace | hzero
  · exact .inl hspace
  · exact .inr (hzero.trans hcloned)

/-- **No page table is lost** in any run in which no preparation replaces the clone of
an earlier one. -/
theorem no_leak_run (image : KernelImage) (boot : MmBoot) {ops : List MmOp}
    (hops : (cloneSparingSystem image).Admissible boot.start ops) :
    NoLeak ((cloneSparingSystem image).run boot.start ops) := by
  have h := (cloneSparingSystem image).run_induction (fun m => m.Inv ∧ m.vmm.Covered)
    (fun m op h hop => ⟨h.1.step image hop.enabled, h.1.covered_step image h.2 hop⟩)
    ⟨boot.inv_start, boot.covered_start⟩ hops
  exact h.1.noLeak h.2

/-- A preparation, an address space that comes and goes, and a preparation that has
nothing to do. -/
theorem no_leak_run_demo :
    NoLeak ((cloneSparingSystem demoImage).run demoBoot.start
      [.prepare, .createAddressSpace, .activate 0x2000, .prepare]) :=
  no_leak_run demoImage demoBoot (by decide +kernel)

/-- A PML4 is reached from itself only. -/
theorem Paging.Inv.eq_of_tableAt_root (h : s.Inv ∅) {p : Word} {path : List (Fin 512)}
    (hp : p ∈ s.roots) (hq : q ∈ s.roots) (hat : tableAt s.memory vmmLevelPml4 p path = some q) :
    q = p := by
  obtain ⟨t, ht, hl⟩ := Paging.mem_roots.mp hp
  obtain ⟨u, hu, hul⟩ := Paging.mem_roots.mp hq
  have hdesc := h.treeIn_desc ht hl path q hat
  cases hdesc with
  | refl => rfl
  | tail _ hstep =>
      obtain ⟨i, hstep⟩ := hstep
      refine absurd hstep (h.wf.edge_ne_of_top (o := u.owner) ?_ _ i)
      rw [Tables.forest_info hu, hul]

/-- A root that nothing leads to is lost. -/
theorem Mm.Inv.not_noLeak (h : m.Inv) {lost : Word} (hlost : lost ∈ m.vmm.paging.roots)
    (hlead : ∀ root, root ∈ m.vmm.spaces ∨ root = vmmGetLastClonedPml4 m.vmm →
      root ∈ m.vmm.paging.roots ∧ lost ≠ root) :
    ¬ NoLeak m := by
  intro hleak
  obtain ⟨t, ht, -⟩ := Paging.mem_roots.mp hlost
  obtain ⟨r, hr, hframe, -⟩ := Paging.Inv.live_of_tables ht
  obtain ⟨root, path, hroot, hat⟩ := hleak r hr
  obtain ⟨hmem, hne⟩ := hlead root hroot
  rw [hframe] at hat
  exact hne (h.paging.eq_of_tableAt_root hmem hlost hat)

theorem Paging.mem_roots_of_level
    (h : (findPageTableRecord s q).map (·.level) = some vmmLevelPml4) :
    q ∈ s.roots := by
  obtain ⟨record, hfind, hlevel⟩ := map_eq_some_iff.mp h
  exact ⟨record, hfind, hlevel⟩

/-- The clone of a first preparation is lost to a second. -/
theorem second_prepare_leaks :
    (mmSystem demoImage).Admissible demoBoot.start [.prepare, .prepare] ∧
      ¬ NoLeak ((mmSystem demoImage).run demoBoot.start [.prepare, .prepare]) := by
  have hops : (mmSystem demoImage).Admissible demoBoot.start [.prepare, .prepare] := by
    decide +kernel
  have hlost : (findPageTableRecord ((mmSystem demoImage).run demoBoot.start
      [.prepare, .prepare]).vmm.paging 0x3000).map (·.level) = some vmmLevelPml4 := by
    decide +kernel
  have hkernel : (findPageTableRecord ((mmSystem demoImage).run demoBoot.start
      [.prepare, .prepare]).vmm.paging 0x2000).map (·.level) = some vmmLevelPml4 := by
    decide +kernel
  have hclone : (findPageTableRecord ((mmSystem demoImage).run demoBoot.start
      [.prepare, .prepare]).vmm.paging 0x4000).map (·.level) = some vmmLevelPml4 := by
    decide +kernel
  have hcloned : vmmGetLastClonedPml4 ((mmSystem demoImage).run demoBoot.start
      [.prepare, .prepare]).vmm = 0x4000 := by decide +kernel
  have hspaces : liveKeys inUse pml4Physical
      ((mmSystem demoImage).run demoBoot.start [.prepare, .prepare]).vmm.addressSpaceRecords =
        [0x2000] := by decide +kernel
  refine ⟨hops, (Mm.inv_run demoImage demoBoot hops).not_noLeak
    (Paging.mem_roots_of_level hlost) ?_⟩
  rintro root (hspace | hclonedRoot)
  · have hkey := (Vmm.mem_spaces.mp hspace).2
    rw [hspaces] at hkey
    rw [List.mem_singleton.mp hkey]
    exact ⟨Paging.mem_roots_of_level hkernel, by decide⟩
  · rw [hclonedRoot, hcloned]
    exact ⟨Paging.mem_roots_of_level hclone, by decide⟩

end Batos
