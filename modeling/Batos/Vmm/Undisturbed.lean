import Batos.Vmm.KernelSpace
import Batos.Vmm.Merge

/-!
# Address spaces in the long run

Two results about an address space over a whole stretch of a run, in which the memory subsystem
does anything else as well.

* While no call names its root, it keeps every translation (`address_space_undisturbed`).
  Other address spaces come and go meanwhile, pages are mapped in them, the boot loader's
  hierarchy is copied, and clients take frames, write to them and give them back.
* An address space that is created, used and destroyed leaves no trace
  (`address_space_leaves_no_trace`). The calls in between may fail or succeed; the destruction
  succeeds, and tables, records and frames are as they were.
-/

namespace Batos

/-! ## Calls that concern others -/

/-- The calls that may change what a root maps. -/
def MmOp.Concerns (m : Mm) (root : Word) : MmOp → Prop
  | .mapPage pml4 _ _ _ | .unmapPage pml4 _ | .destroy pml4 => pml4 = root
  | .prepare => vmmGetPml4 m.vmm = root
  | _ => False

/-- A root whose tables are kept stays live and keeps its lookups. -/
theorem Paging.Inv.lookup_of_kept {s s' : Paging} {root : Word} (h : s.Inv ∅)
    (hlive : vmmVerifyPageTableRoot s root = true)
    (hkept : ∀ {q t}, s.tables q = some t → t.owner = root → s'.tables q = some t) :
    vmmVerifyPageTableRoot s' root = true ∧
      ∀ va, s'.tables.lookup root va = s.tables.lookup root va := by
  obtain ⟨t, ht, hl, ho⟩ := vmmVerifyPageTableRoot_iff.mp hlive
  exact ⟨vmmVerifyPageTableRoot_iff.mpr ⟨t, hkept ht ho, hl, ho⟩,
    fun va => Tables.walk_congr h.wf (fun _ _ => hkept) ht hl ho⟩

/-- A preparation stores into the kernel root, and keeps every table of another owner. -/
theorem Preparation.others {v : Vmm} {kt : Table} {source cloned : Word} {s₁ s₂ : Paging}
    {roots : Fin 512 → Word} (hprep : Preparation v source s₁ cloned roots s₂)
    (hkernel : v.paging.tables v.kernelPml4 = some kt) (hlevel : kt.level = vmmLevelPml4)
    (howner : kt.owner = v.kernelPml4) {q : Word} {t : Table} (hq : v.paging.tables q = some t)
    (hne : t.owner ≠ v.kernelPml4) :
    (publishRoots v.kernelPml4 source roots s₂).tables q = some t := by
  have hq₂ := (hprep.extends_.trans hprep.building.extends_).kept hq
  obtain ⟨⟨l, o, e⟩, ht', rfl, rfl⟩ := (hprep.publish hkernel hlevel howner).2.2 hq₂
  have hmemory := (publishRoots_memory hprep.source_ne roots s₂).1 q <| by
    rintro rfl
    obtain rfl := Option.some.inj (hkernel.symm.trans hq)
    exact hne howner
  rw [memory_of_tables ht', memory_of_tables hq₂] at hmemory
  dsimp only at hmemory
  rw [ht', hmemory]

/-- **What a call does not concern it does not change.** -/
theorem Mm.Inv.step_undisturbed {m : Mm} (h : m.Inv) (horderly : m.vmm.Orderly)
    (hdated : m.vmm.Dated) (image : KernelImage) {op : MmOp} (hop : m.Enabled op) {root : Word}
    (hlive : vmmVerifyPageTableRoot m.vmm.paging root = true) (hspared : ¬ op.Concerns m root) :
    vmmVerifyPageTableRoot (m.step image op).vmm.paging root = true ∧
      ∀ va, (m.step image op).vmm.paging.tables.lookup root va =
        m.vmm.paging.tables.lookup root va := by
  refine h.paging.lookup_of_kept hlive fun {q t} hq ho => ?_
  cases op with
  | createAddressSpace =>
      rw [Mm.step]
      rcases vmmCreateAddressSpace_cases h.paging with
        ⟨s', heq, -, hsame⟩ | ⟨r, s', spaces, heq, -, halloc, -⟩
      · rw [heq]
        exact (congrFun hsame.tables q).trans hq
      · rw [heq]
        exact (Paging.Extends.of_allocates h.paging halloc).kept hq
  | createKernelAddressSpace =>
      rw [Mm.step]
      rcases vmmCreateKernelAddressSpace_outcome image h.paging horderly hdated with
        ⟨v', heq, hsame, -⟩ | ⟨r, v', s₁, heq, hhosts, -⟩
      · rw [heq]
        exact (congrFun hsame.tables q).trans hq
      · rw [heq]
        exact hhosts.grown.kept hq
  | mapPage a va pa flags =>
      exact h.keeps_other image (.mapPage va pa flags) hq (ho ▸ Ne.symm hspared)
  | unmapPage a va => exact h.keeps_other image (.unmapPage va) hq (ho ▸ Ne.symm hspared)
  | destroy a => exact h.keeps_other image .destroy hq (ho ▸ Ne.symm hspared)
  | activate a =>
      rw [Mm.step]
      rcases vmmActivateAddressSpace_cases h.paging a with ⟨code, heq⟩ | ⟨spaces, r, heq, -⟩ <;>
        rw [heq] <;> exact hq
  | prepare =>
      obtain ⟨kt, hkt, hkl, hko⟩ := h.kernel
      rw [Mm.step]
      rcases vmmPrepareAddressSpace_stages h.paging hkt h.stable_cr3 with
        ⟨code, s', heq, -, hsame, -⟩ | ⟨s₁, cloned, roots, s₂, hprep, heq⟩
      · rw [heq]
        exact (congrFun hsame.tables q).trans hq
      · rw [heq]
        dsimp only
        exact hprep.others hkt hkl hko hq (ho ▸ Ne.symm hspared)
  | allocFrame => exact hq
  | freeFrame a => exact hq
  | store a index value => exact (congrFun ((h.held a hop).1.tables_write index value) q).trans hq

/-- What every reachable state satisfies. -/
theorem MmBoot.invariants (boot : MmBoot) {image : KernelImage} {m : Mm}
    (hm : (mmSystem image).Reachable boot.start m) : m.Inv ∧ m.vmm.Orderly ∧ m.vmm.Dated := by
  have hvmm := boot.vmm_reachable hm
  obtain ⟨ops, hops, rfl⟩ := hm
  exact ⟨Mm.inv_run image boot hops, (Mm.orderly_run image boot.vmmBoot.orderly_start hvmm).vmm,
    boot.vmmBoot.dated_start.of_reachable hvmm⟩

/-- **An address space is what its users make of it.**  In every run from a reachable state in
which no call names a live root, be it `vmm_map_page`, `vmm_unmap_page`,
`vmm_destroy_address_space` or, for the kernel's root, `vmm_prepare_address_space`, the root
stays live and every virtual address keeps its translation, whatever the calls do to other
address spaces and to memory. -/
theorem address_space_undisturbed (image : KernelImage) (boot : MmBoot) {m : Mm}
    (hm : (mmSystem image).Reachable boot.start m) {root : Word}
    (hlive : vmmVerifyPageTableRoot m.vmm.paging root = true) {ops : List MmOp}
    (hops : (mmSystem image).Admissible m ops) (hspared : ∀ op ∈ ops, ¬ op.Concerns m root) :
    vmmVerifyPageTableRoot ((mmSystem image).run m ops).vmm.paging root = true ∧
      ∀ va, vmmTranslate ((mmSystem image).run m ops).vmm.paging root va =
          vmmTranslate m.vmm.paging root va ∧
        vmmInspectMapping ((mmSystem image).run m ops).vmm.paging root va =
          vmmInspectMapping m.vmm.paging root va := by
  induction ops generalizing m with
  | nil => exact ⟨hlive, fun _ => ⟨rfl, rfl⟩⟩
  | cons op ops ih =>
      obtain ⟨hinv, horderly, hdated⟩ := boot.invariants hm
      obtain ⟨hlive', hlookup⟩ := hinv.step_undisturbed horderly hdated image hops.1 hlive
        (hspared op List.mem_cons_self)
      obtain ⟨hend, hsame⟩ := ih (hm.tail op hops.1) hlive' hops.2 fun op' hop' hconcerns => by
        refine hspared op' (List.mem_cons_of_mem _ hop') ?_
        cases op' with
        | prepare => exact (hinv.kernelPml4_step image op).symm.trans hconcerns
        | _ => exact hconcerns
      exact ⟨hend, fun va => ⟨(hsame va).1.trans (vmmTranslate_congr (hlookup va)),
        (hsame va).2.trans (vmmInspectMapping_congr (hlookup va))⟩⟩

/-- The kernel's page while another root is filled and destroyed and a third one created. -/
theorem address_space_undisturbed_demo :
    vmmTranslate ((mmSystem demoImage).run demoPages
      [.mapPage 0x3000 0x400000 0x9000 2, .destroy 0x3000, .createAddressSpace]).vmm.paging
        0x2000 0x400123 = some 0x8123 := by
  have hreach : (mmSystem demoImage).Reachable demoBoot.start demoPages :=
    ⟨_, by decide +kernel, rfl⟩
  have hne : (0x3000 : Word) ≠ 0x2000 := by decide
  refine ((address_space_undisturbed demoImage demoBoot hreach (by decide +kernel)
    (by decide +kernel) ?_).2 0x400123).1.trans (by decide +kernel)
  exact List.forall_mem_cons.mpr
    ⟨hne, List.forall_mem_cons.mpr ⟨hne, List.forall_mem_singleton.mpr id⟩⟩

/-! ## The life of an address space -/

/-- What the users of an address space do. -/
inductive PageEdit
  | map (va pa flags : Word)
  | unmap (va : Word)

/-- One call on the address space. -/
def PageEdit.apply (root : Word) (s : Paging) : PageEdit → Paging
  | .map va pa flags => (vmmMapPage s root va pa flags).2
  | .unmap va => (vmmUnmapPage s root va).2

/-- Whatever the users do, the new tree stays by itself, and no check has stamped it. -/
theorem Paging.Hosts.edits {s₀ s : Paging} {root epoch : Word} (h₀ : s₀.Inv ∅)
    (hnew : s₀.tables root = none) (h : s₀.Hosts root s) (hdated : s.Dated epoch)
    (edits : List PageEdit) :
    s₀.Hosts root (edits.foldl (PageEdit.apply root) s) ∧
      (edits.foldl (PageEdit.apply root) s).Dated epoch := by
  induction edits generalizing s with
  | nil => exact ⟨h, hdated⟩
  | cons edit edits ih =>
      cases edit with
      | map va pa flags =>
          exact ih (h.mapPage h₀ hnew va pa flags) (hdated.vmmMapPage root va pa flags)
      | unmap va =>
          refine ih ?_ (hdated.vmmUnmapPage root va)
          rw [PageEdit.apply]
          rcases vmmUnmapPage_cases h.inv.wf root va with
            ⟨heq, -⟩ | ⟨r, pt, t, -, -, -, -, ht, hl, ho, -, heq, -⟩
          · rw [heq]
            exact h
          · rw [heq]
            exact h.writeLeaf h₀ hnew ht hl ho (h.inv.clear_leaf ht hl _)

/-- **An address space leaves no trace.**  In every reachable state, if an address space is
created and its users then map and unmap pages in any order, with any arguments and results,
it can be destroyed, and then the records in use, the words of the tables, the bitmap, the
active root and CR3 are as they were before it was created. -/
theorem address_space_leaves_no_trace (image : KernelImage) (boot : MmBoot) {m : Mm}
    (hm : (mmSystem image).Reachable boot.start m) {root : Word} {v : Vmm}
    (hcreate : vmmCreateAddressSpace m.vmm = (some root, v)) (edits : List PageEdit) :
    ∃ v', vmmDestroyAddressSpace { v with paging := edits.foldl (PageEdit.apply root) v.paging }
      root = (0, v') ∧
      m.vmm.paging.Unchanged v'.paging ∧
      v'.addressSpaceRecords.filter AddressSpaceRecord.inUse =
        m.vmm.addressSpaceRecords.filter AddressSpaceRecord.inUse ∧
      v'.activeAddressSpacePml4 = m.vmm.activeAddressSpacePml4 ∧ v'.cr3 = m.vmm.cr3 := by
  obtain ⟨⟨hinv, _⟩, horderly, hdated⟩ := boot.invariants hm
  have hdated₁ := hdated.createAddressSpace
  rw [hcreate] at hdated₁
  obtain ⟨s, spaces, rfl, hnew, hhosts, -, henrols⟩ := vmmCreateAddressSpace_hosts hinv hcreate
  obtain ⟨hhosts', hdated'⟩ := hhosts.edits hinv hnew hdated₁ edits
  obtain ⟨v', hv', hsame, hinv', hrecords⟩ :=
    destroy_hosted hinv horderly hdated' hnew hhosts' henrols
  rw [← hv'] at hsame hinv' hrecords
  rcases @vmmDestroyAddressSpace_outcome { m.vmm with paging := _, addressSpaceRecords := spaces }
    hhosts'.inv root with
    ⟨s', epoch, heq, hstamps⟩ | ⟨s', epoch, t, heq, -⟩ <;> rw [heq] at hsame hinv' hrecords
  · -- a call that fails would have left the root in place
    obtain ⟨t, ht, -⟩ := vmmVerifyPageTableRoot_iff.mp hhosts'.live
    rw [← hstamps.tables, hsame.tables, hnew] at ht
    cases ht
  · exact ⟨_, heq, hsame.unchanged hinv hinv', hrecords, rfl, rfl⟩

/-- Two pages are mapped and one of them is unmapped, and a third call fails. -/
theorem address_space_leaves_no_trace_demo : ∃ v', vmmDestroyAddressSpace
    { (vmmCreateAddressSpace demoBoot.start.vmm).2 with
      paging := [PageEdit.map 0x400000 0x8000 2, .map 0x401000 0x9000 0, .unmap 0x400000,
        .map 0x401 0 0].foldl (PageEdit.apply 0x3000)
          (vmmCreateAddressSpace demoBoot.start.vmm).2.paging } 0x3000 = (0, v') ∧
    demoBoot.start.vmm.paging.Unchanged v'.paging := by
  have hroot : (vmmCreateAddressSpace demoBoot.start.vmm).1 = some 0x3000 := by decide +kernel
  have hcreate : vmmCreateAddressSpace demoBoot.start.vmm =
      (some 0x3000, (vmmCreateAddressSpace demoBoot.start.vmm).2) := by rw [← hroot]
  obtain ⟨v', heq, hunchanged, -⟩ := address_space_leaves_no_trace demoImage demoBoot (.refl _ _)
    hcreate [.map 0x400000 0x8000 2, .map 0x401000 0x9000 0, .unmap 0x400000, .map 0x401 0 0]
  exact ⟨v', heq, hunchanged⟩

end Batos
