import Batos.Vmm.Lifecycle

/-!
# Runs of the memory subsystem

The public operations of `vmm.c`, with any arguments, interleaved with direct use
of the PMM: a client may take frames, write into the frames it holds, and give them
back.  A run starts where the boot sequence leaves off, after `vmm_init` has created
the kernel address space.

`Mm.Inv` is what every state of every such run satisfies.  Besides the invariant of
the page tables it says that the kernel root is live, that CR3 holds the active root
or still the boot loader's, and that the frames clients hold are nobody else's.
The ownership discipline of the page tables (`OwnershipTree`) is then read off, in
terms of the records and the words in memory.
-/

namespace Batos

variable {root a p : Word} {t : Table} {r : PageTableRecord} {i : Fin 512}

/-- `vmm.c` and its PMM, with the frames clients hold. -/
structure Mm where
  vmm : Vmm
  held : List Word

/-- The calls, and stores of a client into a frame it holds. -/
inductive MmOp
  | createAddressSpace
  | createKernelAddressSpace
  | mapPage (pml4 virtualAddress physicalAddress flags : Word)
  | unmapPage (pml4 virtualAddress : Word)
  | activate (pml4 : Word)
  | prepare
  | destroy (pml4 : Word)
  | allocFrame
  | freeFrame (address : Word)
  | store (address : Word) (index : Fin 512) (value : Word)
  deriving DecidableEq, Repr

namespace Mm

/-- Replace the page tables. -/
def setPaging (m : Mm) (s : Paging) : Mm := { m with vmm := { m.vmm with paging := s } }

/-- One call. -/
def step (image : KernelImage) (m : Mm) : MmOp → Mm
  | .createAddressSpace => { m with vmm := (vmmCreateAddressSpace m.vmm).2 }
  | .createKernelAddressSpace => { m with vmm := (vmmCreateKernelAddressSpace image m.vmm).2 }
  | .mapPage pml4 va pa flags => m.setPaging (vmmMapPage m.vmm.paging pml4 va pa flags).2
  | .unmapPage pml4 va => m.setPaging (vmmUnmapPage m.vmm.paging pml4 va).2
  | .activate pml4 => { m with vmm := (vmmActivateAddressSpace m.vmm pml4).2 }
  | .prepare => { m with vmm := (vmmPrepareAddressSpace m.vmm).2 }
  | .destroy pml4 => { m with vmm := (vmmDestroyAddressSpace m.vmm pml4).2 }
  | .allocFrame =>
      let (address, pmm) := pmmAllocFrame m.vmm.paging.pmm
      { m.setPaging { m.vmm.paging with pmm := pmm } with
        held := if address = 0 then m.held else address :: m.held }
  | .freeFrame address =>
      { m.setPaging
          { m.vmm.paging with pmm := pmmFreeFrame m.vmm.paging.pmm address } with
        held := m.held.filter (· ≠ address) }
  | .store address index value => m.setPaging (m.vmm.paging.write address index value)

/-- Callers keep to their own frames, and nobody destroys the kernel address
space. -/
def Enabled (m : Mm) : MmOp → Prop
  | .destroy pml4 => pml4 ≠ vmmGetPml4 m.vmm
  | .freeFrame address => address ∈ m.held
  | .store address _ _ => address ∈ m.held
  | _ => True

instance (m : Mm) : ∀ op, Decidable (m.Enabled op)
  | .createAddressSpace | .createKernelAddressSpace | .mapPage .. | .unmapPage .. | .activate _
  | .prepare | .allocFrame => isTrue trivial
  | .destroy pml4 => inferInstanceAs (Decidable (pml4 ≠ vmmGetPml4 m.vmm))
  | .freeFrame address => inferInstanceAs (Decidable (address ∈ m.held))
  | .store address _ _ => inferInstanceAs (Decidable (address ∈ m.held))

end Mm

/-- The memory subsystem of a kernel image. -/
def mmSystem (image : KernelImage) : TransitionSystem Mm MmOp where
  enabled := Mm.Enabled
  step := Mm.step image

instance (image : KernelImage) (m : Mm) (op : MmOp) : Decidable ((mmSystem image).enabled m op) :=
  inferInstanceAs (Decidable (m.Enabled op))

/-- The static variables before `vmm_init`, after the PMM has been used for a
while. -/
def Vmm.beforeInit (r : PmmRun) (memory : Word → Fin 512 → Word) (cr3 : Word) : Vmm where
  paging := { pmm := r.pmm, memory := memory, records := [] }
  cr3 := cr3

/-- A boot: a Limine memory map, calls of the PMM before `vmm_init`, whatever memory
and CR3 hold, and a `vmm_init` that succeeds.  The boot loader's PML4 lies outside the
frames the PMM hands out. -/
structure MmBoot where
  response : LimineResponse
  entries : List LimineMemmapEntry
  early : List PmmOp
  memory : Word → Fin 512 → Word
  cr3 : Word
  memmap : response.memmap = some entries
  bound : EndsBelow52 entries
  root_reserved : ¬ (pmmSystem.run (PmmRun.init response) early).pmm.Free
    (frameOf (cr3 &&& addressMask))
  root_unowned :
    cr3 &&& addressMask ∉ (pmmSystem.run (PmmRun.init response) early).outstanding
  initialised : (vmmInit (Vmm.beforeInit (pmmSystem.run (PmmRun.init response) early)
    memory cr3)).kernelPml4 ≠ 0

namespace MmBoot

variable (boot : MmBoot)

/-- The PMM and its clients when `vmm_init` is called. -/
def pmmRun : PmmRun := pmmSystem.run (PmmRun.init boot.response) boot.early

/-- The state `vmm_init` leaves. -/
def start : Mm where
  vmm := vmmInit (Vmm.beforeInit boot.pmmRun boot.memory boot.cr3)
  held := boot.pmmRun.outstanding

end MmBoot

/-! ## The invariant -/

/-- The invariant of the memory subsystem. -/
structure Mm.Inv (m : Mm) : Prop where
  paging : m.vmm.paging.Inv ∅
  kernel : ∃ t, m.vmm.paging.tables m.vmm.kernelPml4 = some t ∧ t.level = vmmLevelPml4 ∧
    t.owner = m.vmm.kernelPml4
  cr3 : (m.vmm.activeAddressSpacePml4 = 0 ∧ m.vmm.paging.Foreign (m.vmm.cr3 &&& addressMask) ∧
      m.vmm.cr3 &&& addressMask ∉ m.held) ∨
    (m.vmm.cr3 &&& addressMask = m.vmm.activeAddressSpacePml4 ∧
      ∃ t, m.vmm.paging.tables m.vmm.activeAddressSpacePml4 = some t ∧ t.level = vmmLevelPml4)
  held : ∀ a ∈ m.held, m.vmm.paging.Foreign a ∧ m.vmm.paging.pmm.used (frameOf a) = true

/-- **An allocation** changes nothing, or hands out a free frame. -/
theorem Mm.step_allocFrame (m : Mm) (image : KernelImage) (hsound : m.vmm.paging.pmm.Sound) :
    m.step image .allocFrame = m ∨
      ∃ f, m.vmm.paging.pmm.Free f ∧ m.vmm.paging.pmm.frameBitmap ≠ 0 ∧
        m.step image .allocFrame =
          { m.setPaging { m.vmm.paging with pmm := m.vmm.paging.pmm.reserve f } with
            held := frameAddress f :: m.held } := by
  rcases pmmAllocFrame_cases m.vmm.paging.pmm with ⟨heq, -⟩ | ⟨f, hfree, -, hinstalled, heq⟩
  · left
    simp only [Mm.step, heq]
    rfl
  · refine .inr ⟨f, hfree, hinstalled, ?_⟩
    simp only [Mm.step, heq, if_neg (hsound.releases_reserve hinstalled hfree).nonzero]

namespace Mm.Inv

variable {m : Mm}

/-- The source of a preparation is safe from the copies it makes. -/
theorem stable_cr3 (h : m.Inv) : m.vmm.paging.Stable (m.vmm.cr3 &&& addressMask) := by
  rcases h.cr3 with ⟨-, hforeign, -⟩ | ⟨heq, t, ht, -⟩
  · exact .inr hforeign
  · refine .inl ?_
    rw [heq, ht]
    exact Option.some_ne_none t

/-- Operations that destroy no older table. -/
theorem of_evolves (h : m.Inv) {v : Vmm} (hv : m.vmm.Evolves v) :
    ({ m with vmm := v } : Mm).Inv where
  paging := hv.paging.inv
  kernel := by
    obtain ⟨t, ht, hl, ho⟩ := h.kernel
    obtain ⟨t', ht', hl', ho'⟩ := hv.paging.keeps ht
    exact ⟨t', by rw [hv.kernelPml4]; exact ht', hl'.trans hl, by
      rw [hv.kernelPml4]
      exact ho'.trans ho⟩
  cr3 := by
    dsimp only
    rw [hv.active, hv.cr3]
    rcases h.cr3 with ⟨hzero, hforeign, hheld⟩ | ⟨heq, t, ht, hl⟩
    · exact .inl ⟨hzero, (hv.paging.frame.foreign hforeign).1, hheld⟩
    · obtain ⟨t', ht', hl', -⟩ := hv.paging.keeps ht
      exact .inr ⟨heq, t', ht', hl'.trans hl⟩
  held := by
    intro a ha
    obtain ⟨hforeign, hused⟩ := h.held a ha
    obtain ⟨hforeign', -, hused'⟩ := hv.paging.frame.foreign hforeign
    exact ⟨hforeign', hused'.trans hused⟩

theorem of_paging_evolves (h : m.Inv) {s : Paging} (hs : m.vmm.paging.Evolves s) :
    (m.setPaging s).Inv :=
  h.of_evolves ⟨hs, rfl, rfl, rfl⟩

theorem activate (h : m.Inv) (root : Word) :
    ({ m with vmm := (vmmActivateAddressSpace m.vmm root).2 } : Mm).Inv := by
  rcases vmmActivateAddressSpace_cases h.paging root with ⟨code, heq⟩ | ⟨spaces, t, heq, ht, hl⟩
  · rw [heq]
    exact h
  · rw [heq]
    have haligned : root &&& addressMask = root := (h.paging.frames ht).frameAligned h.paging.sound
    exact ⟨h.paging, h.kernel, .inr ⟨haligned, t, ht, hl⟩, h.held⟩

theorem prepare (h : m.Inv) : ({ m with vmm := (vmmPrepareAddressSpace m.vmm).2 } : Mm).Inv := by
  obtain ⟨kt, hkt, hkl, hko⟩ := h.kernel
  rcases vmmPrepareAddressSpace_cases h.paging hkt hkl hko h.stable_cr3 with
    ⟨code, s', heq, hinv, hsame⟩ | ⟨s', cloned, heq, hinv, hframe, hkeeps⟩
  · rw [heq]
    exact h.of_evolves ⟨.of_same hinv hsame, rfl, rfl, rfl⟩
  · rw [heq]
    exact h.of_evolves ⟨⟨hinv, hframe, hkeeps⟩, rfl, rfl, rfl⟩

/-- Two live roots own different trees. -/
theorem root_ne_owner (h : m.Inv) {q : Word} {r : Table} (hr : m.vmm.paging.tables root = some r)
    (hrl : r.level = vmmLevelPml4) (hq : m.vmm.paging.tables q = some t)
    (hl : t.level = vmmLevelPml4) (hne : q ≠ root) :
    t.owner ≠ r.owner := by
  have hro : r.owner = root := h.paging.wf.root_self (by rw [Tables.forest_info hr, hrl])
  have hqo : t.owner = q := h.paging.wf.root_self (by rw [Tables.forest_info hq, hl])
  rw [hro, hqo]
  exact hne

theorem destroy (h : m.Inv) (hkernel : root ≠ m.vmm.kernelPml4) :
    ({ m with vmm := (vmmDestroyAddressSpace m.vmm root).2 } : Mm).Inv := by
  rcases vmmDestroyAddressSpace_cases h.paging root with ⟨s', epoch, heq, hstamps⟩ |
    ⟨s', epoch, spaces, cloned, r, heq, hactive, hr, hrl, hinv, -, hprunes⟩
  · rw [heq]
    exact h.of_evolves ⟨.of_same (hstamps.inv h.paging) hstamps.same, rfl, rfl, rfl⟩
  · rw [heq]
    have hframe := hprunes.frame h.paging
    have hother : ∀ {q t}, q ≠ root → m.vmm.paging.tables q = some t → t.level = vmmLevelPml4 →
        s'.tables q = some t := fun hne hq hl =>
      hprunes.keeps_of_owner h.paging hr hq (h.root_ne_owner hr hrl hq hl hne)
    refine ⟨hinv, ?_, ?_, fun a ha => ?_⟩
    · obtain ⟨t, ht, hl, ho⟩ := h.kernel
      exact ⟨t, hother hkernel.symm ht hl, hl, ho⟩
    · rcases h.cr3 with ⟨hzero, hforeign, hheld⟩ | ⟨heq', t, ht, hl⟩
      · exact .inl ⟨hzero, (hframe.foreign hforeign).1, hheld⟩
      · exact .inr ⟨heq', t, hother hactive.symm ht hl, hl⟩
    · obtain ⟨hforeign, hused⟩ := h.held a ha
      obtain ⟨hforeign', -, hused'⟩ := hframe.foreign hforeign
      exact ⟨hforeign', hused'.trans hused⟩

/-- A client that allocates is given a frame that nobody else has. -/
theorem allocFrame (h : m.Inv) (image : KernelImage) : (m.step image .allocFrame).Inv := by
  rcases m.step_allocFrame image h.paging.sound with heq | ⟨f, hfree, hinstalled, heq⟩
  · rw [heq]
    exact h
  · have hrel := h.paging.sound.releases_reserve hinstalled hfree
    rw [heq]
    refine ⟨h.paging.reserve f, h.kernel, ?_, ?_⟩
    · rcases h.cr3 with ⟨hzero, hcr3, hheld⟩ | hactive
      · refine .inl ⟨hzero, hcr3.reserve f, ?_⟩
        intro hmem
        rcases List.mem_cons.mp hmem with heq' | hmem
        · refine hcr3.2.2 ?_
          change m.vmm.cr3 &&& addressMask = frameAddress f at heq'
          rw [heq', frameOf_frameAddress (h.paging.sound.lt_of_free hfree)]
          exact hfree
        · exact hheld hmem
      · exact .inr hactive
    · intro a ha
      rcases List.mem_cons.mp ha with rfl | ha
      · exact ⟨h.paging.booked.foreign_reserve hinstalled hfree, hrel.used⟩
      · obtain ⟨hf, hu⟩ := h.held a ha
        exact ⟨hf.reserve f, Pmm.used_reserve_of_used hu f⟩

theorem freeFrame (h : m.Inv) (image : KernelImage) (ha : a ∈ m.held) :
    (m.step image (.freeFrame a)).Inv := by
  obtain ⟨haforeign, -⟩ := h.held a ha
  refine ⟨h.paging.free haforeign, h.kernel, ?_, ?_⟩
  · rcases h.cr3 with ⟨hzero, hcr3, hheld⟩ | hactive
    · refine .inl ⟨hzero, hcr3.free haforeign.1 ?_,
        fun hmem => hheld (List.mem_of_mem_filter hmem)⟩
      intro heq
      exact hheld (heq ▸ ha)
    · exact .inr hactive
  · intro b hb
    have hne : b ≠ a := by simpa using List.of_mem_filter hb
    obtain ⟨hf, hu⟩ := h.held b (List.mem_of_mem_filter hb)
    exact ⟨hf.free haforeign.1 hne,
      (used_pmmFreeFrame_of_address_ne _ haforeign.1 hf.1 hne).trans hu⟩

theorem store (h : m.Inv) (ha : a ∈ m.held) (index : Fin 512) (value : Word) :
    (m.setPaging (m.vmm.paging.write a index value)).Inv := by
  obtain ⟨haforeign, -⟩ := h.held a ha
  have htables := haforeign.tables_write index value
  refine ⟨h.paging.store haforeign index value, ?_, ?_,
    fun b hb => ⟨(h.held b hb).1.write haforeign index value, (h.held b hb).2⟩⟩
  · obtain ⟨t, ht, hl⟩ := h.kernel
    exact ⟨t, (congrFun htables _).trans ht, hl⟩
  · rcases h.cr3 with ⟨hzero, hcr3, hheld⟩ | ⟨heq, t, ht, hl⟩
    · exact .inl ⟨hzero, hcr3.write haforeign index value, hheld⟩
    · exact .inr ⟨heq, t, (congrFun htables _).trans ht, hl⟩

/-- **Every enabled call keeps the invariant.** -/
theorem step (h : m.Inv) (image : KernelImage) {op : MmOp} (hop : m.Enabled op) :
    (m.step image op).Inv := by
  cases op with
  | createAddressSpace => exact h.of_evolves (vmmCreateAddressSpace_evolves h.paging)
  | createKernelAddressSpace =>
      exact h.of_evolves (vmmCreateKernelAddressSpace_evolves image h.paging)
  | mapPage pml4 va pa flags => exact h.of_paging_evolves (vmmMapPage_evolves h.paging _ _ _ _)
  | unmapPage pml4 va => exact h.of_paging_evolves (vmmUnmapPage_evolves h.paging _ _)
  | activate pml4 => exact h.activate pml4
  | prepare => exact h.prepare
  | destroy pml4 => exact h.destroy hop
  | allocFrame => exact h.allocFrame image
  | freeFrame a => exact h.freeFrame image hop
  | store a index value => exact h.store hop index value

end Mm.Inv

/-! ## The initial state -/

theorem MmBoot.owned (boot : MmBoot) : boot.pmmRun.Owned :=
  pmmSystem.run_induction PmmRun.Owned (fun _ op h _ => owned_step h op)
    (owned_init boot.memmap boot.bound) (pmmSystem_admissible _ _)

theorem Vmm.tables_beforeInit (r : PmmRun) (memory : Word → Fin 512 → Word) (cr3 p : Word) :
    (Vmm.beforeInit r memory cr3).paging.tables p = none := by
  rw [tables_eq_none]
  unfold findPageTableRecord
  split <;> rfl

/-- Without records there are no tables, and nothing to violate. -/
theorem Vmm.inv_beforeInit {r : PmmRun} (h : r.Owned) (memory : Word → Fin 512 → Word)
    (cr3 : Word) : (Vmm.beforeInit r memory cr3).paging.Inv ∅ := by
  have hnone := Vmm.tables_beforeInit r memory cr3
  have hinfo : ∀ p, (Vmm.beforeInit r memory cr3).paging.tables.forest.info p = none :=
    fun p => Tables.forest_info_eq_none.mpr (hnone p)
  have hedge : ∀ p i, (Vmm.beforeInit r memory cr3).paging.tables.forest.edge p i = none := by
    intro p i
    simp [Tables.forest, hnone p]
  refine ⟨List.nodup_nil, List.not_mem_nil, ?_, ?_, ?_, h.sound⟩
  · constructor <;> simp [hinfo, hedge]
  · intro p t ht
    rw [hnone p] at ht
    cases ht
  · intro p t i ht
    rw [hnone p] at ht
    cases ht

/-- `vmm_init` creates one empty address space, and nothing else. -/
theorem MmBoot.start_vmm (boot : MmBoot) :
    ∃ root s' spaces, boot.start.vmm =
        { Vmm.beforeInit boot.pmmRun boot.memory boot.cr3 with
          paging := s', addressSpaceRecords := spaces, kernelPml4 := root } ∧
      s'.Inv ∅ ∧ (Vmm.beforeInit boot.pmmRun boot.memory boot.cr3).paging.Extends s' ∧
      s'.tables root = some ⟨vmmLevelPml4, root, fun _ => 0⟩ := by
  have hinit := boot.initialised
  change (vmmInit (Vmm.beforeInit boot.pmmRun boot.memory boot.cr3)).kernelPml4 ≠ 0 at hinit
  rcases vmmCreateAddressSpace_cases (Vmm.inv_beforeInit boot.owned boot.memory boot.cr3) with
    ⟨s', heq, -⟩ | ⟨root, s', spaces, heq, hinv, halloc, -⟩
  · refine absurd ?_ hinit
    simp [vmmInit, heq]
  · refine ⟨root, s', spaces, ?_, hinv, .of_allocates (Vmm.inv_beforeInit boot.owned _ _) halloc,
      halloc.tables_self⟩
    simp only [MmBoot.start, vmmInit, heq]
    rfl

/-- The kernel's address space starts out empty. -/
theorem MmBoot.lookup_start (boot : MmBoot) (va : Word) :
    boot.start.vmm.paging.tables.lookup (vmmGetPml4 boot.start.vmm) va = none := by
  obtain ⟨root, s', spaces, hvmm, -, -, htab⟩ := boot.start_vmm
  rw [hvmm]
  exact Tables.walk_empty htab va

/-- The invariant holds when the boot sequence is over. -/
theorem MmBoot.inv_start (boot : MmBoot) : boot.start.Inv := by
  have howned := boot.owned
  have hnone := Vmm.tables_beforeInit boot.pmmRun boot.memory boot.cr3
  obtain ⟨root, s', spaces, hvmm, hinv, hext, htab⟩ := boot.start_vmm
  have hframe := hext.frame fun ht => (hinv.frames ht).aligned
  refine ⟨?_, ?_, ?_, ?_⟩
  · rw [hvmm]
    exact hinv
  · rw [hvmm]
    exact ⟨_, htab, rfl, rfl⟩
  · rw [hvmm]
    refine .inl ⟨rfl, (hframe.foreign ⟨?_, hnone _, boot.root_reserved⟩).1, boot.root_unowned⟩
    exact (frameAligned_entryAddress boot.cr3).toNat_mod
  · intro a ha
    have hused := howned.used a ha
    rw [hvmm]
    obtain ⟨hforeign, -, hused'⟩ := hframe.foreign (q := a) ⟨howned.aligned a ha, hnone _,
      fun hfree => by
        have hclear := hfree.2.2
        change boot.pmmRun.pmm.used _ = false at hclear
        rw [hused] at hclear
        cases hclear⟩
    exact ⟨hforeign, hused'.trans hused⟩

/-- The invariant holds in every state of every run. -/
theorem Mm.inv_run (image : KernelImage) (boot : MmBoot) {ops : List MmOp}
    (hops : (mmSystem image).Admissible boot.start ops) :
    ((mmSystem image).run boot.start ops).Inv :=
  (mmSystem image).run_induction Mm.Inv (fun _ _ h hop => h.step image hop) boot.inv_start hops

/-! ## The ownership tree -/

/-- An in-use record. -/
def Paging.Live (s : Paging) (record : PageTableRecord) : Prop :=
  record ∈ s.records ∧ record.inUse = true

/-- A present non-huge entry of a live table above the lowest level. -/
structure Paging.Pointer (s : Paging) (record : PageTableRecord) (index : Fin 512) : Prop where
  live : s.Live record
  above : record.level ≠ vmmLevelPt
  present : isPresent (s.memory record.physicalAddress index) = true
  not_huge : isHuge (s.memory record.physicalAddress index) = false

/-- The ownership discipline of the page tables, on the records and the words in
memory. -/
structure OwnershipTree (s : Paging) : Prop where
  distinct : ((s.records.filter (·.inUse)).map (·.physicalAddress)).Nodup
  frames : ∀ {r}, s.Live r →
    r.physicalAddress ≠ 0 ∧ s.pmm.used (frameOf r.physicalAddress) = true
  root : ∀ {r}, s.Live r → r.level = vmmLevelPml4 → r.ownerPml4 = r.physicalAddress
  child : ∀ {r i}, s.Pointer r i → ∃ c, s.Live c ∧
    c.physicalAddress = entryAddress (s.memory r.physicalAddress i) ∧
    c.level + 1 = r.level ∧ c.ownerPml4 = r.ownerPml4
  parent : ∀ {c}, s.Live c → c.level < vmmLevelPml4 →
    ∃! slot : PageTableRecord × Fin 512, s.Pointer slot.1 slot.2 ∧
      entryAddress (s.memory slot.1.physicalAddress slot.2) = c.physicalAddress

namespace Paging.Inv

variable {s : Paging}

/-- Records in use and registered tables are the same thing. -/
theorem tables_of_live (h : s.Inv ∅) (hr : s.Live r) :
    s.tables r.physicalAddress =
      some ⟨r.level, r.ownerPml4, s.memory r.physicalAddress⟩ := by
  have hmem : r.physicalAddress ∈ s.liveFrames := SlotRegistry.mem_liveKeys.mpr ⟨r, hr.1, hr.2, rfl⟩
  have hne : r.physicalAddress ≠ 0 := fun hzero => h.nonzero (hzero ▸ hmem)
  refine tables_eq_some.mpr ⟨r, ?_, rfl, rfl, rfl⟩
  rw [findPageTableRecord_of_ne_zero hne]
  exact SlotRegistry.find_of_mem h.nodup hr.1 hr.2

theorem live_of_tables (ht : s.tables p = some t) :
    ∃ r, s.Live r ∧ r.physicalAddress = p ∧ r.level = t.level ∧ r.ownerPml4 = t.owner := by
  obtain ⟨r, hfind, hlevel, howner, -⟩ := tables_eq_some.mp ht
  unfold findPageTableRecord at hfind
  split at hfind
  · cases hfind
  · obtain ⟨hmem, hlive, hkey⟩ := SlotRegistry.find_spec hfind
    exact ⟨r, ⟨hmem, hlive⟩, hkey, hlevel, howner⟩

theorem edge_of_pointer (h : s.Inv ∅) (hp : s.Pointer r i) :
    s.tables.forest.edge r.physicalAddress i =
      some (entryAddress (s.memory r.physicalAddress i)) := by
  rw [Tables.forest_edge (h.tables_of_live hp.live)]
  exact entryChild_eq_some.mpr ⟨hp.above, hp.present, hp.not_huge, rfl⟩

theorem pointer_of_edge {c : Word} (he : s.tables.forest.edge p i = some c) (h : s.Inv ∅) :
    ∃ r, s.Pointer r i ∧ r.physicalAddress = p ∧
      entryAddress (s.memory p i) = c := by
  obtain ⟨l, o, hinfo, -⟩ := h.wf.edge_info he
  obtain ⟨t, ht, -, -⟩ := Tables.exists_of_forest_info hinfo
  obtain ⟨r, hlive, rfl, hlevel, -⟩ := live_of_tables ht
  rw [Tables.forest_edge ht, ← memory_of_tables ht, entryChild_eq_some] at he
  obtain ⟨habove, hpresent, hhuge, haddr⟩ := he
  exact ⟨r, ⟨hlive, by rw [hlevel]; exact habove, hpresent, hhuge⟩, rfl, haddr⟩

/-- The record in use of a frame is unique. -/
theorem live_inj (h : s.Inv ∅) {r' : PageTableRecord} (hr : s.Live r) (hr' : s.Live r')
    (heq : r.physicalAddress = r'.physicalAddress) : r = r' := by
  have hfind := SlotRegistry.find_of_mem h.nodup hr.1 hr.2
  rw [heq, SlotRegistry.find_of_mem h.nodup hr'.1 hr'.2] at hfind
  exact (Option.some.inj hfind).symm

/-- The invariant of the page tables, read off the records and the memory. -/
theorem ownershipTree (h : s.Inv ∅) : OwnershipTree s where
  distinct := h.nodup
  frames := fun hr => by
    have hrel := h.frames (h.tables_of_live hr)
    exact ⟨hrel.nonzero, hrel.used⟩
  root := fun {r} hr hlevel => by
    have hinfo := Tables.forest_info (h.tables_of_live hr)
    rw [hlevel] at hinfo
    exact h.wf.root_self hinfo
  child := fun {r i} hp => by
    obtain ⟨l, o, hinfo, hchild⟩ := h.wf.edge_info (h.edge_of_pointer hp)
    rw [Tables.forest_info (h.tables_of_live hp.live), Option.some.injEq, Prod.mk.injEq] at hinfo
    obtain ⟨t, ht, hlevel, howner⟩ := Tables.exists_of_forest_info hchild
    obtain ⟨c, hlive, haddr, hclevel, hcowner⟩ := live_of_tables ht
    refine ⟨c, hlive, haddr, ?_, ?_⟩
    · rw [hclevel, hlevel]
      exact hinfo.1.symm
    · rw [hcowner, howner]
      exact hinfo.2.symm
  parent := fun {c} hc hlevel => by
    have hinfo := Tables.forest_info (h.tables_of_live hc)
    obtain ⟨p, i, hedge⟩ := h.wf.parent hinfo hlevel (Set.notMem_empty _)
    obtain ⟨r, hr, rfl, haddr⟩ := pointer_of_edge hedge h
    refine ⟨(r, i), ⟨hr, haddr⟩, ?_⟩
    rintro ⟨r', i'⟩ ⟨hr', haddr'⟩
    have hedge' := h.edge_of_pointer hr'
    rw [haddr'] at hedge'
    obtain ⟨hframe, hindex⟩ := h.wf.unique hedge' hedge
    exact Prod.ext (h.live_inj hr'.live hr.live hframe) hindex

end Paging.Inv

/-- **The ownership tree survives every run.**  After a successful `vmm_init`, any
calls of the virtual memory manager with any arguments, interleaved with any
legitimate use of the PMM, leave the page tables a forest in which every table has
one parent, of the next level and with the same owner. -/
theorem ownershipTree_run (image : KernelImage) (boot : MmBoot) {ops : List MmOp}
    (hops : (mmSystem image).Admissible boot.start ops) :
    OwnershipTree ((mmSystem image).run boot.start ops).vmm.paging :=
  (Mm.inv_run image boot hops).paging.ownershipTree

/-- A machine with thirty usable frames; its reserved page holds the boot loader's
PML4. -/
def demoBoot : MmBoot where
  response := { demoResponse with memmap := some [⟨0x1000, 0x1E000, 0⟩, ⟨0x1F000, 0x1000, 1⟩] }
  entries := [⟨0x1000, 0x1E000, 0⟩, ⟨0x1F000, 0x1000, 1⟩]
  early := []
  memory := fun _ _ => 0
  cr3 := 0x1F000
  memmap := rfl
  bound := by decide
  root_reserved := by decide +kernel
  root_unowned := by decide +kernel
  initialised := by decide +kernel

/-- A machine with four usable frames, two of them left after `vmm_init`. -/
def smallBoot : MmBoot where
  response := demoResponse
  entries := demoEntries
  early := []
  memory := fun _ _ => 0
  cr3 := 0x5000
  memmap := rfl
  bound := by decide
  root_reserved := by decide
  root_unowned := by decide
  initialised := by decide

/-- A one-page kernel of code. -/
def demoImage : KernelImage where
  virtualBase := 0xFFFFFFFF80000000
  physicalBase := 0x40000000
  imageSize := 0x1000
  textStart := 0xFFFFFFFF80000000
  textEnd := 0xFFFFFFFF80001000
  rodataStart := 0xFFFFFFFF80001000
  rodataEnd := 0xFFFFFFFF80001000
  dataStart := 0xFFFFFFFF80001000
  dataEnd := 0xFFFFFFFF80001000
  bssStart := 0xFFFFFFFF80001000
  bssEnd := 0xFFFFFFFF80001000

/-- A second address space, a mapping in it, a client frame that comes and goes, and
the destruction of the second space. -/
theorem ownershipTree_run_demo :
    OwnershipTree ((mmSystem demoImage).run demoBoot.start
      [.createAddressSpace, .mapPage 0x3000 0x400000 0x8000 2, .allocFrame, .freeFrame 0x7000,
        .prepare, .destroy 0x3000]).vmm.paging :=
  ownershipTree_run demoImage demoBoot (by decide +kernel)

end Batos
