import Batos.Sched.Reclaim

/-!
# The window of the task stacks, page by page

`task_validate_reclaim` and `task_unmap_stack` check a stack with `vmm_translate`, which
looks through large pages, and the loop that follows works on 4 KiB pages only.  The two
agree where nothing but 4 KiB pages is mapped (`SmallPages`).  Whatever `task_create` and
`task_unmap_stack` do to the window, they map and unmap single pages (`Paging.Pagewise`),
so this is never lost.

A stack found by translation is then mapped page by page (`stackMapped_of_translates`), and
its frames can be given back: that holds for every frame a client holds
(`Mm.releases_of_held`).
-/

namespace Batos

/-! ## Frames in the hands of clients -/

/-- A frame that has been handed out and not returned can be returned. -/
theorem PmmRun.releases_step {r : PmmRun} (howned : r.Owned)
    (h : ∀ a ∈ r.outstanding, r.pmm.Releases a) (op : PmmOp) :
    ∀ a ∈ (r.step op).outstanding, (r.step op).pmm.Releases a := by
  intro a ha
  have hused := (owned_step howned op).used a ha
  have hgeometry := sameGeometry_step r op
  cases op with
  | alloc =>
      rcases pmmAllocFrame_cases r.pmm with ⟨heq, -⟩ | ⟨f, hfree, -, hinstalled, heq⟩
      · simp only [PmmRun.step, heq, if_true] at ha
        exact (h a ha).of_sameGeometry hgeometry hused
      · have hrel := howned.sound.releases_reserve hinstalled hfree
        simp only [PmmRun.step, heq, if_neg hrel.nonzero] at ha ⊢
        rcases List.mem_cons.mp ha with rfl | ha
        · exact hrel
        · simp only [PmmRun.step, heq] at hgeometry hused
          exact (h a ha).of_sameGeometry hgeometry hused
  | free address => exact (h a (List.mem_of_mem_filter ha)).of_sameGeometry hgeometry hused

theorem MmBoot.releases_start (boot : MmBoot) :
    ∀ a ∈ boot.start.held, boot.start.vmm.paging.pmm.Releases a := by
  have hrun : boot.pmmRun.Owned ∧ ∀ a ∈ boot.pmmRun.outstanding, boot.pmmRun.pmm.Releases a :=
    pmmSystem.run_induction (fun r => r.Owned ∧ ∀ a ∈ r.outstanding, r.pmm.Releases a)
      (fun _ op h _ => ⟨owned_step h.1 op, PmmRun.releases_step h.1 h.2 op⟩)
      ⟨owned_init boot.memmap boot.bound, fun _ h => absurd h List.not_mem_nil⟩
      (pmmSystem_admissible _ _)
  intro a ha
  obtain ⟨root, s', spaces, hvmm, hinv, hext, -⟩ := boot.start_vmm
  have hframe := hext.frame fun ht => (hinv.frames ht).aligned
  have hused := (boot.inv_start.held a ha).2
  rw [hvmm] at hused ⊢
  exact (hrun.2 a ha).of_sameGeometry hframe.geometry hused

section Held

variable {m : Mm} (image : KernelImage)

/-- The geometry of the PMM is settled by `pmm_init`. -/
theorem Mm.sameGeometry_step (h : m.Inv) {op : MmOp} :
    m.vmm.paging.pmm.SameGeometry (m.step image op).vmm.paging.pmm := by
  cases op with
  | createAddressSpace => exact (vmmCreateAddressSpace_evolves h.paging).paging.frame.geometry
  | createKernelAddressSpace =>
      exact (vmmCreateKernelAddressSpace_evolves image h.paging).paging.frame.geometry
  | mapPage pml4 va pa flags => exact (vmmMapPage_evolves h.paging pml4 va pa flags).frame.geometry
  | unmapPage pml4 va => exact (vmmUnmapPage_evolves h.paging pml4 va).frame.geometry
  | activate pml4 =>
      rcases vmmActivateAddressSpace_cases h.paging pml4 with ⟨code, heq⟩ | ⟨spaces, t, heq, -, -⟩
      · simp only [Mm.step, heq]
        exact .refl _
      · simp only [Mm.step, heq]
        exact .refl _
  | prepare =>
      obtain ⟨kt, hkt, hkl, hko⟩ := h.kernel
      rcases vmmPrepareAddressSpace_cases h.paging hkt hkl hko h.stable_cr3 with
        ⟨code, s', heq, -, hsame⟩ | ⟨s', cloned, heq, -, hframe, -⟩
      · simp only [Mm.step, heq]
        exact hsame.geometry
      · simp only [Mm.step, heq]
        exact hframe.geometry
  | destroy pml4 =>
      rcases vmmDestroyAddressSpace_cases h.paging pml4 with ⟨s', epoch, heq, hstamps⟩ |
        ⟨s', epoch, spaces, cloned, r, heq, -, -, -, -, -, hprunes⟩
      · simp only [Mm.step, heq]
        exact hstamps.same.geometry
      · simp only [Mm.step, heq]
        exact (hprunes.frame h.paging).geometry
  | allocFrame => exact sameGeometry_pmmAllocFrame m.vmm.paging.pmm
  | freeFrame a => exact sameGeometry_pmmFreeFrame m.vmm.paging.pmm a
  | store a index value => exact .refl _

/-- **What a client holds it can give back.** -/
theorem Mm.releases_of_held {boot : MmBoot} (hm : (mmSystem image).Reachable boot.start m)
    {a : Word} (ha : a ∈ m.held) : m.vmm.paging.pmm.Releases a := by
  have hinv : m.Inv ∧ ∀ a ∈ m.held, m.vmm.paging.pmm.Releases a := by
    refine hm.induction (fun m => m.Inv ∧ ∀ a ∈ m.held, m.vmm.paging.pmm.Releases a) ?_
      ⟨boot.inv_start, boot.releases_start⟩
    rintro m op ⟨hinv, hreleases⟩ hop
    have hnext := hinv.step image hop
    refine ⟨hnext, fun b hb => ?_⟩
    have hold : b ∈ m.held → ((mmSystem image).step m op).vmm.paging.pmm.Releases b := fun hmem =>
      (hreleases b hmem).of_sameGeometry (Mm.sameGeometry_step image hinv) (hnext.held b hb).2
    cases op with
    | allocFrame =>
        rcases m.step_allocFrame image hinv.paging.sound with heq | ⟨f, hfree, hinstalled, heq⟩
        · exact hold (congrArg Mm.held heq ▸ hb)
        · rcases List.mem_cons.mp (congrArg Mm.held heq ▸ hb) with rfl | hmem
          · simp only [mmSystem, heq]
            exact hinv.paging.sound.releases_reserve hinstalled hfree
          · exact hold hmem
    | freeFrame address => exact hold (List.mem_of_mem_filter hb)
    | createAddressSpace | createKernelAddressSpace | mapPage | unmapPage | activate | prepare
    | destroy
    | store => exact hold hb
  exact hinv.2 a ha

end Held

/-! ## Single pages -/

/-- What is translated in `s'` is on a 4 KiB page, or translated as in `s`. -/
def Paging.Pagewise (root : Word) (s s' : Paging) : Prop :=
  ∀ va level entry, s'.tables.lookup root va = some (level, entry) →
    level = 0 ∨ s.tables.lookup root va = some (level, entry)

/-- No large page is mapped in the window. -/
def SmallPages (root : Word) (window : Set Word) (s : Paging) : Prop :=
  ∀ va ∈ window, ∀ level entry, s.tables.lookup root va = some (level, entry) → level = 0

section Pagewise

variable {root base : Word} {s s' s'' : Paging}

theorem Paging.Pagewise.refl (root : Word) (s : Paging) : s.Pagewise root s :=
  fun _ _ _ hleaf => .inr hleaf

theorem Paging.Pagewise.trans (h : s.Pagewise root s') (h' : s'.Pagewise root s'') :
    s.Pagewise root s'' := by
  intro va level entry hleaf
  rcases h' va level entry hleaf with hzero | hold
  · exact .inl hzero
  · exact h va level entry hold

theorem Paging.Pagewise.of_tables (h : s.Pagewise root s') (htables : s''.tables = s'.tables) :
    s.Pagewise root s'' := by
  intro va level entry hleaf
  rw [htables] at hleaf
  exact h va level entry hleaf

/-- Pages disappear. -/
theorem Paging.Pagewise.of_cleared {hides : Word → Prop} [DecidablePred hides]
    (hcleared : ∀ va, s'.tables.lookup root va = if hides va then
      none else s.tables.lookup root va) :
    s.Pagewise root s' := by
  intro va level entry hleaf
  rw [hcleared] at hleaf
  split_ifs at hleaf
  exact .inr hleaf

theorem SmallPages.of_pagewise {window : Set Word} (h : SmallPages root window s)
    (hpages : s.Pagewise root s') : SmallPages root window s' := by
  intro va hva level entry hleaf
  rcases hpages va level entry hleaf with hzero | hold
  · exact hzero
  · exact h va hva level entry hold

theorem Staged.pagewise {frames : Fin 4 → Option Word} (h : Staged root base s frames s') :
    s.Pagewise root s' := by
  intro va level entry hleaf
  by_cases hon : ∃ page a, frames page = some a ∧ Tables.SamePath va (stackPage base page)
  · obtain ⟨page, a, hframe, hpath⟩ := hon
    rw [hpath.lookup, (h.mapped hframe).2, Option.some.injEq, Prod.mk.injEq] at hleaf
    exact .inl hleaf.1.symm
  · rw [h.other va fun page a hframe hpath => hon ⟨page, a, hframe, hpath⟩] at hleaf
    exact .inr hleaf

/-- `vmm_unmap_page` takes a page away, and leaves the trees of tables as they are. -/
theorem vmmUnmapPage_pagewise (hwf : s.tables.forest.Wf vmmLevelPml4 ∅) (va : Word) :
    s.Pagewise root (vmmUnmapPage s root va).2 ∧
      (vmmUnmapPage s root va).2.tables.forest.Wf vmmLevelPml4 ∅ := by
  classical
  rcases vmmUnmapPage_cases hwf root va with
    ⟨heq, -⟩ | ⟨_, pt, t, -, -, -, -, ht, hl, -, -, heq, hcleared⟩
  · rw [heq]
    exact ⟨.refl root s, hwf⟩
  · rw [heq]
    refine ⟨.of_cleared hcleared, ?_⟩
    rw [tables_write, Tables.forest_writeEntry_of_child_eq ht]
    · exact hwf
    · rw [hl]
      rfl

theorem rollbackStackPages_pagewise (pages : List (Fin 4))
    (hwf : s.tables.forest.Wf vmmLevelPml4 ∅) :
    s.Pagewise root (pages.foldl (rollbackStackPage root base) s) := by
  induction pages generalizing s with
  | nil => exact .refl root s
  | cons page pages ih =>
      obtain ⟨hpages, hwf₁⟩ := @vmmUnmapPage_pagewise root s hwf (stackPage base page)
      have htables : (rollbackStackPage root base s page).tables =
          (vmmUnmapPage s root (stackPage base page)).2.tables := by
        unfold rollbackStackPage
        split <;> rename_i heq <;> rw [heq]
        rfl
      rw [List.foldl_cons]
      refine Paging.Pagewise.trans (hpages.of_tables htables) (ih ?_)
      rw [htables]
      exact hwf₁

theorem unmapStackPages_pagewise (pages : List (Fin 4)) (hwf : s.tables.forest.Wf vmmLevelPml4 ∅)
    (frames : Fin 4 → Word) : s.Pagewise root (unmapStackPages root base pages s frames).2.1 := by
  induction pages generalizing s frames with
  | nil => exact .refl root s
  | cons page pages ih =>
      obtain ⟨hpages, hwf₁⟩ := @vmmUnmapPage_pagewise root s hwf (stackPage base page)
      rw [unmapStackPages]
      cases hunmap : vmmUnmapPage s root (stackPage base page) with
      | mk physical s₁ =>
          rw [hunmap] at hpages hwf₁
          cases physical with
          | none => exact hpages
          | some a =>
              dsimp only
              split_ifs
              · exact hpages
              · have hfreed : s.Pagewise root { s₁ with pmm := pmmFreeFrame s₁.pmm a } :=
                  hpages.of_tables rfl
                exact hfreed.trans (@ih { s₁ with pmm := pmmFreeFrame s₁.pmm a } hwf₁ _)

/-- `task_unmap_stack` takes pages away. -/
theorem taskUnmapStack_pagewise (hwf : s.tables.forest.Wf vmmLevelPml4 ∅) (task : Task) :
    s.Pagewise task.addressSpace (taskUnmapStack s task).2.2 := by
  unfold taskUnmapStack
  split_ifs
  · exact .refl _ s
  · exact unmapStackPages_pagewise stackPages hwf task.kernelStackPages
  · exact .refl _ s

/-- **`task_create`** maps pages in the kernel's address space, and takes pages away where
there is something in the way. -/
theorem taskCreate_pagewise (layout : TaskLayout) (taskAddress : Word) {v : Vmm}
    (h : v.paging.Inv ∅) (task : Task) (id addressSpace entry argument : Word) :
    v.paging.Pagewise (vmmGetPml4 v)
      (taskCreate layout taskAddress v task id addressSpace entry argument).2.2.paging := by
  rcases taskCreate_outcome layout taskAddress v task argument id addressSpace entry with
    ⟨-, task', heq, -⟩ | ⟨haccepts, hspace, complete, s', frames, hloop, hresult⟩
  · rw [heq]
    exact .refl _ _
  obtain ⟨-, staged, hstaged, hframe⟩ := taskCreate_stages layout h haccepts hloop
  rw [← hspace]
  rcases hresult with ⟨rfl, heq⟩ | ⟨rfl, heq⟩ <;> rw [heq]
  · exact hstaged.pagewise.trans (rollbackStackPages_pagewise stackPages hstaged.inv.wf)
  · exact hstaged.pagewise.of_tables (tables_stores _ (hstaged.owned (hframe rfl 3)).1)

/-! ## Stacks found by translation -/

/-- **Where there are only small pages, translation and mapping agree.** -/
theorem stackMapped_of_translates {window : Set Word} (hsmall : SmallPages root window s)
    (hwin : StackWindow base) (hpages : ∀ page, stackPage base page ∈ window)
    {frames : Fin 4 → Word}
    (htranslates : ∀ page, vmmTranslate s root (stackPage base page) = some (frames page)) :
    StackMapped root base s frames := by
  intro page
  have hpage := htranslates page
  have hsome := @vmmTranslate_isSome root (stackPage base page) s
  rw [hpage, Option.isSome_some, eq_comm, Option.isSome_iff_exists] at hsome
  obtain ⟨⟨level, entry⟩, hleaf⟩ := hsome
  obtain rfl := hsmall _ (hpages page) level entry hleaf
  refine ⟨entry, hleaf, ?_⟩
  rw [vmmTranslate_of_page hleaf, hwin.aligned page, Option.some.injEq] at hpage
  rw [← hpage]
  exact BitVec.or_zero.symm

end Pagewise

end Batos
