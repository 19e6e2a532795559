import Batos.Sched.Client

/-!
# Unmapping a task's stack

`task_unmap_stack` is the inverse of `task_map_stack`: it checks that each of the four
pages is mapped to the frame the task has recorded for it, and then unmaps and frees
them one after the other.  On a stack that is mapped page by page (`StackMapped`) it
succeeds, takes away the translations of the four pages and leaves every other one
alone (`taskUnmapStack_of_mapped`).

The check walks through large pages as well, and the loop does not, so on other states
the loop may stop half way.  Wherever it stops, it has only done what a client of the
memory subsystem may do (`taskUnmapStack_reachable`).
-/

namespace Batos

open List

variable {pages : List (Fin 4)} {task : Task}

/-- Every page of the stack is mapped, page by page, to its frame. -/
def StackMapped (root base : Word) (s : Paging) (frames : Fin 4 → Word) : Prop :=
  ∀ page, ∃ entry, s.tables.lookup root (stackPage base page) = some (0, entry) ∧
    entryAddress entry = frames page

/-- Frames are not read by a walk. -/
theorem StackMapped.congr {root base : Word} {s s' : Paging} {frames : Fin 4 → Word}
    (h : StackMapped root base s frames)
    (hlookup : ∀ page, s'.tables.lookup root (stackPage base page) =
      s.tables.lookup root (stackPage base page)) : StackMapped root base s' frames := by
  intro page
  rw [hlookup]
  exact h page

/-- The address is on one of the pages. -/
def OnStack (base : Word) (pages : List (Fin 4)) (va : Word) : Prop :=
  ∃ page ∈ pages, Tables.SamePath va (stackPage base page)

/-- The pages are unmapped, and no other translation is different. -/
def Paging.Vacates (root base : Word) (pages : List (Fin 4)) (s s' : Paging) : Prop :=
  ∀ va, (OnStack base pages va → s'.tables.lookup root va = none) ∧
    (¬ OnStack base pages va → s'.tables.lookup root va = s.tables.lookup root va)

/-- **The unmapping loop on mapped pages** runs to its end, and takes the translations
of these pages away. -/
theorem unmapStackPages_of_mapped {root base : Word} (hwin : StackWindow base)
    (hnodup : pages.Nodup) {s : Paging} (hwf : s.tables.forest.Wf vmmLevelPml4 ∅)
    {frames : Fin 4 → Word}
    (hmapped : ∀ page ∈ pages, ∃ entry, s.tables.lookup root (stackPage base page) = some (0,
      entry) ∧ entryAddress entry = frames page) :
    ∃ s' frames', unmapStackPages root base pages s frames = (true, s', frames') ∧
      s.Vacates root base pages s' := by
  induction pages generalizing s frames with
  | nil =>
      refine ⟨s, frames, rfl, fun va => ⟨?_, fun _ => rfl⟩⟩
      rintro ⟨page, hpage, -⟩
      exact absurd hpage not_mem_nil
  | cons page pages ih =>
      obtain ⟨hfresh, hrest⟩ := nodup_cons.mp hnodup
      obtain ⟨entry, hleaf, hentry⟩ := hmapped page mem_cons_self
      rcases vmmUnmapPage_cases hwf root (stackPage base page) with
        ⟨-, hnone⟩ | ⟨_, pt, t, -, -, -, -, ht, hl, -, hlookup, heq, hcleared⟩
      · exact absurd hleaf (hnone (hwin.aligned page) entry)
      rw [hleaf, Option.some.injEq, Prod.mk.injEq] at hlookup
      set s₁ : Paging := { s.write pt (ptIndex (stackPage base page)) 0 with
        pmm := pmmFreeFrame s.pmm (frames page) } with hs₁
      have hcleared₁ : ∀ va, s₁.tables.lookup root va =
          if Tables.SamePath va (stackPage base page) then none else s.tables.lookup root va :=
        hcleared
      have hwf₁ : s₁.tables.forest.Wf vmmLevelPml4 ∅ := by
        change (s.write pt (ptIndex (stackPage base page)) 0).tables.forest.Wf vmmLevelPml4 ∅
        rw [tables_write, Tables.forest_writeEntry_of_child_eq ht]
        · exact hwf
        · rw [hl]
          rfl
      obtain ⟨s', frames', hloop, hlookup'⟩ := @ih hrest s₁ hwf₁ (Function.update frames page 0)
        fun page' hpage' => by
          have hne : page' ≠ page := by
            rintro rfl
            exact hfresh hpage'
          rw [hcleared₁, if_neg fun hpath => hne (hwin.distinct hpath), Function.update_of_ne hne]
          exact hmapped page' (mem_cons_of_mem page hpage')
      refine ⟨s', frames', ?_, fun va => ⟨?_, fun hoff => ?_⟩⟩
      · rw [unmapStackPages, heq, ← hlookup.2, hentry]
        dsimp only
        rw [if_neg (not_not.mpr rfl)]
        exact hloop
      · rintro ⟨page', hpage', hpath⟩
        by_cases hon : OnStack base pages va
        · exact (hlookup' va).1 hon
        · have hsame : page' = page :=
            (mem_cons.mp hpage').resolve_right fun hmem => hon ⟨page', hmem, hpath⟩
          rw [(hlookup' va).2 hon, hcleared₁, if_pos (hsame ▸ hpath)]
      · rw [(hlookup' va).2 fun ⟨page', hmem, hpath⟩ =>
          hoff ⟨page', mem_cons_of_mem page hmem, hpath⟩, hcleared₁, if_neg]
        exact fun hpath => hoff ⟨page, mem_cons_self, hpath⟩

/-- A mapped stack passes the check before the loop. -/
theorem StackMapped.translates {root base : Word} (hwin : StackWindow base) {s : Paging}
    {frames : Fin 4 → Word} (h : StackMapped root base s frames) :
    (stackPages.all fun page =>
      vmmTranslate s root (stackPage base page) == some (frames page)) = true := by
  rw [all_eq_true]
  intro page _
  obtain ⟨entry, hleaf, hentry⟩ := h page
  rw [vmmTranslate_of_page hleaf, hwin.aligned page, hentry]
  simp

/-- **`task_unmap_stack` on a mapped stack** succeeds. -/
theorem taskUnmapStack_of_mapped (hbase : task.kernelStackBase ≠ 0)
    (hwin : StackWindow task.kernelStackBase) {s : Paging} (hwf : s.tables.forest.Wf vmmLevelPml4 ∅)
    (hmapped : StackMapped task.addressSpace task.kernelStackBase s task.kernelStackPages) :
    ∃ s' frames, taskUnmapStack s task = (0, { task with kernelStackPages := frames }, s') ∧
      s.Vacates task.addressSpace task.kernelStackBase stackPages s' := by
  obtain ⟨s', frames, hloop, hlookup⟩ := unmapStackPages_of_mapped hwin (nodup_finRange 4) hwf
    fun page _ => hmapped page
  refine ⟨s', frames, ?_, hlookup⟩
  rw [taskUnmapStack, if_neg hbase, if_pos (hmapped.translates hwin), hloop]
  rfl

/-! ## Unmapping in tables of any shape -/

/-- Each page of a stack is mapped, page by page, to the frame recorded for it; a task
without a stack has no such page. -/
def StackIntact (s : Paging) (task : Task) : Prop :=
  task.kernelStackBase ≠ 0 → ∀ page, stackPage task.kernelStackBase page &&& 0xFFF = 0 ∧
    ∃ entry, s.tables.lookup task.addressSpace (stackPage task.kernelStackBase page) =
    some (0, entry) ∧
      entryAddress entry = task.kernelStackPages page

/-- Four consecutive pages use four entries of their page tables. -/
theorem ptIndex_stackPage_injective {base : Word} {page page' : Fin 4}
    (h : ptIndex (stackPage base page) = ptIndex (stackPage base page')) : page = page' := by
  have hval := congrArg Fin.val h
  have hpage := page.isLt
  have hpage' := page'.isLt
  unfold ptIndex stackPage at hval
  rw [pageIndex_val, pageIndex_val, BitVec.toNat_add, BitVec.toNat_add, BitVec.toNat_mul,
    BitVec.toNat_mul, BitVec.toNat_ofNat, BitVec.toNat_ofNat] at hval
  change (base.toNat + page.val % 2 ^ 64 * 4096 % 2 ^ 64) % 2 ^ 64 / 4096 % 512 =
    (base.toNat + page'.val % 2 ^ 64 * 4096 % 2 ^ 64) % 2 ^ 64 / 4096 % 512 at hval
  apply Fin.ext
  omega

/-- **When the unmapping loop runs to its end**, whatever the shape of the tables. -/
theorem unmapStackPages_iff (root base : Word) (hnodup : pages.Nodup) (s : Paging)
    (frames : Fin 4 → Word) :
    (unmapStackPages root base pages s frames).1 = true ↔
      ∀ page ∈ pages, stackPage base page &&& 0xFFF = 0 ∧
        ∃ entry, s.tables.lookup root (stackPage base page) = some (0, entry) ∧
          entryAddress entry = frames page := by
  induction pages generalizing s frames with
  | nil => simp [unmapStackPages]
  | cons page pages ih =>
      obtain ⟨hfresh, hrest⟩ := nodup_cons.mp hnodup
      rw [forall_mem_cons, unmapStackPages]
      rcases vmmUnmapPage_page s root (stackPage base page) with
        ⟨heq, hnone⟩ | ⟨_, pt, t, -, -, -, -, ht, hl, -, haligned, hlookup, heq⟩
      · rw [heq]
        refine iff_of_false nofun ?_
        rintro ⟨⟨haligned, entry, hentry, -⟩, -⟩
        exact hnone haligned entry hentry
      · rw [heq]
        dsimp only
        split_ifs with hframe
        · refine iff_of_false nofun ?_
          rintro ⟨⟨-, entry, hentry, hrecorded⟩, -⟩
          rw [hlookup, Option.some.injEq, Prod.mk.injEq] at hentry
          exact hframe (hentry.2 ▸ hrecorded)
        · rw [ih hrest, and_iff_right ⟨haligned, _, hlookup, not_not.mp hframe⟩]
          -- the entries of the other pages are still there
          refine forall₂_congr fun page' hmem => ?_
          have hne : page' ≠ page := by
            rintro rfl
            exact hfresh hmem
          have hkept : (s.write pt (ptIndex (stackPage base page)) 0).tables.lookup root
              (stackPage base page') = s.tables.lookup root (stackPage base page') := by
            rw [tables_write]
            exact Tables.walk_writeLeaf_of_ne ht hl
              (fun hindex => hne (ptIndex_stackPage_injective hindex)) 0 root vmmLevelPml4 root
          rw [Function.update_of_ne hne]
          change _ ∧ (∃ entry, (s.write pt (ptIndex (stackPage base page)) 0).tables.lookup root _ =
            _ ∧ _) ↔ _
          rw [hkept]

/-- Of the task only the record of its frames changes. -/
theorem taskUnmapStack_eq (s : Paging) (task : Task) :
    ∃ code frames paging, taskUnmapStack s task =
      (code, { task with kernelStackPages := frames }, paging) := by
  unfold taskUnmapStack
  split_ifs
  · exact ⟨-1, task.kernelStackPages, s, rfl⟩
  · exact ⟨_, _, _, rfl⟩
  · exact ⟨-1, task.kernelStackPages, s, rfl⟩

/-- **When `task_unmap_stack` succeeds**, whatever the shape of the tables. -/
theorem taskUnmapStack_iff (s : Paging) (hbase : task.kernelStackBase ≠ 0) :
    (taskUnmapStack s task).1 = 0 ↔ StackIntact s task := by
  unfold taskUnmapStack StackIntact
  rw [if_neg hbase]
  split_ifs with htranslates
  · have hloop := unmapStackPages_iff task.addressSpace task.kernelStackBase (nodup_finRange 4) s
      task.kernelStackPages
    simp only [mem_finRange, true_imp_iff] at hloop
    rw [forall_prop_of_true hbase, ← hloop]
    cases unmapStackPages task.addressSpace task.kernelStackBase stackPages s
      task.kernelStackPages with
    | mk complete result => cases complete <;> simp
  · refine iff_of_false (by simp) fun hintact => htranslates ?_
    rw [all_eq_true]
    intro page _
    obtain ⟨haligned, entry, hleaf, hentry⟩ := hintact hbase page
    rw [vmmTranslate_of_page hleaf, haligned, hentry]
    simp

/-! ## What a construction does to the window -/

section Create

variable (layout : TaskLayout) (taskAddress : Word) {v : Vmm} (task : Task)
  {id addressSpace entry : Word} (argument : Word)

/-- **The two outcomes of a `task_create` that is not refused.**  If it fails and the slot
of the stack was clear, no translation is different.  If it succeeds, the slot was free;
its pages are mapped to the frames of the task, and no other translation is different. -/
theorem taskCreate_cases (h : v.paging.Inv ∅)
    (haccepts : taskCreateAccepts id addressSpace entry = true) :
    (∃ v', taskCreate layout taskAddress v task id addressSpace entry argument =
        (-1, stacklessTask id addressSpace entry argument, v') ∧
      (SlotClear addressSpace (taskStackVirtualFor layout id) v.paging → ∀ va,
        v'.paging.tables.lookup addressSpace va = v.paging.tables.lookup addressSpace va)) ∨
    addressSpace = vmmGetPml4 v ∧ ∃ frames v',
      taskCreate layout taskAddress v task id addressSpace entry argument =
        (0, freshTask layout id addressSpace entry argument frames, v') ∧
      StackMapped addressSpace (taskStackVirtualFor layout id) v'.paging frames ∧
      (∀ va, OnStack (taskStackVirtualFor layout id) stackPages va →
        v.paging.tables.lookup addressSpace va = none) ∧
      ∀ va, ¬ OnStack (taskStackVirtualFor layout id) stackPages va →
        v'.paging.tables.lookup addressSpace va = v.paging.tables.lookup addressSpace va := by
  rcases taskCreate_outcome layout taskAddress v task argument id addressSpace entry with
    ⟨-, task', heq, htask⟩ | ⟨-, hspace, complete, s, frames, hloop, hresult⟩
  · rw [htask haccepts] at heq
    exact .inl ⟨v, heq, fun _ _ => rfl⟩
  obtain ⟨hwin, staged, hstaged, hframe⟩ := taskCreate_stages layout h haccepts hloop
  rcases hresult with ⟨rfl, heq⟩ | ⟨rfl, heq⟩
  · refine .inl ⟨_, heq, fun hclear va => ?_⟩
    obtain ⟨frames', hstaged', hnone⟩ := hstaged.rollback hwin hclear stackPages
    refine hstaged'.other va fun page a hpage => ?_
    rw [hnone page (.inl (mem_finRange page))] at hpage
    cases hpage
  · have htables := tables_stores
      (firstRunStores layout taskAddress (taskStackVirtualFor layout id + 0x4000))
      (hstaged.owned (hframe rfl 3)).1
    refine .inr ⟨hspace, frames, _, heq, fun page => ?_, fun va hon => ?_, fun va hoff => ?_⟩
    · refine ⟨leafEntry (frames page) vmmWritable, ?_, ?_⟩
      · rw [htables]
        exact (hstaged.mapped (hframe rfl page)).2
      · rw [entryAddress_leafEntry]
        exact (hstaged.owned (hframe rfl page)).2.1.frameAligned hstaged.inv.sound
    · obtain ⟨page, -, hpath⟩ := hon
      rw [hpath.lookup]
      exact (hstaged.mapped (hframe rfl page)).1
    · rw [htables]
      exact hstaged.other va fun page a _ hpath => hoff ⟨page, mem_finRange page, hpath⟩

end Create

/-! ## As a client of the memory subsystem -/

section Client

variable (image : KernelImage) {root : Word} {window : Set Word} {m : Mm}

/-- Fewer translations are owned as well. -/
theorem WindowOwned.mono (h : WindowOwned root window m) {m' : Mm}
    (hlookup : ∀ va, m'.vmm.paging.tables.lookup root va = none ∨
      m'.vmm.paging.tables.lookup root va = m.vmm.paging.tables.lookup root va)
    (hheld : m'.held = m.held) : WindowOwned root window m' := by
  have hold : ∀ {va entry}, m'.vmm.paging.tables.lookup root va = some (0, entry) →
      m.vmm.paging.tables.lookup root va = some (0, entry) := by
    intro va entry hleaf
    rcases hlookup va with hnone | hsame
    · rw [hnone] at hleaf
      cases hleaf
    · exact hsame.symm.trans hleaf
  refine ⟨fun hva hleaf => ?_, fun hva hva' hleaf hleaf' =>
    h.inj hva hva' (hold hleaf) (hold hleaf')⟩
  rw [hheld]
  exact h.held hva (hold hleaf)

/-- **The unmapping loop, as operations of a client**, wherever it stops. -/
theorem unmapStackPages_reachable (pages : List (Fin 4)) (hinv : m.Inv)
    (hown : WindowOwned root window m) {base : Word}
    (hpages : ∀ page, stackPage base page ∈ window) (frames : Fin 4 → Word) :
    ∃ m', (mmSystem image).Reachable m m' ∧ WindowOwned root window m' ∧
      m'.vmm = { m.vmm with
        paging := (unmapStackPages root base pages m.vmm.paging frames).2.1 } := by
  induction pages generalizing m frames with
  | nil => exact ⟨m, .refl _ m, hown, rfl⟩
  | cons page pages ih =>
      rw [unmapStackPages]
      rcases vmmUnmapPage_cases hinv.paging.wf root (stackPage base page) with
        ⟨heq, -⟩ | ⟨_, pt, t, -, -, -, -, -, -, -, -, heq, hcleared⟩
      · rw [heq]
        exact ⟨m, .refl _ m, hown, rfl⟩
      rw [heq]
      dsimp only
      split_ifs with hforeign
      · -- another frame was mapped there: it is unmapped and not freed
        refine ⟨m.setPaging (m.vmm.paging.write pt (ptIndex (stackPage base page)) 0), ?_,
          hown.mono (fun va => ?_) rfl, rfl⟩
        · have hstep : (mmSystem image).step m (.unmapPage root (stackPage base page)) =
              m.setPaging (m.vmm.paging.write pt (ptIndex (stackPage base page)) 0) := by
            simp only [mmSystem, Mm.step, heq]
          rw [← hstep]
          exact (TransitionSystem.Reachable.refl _ m).tail
            (MmOp.unmapPage root (stackPage base page)) trivial
        · refine Or.imp ?_ ?_ (em (Tables.SamePath va (stackPage base page))) <;> intro hpath
          · exact (hcleared va).trans (if_pos hpath)
          · exact (hcleared va).trans (if_neg hpath)
      · obtain ⟨m₁, hreach₁, hown₁, hvmm₁⟩ :=
          rollbackStackPage_reachable image hinv hown (hpages page)
        obtain ⟨m₂, hreach₂, hown₂, hvmm₂⟩ := ih (hinv.of_reachable hreach₁) hown₁
          (Function.update frames page 0)
        refine ⟨m₂, hreach₁.trans hreach₂, hown₂, ?_⟩
        rw [hvmm₂, hvmm₁]
        simp only [rollbackStackPage, heq]

/-- `task_unmap_stack` keeps everything of the task but the record of its frames, and is
a client of the memory subsystem. -/
theorem taskUnmapStack_reachable (hinv : m.Inv) (hown : WindowOwned task.addressSpace window m)
    (hpages : ∀ page, stackPage task.kernelStackBase page ∈ window) :
    ∃ code frames m', taskUnmapStack m.vmm.paging task =
        (code, { task with kernelStackPages := frames }, m'.vmm.paging) ∧
      (mmSystem image).Reachable m m' ∧ WindowOwned task.addressSpace window m' ∧
      m'.vmm = { m.vmm with paging := m'.vmm.paging } := by
  unfold taskUnmapStack
  split_ifs with hbase hcheck
  · exact ⟨-1, task.kernelStackPages, m, rfl, .refl _ m, hown, rfl⟩
  · obtain ⟨m', hreach, hown', hvmm⟩ := unmapStackPages_reachable image stackPages hinv hown hpages
      task.kernelStackPages
    cases hloop : unmapStackPages task.addressSpace task.kernelStackBase stackPages m.vmm.paging
        task.kernelStackPages with
    | mk complete result =>
        obtain ⟨s', frames⟩ := result
        rw [hloop] at hvmm
        have hpaging : m'.vmm.paging = s' := by rw [hvmm]
        refine ⟨if complete then 0 else -1, frames, m', ?_, hreach, hown', ?_⟩
        · rw [hpaging]
        · rw [hpaging]
          exact hvmm
  · exact ⟨-1, task.kernelStackPages, m, rfl, .refl _ m, hown, rfl⟩

end Client

end Batos
