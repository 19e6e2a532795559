import Batos.Process.Execution
import Batos.Sched.Accounts
import Batos.Vmm.Mmu

/-!
# The books of the task stacks

Tasks are constructed and destroyed in any order, some of the calls fail, and everything
that is not a stack may change in between.  A task is live from the `task_create` that
returns 0 to the `task_destroy` that does.

The invariant (`StackRun.Inv`) says where the stacks are, what the window looks like
outside them, and what is on loan: the frames that were before, and four for each live
task.  Everything else is read off at the end (`stack_accounts`), the frames being counted
by `Paging.Booked.setFrames_eq`.
-/

namespace Batos

open List

variable {va id id' : Word} {page page' : Fin 4} {v : Vmm} {task' : Task} {t : TaskRef}

/-! ## Slots -/

section Slots

variable (layout : TaskLayout)

theorem canonical_of_mem_window (hva : va ∈ layout.window) : Canonical va := by
  obtain ⟨hlow, -⟩ := hva
  have hhigh := layout.high
  right
  omega

/-- Pages of different slots, or of one slot, are told apart by a walk. -/
theorem samePath_slots (hid : id ≠ 0) (hmax : id.toNat ≤ taskMaxTasks) (hid' : id' ≠ 0)
    (hmax' : id'.toNat ≤ taskMaxTasks)
    (h : Tables.SamePath (stackPage (taskStackVirtualFor layout id) page) (stackPage
      (taskStackVirtualFor layout id') page')) :
    id = id' ∧ page = page' := by
  have hslot := stackSlot layout hid hmax
  have hslot' := stackSlot layout hid' hmax'
  have hsame := (Tables.samePath_iff
    (canonical_of_mem_window layout (stackPage_mem_window layout hid hmax page))
    (canonical_of_mem_window layout (stackPage_mem_window layout hid' hmax' page'))).mp h
  rw [toNat_stackPage _ (by omega), toNat_stackPage _ (by omega)] at hsame
  have hpage := page.isLt
  have hpage' := page'.isLt
  refine ⟨BitVec.eq_of_toNat_eq ?_, Fin.ext ?_⟩
  · omega
  · omega

/-- The page below a stack is on no stack. -/
theorem not_onStack_guard (hid : id ≠ 0) (hmax : id.toNat ≤ taskMaxTasks) (hid' : id' ≠ 0)
    (hmax' : id'.toNat ≤ taskMaxTasks)
    (hlow : (taskStackVirtualFor layout id).toNat ≤ va.toNat + 0x1000)
    (hhigh : va.toNat < (taskStackVirtualFor layout id).toNat) :
    va ∈ layout.window ∧ ¬ OnStack (taskStackVirtualFor layout id') stackPages va := by
  have hslot := stackSlot layout hid hmax
  have hslot' := stackSlot layout hid' hmax'
  have hwindow : va ∈ layout.window := ⟨by omega, by omega⟩
  refine ⟨hwindow, ?_⟩
  rintro ⟨page, -, hpath⟩
  have hsame := (Tables.samePath_iff (canonical_of_mem_window layout hwindow)
    (canonical_of_mem_window layout (stackPage_mem_window layout hid' hmax' page))).mp hpath
  rw [toNat_stackPage _ (by omega)] at hsame
  have hpage := page.isLt
  omega

end Slots

/-! ## Construction and destruction -/

/-- What `task_create` and `task_destroy` keep of a stack in the task object. -/
def Task.stackRecord (task : Task) : Word × Word × Word × (Fin 4 → Word) :=
  (task.id, task.addressSpace, task.kernelStackBase, task.kernelStackPages)

/-- A task with its stack, mapped page by page in the slot of its id. -/
structure Task.HasStack (platform : Platform) (s : Paging) (task : Task) : Prop where
  id_ne : task.id ≠ 0
  id_le : task.id.toNat ≤ taskMaxTasks
  space : task.addressSpace = platform.root
  base : task.kernelStackBase = taskStackVirtualFor platform.layout.toTaskLayout task.id
  mapped : StackMapped platform.root task.kernelStackBase s task.kernelStackPages
  releases : ∀ page, s.pmm.Releases (task.kernelStackPages page)

namespace Task.HasStack

variable {platform : Platform} {s : Paging} {task : Task} (h : task.HasStack platform s)

include h

theorem window : StackWindow task.kernelStackBase := by
  rw [h.base]
  exact stackWindow_taskStackVirtualFor _ h.id_ne h.id_le

theorem mem_window (page : Fin 4) :
    stackPage task.kernelStackBase page ∈ platform.layout.window := by
  rw [h.base]
  exact stackPage_mem_window _ h.id_ne h.id_le page

theorem base_ne_zero : task.kernelStackBase ≠ 0 := by
  rw [h.base]
  exact taskStackVirtualFor_ne_zero _ h.id_ne h.id_le

/-- The frames of two stacks are different frames. -/
theorem frames_inj (hs : s = v.paging) (hv : platform.Backs v) (h' : task'.HasStack platform s)
    (heq : task.kernelStackPages page = task'.kernelStackPages page') :
    task.id = task'.id ∧ page = page' := by
  subst hs
  obtain ⟨m, -, hown, rfl⟩ := hv
  obtain ⟨entry, hleaf, hentry⟩ := h.mapped page
  obtain ⟨entry', hleaf', hentry'⟩ := h'.mapped page'
  have hpath := hown.inj (h.mem_window page) (h'.mem_window page') hleaf hleaf'
    (hentry.trans (heq.trans hentry'.symm))
  rw [h.base, h'.base] at hpath
  exact samePath_slots _ h.id_ne h.id_le h'.id_ne h'.id_le hpath

theorem of_record (heq : task'.stackRecord = task.stackRecord) :
    task'.HasStack platform s := by
  simp only [stackRecord, Prod.mk.injEq] at heq
  obtain ⟨hid, hspace, hbase, hpages⟩ := heq
  refine ⟨hid ▸ h.id_ne, hid ▸ h.id_le, hspace.trans h.space, ?_, ?_, hpages ▸ h.releases⟩
  · rw [hbase, hid]
    exact h.base
  · rw [hbase, hpages]
    exact h.mapped

/-- The page tables may change elsewhere. -/
theorem congr {s' : Paging}
    (hlookup : ∀ page, s'.tables.lookup platform.root (stackPage task.kernelStackBase page) =
      s.tables.lookup platform.root (stackPage task.kernelStackBase page))
    (hreleases : ∀ page, s'.pmm.Releases (task.kernelStackPages page)) :
    task.HasStack platform s' :=
  ⟨h.id_ne, h.id_le, h.space, h.base, h.mapped.congr hlookup, hreleases⟩

end Task.HasStack

section Outcomes

variable {platform : Platform} {k : Kernel} {t : TaskRef}

/-- **The outcomes of `task_create` on a clear slot.**  A call that fails leaves a task
object without a stack, or the one it got.  A call that succeeds leaves one with a stack,
where there was nothing. -/
theorem Kernel.taskCreate_outcome (hv : platform.Backs k.vmm)
    (hbare : (k.task t).kernelStackBase = 0) (id addressSpace entry argument : Word)
    (hclear : id ≠ 0 → id.toNat ≤ taskMaxTasks →
      SlotClear platform.root (taskStackVirtualFor platform.layout.toTaskLayout id) k.vmm.paging) :
    ∃ code v task, k.taskCreate platform.layout t id addressSpace entry argument =
        (code, k.refit v t task) ∧
      platform.Backs v ∧ k.vmm.paging.Accrues platform.root v.paging ∧
      (code ≠ 0 ∧ task.kernelStackBase = 0 ∧ v.paging.loans = k.vmm.paging.loans ∧
          (∀ va, v.paging.tables.lookup platform.root va =
            k.vmm.paging.tables.lookup platform.root va) ∨
        code = 0 ∧ task.id = id ∧ task.HasStack platform v.paging ∧
          (∀ va, ¬ OnStack task.kernelStackBase stackPages va →
            v.paging.tables.lookup platform.root va =
              k.vmm.paging.tables.lookup platform.root va) ∧
          (∀ page, k.vmm.paging.pmm.used (frameOf (task.kernelStackPages page)) = false) ∧
          ∀ f, f ∈ v.paging.loans ↔
            f ∈ k.vmm.paging.loans ∨ ∃ page, frameOf (task.kernelStackPages page) = f) := by
  have hroot := hv.root_eq
  have hbacked := hv.taskCreate (platform.layout.taskAddress t) (k.task t)
    id addressSpace entry argument
  unfold Kernel.taskCreate
  cases hcall : Batos.taskCreate platform.layout.toTaskLayout (platform.layout.taskAddress t) k.vmm
      (k.task t) id addressSpace entry argument with
  | mk code result =>
  obtain ⟨task, v⟩ := result
  rw [hcall] at hbacked
  refine ⟨code, v, task, rfl, hbacked, ?_⟩
  have hstays : code = -1 → task.kernelStackBase = 0 → v = k.vmm →
      k.vmm.paging.Accrues platform.root v.paging ∧ (code ≠ 0 ∧ task.kernelStackBase = 0 ∧
        v.paging.loans = k.vmm.paging.loans ∧ ∀ va, v.paging.tables.lookup platform.root va =
          k.vmm.paging.tables.lookup platform.root va) := by
    rintro rfl hbase rfl
    exact ⟨.refl _ _, by decide, hbase, rfl, fun _ => rfl⟩
  by_cases haccepts : taskCreateAccepts id addressSpace entry = true
  swap
  · -- refused before the object is touched
    rw [Batos.taskCreate, if_pos (by simpa using haccepts), Prod.mk.injEq, Prod.mk.injEq] at hcall
    obtain ⟨hcode, htask, hvmm⟩ := hcall
    obtain ⟨haccrues, hfailed⟩ := hstays hcode.symm (htask ▸ hbare) hvmm.symm
    exact ⟨haccrues, .inl hfailed⟩
  obtain ⟨hid, hmax, -⟩ := taskCreateAccepts_iff.mp haccepts
  rcases Batos.taskCreate_cases platform.layout.toTaskLayout (platform.layout.taskAddress t)
    (k.task t)
      argument hv.inv haccepts with
      ⟨v', hfailed, hsame⟩ | ⟨hspace, frames, v', hcreated, hmapped, -, hother⟩
  · rw [hcall, Prod.mk.injEq, Prod.mk.injEq] at hfailed
    obtain ⟨rfl, rfl, rfl⟩ := hfailed
    by_cases hspace : addressSpace = vmmGetPml4 k.vmm
    · have hclear' := hclear hid hmax
      rw [← hroot, ← hspace] at hclear' ⊢
      obtain ⟨haccrues, hloans, -⟩ :=
        taskCreate_loans platform.layout.toTaskLayout _ _ argument hv.inv
        haccepts hclear' hcall
      exact ⟨haccrues, .inl ⟨by decide, rfl, hloans (by decide), hsame hclear'⟩⟩
    · rcases Batos.taskCreate_outcome platform.layout.toTaskLayout
        (platform.layout.taskAddress t) k.vmm
          (k.task t) argument id addressSpace entry with ⟨-, task', hrefused, -⟩ | ⟨-, hkernel, -⟩
      · rw [hcall, Prod.mk.injEq, Prod.mk.injEq] at hrefused
        obtain ⟨haccrues, hfailed⟩ := hstays rfl rfl hrefused.2.2
        exact ⟨haccrues, .inl hfailed⟩
      · exact absurd hkernel hspace
  · have hclear' := hclear hid hmax
    rw [hroot] at hspace
    subst hspace
    obtain ⟨haccrues, -, hloans⟩ :=
      taskCreate_loans platform.layout.toTaskLayout _ _ argument hv.inv
      haccepts hclear' hcall
    rw [hcall, Prod.mk.injEq, Prod.mk.injEq] at hcreated
    obtain ⟨rfl, rfl, rfl⟩ := hcreated
    obtain ⟨hframes, hloans⟩ := hloans rfl
    exact ⟨haccrues, .inr ⟨rfl, rfl,
      ⟨hid, hmax, rfl, rfl, hmapped, fun page => (hframes page).1⟩, hother,
      fun page => (hframes page).2, hloans⟩⟩

/-- **The outcomes of `task_destroy` on a task with its stack.**  A call that fails changes
nothing. -/
theorem taskDestroy_outcome (hv : platform.Backs k.vmm)
    (hstack : (k.task t).HasStack platform k.vmm.paging) :
    taskDestroy k t = (-1, k) ∨
      ∃ v, taskDestroy k t = (0, k.refit v t (k.task t).reclaimed) ∧ platform.Backs v ∧
        v.paging.records = k.vmm.paging.records ∧ k.vmm.paging.pmm.SameGeometry v.paging.pmm ∧
        (∀ f, v.paging.pmm.used f = true ↔ k.vmm.paging.pmm.used f = true ∧
          ¬ ∃ page, frameOf ((k.task t).kernelStackPages page) = f) ∧
        k.vmm.paging.Vacates platform.root (k.task t).kernelStackBase stackPages v.paging := by
  by_cases hd : k.Destructible t
  swap
  · exact .inl (taskDestroy_refused hd)
  have hbase := hstack.base_ne_zero
  have hmapped := hstack.mapped
  obtain ⟨code, frames, paging, heq, hbacked⟩ := hv.taskUnmapStack hstack.space hstack.mem_window
  obtain ⟨s', frames', hloop, hlookup⟩ := unmapStackPages_of_mapped hstack.window
    (nodup_finRange 4) hv.inv.wf fun page _ => hmapped page
  rw [← hstack.space] at hmapped hloop
  have hunmapped : taskUnmapStack k.vmm.paging (k.task t) =
      (0, { k.task t with kernelStackPages := frames' }, s') := by
    rw [taskUnmapStack, if_neg hbase, if_pos (hmapped.translates hstack.window), hloop]
    rfl
  obtain ⟨-, -, rfl⟩ : code = 0 ∧ _ ∧ paging = s' := by
    have hresult := heq.symm.trans hunmapped
    rw [Prod.mk.injEq, Prod.mk.injEq] at hresult
    exact hresult
  obtain ⟨hrecords, hgeometry, hused⟩ := unmapStackPages_frees (nodup_finRange 4)
    (fun page _ => hstack.releases page)
    (fun page _ page' _ hframe => (hstack.frames_inj rfl hv hstack hframe).2) hloop
  refine .inr ⟨{ k.vmm with paging := paging }, taskDestroy_of_unmap hd hbase hunmapped, hbacked,
    hrecords, hgeometry, fun f => ?_, hlookup⟩
  rw [hused, not_exists]
  exact and_congr_right fun _ => ⟨fun h page => h page (mem_finRange page), fun h page _ => h page⟩

/-- `task_destroy` on a task without a stack does nothing to memory. -/
theorem taskDestroy_of_bare (hbare : (k.task t).kernelStackBase = 0) :
    ∃ code task, taskDestroy k t = (code, k.refit k.vmm t task) ∧ task.kernelStackBase = 0 := by
  by_cases hd : k.Destructible t
  · exact ⟨0, _, taskDestroy_of_base_eq_zero hd hbare, rfl⟩
  · refine ⟨-1, k.task t, ?_, hbare⟩
    rw [taskDestroy_refused hd, k.refit_self]

end Outcomes

/-! ## Runs -/

/-- The kernel, and the tasks that have been constructed and not destroyed since. -/
structure StackRun where
  kernel : Kernel
  live : List TaskRef := []

/-- What can happen. -/
inductive StackOp
  | create (t : TaskRef) (id addressSpace entry argument : Word)
  | destroy (t : TaskRef)
  /-- The scheduler, the processes and the registries have moved on. -/
  | others (k : Kernel)

namespace StackRun

/-- A task object. -/
abbrev task (y : StackRun) (t : TaskRef) : Task := y.kernel.task t

/-- The page tables and the PMM. -/
abbrev paging (y : StackRun) : Paging := y.kernel.vmm.paging

/-- The effect of an operation. -/
def step (layout : KernelLayout) (y : StackRun) : StackOp → StackRun
  | .create t id addressSpace entry argument =>
      match y.kernel.taskCreate layout t id addressSpace entry argument with
      | (code, k) => ⟨k, if code = 0 then t :: y.live else y.live⟩
  | .destroy t =>
      match taskDestroy y.kernel t with
      | (code, k) => ⟨k, if code = 0 then y.live.filter (· ≠ t) else y.live⟩
  | .others k => { y with kernel := k }

/-- When it can happen: a task object in use is not given to `task_create`, nor the id of a
live task; and nobody else touches memory or the stacks. -/
def Enabled (y : StackRun) : StackOp → Prop
  | .create t id _ _ _ => t ∉ y.live ∧ ∀ u ∈ y.live, (y.task u).id ≠ id
  | .destroy _ => True
  | .others k => k.vmm = y.kernel.vmm ∧ ∀ t, (k.task t).stackRecord = (y.task t).stackRecord

end StackRun

/-- Construction and destruction of tasks as a transition system. -/
def stackSystem (layout : KernelLayout) : TransitionSystem StackRun StackOp where
  enabled := StackRun.Enabled
  step := StackRun.step layout

/-- The invariant of runs from a state in which nothing is mapped in the window. -/
structure StackRun.Inv (platform : Platform) (s₀ : Paging) (y : StackRun) : Prop where
  memory : platform.Backs y.kernel.vmm
  nodup : y.live.Nodup
  ids : ∀ t ∈ y.live, ∀ u ∈ y.live, (y.task t).id = (y.task u).id → t = u
  stack : ∀ t ∈ y.live, (y.task t).HasStack platform y.paging
  bare : ∀ t, t ∉ y.live → (y.task t).kernelStackBase = 0
  /-- Nothing is mapped in the window but the stacks. -/
  rest : ∀ va ∈ platform.layout.window,
    (∀ t ∈ y.live, ¬ OnStack (y.task t).kernelStackBase stackPages va) →
      y.paging.tables.lookup platform.root va = none
  enlarges : s₀.Enlarges platform.root y.paging
  loans : ∀ f, f ∈ y.paging.loans ↔ f ∈ s₀.loans ∨
    ∃ t ∈ y.live, ∃ page, frameOf ((y.task t).kernelStackPages page) = f
  fresh : ∀ t ∈ y.live, ∀ page, frameOf ((y.task t).kernelStackPages page) ∉ s₀.loans

namespace StackRun.Inv

variable {platform : Platform} {s₀ : Paging} {y : StackRun} (h : y.Inv platform s₀)

include h

/-- The slot of an id that no live task has is clear. -/
theorem slotClear (hid : id ≠ 0) (hmax : id.toNat ≤ taskMaxTasks)
    (hnew : ∀ u ∈ y.live, (y.task u).id ≠ id) :
    SlotClear platform.root (taskStackVirtualFor platform.layout.toTaskLayout id) y.paging := by
  intro page entry hleaf
  rw [h.rest _ (stackPage_mem_window _ hid hmax page)] at hleaf
  · cases hleaf
  rintro u hu ⟨page', -, hpath⟩
  have hstack := h.stack u hu
  rw [hstack.base] at hpath
  exact hnew u hu (samePath_slots _ hid hmax hstack.id_ne hstack.id_le hpath).1.symm

/-- Stacks of different live tasks have no page in common. -/
theorem not_onStack (ht : t ∈ y.live) {task : Task} {s : Paging} (hu : task.HasStack platform s)
    (hne : (y.task t).id ≠ task.id) (page : Fin 4) :
    ¬ OnStack task.kernelStackBase stackPages (stackPage (y.task t).kernelStackBase page) := by
  rintro ⟨page', -, hpath⟩
  have hstack := h.stack t ht
  rw [hstack.base, hu.base] at hpath
  exact hne (samePath_slots _ hstack.id_ne hstack.id_le hu.id_ne hu.id_le hpath).1

/-- Task objects without a stack, and everything that is not a stack, may change. -/
theorem of_records {k : Kernel} (hvmm : k.vmm = y.kernel.vmm)
    (hlive : ∀ t ∈ y.live, (k.task t).stackRecord = (y.task t).stackRecord)
    (hbare : ∀ t, t ∉ y.live → (k.task t).kernelStackBase = 0) :
    StackRun.Inv platform s₀ ⟨k, y.live⟩ := by
  have hid : ∀ t ∈ y.live, (k.task t).id = (y.task t).id :=
    fun t ht => congrArg Prod.fst (hlive t ht)
  have hbase : ∀ t ∈ y.live, (k.task t).kernelStackBase = (y.task t).kernelStackBase :=
    fun t ht => congrArg (fun r => r.2.2.1) (hlive t ht)
  have hpages : ∀ t ∈ y.live, (k.task t).kernelStackPages = (y.task t).kernelStackPages :=
    fun t ht => congrArg (fun r => r.2.2.2) (hlive t ht)
  refine ⟨hvmm ▸ h.memory, h.nodup, fun t ht u hu heq => h.ids t ht u hu ?_, fun t ht => ?_, hbare,
    fun va hva hoff => ?_, ?_, fun f => ?_, fun t ht page => ?_⟩
  · rw [← hid t ht, ← hid u hu]
    exact heq
  · change (k.task t).HasStack platform k.vmm.paging
    rw [hvmm]
    exact (h.stack t ht).of_record (hlive t ht)
  · change k.vmm.paging.tables.lookup platform.root va = none
    rw [hvmm]
    refine h.rest va hva fun t ht => ?_
    rw [← hbase t ht]
    exact hoff t ht
  · change s₀.Enlarges platform.root k.vmm.paging
    rw [hvmm]
    exact h.enlarges
  · change f ∈ k.vmm.paging.loans ↔ _
    rw [hvmm, h.loans]
    refine or_congr_right (exists_congr fun t => and_congr_right fun ht => ?_)
    rw [← hpages t ht]
  · change frameOf ((k.task t).kernelStackPages page) ∉ _
    rw [hpages t ht]
    exact h.fresh t ht page

/-- What is on loan stays on loan. -/
theorem hasStack_of_accrues (hv : platform.Backs v)
    (haccrues : y.paging.Accrues platform.root v.paging)
    (hloans : ∀ f ∈ y.paging.loans, f ∈ v.paging.loans) (ht : t ∈ y.live)
    (hlookup : ∀ page, v.paging.tables.lookup platform.root (stackPage (y.task t).kernelStackBase
      page) = y.paging.tables.lookup platform.root (stackPage (y.task t).kernelStackBase page)) :
    (y.task t).HasStack platform v.paging := by
  refine (h.stack t ht).congr hlookup fun page => ?_
  refine hv.inv.booked.releases_of_mem_loans ((h.stack t ht).releases page) haccrues.geometry ?_
  exact hloans _ ((h.loans _).mpr (.inr ⟨t, ht, page, rfl⟩))

/-- **Construction.** -/
theorem create (id addressSpace entry argument : Word) (ht : t ∉ y.live)
    (hnew : ∀ u ∈ y.live, (y.task u).id ≠ id) :
    (y.step platform.layout (.create t id addressSpace entry argument)).Inv platform s₀ := by
  obtain ⟨code, v, task, heq, hv, haccrues, houtcome⟩ := Kernel.taskCreate_outcome h.memory
    (h.bare t ht) id addressSpace entry argument fun hid hmax => h.slotClear hid hmax hnew
  set k := y.kernel.refit v t task with hk
  have hself : k.task t = task := Kernel.task_refit _ _ _ _
  have hother : ∀ u, u ≠ t → k.task u = y.task u := fun u hu => Function.update_of_ne hu _ _
  have hold : ∀ u ∈ y.live, k.task u = y.task u := by
    intro u hu
    refine hother u ?_
    rintro rfl
    exact ht hu
  have hstep : y.step platform.layout (.create t id addressSpace entry argument) =
      ⟨k, if code = 0 then t :: y.live else y.live⟩ := by
    rw [step, heq]
  rw [hstep]
  rcases houtcome with ⟨hcode, hbase, hloans, hlookup⟩ | ⟨rfl, rfl, hstack, hlookup,
    hunused, hloans⟩
  · rw [if_neg hcode]
    have hmoved : StackRun.Inv platform s₀ ⟨{ y.kernel with vmm := v }, y.live⟩ :=
      ⟨hv, h.nodup, h.ids, fun u hu => h.hasStack_of_accrues hv haccrues
      (fun f hf => hloans ▸ hf) hu
        fun page => hlookup _, h.bare, fun va hva hoff => (hlookup va).trans (h.rest va hva hoff),
        h.enlarges.trans haccrues.enlarges, fun f => (by rw [paging, hloans]; exact h.loans f),
        h.fresh⟩
    refine hmoved.of_records rfl (fun u hu => by rw [hold u hu]) fun u hu => ?_
    by_cases hut : u = t
    · rw [hut, hself]
      exact hbase
    · rw [hother u hut]
      exact h.bare u hu
  · rw [if_pos rfl]
    have hkept : ∀ f ∈ y.paging.loans, f ∈ v.paging.loans := fun f hf => (hloans f).mpr (.inl hf)
    refine ⟨hv, nodup_cons.mpr ⟨ht, h.nodup⟩, ?_, ?_, fun u hu => ?_, fun va hva hoff => ?_,
      h.enlarges.trans haccrues.enlarges, fun f => ?_, ?_⟩
    · -- no live task had the id
      have hne : ∀ u ∈ y.live, (k.task u).id ≠ (k.task t).id := by
        intro u hu
        rw [hold u hu, hself]
        exact hnew u hu
      intro u hmem u' hmem' hid
      rcases mem_cons.mp hmem with hu | hu <;> rcases mem_cons.mp hmem' with hu' | hu'
      · rw [hu, hu']
      · exact absurd (hu ▸ hid.symm) (hne u' hu')
      · exact absurd (hu' ▸ hid) (hne u hu)
      · refine h.ids u hu u' hu' ?_
        rw [← hold u hu, ← hold u' hu']
        exact hid
    · intro u hu
      change (k.task u).HasStack platform v.paging
      rcases mem_cons.mp hu with rfl | hu
      · rw [hself]
        exact hstack
      · rw [hold u hu]
        exact h.hasStack_of_accrues hv haccrues hkept hu fun page =>
          hlookup _ (h.not_onStack hu hstack (hnew u hu) page)
    · change (k.task u).kernelStackBase = 0
      rw [mem_cons, not_or] at hu
      rw [hother u hu.1]
      exact h.bare u hu.2
    · refine (hlookup va ?_).trans (h.rest va hva fun u hu => ?_)
      · rw [← hself]
        exact hoff t mem_cons_self
      · rw [← hold u hu]
        exact hoff u (mem_cons_of_mem t hu)
    · change f ∈ v.paging.loans ↔ f ∈ s₀.loans ∨
        ∃ u ∈ t :: y.live, ∃ page, frameOf ((k.task u).kernelStackPages page) = f
      have hlive : (∃ u ∈ y.live, ∃ page, frameOf ((k.task u).kernelStackPages page) = f) ↔
          ∃ u ∈ y.live, ∃ page, frameOf ((y.task u).kernelStackPages page) = f :=
        exists_congr fun u => and_congr_right fun hu => by rw [hold u hu]
      rw [hloans, h.loans, exists_mem_cons_iff, hself, hlive, or_assoc]
      exact or_congr_right or_comm
    · intro u hu page
      change frameOf ((k.task u).kernelStackPages page) ∉ s₀.loans
      rcases mem_cons.mp hu with rfl | hu
      · intro hloan
        have hused := (h.memory.inv.booked.mem_loans.mp ((h.loans _).mpr (.inl hloan))).2.1
        rw [hself, hunused page] at hused
        cases hused
      · rw [hold u hu]
        exact h.fresh u hu page

/-- **Destruction of a live task.** -/
theorem destroy (ht : t ∈ y.live) :
    (y.step platform.layout (.destroy t)).Inv platform s₀ := by
  have hstack := h.stack t ht
  rcases taskDestroy_outcome h.memory hstack with
    heq | ⟨v, heq, hv, hrecords, hgeometry, hused, hlookup⟩
  · rw [step, heq]
    exact h
  set k := y.kernel.refit v t (y.task t).reclaimed with hk
  have hstep : y.step platform.layout (.destroy t) = ⟨k, y.live.filter (· ≠ t)⟩ := by
    rw [step, heq]
    rfl
  have hself : k.task t = (y.task t).reclaimed := Kernel.task_refit _ _ _ _
  have hother : ∀ u, u ≠ t → k.task u = y.task u := fun u hu => Function.update_of_ne hu _ _
  have hmem : ∀ {u}, u ∈ y.live.filter (· ≠ t) ↔ u ∈ y.live ∧ u ≠ t := by simp
  have hids : ∀ u ∈ y.live, u ≠ t → (y.task u).id ≠ (y.task t).id :=
    fun u hu hne hid => hne (h.ids u hu t ht hid)
  -- the frames of another stack are not those of this one
  have hframes : ∀ u ∈ y.live, u ≠ t → ∀ page page',
      frameOf ((y.task t).kernelStackPages page') ≠ frameOf ((y.task u).kernelStackPages page) := by
    intro u hu hne page page' hf
    have hframe := frameOf_inj (hstack.releases page').aligned
      ((h.stack u hu).releases page).aligned hf
    exact hids u hu hne (hstack.frames_inj rfl h.memory (h.stack u hu) hframe).1.symm
  have hloans := Paging.mem_loans_of_freed hrecords hgeometry hused
  rw [hstep]
  refine ⟨hv, h.nodup.filter _, fun u hu u' hu' hid => ?_, fun u hu => ?_, fun u hu => ?_,
    fun va hva hoff => ?_, h.enlarges.trans (.of_eq (Paging.ownerOf_congr hrecords)), fun f => ?_,
    fun u hu page => ?_⟩
  · obtain ⟨hu, hne⟩ := hmem.mp hu
    obtain ⟨hu', hne'⟩ := hmem.mp hu'
    refine h.ids u hu u' hu' ?_
    rw [← hother u hne, ← hother u' hne']
    exact hid
  · obtain ⟨hu, hne⟩ := hmem.mp hu
    change (k.task u).HasStack platform v.paging
    rw [hother u hne]
    refine (h.stack u hu).congr (fun page => ?_) fun page => ?_
    · exact (hlookup _).2 (h.not_onStack hu hstack (hids u hu hne) page)
    · refine ((h.stack u hu).releases page).of_sameGeometry hgeometry ((hused _).mpr ⟨?_, ?_⟩)
      · exact ((h.stack u hu).releases page).used
      · rintro ⟨page', hf⟩
        exact hframes u hu hne page page' hf
  · change (k.task u).kernelStackBase = 0
    by_cases hne : u = t
    · rw [hne, hself]
      rfl
    · rw [hother u hne]
      exact h.bare u fun hlive => hu (hmem.mpr ⟨hlive, hne⟩)
  · by_cases hon : OnStack (y.task t).kernelStackBase stackPages va
    · exact (hlookup va).1 hon
    · refine ((hlookup va).2 hon).trans (h.rest va hva fun u hu => ?_)
      by_cases hne : u = t
      · rw [hne]
        exact hon
      · rw [← hother u hne]
        exact hoff u (hmem.mpr ⟨hu, hne⟩)
  · change f ∈ v.paging.loans ↔ _
    rw [hloans, h.loans]
    constructor
    · rintro ⟨hbefore | ⟨u, hu, page, hf⟩, hkept⟩
      · exact .inl hbefore
      · have hne : u ≠ t := by
          rintro rfl
          exact hkept ⟨page, hf⟩
        refine .inr ⟨u, hmem.mpr ⟨hu, hne⟩, page, ?_⟩
        rw [← hf]
        exact congrArg (fun task : Task => frameOf (task.kernelStackPages page)) (hother u hne)
    · rintro (hbefore | ⟨u, hu, page, hf⟩)
      · refine ⟨.inl hbefore, ?_⟩
        rintro ⟨page, rfl⟩
        exact h.fresh t ht page hbefore
      · obtain ⟨hu, hne⟩ := hmem.mp hu
        change frameOf ((k.task u).kernelStackPages page) = f at hf
        rw [hother u hne] at hf
        refine ⟨.inr ⟨u, hu, page, hf⟩, ?_⟩
        rintro ⟨page', hf'⟩
        exact hframes u hu hne page page' (hf'.trans hf.symm)
  · obtain ⟨hu, hne⟩ := hmem.mp hu
    change frameOf ((k.task u).kernelStackPages page) ∉ _
    rw [hother u hne]
    exact h.fresh u hu page

/-- Destruction of a task object that has no stack. -/
theorem destroy_bare (ht : t ∉ y.live) :
    (y.step platform.layout (.destroy t)).Inv platform s₀ := by
  obtain ⟨code, task, heq, hbase⟩ := taskDestroy_of_bare (h.bare t ht)
  have hlive : y.live.filter (· ≠ t) = y.live := by
    rw [filter_eq_self]
    intro u hu
    rw [decide_eq_true_eq]
    rintro rfl
    exact ht hu
  have hstep : y.step platform.layout (.destroy t) =
      ⟨y.kernel.refit y.kernel.vmm t task, y.live⟩ := by
    rw [step, heq, hlive]
    dsimp only
    rw [ite_self]
  rw [hstep]
  have hother : ∀ u, u ≠ t → (y.kernel.refit y.kernel.vmm t task).task u = y.task u :=
    fun u hu => Function.update_of_ne hu _ _
  refine h.of_records rfl (fun u hu => ?_) fun u hu => ?_
  · rw [hother u (by rintro rfl; exact ht hu)]
  · by_cases hne : u = t
    · rw [hne, Kernel.task_refit]
      exact hbase
    · rw [hother u hne]
      exact h.bare u hu

/-- **Every operation keeps the books.** -/
theorem step_inv {op : StackOp} (hop : y.Enabled op) :
    (y.step platform.layout op).Inv platform s₀ := by
  cases op with
  | create t id addressSpace entry argument =>
      exact h.create id addressSpace entry argument hop.1 hop.2
  | destroy t =>
      by_cases ht : t ∈ y.live
      · exact h.destroy ht
      · exact h.destroy_bare ht
  | others k =>
      obtain ⟨hvmm, hrecords⟩ := hop
      refine h.of_records hvmm (fun t _ => hrecords t) fun t ht => ?_
      exact (congrArg (fun r => r.2.2.1) (hrecords t)).trans (h.bare t ht)

/-- **The frames on loan are counted.** -/
theorem card_loans : y.paging.loans.card = s₀.loans.card + 4 * y.live.length := by
  have hnodup := h.nodup
  set frames : Finset ℕ := (y.live.toFinset ×ˢ Finset.univ).image
    fun x : TaskRef × Fin 4 => frameOf ((y.task x.1).kernelStackPages x.2) with hframes
  have hcard : frames.card = y.live.length * 4 := by
    rw [hframes, Finset.card_image_of_injOn, Finset.card_product, toFinset_card_of_nodup hnodup]
    · rfl
    rintro ⟨t, page⟩ ht ⟨u, page'⟩ hu hf
    simp only [Finset.coe_product, Set.mem_prod, Finset.mem_coe, mem_toFinset] at ht hu
    have htstack := h.stack t ht.1
    have hustack := h.stack u hu.1
    have hframe := frameOf_inj (htstack.releases page).aligned (hustack.releases page').aligned hf
    obtain ⟨hid, hpage⟩ := htstack.frames_inj rfl h.memory hustack hframe
    exact Prod.ext (h.ids t ht.1 u hu.1 hid) hpage
  have hdisjoint : Disjoint s₀.loans frames := by
    rw [Finset.disjoint_right]
    intro f hf
    obtain ⟨⟨t, page⟩, ht, rfl⟩ := Finset.mem_image.mp hf
    exact h.fresh t (mem_toFinset.mp (Finset.mem_product.mp ht).1) page
  have hunion : y.paging.loans = s₀.loans ∪ frames := by
    ext f
    rw [h.loans, Finset.mem_union, hframes, Finset.mem_image]
    refine or_congr_right ⟨?_, ?_⟩
    · rintro ⟨t, ht, page, hf⟩
      exact ⟨(t, page), Finset.mem_product.mpr ⟨mem_toFinset.mpr ht, Finset.mem_univ page⟩, hf⟩
    · rintro ⟨⟨t, page⟩, ht, hf⟩
      exact ⟨t, mem_toFinset.mp (Finset.mem_product.mp ht).1, page, hf⟩
  rw [hunion, Finset.card_union_of_disjoint hdisjoint, hcard, Nat.mul_comm]

end StackRun.Inv

/-! ## The accounts -/

/-- Where the stacks of the live tasks are, what their pages and guard pages translate to,
and how many frames are in use. -/
structure StackAccounts (platform : Platform) (s₀ : Paging) (y : StackRun) : Prop where
  inside : ∀ t ∈ y.live,
    platform.layout.stackStart.toNat + 0x1000 ≤ (y.task t).kernelStackBase.toNat ∧
      (y.task t).kernelStackBase.toNat + 0x4000 ≤ platform.layout.stackStart.toNat + 0x500000
  disjoint : ∀ t ∈ y.live, ∀ u ∈ y.live, t ≠ u →
    (y.task t).kernelStackBase.toNat + 0x4000 ≤ (y.task u).kernelStackBase.toNat ∨
      (y.task u).kernelStackBase.toNat + 0x4000 ≤ (y.task t).kernelStackBase.toNat
  guarded : ∀ t ∈ y.live, ∀ va : Word,
    (y.task t).kernelStackBase.toNat ≤ va.toNat + 0x1000 →
      va.toNat < (y.task t).kernelStackBase.toNat →
        vmmTranslate y.paging (y.task t).addressSpace va = none ∧
          mmuTranslate y.paging.memory (y.task t).addressSpace va = none
  translates : ∀ t ∈ y.live, ∀ page,
    vmmTranslate y.paging (y.task t).addressSpace (stackPage (y.task t).kernelStackBase page) =
      some ((y.task t).kernelStackPages page)
  distinct : ∀ t ∈ y.live, ∀ u ∈ y.live, ∀ page page',
    (y.task t).kernelStackPages page = (y.task u).kernelStackPages page' → t = u ∧ page = page'
  used : ∀ t ∈ y.live, ∀ page,
    y.paging.pmm.used (frameOf ((y.task t).kernelStackPages page)) = true
  counted : y.paging.pmm.setFrames + s₀.hierarchySize platform.root =
    s₀.pmm.setFrames + 4 * y.live.length + y.paging.hierarchySize platform.root

/-- The invariant settles the accounts. -/
theorem StackRun.Inv.accounts {platform : Platform} {s₀ : Paging} {y : StackRun}
    (h : y.Inv platform s₀) (hs₀ : s₀.Booked) : StackAccounts platform s₀ y where
  inside := by
    intro t ht
    have hstack := h.stack t ht
    have hslot := stackSlot platform.layout.toTaskLayout hstack.id_ne hstack.id_le
    rw [hstack.base]
    exact ⟨by omega, by omega⟩
  disjoint := by
    intro t ht u hu hne
    have htstack := h.stack t ht
    have hustack := h.stack u hu
    have hid : (y.task t).id.toNat ≠ (y.task u).id.toNat :=
      fun hid => hne (h.ids t ht u hu (BitVec.eq_of_toNat_eq hid))
    have hslot := stackSlot platform.layout.toTaskLayout htstack.id_ne htstack.id_le
    have hslot' := stackSlot platform.layout.toTaskLayout hustack.id_ne hustack.id_le
    rw [htstack.base, hustack.base]
    omega
  guarded := by
    intro t ht va hlow hhigh
    have hstack := h.stack t ht
    rw [hstack.base] at hlow hhigh
    have hnone : y.paging.tables.lookup platform.root va = none := by
      refine h.rest va ?_ fun u hu => ?_
      · exact (not_onStack_guard _ hstack.id_ne hstack.id_le hstack.id_ne hstack.id_le hlow hhigh).1
      · have hustack := h.stack u hu
        rw [hustack.base]
        exact (not_onStack_guard _ hstack.id_ne hstack.id_le hustack.id_ne
          hustack.id_le hlow hhigh).2
    rw [hstack.space]
    refine ⟨?_, ?_⟩
    · rw [← Option.not_isSome_iff_eq_none, vmmTranslate_isSome, hnone]
      exact Bool.false_ne_true
    · -- the processor walks the same tables
      obtain ⟨m, hm, -, hvmm⟩ := h.memory
      obtain ⟨root, hroot, hl, ho⟩ := (platform.boot.inv_start.of_reachable hm).kernel
      have hkernel : m.vmm.kernelPml4 = platform.root := Platform.root_of_reachable hm
      rw [hkernel] at hroot ho
      rw [hvmm] at hroot
      rw [mmuTranslate, ← walk_eq_mmuWalk h.memory.inv.wf hroot hl ho]
      exact congrArg (Option.map _) hnone
  translates := by
    intro t ht page
    have hstack := h.stack t ht
    obtain ⟨entry, hleaf, hentry⟩ := hstack.mapped page
    rw [hstack.space, vmmTranslate_of_page hleaf, hstack.window.aligned page, hentry]
    simp
  distinct := by
    intro t ht u hu page page' heq
    obtain ⟨hid, hpage⟩ := (h.stack t ht).frames_inj rfl h.memory (h.stack u hu) heq
    exact ⟨h.ids t ht u hu hid, hpage⟩
  used := fun t ht page => ((h.stack t ht).releases page).used
  counted := by
    have hbooked : y.paging.Booked := h.memory.inv.booked
    have hsize := h.enlarges.hierarchySize_eq hs₀ hbooked
    rw [hbooked.setFrames_eq, hs₀.setFrames_eq, h.card_loans]
    omega

/-- **The stacks in every run.**  From every state of the memory subsystem in which nothing
is mapped in the window of the stacks, and no task object has one. -/
theorem stack_accounts (platform : Platform) {m₀ : Mm}
    (hm : (mmSystem platform.image).Reachable platform.boot.start m₀)
    (hclear : ∀ va ∈ platform.layout.window,
      vmmTranslate m₀.vmm.paging (vmmGetPml4 m₀.vmm) va = none)
    {k₀ : Kernel} (hk : k₀.vmm = m₀.vmm) (hbare : ∀ t, (k₀.task t).kernelStackBase = 0)
    {y : StackRun} (hy : (stackSystem platform.layout).Reachable { kernel := k₀ } y) :
    StackAccounts platform m₀.vmm.paging y := by
  have hnone : ∀ va ∈ platform.layout.window,
      m₀.vmm.paging.tables.lookup platform.root va = none := by
    intro va hva
    have htranslate := hclear va hva
    rw [Platform.root_of_reachable hm, ← Option.not_isSome_iff_eq_none,
      vmmTranslate_isSome] at htranslate
    exact Option.not_isSome_iff_eq_none.mp htranslate
  have hown : WindowOwned platform.root platform.layout.window m₀ := by
    refine ⟨fun hva hleaf => ?_, fun hva _ hleaf => ?_⟩
    · rw [hnone _ hva] at hleaf
      cases hleaf
    · rw [hnone _ hva] at hleaf
      cases hleaf
  have hstart : StackRun.Inv platform m₀.vmm.paging { kernel := k₀ } := by
    refine ⟨⟨m₀, hm, hown, hk.symm⟩, nodup_nil, nofun, nofun, fun t _ => hbare t,
      fun va hva _ => ?_, ?_, fun f => ?_, nofun⟩
    · change k₀.vmm.paging.tables.lookup platform.root va = none
      rw [hk]
      exact hnone va hva
    · change m₀.vmm.paging.Enlarges platform.root k₀.vmm.paging
      rw [hk]
      exact .of_eq rfl
    · change f ∈ k₀.vmm.paging.loans ↔ _
      rw [hk]
      simp
  have hinv := hy.induction (StackRun.Inv platform m₀.vmm.paging)
    (fun _ _ h hop => h.step_inv hop) hstart
  exact hinv.accounts (platform.boot.inv_start.of_reachable hm).paging.booked

/-- A kernel on the machine of the examples, before any task. -/
def demoGround : StackRun where
  kernel := { vmm := demoPlatform.boot.start.vmm }

/-- Three tasks are constructed, and the second is destroyed again. -/
def demoStackOps : List StackOp :=
  [.create 7 1 0x2000 0x400 0, .create 8 2 0x2000 0x400 0, .create 9 3 0x2000 0x400 0, .destroy 8]

/-- After that. -/
def demoStack : StackRun := (stackSystem demoPlatform.layout).run demoGround demoStackOps

theorem demoStack_reachable :
    (stackSystem demoPlatform.layout).Reachable demoGround demoStack := by
  refine ⟨demoStackOps, ⟨⟨nofun, nofun⟩, ⟨?_, ?_⟩, ⟨?_, ?_⟩, trivial, trivial⟩, rfl⟩
  all_goals decide +kernel

/-- Two tasks are left, and their frames are accounted for. -/
theorem stack_accounts_demo :
    demoStack.live = [9, 7] ∧
      StackAccounts demoPlatform demoPlatform.boot.start.vmm.paging demoStack := by
  have hlive : demoStack.live = [9, 7] := by decide +kernel
  have hvmm : demoGround.kernel.vmm = demoPlatform.boot.start.vmm := rfl
  have hbare : ∀ t, (demoGround.kernel.task t).kernelStackBase = 0 := fun _ => rfl
  refine ⟨hlive, stack_accounts demoPlatform (.refl _ demoPlatform.boot.start) (fun va _ => ?_) hvmm
    hbare demoStack_reachable⟩
  rw [← Option.not_isSome_iff_eq_none, vmmTranslate_isSome, demoPlatform.boot.lookup_start]
  exact Bool.false_ne_true

end Batos
