import Batos.Process.Ownership

/-!
# Construction of execution units

The two constructors of `execution.c` go through four subsystems: the task is
constructed, registered, attached to its process and queued, and each of the four may
refuse.  Until the last one has agreed, nothing may remain of the attempt.

What makes this work is that each undo is an exact inverse.  Detaching the newest member
of a process restores its list (`detach_attach`), unregistering restores the registry
(`IdTable.erase_insert`), and the stack of a new task is mapped exactly as the destructor
expects it.  `Construction` lists the ways the common part of the two constructors can
end; after every failure the rollback has succeeded and the kernel differs from the one
before only in the task object and in memory (`Voided`).
-/

namespace Batos

open Function
open Kernel (refit schedule setProcess setTask)
open Call (andThen_of_ne andThen_zero)

variable {frames : Fin 4 → Word} {task : Task} {k₁ k' k₂ : Kernel} {v : Vmm}

variable {platform : Platform} {k : Kernel} {t : TaskRef} {p : ProcessRef}

/-! ## Registration and destruction of a task -/

theorem taskRegistryRegister_cases (hinit : k.taskRegistry.initialized = true)
    (hcounted : k.taskRegistry.Counted) (hstate : (k.task t).state ≠ .terminated) :
    taskRegistryRegister k t = (-1, k) ∨
      ∃ index, k.taskRegistry.slots index = none ∧ (k.task t).id.toNat = index.val + 1 ∧
        taskRegistryRegister k t =
          (0, { k with taskRegistry := k.taskRegistry.insert index t }) := by
  unfold taskRegistryRegister
  rw [if_neg (by simp [hinit])]
  cases hslot : IdTable.slotOf taskMaxTasks (k.task t).id.toNat with
  | none => exact .inl rfl
  | some index =>
      dsimp only
      rw [if_neg hstate]
      cases hfree : k.taskRegistry.slots index with
      | some u => exact .inl rfl
      | none =>
          rw [if_neg (by simp), if_neg (Nat.not_le.mpr (hcounted.lt_capacity hfree))]
          exact .inr ⟨index, hfree, IdTable.slotOf_eq_some.mp hslot, rfl⟩

theorem taskRegistryUnregister_of_slot (hinit : k.taskRegistry.initialized = true)
    {index : Fin taskMaxTasks} (hslot : k.taskRegistry.slots index = some t)
    (hid : (k.task t).id.toNat = index.val + 1) (hcount : k.taskRegistry.count ≠ 0) :
    taskRegistryUnregister k t = (0, { k with taskRegistry := k.taskRegistry.erase index }) := by
  unfold taskRegistryUnregister
  rw [if_neg (by simp [hinit]), IdTable.slotOf_eq_some.mpr hid]
  dsimp only
  rw [if_neg (not_not.mpr hslot), if_neg hcount]

/-- Nothing is in the way of the destructor. -/
def Kernel.Destructible (k : Kernel) (t : TaskRef) : Prop :=
  taskValidateReclaim k t = true ∧ (k.task t).process = none ∧
    k.sched.runqueue.contains t = false ∧ taskRegistryContains k t = false

theorem taskDestroy_refused (h : ¬ k.Destructible t) : taskDestroy k t = (-1, k) := by
  unfold taskDestroy
  split_ifs with hvalid hprocess hqueued hregistered
  iterate 4 rfl
  all_goals
    exact absurd ⟨by simpa using hvalid, by simpa using hprocess, by simpa using hqueued,
      by simpa using hregistered⟩ h

theorem taskDestroy_of_base_eq_zero (h : k.Destructible t)
    (hbase : (k.task t).kernelStackBase = 0) :
    taskDestroy k t = (0, k.refit k.vmm t (k.task t).reclaimed) := by
  obtain ⟨hvalid, hprocess, hqueued, hregistered⟩ := h
  simp only [taskDestroy, hvalid, hprocess, hqueued, hregistered, hbase]
  rfl

/-- The stack is unmapped first. -/
theorem taskDestroy_of_unmap (h : k.Destructible t) (hbase : (k.task t).kernelStackBase ≠ 0)
    {code : ℤ} {paging : Paging}
    (hunmap : taskUnmapStack k.vmm.paging (k.task t) = (code,
      { k.task t with kernelStackPages := frames }, paging)) :
    taskDestroy k t = if code = 0 then
        (0, k.refit { k.vmm with paging := paging } t (k.task t).reclaimed)
      else (-1, k.refit { k.vmm with paging := paging } t
        { k.task t with kernelStackPages := frames }) := by
  obtain ⟨hvalid, hprocess, hqueued, hregistered⟩ := h
  unfold taskDestroy
  rw [if_neg (by simp [hvalid]), if_neg (by simp [hprocess]), if_neg (by simp [hqueued]),
    if_neg (by simp [hregistered]), if_neg hbase, hunmap]
  split_ifs with hcode
  · rw [hcode, andThen_zero]
    simp only [setTask, refit, Kernel.task, Sched.setTask, update_self,
      update_idem]
    rfl
  · exact andThen_of_ne hcode _ _ _

/-- **`task_destroy`** fails, having at most unmapped some of the stack, or leaves the
remains of the task. -/
theorem taskDestroy_cases (hv : platform.Backs k.vmm)
    (hspace : (k.task t).addressSpace = platform.root)
    (hpages : ∀ page, stackPage (k.task t).kernelStackBase page ∈ platform.layout.window) :
    ∃ v, platform.Backs v ∧
      ((∃ frames, taskDestroy k t =
          (-1, k.refit v t { k.task t with kernelStackPages := frames })) ∨
        taskDestroy k t = (0, k.refit v t (k.task t).reclaimed)) := by
  by_cases hd : k.Destructible t
  swap
  · refine ⟨k.vmm, hv, .inl ⟨(k.task t).kernelStackPages, ?_⟩⟩
    rw [taskDestroy_refused hd]
    exact congrArg (Prod.mk (-1)) (k.refit_self t).symm
  by_cases hbase : (k.task t).kernelStackBase = 0
  · exact ⟨k.vmm, hv, .inr (taskDestroy_of_base_eq_zero hd hbase)⟩
  obtain ⟨code, frames, paging, hunmap, hbacked⟩ := hv.taskUnmapStack hspace hpages
  refine ⟨_, hbacked, ?_⟩
  rw [taskDestroy_of_unmap hd hbase hunmap]
  split_ifs
  · exact .inr rfl
  · exact .inl ⟨frames, rfl⟩

/-- **`task_destroy` of a task nobody has**, with its stack mapped as it was constructed,
succeeds. -/
theorem taskDestroy_of_mapped (htask : k.task t = task) (hv : platform.Backs k.vmm)
    (hspace : task.addressSpace = platform.root) (hbase : task.kernelStackBase ≠ 0)
    (hwin : StackWindow task.kernelStackBase)
    (hpages : ∀ page, stackPage task.kernelStackBase page ∈ platform.layout.window)
    (hmapped : StackMapped platform.root task.kernelStackBase k.vmm.paging task.kernelStackPages)
    (hcurrent : k.sched.current ≠ some t) (hresume : task.resumeAuthority ≠ .interrupt)
    (hstate : task.state = .ready ∨ task.state = .terminated) (hwaiting : task.waitQueue = none)
    (hprocess : task.process = none) (hqueued : k.sched.runqueue.contains t = false)
    (hregistered : taskRegistryContains k t = false) :
    ∃ v, platform.Backs v ∧ taskDestroy k t = (0, k.refit v t task.reclaimed) ∧
      k.vmm.paging.Vacates platform.root task.kernelStackBase stackPages v.paging := by
  subst htask
  rw [← hspace] at hmapped
  have hvalid : taskValidateReclaim k t = true := by
    unfold taskValidateReclaim
    rw [hmapped.translates hwin]
    rcases hstate with hstate | hstate <;> simp [hcurrent, hresume, hstate, hwaiting]
  obtain ⟨code, frames, paging, heq, hbacked⟩ := hv.taskUnmapStack hspace hpages
  obtain ⟨s', frames', heq', hlookup⟩ := taskUnmapStack_of_mapped hbase hwin hv.inv.wf hmapped
  have hresult := heq.symm.trans heq'
  rw [Prod.mk.injEq, Prod.mk.injEq] at hresult
  obtain ⟨rfl, -, rfl⟩ := hresult
  rw [hspace] at hlookup
  exact ⟨_, hbacked, taskDestroy_of_unmap ⟨hvalid, hprocess, hqueued, hregistered⟩ hbase heq,
    hlookup⟩

/-- An id without a slot is refused before anything happens. -/
theorem taskCreate_rejected (layout : KernelLayout) (t : TaskRef)
    (tid addressSpace entry argument : Word)
    (haccepts : taskCreateAccepts tid addressSpace entry = false) :
    k.taskCreate layout t tid addressSpace entry argument = (-1, k) := by
  rw [Kernel.taskCreate, taskCreate, if_pos haccepts]
  exact congrArg (Prod.mk (-1)) (k.refit_self t)

/-! ## Objects that nobody uses -/

/-- The task object is not attached, registered or queued. -/
structure Kernel.Idle (k : Kernel) (t : TaskRef) : Prop where
  detached : (k.task t).process = none
  unregistered : ¬ k.taskRegistry.Mem t
  unqueued : t ∉ k.sched.runqueue.items ∧ (∀ q, t ∉ (k.sched.waitQueues q).items) ∧
    t ∉ k.lifecycle.items

/-- What is left of a failed construction: a task object and the state of memory.  If the
stack slot of the task was clear before, no translation is different. -/
def Voided (platform : Platform) (k k' : Kernel) (t : TaskRef) (tid : Word) : Prop :=
  ∃ v task, k' = k.refit v t task ∧ task.process = none ∧ k'.Inv platform k.sched.current ∧
    (SlotClear platform.root (taskStackVirtualFor platform.layout.toTaskLayout tid) k.vmm.paging →
      ∀ va, v.paging.tables.lookup platform.root va = k.vmm.paging.tables.lookup platform.root va)

/-- The kernel with a new execution unit. -/
def Kernel.published (k : Kernel) (v : Vmm) (p : ProcessRef) (t : TaskRef)
    (index : Fin taskMaxTasks) (task : Task) : Kernel :=
  { k with
    vmm := v
    sched := { k.sched.setTask t { task with process := some p, lifecycleMode := .managed } with
      runqueue := k.sched.runqueue.push t }
    processes := update k.processes p
      { k.processes p with tasks := (k.processes p).tasks.push t }
    taskRegistry := k.taskRegistry.insert index t }

/-- The execution unit has been published as a whole: in a free slot of the registry, at
the end of the runqueue, with its stack mapped where nothing was before. -/
def Published (platform : Platform) (k k' : Kernel) (p : ProcessRef) (t : TaskRef)
    (tid entry argument : Word) : Prop :=
  ∃ index frames v, k' = k.published v p t index
      (freshTask platform.layout.toTaskLayout tid platform.root entry argument frames) ∧
    k.taskRegistry.slots index = none ∧ tid.toNat = index.val + 1 ∧
    k'.sched.runqueue.items = k.sched.runqueue.items ++ [t] ∧
    k'.Inv platform k.sched.current ∧
    StackMapped platform.root (taskStackVirtualFor platform.layout.toTaskLayout tid)
      v.paging frames ∧
    ∀ va, ¬ OnStack (taskStackVirtualFor platform.layout.toTaskLayout tid) stackPages va →
      v.paging.tables.lookup platform.root va = k.vmm.paging.tables.lookup platform.root va

/-- How the common part of the two constructors can end. -/
inductive Construction (platform : Platform) (k : Kernel) (p : ProcessRef) (t : TaskRef)
    (tid addressSpace entry argument : Word) : Prop
  | uncreated {k' : Kernel}
      (hcreate : k.taskCreate platform.layout t tid addressSpace entry argument = (-1, k'))
      (hvoid : Voided platform k k' t tid)
  | unregistered {k₁ k' : Kernel}
      (hcreate : k.taskCreate platform.layout t tid addressSpace entry argument = (0, k₁))
      (hregister : taskRegistryRegister k₁ t = (-1, k₁))
      (hrollback : executionRollbackTaskInternal k₁ p t false false = (0, k'))
      (hvoid : Voided platform k k' t tid)
  | unattached {k₁ k₂ k' : Kernel} {code : ℤ}
      (hcreate : k.taskCreate platform.layout t tid addressSpace entry argument = (0, k₁))
      (hregister : taskRegistryRegister k₁ t = (0, k₂)) (hcode : code ≠ 0)
      (hattach : processAttachTask k₂ p t = (code, k₂))
      (hrollback : executionRollbackTaskInternal k₂ p t true false = (0, k'))
      (hvoid : Voided platform k k' t tid)
  | unqueued {k₁ k₂ k₃ k' : Kernel} {code : ℤ}
      (hcreate : k.taskCreate platform.layout t tid addressSpace entry argument = (0, k₁))
      (hregister : taskRegistryRegister k₁ t = (0, k₂))
      (hattach : processAttachTask k₂ p t = (0, k₃)) (hcode : code ≠ 0)
      (hadd : k₃.schedule (schedulerAdd · t) = (code, k₃))
      (hrollback : executionRollbackTaskInternal k₃ p t true true = (0, k'))
      (hvoid : Voided platform k k' t tid)
  | complete {k₁ k₂ k₃ k₄ : Kernel}
      (hcreate : k.taskCreate platform.layout t tid addressSpace entry argument = (0, k₁))
      (hregister : taskRegistryRegister k₁ t = (0, k₂))
      (hattach : processAttachTask k₂ p t = (0, k₃))
      (hadd : k₃.schedule (schedulerAdd · t) = (0, k₄))
      (hpublished : Published platform k (k₄.manage t) p t tid entry argument)

/-! ## Rollbacks -/

theorem rollback_of_destroy (hdestroy : taskDestroy k₁ t = (0, k')) :
    executionRollbackTaskInternal k₁ p t false false = (0, k') := by
  simp only [executionRollbackTaskInternal, Bool.false_eq_true, if_false, andThen_zero, hdestroy]

theorem rollback_of_unregister (hunregister : taskRegistryUnregister k₂ t = (0, k₁))
    (hdestroy : taskDestroy k₁ t = (0, k')) :
    executionRollbackTaskInternal k₂ p t true false = (0, k') := by
  simp only [executionRollbackTaskInternal, Bool.false_eq_true, if_false, if_true, andThen_zero,
    hunregister, hdestroy]

theorem rollback_of_detach {k₃ : Kernel} (hdetach : processDetachTask k₃ p t = (0, k₂))
    (hunregister : taskRegistryUnregister k₂ t = (0, k₁)) (hdestroy : taskDestroy k₁ t = (0, k')) :
    executionRollbackTaskInternal k₃ p t true true = (0, k') := by
  simp only [executionRollbackTaskInternal, if_true, andThen_zero, hdetach, hunregister, hdestroy]

section Construct

variable (h : k.Inv platform k.sched.current) (hidle : k.Idle t)

include h hidle

/-- A task object that nobody uses may become anything that nobody uses. -/
theorem Kernel.Inv.refit_idle (hv : platform.Backs v) (hprocess : task.process = none)
    (hrunning : task.state ≠ .running) (hblocked : task.state ≠ .blocked)
    (hqueue : task.waitQueue = none)
    (hresumable : task.state.live = true → task.continuation ≠ none) :
    (k.refit v t task).Inv platform k.sched.current :=
  h.overwrite hidle.unregistered hidle.detached hprocess hrunning hblocked hqueue hresumable
    (fun hmem => absurd hmem hidle.unqueued.2.2) hv

/-- `task_create` in the kernel's address space. -/
theorem Kernel.taskCreate_cases (tid entry argument : Word) :
    (∃ k', k.taskCreate platform.layout t tid platform.root entry argument = (-1, k') ∧
        Voided platform k k' t tid) ∨
      taskCreateAccepts tid platform.root entry = true ∧ ∃ frames v, platform.Backs v ∧
        k.taskCreate platform.layout t tid platform.root entry argument = (0, k.refit v t
          (freshTask platform.layout.toTaskLayout tid platform.root entry argument frames)) ∧
        StackMapped platform.root (taskStackVirtualFor platform.layout.toTaskLayout tid) v.paging
          frames ∧
        (∀ va, OnStack (taskStackVirtualFor platform.layout.toTaskLayout tid) stackPages va →
          k.vmm.paging.tables.lookup platform.root va = none) ∧
        ∀ va, ¬ OnStack (taskStackVirtualFor platform.layout.toTaskLayout tid) stackPages va →
          v.paging.tables.lookup platform.root va =
            k.vmm.paging.tables.lookup platform.root va := by
  cases haccepts : taskCreateAccepts tid platform.root entry with
  | false =>
      exact .inl ⟨k, taskCreate_rejected _ t _ _ _ _ haccepts, k.vmm, k.task t,
        (k.refit_self t).symm, hidle.detached, h, fun _ _ => rfl⟩
  | true =>
      have hbacked := h.memory.taskCreate (platform.layout.taskAddress t) (k.task t)
        tid platform.root entry argument
      rcases Batos.taskCreate_cases platform.layout.toTaskLayout (platform.layout.taskAddress t)
          (k.task t) argument h.memory.inv haccepts with
        ⟨v, heq, hquiet⟩ | ⟨-, frames, v, heq, hmapped, hnone, hother⟩
      · rw [heq] at hbacked
        refine .inl ⟨k.refit v t (stacklessTask tid platform.root entry argument),
          ?_, v, _, rfl, rfl, h.refit_idle hidle hbacked rfl nofun nofun rfl nofun, hquiet⟩
        rw [Kernel.taskCreate, heq]
        rfl
      · rw [heq] at hbacked
        refine .inr ⟨rfl, frames, v, hbacked, ?_, hmapped, hnone, hother⟩
        rw [Kernel.taskCreate, heq]
        rfl

/-- The destructor takes a new task back. -/
theorem Kernel.destroy_fresh (argument : Word) {tid entry : Word}
    (haccepts : taskCreateAccepts tid platform.root entry = true) (hv : platform.Backs v)
    (hmapped : StackMapped platform.root (taskStackVirtualFor platform.layout.toTaskLayout
      tid) v.paging frames)
    (hnone : ∀ va, OnStack (taskStackVirtualFor platform.layout.toTaskLayout tid) stackPages va →
      k.vmm.paging.tables.lookup platform.root va = none)
    (hother : ∀ va, ¬ OnStack (taskStackVirtualFor platform.layout.toTaskLayout tid) stackPages va →
      v.paging.tables.lookup platform.root va = k.vmm.paging.tables.lookup platform.root va) :
    ∃ k', taskDestroy (k.refit v t
        (freshTask platform.layout.toTaskLayout tid platform.root entry argument frames)) t =
          (0, k') ∧
      Voided platform k k' t tid := by
  obtain ⟨hid, hmax, -⟩ := taskCreateAccepts_iff.mp haccepts
  set task := freshTask platform.layout.toTaskLayout tid platform.root entry argument
    frames with htask
  have hqueued : k.sched.runqueue.contains t = false := by
    rw [← Bool.not_eq_true, h.sched.runqueue.contains_iff]
    exact hidle.unqueued.1
  have hregistered : taskRegistryContains (k.refit v t task) t = false := by
    rw [taskRegistryContains, Bool.and_eq_false_iff]
    refine .inr (decide_eq_false fun hfind => ?_)
    obtain ⟨index, -, hslot⟩ := IdTable.find_eq_some.mp hfind
    exact hidle.unregistered ⟨index, hslot⟩
  obtain ⟨v', hv', hdestroy, hlookup⟩ := taskDestroy_of_mapped (k.task_refit v t task) hv rfl
    (taskStackVirtualFor_ne_zero _ hid hmax) (stackWindow_taskStackVirtualFor _ hid hmax)
    (stackPage_mem_window _ hid hmax) hmapped
    (fun hcurrent => hidle.unregistered (h.active t (.inl hcurrent))) (by rintro ⟨⟩) (.inl rfl) rfl
    rfl hqueued hregistered
  have hkernel : (k.refit v t task).refit v' t task.reclaimed = k.refit v' t task.reclaimed := by
    simp only [refit, Sched.setTask, update_idem]
  rw [hkernel] at hdestroy
  refine ⟨_, hdestroy, v', task.reclaimed, rfl, rfl,
    h.refit_idle hidle hv' rfl (by rintro ⟨⟩) (by rintro ⟨⟩) rfl (by rintro ⟨⟩), fun _ va => ?_⟩
  by_cases hon : OnStack (taskStackVirtualFor platform.layout.toTaskLayout tid) stackPages va
  · rw [(hlookup va).1 hon, hnone va hon]
  · rw [(hlookup va).2 hon]
    exact hother va hon

/-- A published execution unit is sound. -/
theorem Kernel.Inv.published (hv : platform.Backs v) (hprocess : task.process = none)
    (hready : task.state = .ready) (hqueue : task.waitQueue = none)
    (hresumable : task.state.live = true → task.continuation ≠ none)
    (hspace : task.addressSpace = platform.root)
    (hbase : task.kernelStackBase = taskStackVirtualFor platform.layout.toTaskLayout task.id)
    {index : Fin taskMaxTasks} (hfree : k.taskRegistry.slots index = none)
    (hid : task.id.toNat = index.val + 1) (hroom : k.sched.runqueue.items.length < taskMaxTasks)
    (hmembership : (k.published v p t index task).Membership) :
    (k.published v p t index task).Inv platform k.sched.current ∧
      (k.published v p t index task).sched.runqueue.items = k.sched.runqueue.items ++ [t] := by
  -- the steps of the constructor, with the task managed from the start, which it is in the end
  set managed : Task := { task with lifecycleMode := .managed } with hmanaged
  have hself : (k.refit v t managed).task t = managed := k.task_refit v t managed
  have hcreated : (k.refit v t managed).Inv platform k.sched.current := by
    refine h.refit_idle hidle hv hprocess ?_ ?_ hqueue hresumable <;> simp [hmanaged, hready]
  have hregistered := hcreated.register (t := t) hfree (by rw [hself]; exact hid) (by rw [hself])
    (by rw [hself]; exact hspace) (by rw [hself]; exact hbase)
  set k₂ : Kernel := { k.refit v t managed with
    taskRegistry := (k.refit v t managed).taskRegistry.insert index t } with hk₂
  have htask : k₂.sched.setTask t { k₂.task t with process := some p } =
      k.sched.setTask t { task with process := some p, lifecycleMode := .managed } := by
    simp only [hk₂, refit, Kernel.task, Sched.setTask, update_idem,
      update_self, hmanaged]
  have hattached := @Kernel.Inv.rewire
    (update k.processes p { k.processes p with tasks := (k.processes p).tasks.push t })
    platform k₂ k.sched.current t hregistered (some p) (by
      rw [htask]
      exact hmembership.frame rfl rfl (fun _ => rfl) fun _ _ => rfl)
  rw [htask] at hattached
  have hqueued := hattached.enqueue (t := t) (IdTable.mem_insert_of_free hfree |>.mpr (.inl rfl))
    (by
      show ((k.sched.setTask t _).tasks t).state = _
      rw [Sched.setTask_self]
      exact hready) hidle.unqueued.1 hroom
  exact ⟨hqueued, (h.sched.runqueue.push h.sched.initialized hroom hidle.unqueued.1).items_eq⟩

/-- **The common part of the two constructors** fails without a trace, or publishes the
execution unit. -/
theorem construction (p : ProcessRef) (tid entry argument : Word) :
    Construction platform k p t tid platform.root entry argument := by
  rcases k.taskCreate_cases h hidle tid entry argument with
    ⟨k', hcreate, hvoid⟩ | ⟨haccepts, frames, v, hv, hcreate, hmapped, hnone, hother⟩
  · exact .uncreated hcreate hvoid
  obtain ⟨k', hdestroy, hvoid⟩ := k.destroy_fresh h hidle argument haccepts hv hmapped hnone hother
  set task := freshTask platform.layout.toTaskLayout tid platform.root entry argument
    frames with htask
  set k₁ := k.refit v t task with hk₁
  have hself₁ : k₁.task t = task := k.task_refit v t task
  have hinv₁ : k₁.Inv platform k.sched.current :=
    h.refit_idle hidle hv rfl (by rintro ⟨⟩) (by rintro ⟨⟩) rfl fun _ => Option.some_ne_none _
  rcases @taskRegistryRegister_cases k₁ t h.initialized h.counted (by rw [hself₁]; rintro ⟨⟩) with
    hregister | ⟨index, hfree, hid, hregister⟩
  · exact .unregistered hcreate hregister (rollback_of_destroy hdestroy) hvoid
  rw [hself₁] at hid
  set k₂ : Kernel := { k₁ with taskRegistry := k₁.taskRegistry.insert index t } with hk₂
  have hself₂ : k₂.task t = task := hself₁
  have hunregister : taskRegistryUnregister k₂ t = (0, k₁) := by
    have hslot : k₂.taskRegistry.slots index = some t := update_self _ _ _
    rw [@taskRegistryUnregister_of_slot k₂ t h.initialized index hslot (by rw [hself₂]; exact hid)
      ((h.counted.insert hfree t).ne_zero hslot), hk₂]
    dsimp only
    rw [IdTable.erase_insert hfree]
  have hmembership₂ : k₂.Membership :=
    hinv₁.membership.frame rfl rfl (fun _ => rfl) fun _ _ => rfl
  rcases hmembership₂.attach p t with ⟨code, hcode, hattach, -⟩ |
    ⟨k₃, hattach, hk₃, -, hdetached, -, hmembership₃⟩
  · exact .unattached hcreate hregister hcode hattach
      (rollback_of_unregister hunregister hdestroy) hvoid
  have hdetach := hmembership₂.detach_attach hdetached hk₃ hmembership₃
  have hsched₃ : k₃.sched = k.sched.setTask t { task with process := some p } := by
    rw [hk₃, hself₂]
    simp only [setTask, setProcess, hk₂, hk₁, refit, Sched.setTask,
      update_idem]
  have hinv₃ : k₃.sched.Inv k₃.sched.current k.sched.runqueue.items
      fun q => (k.sched.waitQueues q).items := by
    rw [hsched₃]
    exact h.sched.overwrite (.inr rfl) (fun hactive => hidle.unregistered (h.active t hactive))
      (by rintro ⟨⟩) (by rintro ⟨⟩) rfl fun _ => Option.some_ne_none _
  rcases hinv₃.add t with ⟨code, hcode, hadd, -⟩ | ⟨hready, hroom, hnot, hadd, hadded⟩
  · have hne : code ≠ 0 := by rcases hcode with rfl | rfl <;> decide
    have hrefused : k₃.schedule (schedulerAdd · t) = (code, k₃) := by rw [schedule, hadd]
    exact .unqueued hcreate hregister hattach hne hrefused
      (rollback_of_detach hdetach hunregister hdestroy) hvoid
  set k₄ : Kernel := { k₃ with sched := { k₃.sched with runqueue := k₃.sched.runqueue.push t } }
    with hk₄
  have hadd₄ : k₃.schedule (schedulerAdd · t) = (0, k₄) := by rw [schedule, hadd]
  have hpublished : k₄.manage t = k.published v p t index task := by
    rw [Kernel.manage, Kernel.published, hk₄, hk₃, hself₂]
    simp only [setTask, setProcess, hk₂, hk₁, refit, Kernel.task, Sched.setTask,
      update_idem, update_self]
  have hmembership : (k.published v p t index task).Membership := by
    rw [← hpublished]
    have hprocess : ∀ u, ((k₄.manage t).task u).process = (k₃.task u).process :=
      (forall_update_iff k₃.sched.tasks
        fun u x => x.process = (k₃.task u).process).mpr ⟨rfl, fun _ _ => rfl⟩
    have hspace : ∀ u, ((k₄.manage t).task u).addressSpace = (k₃.task u).addressSpace :=
      (forall_update_iff k₃.sched.tasks
        fun u x => x.addressSpace = (k₃.task u).addressSpace).mpr ⟨rfl, fun _ _ => rfl⟩
    exact hmembership₃.frame rfl rfl hprocess fun u _ => hspace u
  have hresumable : task.state.live = true → task.continuation ≠ none :=
    fun _ => Option.some_ne_none _
  obtain ⟨hinv, hitems⟩ := h.published hidle hv rfl rfl rfl hresumable rfl rfl hfree hid hroom
    hmembership
  rw [← hpublished] at hinv hitems
  exact .complete hcreate hregister hattach hadd₄
    ⟨index, frames, v, hpublished, hfree, hid, hitems, hinv, hmapped, hother⟩

/-! ## The two constructors -/

theorem voided_refl (tid : Word) : Voided platform k k t tid :=
  ⟨k.vmm, k.task t, (k.refit_self t).symm, hidle.detached, h, fun _ _ => rfl⟩

/-- **`execution_create_task`** fails without a trace, or publishes the task in its
process. -/
theorem executionCreateTask_cases (p : ProcessRef) (tid addressSpace entry argument : Word) :
    (∃ code k', code ≠ 0 ∧ code ≠ -6 ∧
        executionCreateTask platform.layout k p t tid addressSpace entry argument = (code, k') ∧
        Voided platform k k' t tid) ∨
      ∃ k', executionCreateTask platform.layout k p t tid addressSpace entry argument = (0, k') ∧
        Published platform k k' p t tid entry argument := by
  unfold executionCreateTask
  split_ifs with hnull hactive hmatch hkernel
  · exact .inl ⟨-1, k, by decide, by decide, rfl, voided_refl h hidle tid⟩
  · exact .inl ⟨-2, k, by decide, by decide, rfl, voided_refl h hidle tid⟩
  · exact .inl ⟨-3, k, by decide, by decide, rfl, voided_refl h hidle tid⟩
  · exact .inl ⟨-4, k, by decide, by decide, rfl, voided_refl h hidle tid⟩
  rw [not_not, h.memory.root_eq] at hkernel
  subst hkernel
  cases construction h hidle p tid entry argument with
  | @uncreated k' hcreate hvoid =>
      rw [hcreate, andThen_of_ne (by decide)]
      exact .inl ⟨-5, k', by decide, by decide, rfl, hvoid⟩
  | @unregistered k₁ k' hcreate hregister hrollback hvoid =>
      rw [hcreate, andThen_zero, hregister, andThen_of_ne (by decide), hrollback]
      exact .inl ⟨-7, k', by decide, by decide, rfl, hvoid⟩
  | @unattached k₁ k₂ k' code hcreate hregister hcode hattach hrollback hvoid =>
      rw [hcreate, andThen_zero, hregister, andThen_zero, hattach,
        andThen_of_ne hcode, hrollback]
      exact .inl ⟨-8, k', by decide, by decide, rfl, hvoid⟩
  | @unqueued k₁ k₂ k₃ k' code hcreate hregister hattach hcode hadd hrollback hvoid =>
      rw [hcreate, andThen_zero, hregister, andThen_zero, hattach, andThen_zero,
        hadd, andThen_of_ne hcode, hrollback]
      exact .inl ⟨-9, k', by decide, by decide, rfl, hvoid⟩
  | complete hcreate hregister hattach hadd hpublished =>
      rw [hcreate, andThen_zero, hregister, andThen_zero, hattach, andThen_zero,
        hadd, andThen_zero]
      exact .inr ⟨_, rfl, hpublished⟩

omit h hidle in
/-- A process that has just been created, and has got no member since, is removed without
a trace. -/
theorem processDestroy_created {k₀ : Kernel} {index : Fin processMaxProcesses}
    {pid addressSpace tid : Word} (hfree : k.processRegistry.slots index = none)
    (hk₀ : k₀ = { k.setProcess p { id := pid, state := .active, addressSpace := addressSpace } with
      processRegistry := k.processRegistry.insert index p })
    (hvoid : Voided platform k₀ k' t tid) :
    ∃ k₁ k₂, processTerminate k' p = (0, k₁) ∧ processDestroy k₁ p = (0, k₂) ∧
      Voided platform (k.setProcess p {}) k₂ t tid := by
  obtain ⟨v, task, hk', hprocess, hinv, hquiet⟩ := hvoid
  set process : Process := { id := pid, state := .active, addressSpace := addressSpace } with
    hprocess₀
  have hself : k'.processes p = process := by
    rw [hk', hk₀]
    exact update_self _ _ _
  have hregistry : k'.processRegistry = k.processRegistry.insert index p := by
    rw [hk', hk₀]
    rfl
  have hmem : k'.processRegistry.Mem p := by
    rw [hregistry]
    exact (IdTable.mem_insert_of_free hfree).mpr (.inl rfl)
  rcases hinv.membership.terminate p with ⟨-, -, -, hnot⟩ | ⟨hterminate, hmembership₁⟩
  · exact absurd ⟨by rw [hself], hmem⟩ hnot
  rw [hself] at hterminate hmembership₁
  have hself₁ : (k'.setProcess p { process with state := .terminated }).processes p =
      { process with state := .terminated } := update_self _ _ _
  rcases hmembership₁.destroy p with
    ⟨-, -, -, hnot⟩ | ⟨index', k₂, hdestroy, hslot, hk₂, -, hmembership₂⟩
  · exact absurd ⟨hmem, by rw [hself₁], by rw [hself₁]; rfl⟩ hnot
  -- the slot that is given up is the one that was taken
  have hindex : index' = index := by
    refine hinv.membership.keyed.slot_unique hslot ?_
    rw [hregistry]
    exact update_self _ _ _
  have hkernel : k₂ = (k.setProcess p {}).refit v t task := by
    rw [hk₂, hindex]
    simp only [setProcess, update_idem]
    rw [hregistry, IdTable.erase_insert hfree, hk', hk₀]
    simp only [refit, setProcess, update_idem]
  refine ⟨_, k₂, hterminate, hdestroy, v, task, hkernel, hprocess, ?_, ?_⟩
  · have hsame : k₂ = { k' with
        processes := k₂.processes, processRegistry := k₂.processRegistry } := by
      rw [hkernel, hk', hk₀]
      rfl
    rw [hsame] at hmembership₂ ⊢
    rw [hk₀] at hinv
    exact hinv.reprocess hmembership₂
  · rw [hk₀] at hquiet
    exact hquiet

/-- **`execution_create_kernel_task`** fails, at most clearing a process object that is
not registered, or publishes the task in a new process. -/
theorem executionCreateKernelTask_cases (p : ProcessRef)
    (pid tid addressSpace entry argument : Word) :
    (∃ code k₀ k', code ≠ 0 ∧ code ≠ -5 ∧
        executionCreateKernelTask platform.layout k p t pid tid addressSpace entry argument =
          (code, k') ∧
        (k₀ = k ∨ ¬ k.processRegistry.Mem p ∧ k₀ = k.setProcess p {}) ∧
        Voided platform k₀ k' t tid) ∨
      ∃ k₀ k', executionCreateKernelTask platform.layout k p t pid tid addressSpace entry argument =
          (0, k') ∧
        processCreate k p pid addressSpace = (0, k₀) ∧
        Published platform k₀ k' p t tid entry argument := by
  unfold executionCreateKernelTask
  split_ifs with hnull hkernel
  · exact .inl ⟨-1, k, k, by decide, by decide, rfl, .inl rfl, voided_refl h hidle tid⟩
  · exact .inl ⟨-2, k, k, by decide, by decide, rfl, .inl rfl, voided_refl h hidle tid⟩
  rw [not_not, h.memory.root_eq] at hkernel
  subst hkernel
  rcases h.membership.create p pid platform.root with
    ⟨code, k', hcode, hprocess, hk'⟩ | ⟨index, k₀, hprocess, hnew, hfree, hk₀, hmembership⟩
  · rw [hprocess, andThen_of_ne hcode]
    refine .inl ⟨-4, k', k', by decide, by decide, rfl, hk', ?_⟩
    rcases hk' with rfl | ⟨hnew, rfl⟩
    · exact voided_refl h hidle tid
    · have hinv := h.reprocess (h.membership.setProcess hnew {} rfl)
      exact voided_refl hinv ⟨hidle.detached, hidle.unregistered, hidle.unqueued⟩ tid
  rw [hprocess, andThen_zero]
  have hinv : k₀.Inv platform k₀.sched.current := by
    rw [hk₀] at hmembership ⊢
    exact h.reprocess hmembership
  have hidle₀ : k₀.Idle t := by
    rw [hk₀]
    exact ⟨hidle.detached, hidle.unregistered, hidle.unqueued⟩
  have hundo := fun {k' : Kernel} (hvoid : Voided platform k₀ k' t tid) =>
    processDestroy_created hfree hk₀ hvoid
  cases construction hinv hidle₀ p tid entry argument with
  | uncreated hcreate hvoid =>
      obtain ⟨k₁, k₂, hterminate, hdestroy, hvoid'⟩ := hundo hvoid
      rw [hcreate, andThen_of_ne (by decide), hterminate, andThen_zero, hdestroy]
      exact .inl ⟨-6, _, k₂, by decide, by decide, rfl, .inr ⟨hnew, rfl⟩, hvoid'⟩
  | unregistered hcreate hregister hrollback hvoid =>
      obtain ⟨k₁, k₂, hterminate, hdestroy, hvoid'⟩ := hundo hvoid
      rw [hcreate, andThen_zero, hregister, andThen_of_ne (by decide),
        executionRollbackKernelTaskInternal, hrollback, andThen_zero, hterminate,
        andThen_zero, hdestroy]
      exact .inl ⟨-7, _, k₂, by decide, by decide, rfl, .inr ⟨hnew, rfl⟩, hvoid'⟩
  | unattached hcreate hregister hcode hattach hrollback hvoid =>
      obtain ⟨k₁, k₂, hterminate, hdestroy, hvoid'⟩ := hundo hvoid
      rw [hcreate, andThen_zero, hregister, andThen_zero, hattach,
        andThen_of_ne hcode, executionRollbackKernelTaskInternal, hrollback, andThen_zero,
        hterminate, andThen_zero, hdestroy]
      exact .inl ⟨-8, _, k₂, by decide, by decide, rfl, .inr ⟨hnew, rfl⟩, hvoid'⟩
  | unqueued hcreate hregister hattach hcode hadd hrollback hvoid =>
      obtain ⟨k₁, k₂, hterminate, hdestroy, hvoid'⟩ := hundo hvoid
      rw [hcreate, andThen_zero, hregister, andThen_zero, hattach, andThen_zero,
        hadd, andThen_of_ne hcode, executionRollbackKernelTaskInternal, hrollback,
        andThen_zero, hterminate, andThen_zero, hdestroy]
      exact .inl ⟨-9, _, k₂, by decide, by decide, rfl, .inr ⟨hnew, rfl⟩, hvoid'⟩
  | complete hcreate hregister hattach hadd hpublished =>
      rw [hcreate, andThen_zero, hregister, andThen_zero, hattach, andThen_zero,
        hadd, andThen_zero]
      exact .inr ⟨k₀, _, rfl, rfl, hpublished⟩

end Construct

end Batos
