import Batos.Process.System

/-!
# Publication of tasks and processes

Three results about every run of the kernel.  Membership of tasks in processes is one
relation seen from two sides (`membership_run`).  The constructors of execution units
publish all of a unit or nothing (`publication_run`).  And there is the one guarantee
that processes have and tasks do not: `process_create` refuses an object that is
registered, but `task_create` overwrites whatever object it is given, so that a task in
use keeps its identity exactly when the arguments are refused (`repurposed_iff`).
-/

namespace Batos

open Call (andThen_rule)
open KernelMachine (boot inv_run owner)

variable {platform : Platform}

/-! ## Membership -/

/-- Processes and tasks agree on who belongs to whom, and the registry of processes is
sound. -/
structure TwoWay (k : Kernel) : Prop where
  /-- The used part of the array of a process holds tasks that point back to it. -/
  listed : ∀ p, k.processRegistry.Mem p → ∀ i < (k.processes p).tasks.count,
    ∃ t, (k.processes p).tasks.slots i = some t ∧ (k.task t).process = some p ∧
      (k.task t).addressSpace = (k.processes p).addressSpace
  /-- No task is listed twice. -/
  distinct : ∀ p, k.processRegistry.Mem p → ∀ i < (k.processes p).tasks.count,
    ∀ j < (k.processes p).tasks.count,
      (k.processes p).tasks.slots i = (k.processes p).tasks.slots j → i = j
  /-- The rest of the array is NULL. -/
  rest : ∀ p, k.processRegistry.Mem p → (k.processes p).tasks.count ≤ processMaxTasks ∧
    ∀ i, (k.processes p).tasks.count ≤ i → (k.processes p).tasks.slots i = none
  /-- A task that points to a process is listed there, once. -/
  back : ∀ t p, (k.task t).process = some p → k.processRegistry.Mem p ∧
    ∃! i, i < (k.processes p).tasks.count ∧ (k.processes p).tasks.slots i = some t
  /-- A slot holds a process of its id. -/
  slots : ∀ i p, k.processRegistry.slots i = some p → (k.processes p).id.toNat = i.val + 1
  spaces : ∀ p p', k.processRegistry.Mem p → k.processRegistry.Mem p' →
    (k.processes p).addressSpace = (k.processes p').addressSpace → p = p'
  count : k.processRegistry.count =
    (Finset.univ.filter fun i => (k.processRegistry.slots i).isSome = true).card

/-- In the invariant both directions hold. -/
theorem Kernel.Membership.twoWay {k : Kernel} (h : k.Membership) : TwoWay k := by
  refine ⟨fun p _ i hi => ?_, fun p _ i hi j hj heq => ?_, fun p _ => ?_, fun t p ht => ?_, h.keyed,
    h.spaces, h.counted⟩
  · obtain ⟨items, hrep, -, -, hitems⟩ := h.lists p
    rw [hrep.count] at hi
    have hmem : (k.task items[i]).process = some p := (hitems _).mp (List.getElem_mem hi)
    refine ⟨items[i], ?_, hmem, (h.registered _ p hmem).2⟩
    rw [hrep.slots, List.getElem?_eq_getElem hi]
  · obtain ⟨items, hrep, hnodup, -, -⟩ := h.lists p
    rw [hrep.count] at hi hj
    rw [hrep.slots, hrep.slots] at heq
    exact (List.getElem?_inj hi hnodup).mp heq
  · obtain ⟨items, hrep, -, hbound, -⟩ := h.lists p
    rw [hrep.count]
    refine ⟨hbound, fun i hi => ?_⟩
    rw [hrep.slots, List.getElem?_eq_none hi]
  · obtain ⟨items, hrep, hnodup, -, hitems⟩ := h.lists p
    obtain ⟨i, hi, hget⟩ := List.getElem_of_mem ((hitems t).mpr ht)
    have hslot : (k.processes p).tasks.slots i = some t := by
      rw [hrep.slots, List.getElem?_eq_getElem hi, hget]
    refine ⟨(h.registered t p ht).1, i, ⟨by rw [hrep.count]; exact hi, hslot⟩, ?_⟩
    rintro j ⟨hj, hslot'⟩
    rw [hrep.count] at hj
    rw [← hslot, hrep.slots, hrep.slots] at hslot'
    exact (List.getElem?_inj hj hnodup).mp hslot'

/-- **Membership in every run.** -/
theorem membership_run (platform : Platform) (ops : List KernelOp)
    (h : (kernelSystem platform).Admissible (boot platform) ops) :
    TwoWay ((kernelSystem platform).run (boot platform) ops).kernel :=
  (inv_run h).membership.twoWay

/-- Nobody uses a task at boot. -/
theorem idle_boot (platform : Platform) (t : TaskRef) : (boot platform).kernel.Idle t where
  detached := rfl
  unregistered := fun ⟨_, hslot⟩ => by cases hslot
  unqueued := ⟨nofun, fun _ => nofun, nofun⟩

/-- A kernel task is constructed, runs, ends and is the last one. -/
def demoUnitOps : List KernelOp :=
  [.createKernelTask 5 7 1 1 0x2000 0x400 0, .processTerminate 5, .start, .processDetachTask 5 7,
    .exit {}]

theorem demoUnitOps_admissible :
    (kernelSystem demoPlatform).Admissible (boot demoPlatform) demoUnitOps := by
  refine ⟨⟨rfl, idle_boot demoPlatform 7⟩, ⟨?_, trivial⟩, ⟨?_, trivial⟩, ⟨?_, trivial⟩,
    ⟨?_, ?_⟩, trivial⟩
  all_goals decide +kernel

theorem membership_run_demo :
    TwoWay ((kernelSystem demoPlatform).run (boot demoPlatform) demoUnitOps).kernel :=
  membership_run demoPlatform demoUnitOps demoUnitOps_admissible

/-! ## Publication -/

/-- The task has been published in all its domains. -/
structure Complete (k k' : Kernel) (p : ProcessRef) (t : TaskRef) (tid : Word) : Prop where
  ready : (k'.task t).state = .ready
  managed : (k'.task t).lifecycleMode = .managed
  registered : (k'.task t).id = tid ∧ taskRegistryFind k' tid = some t
  member : (k'.task t).process = some p ∧ k'.processRegistry.Mem p ∧
    ∃! i, i < (k'.processes p).tasks.count ∧ (k'.processes p).tasks.slots i = some t
  queued : k'.sched.runqueue.items = k.sched.runqueue.items ++ [t]

/-- All domains of ownership are as before. -/
structure Undone (k k' : Kernel) : Prop where
  processRegistry : k'.processRegistry = k.processRegistry
  taskRegistry : k'.taskRegistry = k.taskRegistry
  lists : ∀ p, (k'.processes p).tasks = (k.processes p).tasks
  runqueue : k'.sched.runqueue = k.sched.runqueue
  lifecycle : k'.lifecycle = k.lifecycle

/-- A call publishes a unit or undoes all it has done, and never ends with the code of a
rollback that has failed. -/
structure AllOrNothing (k : Kernel) (call : Call) (p : ProcessRef) (t : TaskRef) (tid : Word)
    (broken : ℤ) : Prop where
  done : call.1 = 0 → Complete k call.2 p t tid
  undone : call.1 ≠ 0 → Undone k call.2
  intact : call.1 ≠ broken

section Publication

variable {k k' : Kernel} {p : ProcessRef} {t : TaskRef} {tid entry argument : Word}

/-- A construction that failed left nothing behind. -/
theorem Voided.undone (h : Voided platform k k' t tid) : Undone k k' := by
  obtain ⟨v, task, rfl, -⟩ := h
  exact ⟨rfl, rfl, fun _ => rfl, rfl, rfl⟩

/-- Clearing an object that is not registered takes nothing from its list. -/
theorem Kernel.Membership.undone_clear (h : k.Membership) (hp : ¬ k.processRegistry.Mem p) :
    Undone k (k.setProcess p {}) := by
  refine ⟨rfl, rfl, ?_, rfl, rfl⟩
  refine (Function.forall_update_iff k.processes fun q x => x.tasks = (k.processes q).tasks).mpr
    ⟨?_, fun _ _ => rfl⟩
  rw [h.tasks_of_not_mem hp]

theorem Undone.trans {k₁ : Kernel} (h : Undone k k₁) (h' : Undone k₁ k') : Undone k k' where
  processRegistry := h'.processRegistry.trans h.processRegistry
  taskRegistry := h'.taskRegistry.trans h.taskRegistry
  lists := fun q => (h'.lists q).trans (h.lists q)
  runqueue := h'.runqueue.trans h.runqueue
  lifecycle := h'.lifecycle.trans h.lifecycle

/-- A construction that succeeded is complete. -/
theorem Published.complete (h : Published platform k k' p t tid entry argument) :
    Complete k k' p t tid := by
  obtain ⟨index, frames, v, hk', -, hid, hitems, hinv, -⟩ := h
  have hself : k'.task t = { freshTask platform.layout.toTaskLayout tid platform.root entry argument
      frames with process := some p, lifecycleMode := .managed } := by
    rw [hk']
    exact Function.update_self _ _ _
  have hprocess : (k'.task t).process = some p := by rw [hself]
  refine ⟨by rw [hself]; rfl, by rw [hself], ⟨by rw [hself]; rfl, ?_⟩,
    ⟨hprocess, hinv.membership.twoWay.back t p hprocess⟩, hitems⟩
  rw [taskRegistryFind, hinv.initialized, if_pos rfl, IdTable.find_eq_some]
  refine ⟨index, hid, ?_⟩
  rw [hk']
  exact Function.update_self _ _ _

end Publication

/-- **Publication is all or nothing**, in every state a run can reach, for any arguments
and any task object that is not attached, registered or queued. -/
theorem publication_run (platform : Platform) {m : KernelMachine}
    (hm : (kernelSystem platform).Reachable (boot platform) m) (hrun : m.halted = false)
    (p : ProcessRef) (t : TaskRef) (hidle : m.kernel.Idle t) :
    (∀ pid tid addressSpace entry argument, AllOrNothing m.kernel
      (executionCreateKernelTask platform.layout m.kernel p t pid tid addressSpace entry argument)
      p t tid (-5)) ∧
    ∀ tid addressSpace entry argument, AllOrNothing m.kernel
      (executionCreateTask platform.layout m.kernel p t tid addressSpace entry argument)
        p t tid (-6) := by
  have hinv : m.kernel.Inv platform m.kernel.sched.current := by
    obtain ⟨ops, hops, rfl⟩ := hm
    have h := inv_run hops
    rw [KernelMachine.Inv, owner, hrun] at h
    exact h
  refine ⟨fun pid tid addressSpace entry argument => ?_, fun tid addressSpace entry argument => ?_⟩
  · rcases executionCreateKernelTask_cases hinv hidle p pid tid addressSpace entry argument with
      ⟨code, k₀, k', hcode, hbroken, heq, hk₀, hvoid⟩ | ⟨k₀, k', heq, hprocess, hpublished⟩ <;>
        rw [heq]
    · refine ⟨fun hzero => absurd hzero hcode, fun _ => ?_, hbroken⟩
      rcases hk₀ with rfl | ⟨hnew, rfl⟩
      · exact hvoid.undone
      · exact (hinv.membership.undone_clear hnew).trans hvoid.undone
    · refine ⟨fun _ => ?_, fun hne => absurd rfl hne, by simp⟩
      have hsched : k₀.sched = m.kernel.sched := by
        rcases hinv.membership.create p pid addressSpace with
          ⟨code, k₁, hcode, heq₁, -⟩ | ⟨index, k₁, heq₁, -, -, hk₁, -⟩
        · exact absurd (congrArg Prod.fst (hprocess.symm.trans heq₁)).symm hcode
        · obtain rfl : k₀ = k₁ := congrArg Prod.snd (hprocess.symm.trans heq₁)
          rw [hk₁]
          rfl
      have hcomplete := hpublished.complete
      exact { hcomplete with queued := by rw [← hsched]; exact hcomplete.queued }
  · rcases executionCreateTask_cases hinv hidle p tid addressSpace entry argument with
      ⟨code, k', hcode, hbroken, heq, hvoid⟩ | ⟨k', heq, hpublished⟩ <;> rw [heq]
    · exact ⟨fun hzero => absurd hzero hcode, fun _ => hvoid.undone, hbroken⟩
    · exact ⟨fun _ => hpublished.complete, fun hne => absurd rfl hne, by simp⟩

/-- The first kernel task of the machine of the examples. -/
theorem publication_run_demo :
    (executionCreateKernelTask demoPlatform.layout (boot demoPlatform).kernel 5 7 1 1
        0x2000 0x400 0).1 = 0 ∧
      AllOrNothing (boot demoPlatform).kernel
        (executionCreateKernelTask demoPlatform.layout (boot demoPlatform).kernel 5 7 1 1
          0x2000 0x400 0) 5 7 1 (-5) :=
  ⟨by decide +kernel, (publication_run demoPlatform (.refl _ (boot demoPlatform)) rfl 5 7
    (idle_boot demoPlatform 7)).1 1 1 0x2000 0x400 0⟩

/-! ## Task objects in use -/

/-- The task is registered, queued, running, blocked or waits to be reclaimed. -/
def Kernel.Live (k : Kernel) (t : TaskRef) : Prop :=
  k.taskRegistry.Mem t ∨ k.sched.Active t ∨ t ∈ k.lifecycle.items

/-- Everything that concerns the task is as before. -/
structure Spared (root : Word) (k k' : Kernel) (t : TaskRef) : Prop where
  object : k'.task t = k.task t
  registry : ∀ i, k'.taskRegistry.slots i = some t ↔ k.taskRegistry.slots i = some t
  membership : ∀ p i, (k'.processes p).tasks.slots i = some t ↔
    (k.processes p).tasks.slots i = some t
  queues : (t ∈ k'.sched.runqueue.items ↔ t ∈ k.sched.runqueue.items) ∧
    (∀ q, t ∈ (k'.sched.waitQueues q).items ↔ t ∈ (k.sched.waitQueues q).items) ∧
    (t ∈ k'.lifecycle.items ↔ t ∈ k.lifecycle.items)
  stack : ∀ page, k'.vmm.paging.tables.lookup root (stackPage (k.task t).kernelStackBase page) =
    k.vmm.paging.tables.lookup root (stackPage (k.task t).kernelStackBase page)

/-- The call is rejected and nothing has happened to the task. -/
def Refused (root : Word) (k : Kernel) (call : Call) (t : TaskRef) : Prop :=
  call.1 ≠ 0 ∧ Spared root k call.2 t

theorem Spared.refl (root : Word) (k : Kernel) (t : TaskRef) : Spared root k k t :=
  ⟨rfl, fun _ => Iff.rfl, fun _ _ => Iff.rfl, ⟨Iff.rfl, fun _ => Iff.rfl, Iff.rfl⟩, fun _ => rfl⟩

/-- What `execution_create_task` checks before it constructs the task. -/
def executionCreateTaskAccepts (k : Kernel) (p : ProcessRef)
    (tid addressSpace entry : Word) : Bool :=
  decide (tid ≠ 0 ∧ addressSpace ≠ 0 ∧ entry ≠ 0) &&
    (processRegistryContains k p && decide ((k.processes p).state = .active)) &&
    decide (addressSpace = (k.processes p).addressSpace) && decide (addressSpace = vmmGetPml4 k.vmm)

/-- The checks at the head of `execution_create_task`. -/
theorem executionCreateTaskAccepts_iff {k : Kernel} {p : ProcessRef}
    {tid addressSpace entry : Word} :
    executionCreateTaskAccepts k p tid addressSpace entry = true ↔
      ¬ (tid = 0 ∨ addressSpace = 0 ∨ entry = 0) ∧
        ¬ (processRegistryContains k p = false ∨ (k.processes p).state ≠ .active) ∧
        ¬ addressSpace ≠ (k.processes p).addressSpace ∧ ¬ addressSpace ≠ vmmGetPml4 k.vmm := by
  simp only [executionCreateTaskAccepts, Bool.and_eq_true, decide_eq_true_eq,
    not_or, not_not, ne_eq, Bool.not_eq_false, and_assoc]

section Repurposed

variable {k : Kernel} (layout : KernelLayout) (p : ProcessRef) (t : TaskRef)
  (tid addressSpace entry argument : Word)

/-- The task object is not managed by the reaper. -/
def Kernel.Unmanaged (k : Kernel) (t : TaskRef) : Prop := (k.task t).lifecycleMode = .unmanaged

/-- `task_create` begins by taking the task from the reaper. -/
theorem unmanaged_taskCreate (haccepts : taskCreateAccepts tid addressSpace entry = true) :
    (k.taskCreate layout t tid addressSpace entry argument).2.Unmanaged t := by
  have hmode : (taskCreate layout.toTaskLayout (layout.taskAddress t) k.vmm (k.task t)
    tid addressSpace
      entry argument).2.1.lifecycleMode = .unmanaged := by
    rcases taskCreate_outcome layout.toTaskLayout (layout.taskAddress t) k.vmm
      (k.task t) argument tid
        addressSpace entry with
      ⟨-, task', heq, htask⟩ | ⟨-, -, complete, s, frames, -, ⟨-, heq⟩ | ⟨-, heq⟩⟩ <;> rw [heq]
    · rw [htask haccepts]
      rfl
    · rfl
    · rfl
  unfold Kernel.taskCreate Kernel.Unmanaged
  show ((k.sched.setTask t _).tasks t).lifecycleMode = _
  rw [Sched.setTask_self]
  exact hmode

theorem Kernel.Unmanaged.setTask (h : k.Unmanaged t) (u : TaskRef) {task : Task}
    (hmode : task.lifecycleMode = (k.task u).lifecycleMode) : (k.setTask u task).Unmanaged t := by
  by_cases hu : t = u
  · subst hu
    show ((k.sched.setTask t task).tasks t).lifecycleMode = _
    rw [Sched.setTask_self, hmode]
    exact h
  · show (Function.update k.sched.tasks u task t).lifecycleMode = _
    rw [Function.update_of_ne hu]
    exact h

theorem unmanaged_register (h : k.Unmanaged t) : (taskRegistryRegister k t).2.Unmanaged t := by
  unfold taskRegistryRegister
  cases IdTable.slotOf taskMaxTasks (k.task t).id.toNat with
  | none => split_ifs <;> exact h
  | some index =>
      dsimp only
      split_ifs <;> exact h

theorem unmanaged_unregister (h : k.Unmanaged t) : (taskRegistryUnregister k t).2.Unmanaged t := by
  unfold taskRegistryUnregister
  cases IdTable.slotOf taskMaxTasks (k.task t).id.toNat with
  | none => split_ifs <;> exact h
  | some index =>
      dsimp only
      split_ifs <;> exact h

theorem unmanaged_attach (h : k.Unmanaged t) : (processAttachTask k p t).2.Unmanaged t := by
  unfold processAttachTask
  split_ifs
  iterate 5 exact h
  exact Kernel.Unmanaged.setTask t (k := k.setProcess p _) h t rfl

theorem unmanaged_detach (h : k.Unmanaged t) : (processDetachTask k p t).2.Unmanaged t := by
  unfold processDetachTask
  cases (k.processes p).tasks.indexOf t with
  | none => split_ifs <;> exact h
  | some index =>
      dsimp only
      split_ifs
      iterate 3 exact h
      exact Kernel.Unmanaged.setTask t (k := k.setProcess p _) h t rfl

theorem unmanaged_add (h : k.Unmanaged t) : (k.schedule (schedulerAdd · t)).2.Unmanaged t := by
  unfold Kernel.schedule schedulerAdd runqueueEnqueue
  dsimp only
  split_ifs <;> exact h

theorem lifecycleMode_taskUnmapStack (s : Paging) (task : Task) :
    (taskUnmapStack s task).2.1.lifecycleMode = task.lifecycleMode := by
  unfold taskUnmapStack
  split_ifs <;> rfl

theorem unmanaged_destroy (h : k.Unmanaged t) : (taskDestroy k t).2.Unmanaged t := by
  unfold taskDestroy
  split_ifs
  iterate 4 exact h
  · exact Kernel.Unmanaged.setTask t h t rfl
  · refine andThen_rule (Kernel.Unmanaged · t) (fun call => call.2.Unmanaged t) ?_
      (fun _ h₁ => h₁) fun k₁ h₁ => Kernel.Unmanaged.setTask t h₁ t rfl
    exact Kernel.Unmanaged.setTask t (k := { k with vmm := _ }) h t
      (lifecycleMode_taskUnmapStack _ _)

/-- No step of the rollback makes a task managed. -/
theorem unmanaged_rollback (h : k.Unmanaged t) (taskRegistered taskAttached : Bool) :
    (executionRollbackTaskInternal k p t taskRegistered taskAttached).2.Unmanaged t := by
  unfold executionRollbackTaskInternal
  refine andThen_rule (Kernel.Unmanaged · t) (fun call => call.2.Unmanaged t) ?_
    (fun _ h₁ => h₁) fun k₁ h₁ => ?_
  · cases taskAttached
    · exact h
    · exact unmanaged_detach p t h
  refine andThen_rule (Kernel.Unmanaged · t) (fun call => call.2.Unmanaged t) ?_
    (fun _ h₂ => h₂) fun k₂ h₂ => ?_
  · cases taskRegistered
    · exact h₁
    · exact unmanaged_unregister t h₁
  exact andThen_rule (Kernel.Unmanaged · t) (fun call => call.2.Unmanaged t)
    (unmanaged_destroy t h₂) (fun _ h₃ => h₃) fun _ h₃ => h₃

/-- A rollback returns a code of failure, and leaves a task that is not managed. -/
theorem unmanaged_rolledBack (h : k.Unmanaged t) (taskRegistered taskAttached : Bool)
    {broken failed : ℤ} :
    ((executionRollbackTaskInternal k p t taskRegistered taskAttached).rolledBack broken
      failed).2.Unmanaged t :=
  andThen_rule (Kernel.Unmanaged · t) (fun call => call.2.Unmanaged t)
    (unmanaged_rollback p t h taskRegistered taskAttached) (fun _ h₁ => h₁) fun _ h₁ => h₁

/-- Whatever becomes of `execution_create_task` once it has got to `task_create`, it
succeeds or leaves a task that is not managed. -/
theorem unmanaged_executionCreateTask (haccepts : taskCreateAccepts tid addressSpace entry = true)
    (hhead : executionCreateTaskAccepts k p tid addressSpace entry = true) :
    (executionCreateTask layout k p t tid addressSpace entry argument).1 = 0 ∨
      (executionCreateTask layout k p t tid addressSpace entry argument).2.Unmanaged t := by
  obtain ⟨hgiven, hactive, hmatch, hkernel⟩ := executionCreateTaskAccepts_iff.mp hhead
  unfold executionCreateTask
  rw [if_neg hgiven, if_neg hactive, if_neg hmatch, if_neg hkernel]
  refine andThen_rule (Kernel.Unmanaged · t) (fun call => call.1 = 0 ∨ call.2.Unmanaged t)
    (unmanaged_taskCreate layout t tid addressSpace entry argument haccepts) (fun _ h₁ => .inr h₁)
    fun k₁ h₁ => ?_
  refine andThen_rule (Kernel.Unmanaged · t) (fun call => call.1 = 0 ∨ call.2.Unmanaged t)
    (unmanaged_register t h₁) (fun _ h₂ => .inr (unmanaged_rolledBack p t h₂ _ _)) fun k₂ h₂ => ?_
  refine andThen_rule (Kernel.Unmanaged · t) (fun call => call.1 = 0 ∨ call.2.Unmanaged t)
    (unmanaged_attach p t h₂) (fun _ h₃ => .inr (unmanaged_rolledBack p t h₃ _ _)) fun k₃ h₃ => ?_
  exact andThen_rule (Kernel.Unmanaged · t) (fun call => call.1 = 0 ∨ call.2.Unmanaged t)
    (unmanaged_add t h₃) (fun _ h₄ => .inr (unmanaged_rolledBack p t h₄ _ _)) fun _ _ => .inl rfl

/-- The checks at the head reject the call before anything has happened. -/
theorem executionCreateTask_rejected
    (hhead : executionCreateTaskAccepts k p tid addressSpace entry = false) :
    ∃ code, code ≠ 0 ∧
      executionCreateTask layout k p t tid addressSpace entry argument = (code, k) := by
  unfold executionCreateTask
  split_ifs with hnull hactive hmatch hkernel
  · exact ⟨-1, by simp, rfl⟩
  · exact ⟨-2, by simp, rfl⟩
  · exact ⟨-3, by simp, rfl⟩
  · exact ⟨-4, by simp, rfl⟩
  · rw [executionCreateTaskAccepts_iff.mpr ⟨hnull, hactive, hmatch, hkernel⟩] at hhead
    cases hhead

end Repurposed

/-- **When a live task object is not repurposed.**  In every state a run can reach, for
every task object in use and all arguments: `task_create` rejects the call and spares the
object exactly when its checks at the head fail, and `execution_create_task` exactly when
these or its own checks at the head do. -/
theorem repurposed_iff (platform : Platform) {m : KernelMachine}
    (hm : (kernelSystem platform).Reachable (boot platform) m) (t : TaskRef)
    (hlive : m.kernel.Live t) (p : ProcessRef) (tid addressSpace entry argument : Word) :
    (Refused platform.root m.kernel
        (m.kernel.taskCreate platform.layout t tid addressSpace entry argument) t ↔
      taskCreateAccepts tid addressSpace entry = false) ∧
    (Refused platform.root m.kernel
        (executionCreateTask platform.layout m.kernel p t tid addressSpace entry argument) t ↔
      executionCreateTaskAccepts m.kernel p tid addressSpace entry = false ∨
        taskCreateAccepts tid addressSpace entry = false) := by
  -- the reaper answers for every task in use
  have hmanaged : (m.kernel.task t).lifecycleMode = .managed := by
    obtain ⟨ops, hops, rfl⟩ := hm
    have hinv := inv_run hops
    rcases hlive with hmem | hactive | hpending
    · exact hinv.managed t (.inl hmem)
    · exact hinv.managed t (.inl (hinv.active t hactive))
    · exact hinv.managed t (.inr hpending)
  have htouched : ∀ {call : Call}, call.1 = 0 ∨ call.2.Unmanaged t →
      ¬ Refused platform.root m.kernel call t := by
    rintro call (hzero | hunmanaged) ⟨hcode, hspared⟩
    · exact hcode hzero
    · rw [Kernel.Unmanaged, hspared.object, hmanaged] at hunmanaged
      cases hunmanaged
  have hspared : ∀ {call : Call} {code : ℤ}, code ≠ 0 → call = (code, m.kernel) →
      Refused platform.root m.kernel call t := by
    rintro call code hcode rfl
    exact ⟨hcode, Spared.refl _ _ t⟩
  constructor
  · cases haccepts : taskCreateAccepts tid addressSpace entry with
    | false => exact iff_of_true (hspared (by simp) (taskCreate_rejected _ t _ _ _ _ haccepts)) rfl
    | true =>
        refine iff_of_false (htouched (.inr ?_)) nofun
        exact unmanaged_taskCreate _ t _ _ _ _ haccepts
  · cases hhead : executionCreateTaskAccepts m.kernel p tid addressSpace entry with
    | false =>
        obtain ⟨code, hcode, heq⟩ :=
          executionCreateTask_rejected platform.layout p t tid addressSpace
          entry argument hhead
        exact iff_of_true (hspared hcode heq) (.inl rfl)
    | true =>
        cases haccepts : taskCreateAccepts tid addressSpace entry with
        | false =>
            have hcode : (-5 : ℤ) ≠ 0 := by simp
            refine iff_of_true (hspared hcode ?_) (.inr rfl)
            obtain ⟨hgiven, hactive, hmatch, hkernel⟩ := executionCreateTaskAccepts_iff.mp hhead
            unfold executionCreateTask
            rw [if_neg hgiven, if_neg hactive, if_neg hmatch, if_neg hkernel,
              taskCreate_rejected _ t _ _ _ _ haccepts]
            rfl
        | true =>
            refine iff_of_false (htouched ?_) (by simp)
            exact unmanaged_executionCreateTask _ p t _ _ _ _ haccepts hhead

/-- The kernel after the first kernel task has been constructed. -/
def demoUnit : KernelMachine :=
  (kernelSystem demoPlatform).step (boot demoPlatform)
    (.createKernelTask 5 7 1 1 0x2000 0x400 0)

theorem demoUnit_reachable :
    (kernelSystem demoPlatform).Reachable (boot demoPlatform) demoUnit := by
  have henabled : (boot demoPlatform).Enabled demoPlatform
      (.createKernelTask 5 7 1 1 0x2000 0x400 0) := ⟨rfl, idle_boot demoPlatform 7⟩
  rw [demoUnit]
  exact (TransitionSystem.Reachable.refl (kernelSystem demoPlatform) _).tail _ henabled

theorem demoUnit_live : demoUnit.kernel.Live 7 := by
  refine .inl ⟨0, ?_⟩
  decide +kernel

/-- An id that is out of range spares the task. -/
theorem repurposed_iff_demo :
    Refused demoPlatform.root demoUnit.kernel
      (demoUnit.kernel.taskCreate demoPlatform.layout 7 300 0x2000 0x400 0) 7 :=
  ((repurposed_iff demoPlatform demoUnit_reachable 7 demoUnit_live 5 300 0x2000 0x400 0).1).mpr
    (by decide)

/-- A registered and queued task is given to `task_create` once more, under another id: the
call succeeds, and the task now has an id that is not the one of its slot. -/
theorem live_task_overwritten :
    (kernelSystem demoPlatform).Reachable (boot demoPlatform) demoUnit ∧
      demoUnit.kernel.taskRegistry.slots 0 = some 7 ∧
      (demoUnit.kernel.taskCreate demoPlatform.layout 7 2 0x2000 0x400 0).1 = 0 ∧
      ((demoUnit.kernel.taskCreate demoPlatform.layout 7 2 0x2000 0x400 0).2.task 7).id = 2 ∧
      (demoUnit.kernel.taskCreate demoPlatform.layout 7 2 0x2000 0x400 0).2.taskRegistry.slots 0 =
        some 7 := by
  refine ⟨demoUnit_reachable, ?_, ?_, ?_, ?_⟩
  all_goals decide +kernel

end Batos
