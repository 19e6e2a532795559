import Batos.Sched.Scheduler
import Batos.Lib.DenseArray
import Batos.Lib.IdTable

/-!
# Processes, execution units and their reclamation

The layer above the scheduler: processes and the tasks they own (`process.c`), the two
registries that give processes and tasks their identities (`process_registry.c`,
`task_registry.c`), the construction and destruction of whole execution units with
their rollbacks (`execution.c`), and the queue of tasks that have ended and wait to be
reclaimed (`lifecycle.c`).  All of these act on one another's objects, so they share one
state, `Kernel`.

A call returns its code and the state it leaves.  Calls are composed by `Call.andThen`,
which is how the source writes `if (step() != 0) { recover; } next;`.  References always
denote objects; the NULL checks of the source have no counterpart, except where a
field may be NULL.
-/

namespace Batos

/-- `enum process_state`. -/
inductive ProcessState
  | new
  | active
  | terminated
  deriving DecidableEq, Repr

/-- `PROCESS_MAX_PROCESSES`. -/
abbrev processMaxProcesses : ℕ := 256

/-- `PROCESS_MAX_TASKS`. -/
abbrev processMaxTasks : ℕ := 256

/-- `struct process`; `tasks` holds both the array and `task_count`. -/
structure Process where
  id : Word := 0
  state : ProcessState := .new
  addressSpace : Word := 0
  tasks : DenseArray TaskRef := .empty

/-- All objects and static variables above the memory subsystem, and the memory
subsystem. -/
structure Kernel where
  vmm : Vmm
  sched : Sched := {}
  processes : ProcessRef → Process := fun _ => {}
  processRegistry : IdTable ProcessRef processMaxProcesses := {}
  taskRegistry : IdTable TaskRef taskMaxTasks := {}
  lifecycle : TaskQueue := {}

/-- The window of the task stacks, and where the task objects are. -/
structure KernelLayout extends TaskLayout where
  taskAddress : TaskRef → Word

namespace Kernel

/-- A task object. -/
abbrev task (k : Kernel) (t : TaskRef) : Task := k.sched.tasks t

/-- Overwrite a task object. -/
def setTask (k : Kernel) (t : TaskRef) (task : Task) : Kernel :=
  { k with sched := k.sched.setTask t task }

/-- Overwrite a process object. -/
def setProcess (k : Kernel) (p : ProcessRef) (process : Process) : Kernel :=
  { k with processes := Function.update k.processes p process }

end Kernel

/-- The return code of a call and the state it leaves. -/
abbrev Call := ℤ × Kernel

/-- Go on after a call that returned 0, recover from one that did not. -/
def Call.andThen (call : Call) (recover next : Kernel → Call) : Call :=
  if call.1 ≠ 0 then recover call.2 else next call.2

/-- Give up with a code. -/
def Kernel.fail (code : ℤ) (k : Kernel) : Call := (code, k)

/-- A call of the scheduler. -/
def Kernel.schedule (k : Kernel) (call : Sched → ℤ × Sched) : Call :=
  ((call k.sched).1, { k with sched := (call k.sched).2 })

/-! ## The registry of processes -/

/-- `process_registry_init`. -/
def processRegistryInit (k : Kernel) : Kernel :=
  { k with processRegistry := { initialized := true } }

/-- `process_registry_contains`. -/
def processRegistryContains (k : Kernel) (p : ProcessRef) : Bool :=
  k.processRegistry.initialized &&
    decide (k.processRegistry.find (k.processes p).id.toNat = some p)

/-- `process_registry_find_by_address_space`. -/
def processRegistryFindByAddressSpace (k : Kernel) (addressSpace : Word) : Option ProcessRef :=
  if k.processRegistry.initialized = false ∨ addressSpace = 0 then none
  else
    (List.finRange processMaxProcesses).findSome? fun index =>
      (k.processRegistry.slots index).filter fun p =>
        decide ((k.processes p).addressSpace = addressSpace)

/-- `process_registry_register`.  The object must be in no slot, not only not in the
slot of its id. -/
def processRegistryRegister (k : Kernel) (p : ProcessRef) : Call :=
  if k.processRegistry.initialized = false then (-1, k)
  else if (List.finRange processMaxProcesses).any fun index =>
      decide (k.processRegistry.slots index = some p) then (-2, k)
  else
    match IdTable.slotOf processMaxProcesses (k.processes p).id.toNat with
    | none => (-3, k)
    | some index =>
        if (k.processes p).state = .terminated then (-4, k)
        else if (k.processRegistry.slots index).isSome then (-5, k)
        else (0, { k with processRegistry := k.processRegistry.insert index p })

/-- `process_registry_unregister`. -/
def processRegistryUnregister (k : Kernel) (p : ProcessRef) : Call :=
  if k.processRegistry.initialized = false then (-1, k)
  else
    match IdTable.slotOf processMaxProcesses (k.processes p).id.toNat with
    | none => (-2, k)
    | some index =>
        if k.processRegistry.slots index ≠ some p then (-3, k)
        else if k.processRegistry.count = 0 then (-4, k)
        else (0, { k with processRegistry := k.processRegistry.erase index })

/-! ## Processes -/

/-- `process_attach_task`. -/
def processAttachTask (k : Kernel) (p : ProcessRef) (t : TaskRef) : Call :=
  if processRegistryContains k p = false ∨ (k.processes p).state ≠ .active then (-2, k)
  else if (k.task t).process.isSome then (-3, k)
  else if (k.task t).addressSpace ≠ (k.processes p).addressSpace then (-4, k)
  else if processMaxTasks ≤ (k.processes p).tasks.count then (-5, k)
  else if ((k.processes p).tasks.indexOf t).isSome then (-6, k)
  else
    (0, (k.setProcess p { k.processes p with tasks := (k.processes p).tasks.push t }).setTask t
      { k.task t with process := some p })

/-- `process_detach_task`. -/
def processDetachTask (k : Kernel) (p : ProcessRef) (t : TaskRef) : Call :=
  if processRegistryContains k p = false then (-2, k)
  else
    match (k.processes p).tasks.indexOf t with
    | none => (-3, k)
    | some index =>
        if (k.task t).process ≠ some p then (-4, k)
        else if (k.processes p).tasks.count = 0 then (-5, k)
        else
          (0, (k.setProcess p
            { k.processes p with tasks := (k.processes p).tasks.removeAt index }).setTask t
            { k.task t with process := none })

/-- `process_contains_task`. -/
def processContainsTask (k : Kernel) (p : ProcessRef) (t : TaskRef) : Bool :=
  ((k.processes p).tasks.indexOf t).isSome && decide ((k.task t).process = some p)

/-- `process_state_transition_valid`. -/
def ProcessState.allows : ProcessState → ProcessState → Bool
  | .new, .active => true
  | .active, .terminated => true
  | _, _ => false

/-- `process_transition`. -/
def processTransition (k : Kernel) (p : ProcessRef) (target : ProcessState) : Call :=
  if (k.processes p).state.allows target = false then (-2, k)
  else if (target = .active ∨ target = .terminated) ∧ processRegistryContains k p = false then
  (-3, k)
  else (0, k.setProcess p { k.processes p with state := target })

/-- What a failed `process_create` makes of the identity of the object. -/
def Kernel.anonymize (k : Kernel) (p : ProcessRef) : Kernel :=
  k.setProcess p { k.processes p with id := 0, state := .new, addressSpace := 0 }

/-- `process_create`. -/
def processCreate (k : Kernel) (p : ProcessRef) (pid addressSpace : Word) : Call :=
  if processRegistryContains k p then (-9, k)
  else if pid = 0 ∨ processMaxProcesses < pid.toNat then (-2, k)
  else if addressSpace = 0 then (-3, k)
  else
    match vmmGetAddressSpaceState k.vmm addressSpace with
    | none => (-4, k)
    | some state =>
        if state ≠ .created ∧ state ≠ .active then (-5, k)
        else if (processRegistryFindByAddressSpace k addressSpace).isSome then (-6, k)
        else
          Call.andThen
            (processRegistryRegister
              (k.setProcess p { id := pid, state := .new, addressSpace := addressSpace }) p)
            (fun k => (-7, k.anonymize p)) fun k =>
          Call.andThen (processTransition k p .active)
            (fun k => (-8, (processRegistryUnregister k p).2.anonymize p)) fun k =>
          (0, k)

/-- `process_terminate`. -/
def processTerminate (k : Kernel) (p : ProcessRef) : Call :=
  if processRegistryContains k p = false then (-2, k) else processTransition k p .terminated

/-- `process_destroy`. -/
def processDestroy (k : Kernel) (p : ProcessRef) : Call :=
  if processRegistryContains k p = false then (-2, k)
  else if (k.processes p).state ≠ .terminated then (-3, k)
  else if (k.processes p).tasks.count ≠ 0 then (-4, k)
  else
    Call.andThen (processRegistryUnregister k p) (Kernel.fail (-5)) fun k =>
    (0, k.setProcess p {})

/-! ## The registry of tasks -/

/-- `task_registry_init`. -/
def taskRegistryInit (k : Kernel) : Kernel := { k with taskRegistry := { initialized := true } }

/-- `task_registry_find`. -/
def taskRegistryFind (k : Kernel) (id : Word) : Option TaskRef :=
  if k.taskRegistry.initialized then k.taskRegistry.find id.toNat else none

/-- `task_registry_contains`. -/
def taskRegistryContains (k : Kernel) (t : TaskRef) : Bool :=
  k.taskRegistry.initialized && decide (k.taskRegistry.find (k.task t).id.toNat = some t)

/-- `task_registry_register`. -/
def taskRegistryRegister (k : Kernel) (t : TaskRef) : Call :=
  if k.taskRegistry.initialized = false then (-1, k)
  else
    match IdTable.slotOf taskMaxTasks (k.task t).id.toNat with
    | none => (-1, k)
    | some index =>
        if (k.task t).state = .terminated then (-1, k)
        else if (k.taskRegistry.slots index).isSome then (-1, k)
        else if taskMaxTasks ≤ k.taskRegistry.count then (-1, k)
        else (0, { k with taskRegistry := k.taskRegistry.insert index t })

/-- `task_registry_unregister`. -/
def taskRegistryUnregister (k : Kernel) (t : TaskRef) : Call :=
  if k.taskRegistry.initialized = false then (-1, k)
  else
    match IdTable.slotOf taskMaxTasks (k.task t).id.toNat with
    | none => (-1, k)
    | some index =>
        if k.taskRegistry.slots index ≠ some t then (-1, k)
        else if k.taskRegistry.count = 0 then (-1, k)
        else (0, { k with taskRegistry := k.taskRegistry.erase index })

/-! ## Construction and destruction of tasks -/

/-- `task_create` on a task object. -/
def Kernel.taskCreate (layout : KernelLayout) (k : Kernel) (t : TaskRef)
    (id addressSpace entry argument : Word) : Call :=
  match Batos.taskCreate layout.toTaskLayout (layout.taskAddress t) k.vmm (k.task t) id addressSpace
    entry argument with
  | (code, task, vmm) => (code, { k with vmm := vmm, sched := k.sched.setTask t task })

/-- `task_validate_reclaim`; `false` stands for -1. -/
def taskValidateReclaim (k : Kernel) (t : TaskRef) : Bool :=
  decide (k.sched.current ≠ some t) && decide ((k.task t).resumeAuthority ≠ .interrupt) &&
    (decide ((k.task t).state = .ready) || decide ((k.task t).state = .terminated)) &&
    (k.task t).waitQueue.isNone &&
    (decide ((k.task t).kernelStackBase = 0) ||
      stackPages.all fun page =>
        vmmTranslate k.vmm.paging (k.task t).addressSpace
          (stackPage (k.task t).kernelStackBase page) == some ((k.task t).kernelStackPages page))

/-- What `task_destroy` leaves of a task object. -/
def Task.reclaimed (task : Task) : Task :=
  { task with
    kernelStackBase := 0
    kernelStackTop := 0
    kernelStackPages := fun _ => 0
    state := .terminated
    entry := 0
    argument := 0
    waitQueue := none
    process := none
    preemptState := {}
    resumeAuthority := .none }

/-- `task_destroy`. -/
def taskDestroy (k : Kernel) (t : TaskRef) : Call :=
  if taskValidateReclaim k t = false then (-1, k)
  else if (k.task t).process.isSome then (-1, k)
  else if k.sched.runqueue.contains t then (-1, k)
  else if taskRegistryContains k t then (-1, k)
  else
    Call.andThen
      (if (k.task t).kernelStackBase = 0 then (0, k)
        else
          match taskUnmapStack k.vmm.paging (k.task t) with
          | (code, task, paging) =>
              (code, { k with
                vmm := { k.vmm with paging := paging }, sched := k.sched.setTask t task }))
      (Kernel.fail (-1)) fun k =>
    (0, k.setTask t (k.task t).reclaimed)

/-! ## Execution units -/

/-- `execution_rollback_task_internal`. -/
def executionRollbackTaskInternal (k : Kernel) (p : ProcessRef) (t : TaskRef)
    (taskRegistered taskAttached : Bool) : Call :=
  Call.andThen (if taskAttached then processDetachTask k p t else (0, k)) (Kernel.fail (-1))
    fun k =>
  Call.andThen (if taskRegistered then taskRegistryUnregister k t else (0, k)) (Kernel.fail (-1))
    fun k =>
  Call.andThen (taskDestroy k t) (Kernel.fail (-1)) fun k => (0, k)

/-- `execution_rollback_kernel_task_internal`. -/
def executionRollbackKernelTaskInternal (k : Kernel) (p : ProcessRef) (t : TaskRef)
    (taskRegistered taskAttached : Bool) : Call :=
  Call.andThen (executionRollbackTaskInternal k p t taskRegistered taskAttached) (Kernel.fail (-1))
    fun k =>
  Call.andThen (processTerminate k p) (Kernel.fail (-1)) fun k =>
  Call.andThen (processDestroy k p) (Kernel.fail (-1)) fun k => (0, k)

/-- `execution_preflight_destroy_task`. -/
def executionPreflightDestroyTask (k : Kernel) (p : ProcessRef) (t : TaskRef) : Bool :=
  decide ((k.task t).state = .ready) && decide ((k.task t).process = some p) &&
    taskRegistryContains k t && processRegistryContains k p && k.sched.runqueue.contains t &&
    taskValidateReclaim k t

/-- `execution_preflight_destroy_kernel_task`. -/
def executionPreflightDestroyKernelTask (k : Kernel) (p : ProcessRef) (t : TaskRef) : Bool :=
  executionPreflightDestroyTask k p t && decide ((k.processes p).state = .active) &&
    decide ((k.processes p).tasks.count = 1)

/-- `execution_destroy_task`. -/
def executionDestroyTask (k : Kernel) (p : ProcessRef) (t : TaskRef) : Call :=
  if executionPreflightDestroyTask k p t = false then (-1, k)
  else
    Call.andThen (k.schedule (runqueueRemove · t)) (Kernel.fail (-2)) fun k =>
    Call.andThen (processDetachTask k p t) (Kernel.fail (-3)) fun k =>
    Call.andThen (taskRegistryUnregister k t) (Kernel.fail (-4)) fun k =>
    Call.andThen (taskDestroy k t) (Kernel.fail (-5)) fun k => (0, k)

/-- `execution_destroy_kernel_task`. -/
def executionDestroyKernelTask (k : Kernel) (p : ProcessRef) (t : TaskRef) : Call :=
  if executionPreflightDestroyKernelTask k p t = false then (-1, k)
  else
    Call.andThen (executionDestroyTask k p t) (Kernel.fail (-2)) fun k =>
    Call.andThen (processTerminate k p) (Kernel.fail (-3)) fun k =>
    Call.andThen (processDestroy k p) (Kernel.fail (-4)) fun k => (0, k)

/-- The result of a rollback: a code of its own when the rollback itself has failed. -/
def Call.rolledBack (call : Call) (broken failed : ℤ) : Call :=
  call.andThen (Kernel.fail broken) (Kernel.fail failed)

/-- From this point on the end of the task is the business of the reaper. -/
def Kernel.manage (k : Kernel) (t : TaskRef) : Kernel :=
  k.setTask t { k.task t with lifecycleMode := .managed }

/-- `execution_create_kernel_task`. -/
def executionCreateKernelTask (layout : KernelLayout) (k : Kernel) (p : ProcessRef) (t : TaskRef)
    (pid tid addressSpace entry argument : Word) : Call :=
  if pid = 0 ∨ tid = 0 ∨ addressSpace = 0 ∨ entry = 0 then (-1, k)
  else if addressSpace ≠ vmmGetPml4 k.vmm then (-2, k)
  else
    Call.andThen (processCreate k p pid addressSpace) (Kernel.fail (-4)) fun k =>
    Call.andThen (k.taskCreate layout t tid addressSpace entry argument)
      (fun k => Call.andThen (processTerminate k p) (Kernel.fail (-5)) fun k =>
        (processDestroy k p).rolledBack (-5) (-6)) fun k =>
    Call.andThen (taskRegistryRegister k t)
      (fun k => (executionRollbackKernelTaskInternal k p t false false).rolledBack (-5) (-7))
      fun k =>
    Call.andThen (processAttachTask k p t)
      (fun k => (executionRollbackKernelTaskInternal k p t true false).rolledBack (-5) (-8))
      fun k =>
    Call.andThen (k.schedule (schedulerAdd · t))
      (fun k => (executionRollbackKernelTaskInternal k p t true true).rolledBack (-5) (-9)) fun k =>
    (0, k.manage t)

/-- `execution_create_task`. -/
def executionCreateTask (layout : KernelLayout) (k : Kernel) (p : ProcessRef) (t : TaskRef)
    (tid addressSpace entry argument : Word) : Call :=
  if tid = 0 ∨ addressSpace = 0 ∨ entry = 0 then (-1, k)
  else if processRegistryContains k p = false ∨ (k.processes p).state ≠ .active then (-2, k)
  else if addressSpace ≠ (k.processes p).addressSpace then (-3, k)
  else if addressSpace ≠ vmmGetPml4 k.vmm then (-4, k)
  else
    Call.andThen (k.taskCreate layout t tid addressSpace entry argument) (Kernel.fail (-5)) fun k =>
    Call.andThen (taskRegistryRegister k t)
      (fun k => (executionRollbackTaskInternal k p t false false).rolledBack (-6) (-7)) fun k =>
    Call.andThen (processAttachTask k p t)
      (fun k => (executionRollbackTaskInternal k p t true false).rolledBack (-6) (-8)) fun k =>
    Call.andThen (k.schedule (schedulerAdd · t))
      (fun k => (executionRollbackTaskInternal k p t true true).rolledBack (-6) (-9)) fun k =>
    (0, k.manage t)

/-! ## Reclamation -/

/-- `lifecycle_init`. -/
def lifecycleInit (k : Kernel) : Kernel := { k with lifecycle := { initialized := true } }

/-- `lifecycle_publish_terminated_task`. -/
def lifecyclePublishTerminatedTask (k : Kernel) (t : TaskRef) : Call :=
  if k.lifecycle.initialized = false then (-1, k)
  else if (k.task t).state ≠ .terminated then (-2, k)
  else if (k.task t).lifecycleMode ≠ .managed then (-3, k)
  else if taskMaxTasks ≤ k.lifecycle.ring.count then (-4, k)
  else if k.lifecycle.contains t then (-5, k)
  else if taskRegistryContains k t = false then (-6, k)
  else (0, { k with lifecycle := k.lifecycle.push t })

/-- The part of `lifecycle_reap_one` that runs with interrupts off. -/
def reclaimHead (k : Kernel) : Call :=
  match k.lifecycle.ring.slots k.lifecycle.ring.head with
  | none => (-2, k)
  | some t =>
      if (k.task t).state ≠ .terminated then (-3, k)
      else if k.sched.current = some t then (-4, k)
      else if (k.task t).resumeAuthority ≠ .none then (-5, k)
      else if (k.task t).waitQueue.isSome then (-6, k)
      else if k.sched.runqueue.contains t then (-7, k)
      else if taskRegistryContains k t = false then (-8, k)
      else if (k.task t).process.any fun p => !processContainsTask k p t then (-9, k)
      else
        Call.andThen
          (match (k.task t).process with
            | some p => processDetachTask k p t
            | none => (0, k))
          (Kernel.fail (-10)) fun k =>
        Call.andThen (taskRegistryUnregister k t) (Kernel.fail (-11)) fun k =>
        Call.andThen (taskDestroy k t) (Kernel.fail (-12)) fun k =>
        (0, { k with lifecycle := k.lifecycle.pop.2 })

/-- Run a call with interrupts off, and restore the flag. -/
def Kernel.masked (k : Kernel) (call : Kernel → Call) : Call :=
  let irqFlags := k.sched.interruptFlag
  let result := call { k with sched := k.sched.irqSave }
  (result.1, { result.2 with sched := result.2.sched.irqRestore irqFlags })

/-- `lifecycle_reap_one`. -/
def lifecycleReapOne (k : Kernel) : Call :=
  if k.lifecycle.initialized = false then (-1, k)
  else if k.lifecycle.ring.count = 0 then (1, k)
  else k.masked reclaimHead

/-- The handoff at the end of `task_bootstrap_entry`: the exit handler is
`scheduler_exit_current`, and if it returns the CPU is halted. -/
def Kernel.leaveCpu (k : Kernel) (t : TaskRef) (registers : Context) : Control × Kernel :=
  match schedulerExitCurrent k.sched t registers with
  | (.resumes continuation, s) => (.resumes continuation, { k with sched := s })
  | (_, s) => (.halts, { k with sched := s.irqSave })

/-- The end of `task_bootstrap_entry`, after the entry function has returned.  A managed
task is handed to the reaper before it leaves the CPU. -/
def Kernel.taskBootstrapExit (k : Kernel) (t : TaskRef) (registers : Context) : Control × Kernel :=
  match taskExit k.sched.irqSave t with
  | none => (.halts, { k with sched := k.sched.irqSave })
  | some s =>
      let k := { k with sched := s }
      if (k.task t).lifecycleMode = .managed then
        match lifecyclePublishTerminatedTask k t with
        | (code, k) => if code ≠ 0 then (.halts, k) else k.leaveCpu t registers
      else k.leaveCpu t registers

end Batos
