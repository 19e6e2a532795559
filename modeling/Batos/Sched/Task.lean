import Batos.Vmm.AddressSpace

/-!
# Tasks

`struct task`, its life cycle, and the construction of a task with its kernel stack
(`task.c`, `preempt.c`).  Every task id from 1 to 256 has a slot of five pages in a
window the linker script reserves: one guard page and the four pages of the stack.
`task_create` allocates a frame for each of the four, maps it in the kernel's address
space, and stages the first continuation of the task on the new stack.

Pointers to tasks, processes and wait queues are abstract references; a task's own
address appears only as a word on its stack.
-/

namespace Batos

/-- `enum task_state`. -/
inductive TaskState
  | new
  | ready
  | running
  | blocked
  | sleeping
  | terminated
  deriving DecidableEq, Repr

/-- `enum task_resume_authority`. -/
inductive ResumeAuthority
  | none
  | context
  | interrupt
  deriving DecidableEq, Repr

/-- `enum task_lifecycle_mode`. -/
inductive LifecycleMode
  | unmanaged
  | managed
  deriving DecidableEq, Repr

/-- `struct x86_64_preempt_state`. -/
structure PreemptState where
  frameAddress : Word := 0
  valid : Bool := false
  deriving DecidableEq, Repr

/-- `struct x86_64_context`. -/
structure Context where
  rbx : Word := 0
  rbp : Word := 0
  r12 : Word := 0
  r13 : Word := 0
  r14 : Word := 0
  r15 : Word := 0
  rsp : Word := 0
  rip : Word := 0
  deriving DecidableEq, Repr

/-- A reference to a task object. -/
abbrev TaskRef := ℕ

/-- A reference to a wait queue. -/
abbrev WaitQueueRef := ℕ

/-- A reference to a process object. -/
abbrev ProcessRef := ℕ

/-- `struct task`. -/
structure Task where
  id : Word := 0
  state : TaskState := .new
  kernelStackBase : Word := 0
  kernelStackTop : Word := 0
  kernelStackPages : Fin 4 → Word := fun _ => 0
  addressSpace : Word := 0
  process : Option ProcessRef := none
  entry : Word := 0
  argument : Word := 0
  waitQueue : Option WaitQueueRef := none
  resumeAuthority : ResumeAuthority := .none
  lifecycleMode : LifecycleMode := .unmanaged
  preemptState : PreemptState := {}
  context : Context := {}
  deriving DecidableEq

/-! ## The life cycle -/

/-- The transitions `task_transition` accepts. -/
def TaskState.allows : TaskState → TaskState → Bool
  | .new, .ready => true
  | .ready, .running => true
  | .running, .ready => true
  | .running, .blocked => true
  | .running, .sleeping => true
  | .running, .terminated => true
  | .blocked, .ready => true
  | .sleeping, .ready => true
  | _, _ => false

/-- `task_transition`; `none` stands for -1, which leaves the task as it is. -/
def taskTransition (task : Task) (newState : TaskState) : Option Task :=
  if task.state.allows newState then some { task with state := newState } else none

theorem taskTransition_of_allows {task : Task} {newState : TaskState}
    (h : task.state.allows newState = true) :
    taskTransition task newState = some { task with state := newState } :=
  if_pos h

/-! ## Stack slots -/

/-- What the linker script fixes: the window of the task stacks, 5 MiB in the last
2 GiB of the address space, and the address of `x86_64_task_bootstrap_trampoline`. -/
structure TaskLayout where
  stackStart : Word
  trampoline : Word
  aligned : stackStart.toNat % 4096 = 0
  high : 2 ^ 64 - 2 ^ 31 ≤ stackStart.toNat
  fits : stackStart.toNat + 0x500000 < 2 ^ 64

/-- `TASK_MAX_TASKS`. -/
abbrev taskMaxTasks : ℕ := 256

instance neZero_taskMaxTasks : NeZero taskMaxTasks := ⟨by decide⟩

/-- `task_stack_virtual_for`; 0 is the error value. -/
def taskStackVirtualFor (layout : TaskLayout) (id : Word) : Word :=
  if id = 0 ∨ taskMaxTasks < id.toNat then 0
  else
    let offset := (id - 1) * 0x5000
    let base := layout.stackStart + 0x1000 + offset
    let stackEnd := base + 0x4000
    if base < layout.stackStart ∨ stackEnd < base ∨ layout.stackStart + 0x500000 < stackEnd then 0
    else base

/-- The virtual address of a page of a stack. -/
def stackPage (virtualBase : Word) (page : Fin 4) : Word :=
  virtualBase + BitVec.ofNat 64 page.val * 0x1000

instance neZero_stackPages : NeZero 4 := ⟨by decide⟩

/-- The pages of a stack in loop order. -/
abbrev stackPages : List (Fin 4) := List.finRange 4

/-- The loop of `task_map_stack`.  `false` stands for the jump to `rollback`; the
frames are those recorded in the task. -/
def mapStackPages (space virtualBase : Word) :
    List (Fin 4) → Paging → (Fin 4 → Word) → Bool × Paging × (Fin 4 → Word)
  | [], s, frames => (true, s, frames)
  | page :: pages, s, frames =>
      let (frame, pmm) := pmmAllocFrame s.pmm
      let s := { s with pmm := pmm }
      if frame = 0 then (false, s, Function.update frames page 0)
      else
        match vmmMapPage s space (stackPage virtualBase page) frame vmmWritable with
        | (code, s) =>
            if code ≠ 0 then
              (false, { s with pmm := pmmFreeFrame s.pmm frame }, Function.update frames page 0)
            else
              mapStackPages space virtualBase pages s (Function.update frames page frame)

/-- One turn of the rollback of `task_map_stack`: whatever is mapped at the page is
unmapped and its frame freed. -/
def rollbackStackPage (space virtualBase : Word) (s : Paging) (page : Fin 4) : Paging :=
  match vmmUnmapPage s space (stackPage virtualBase page) with
  | (some physical, s) => { s with pmm := pmmFreeFrame s.pmm physical }
  | (none, s) => s

/-- The rollback loop of `task_map_stack`. -/
def rollbackStackPages (space virtualBase : Word) (s : Paging) : Paging :=
  stackPages.foldl (rollbackStackPage space virtualBase) s

/-- `task_map_stack`. -/
def taskMapStack (layout : TaskLayout) (v : Vmm) (task : Task) : ℤ × Task × Vmm :=
  let virtualBase := taskStackVirtualFor layout task.id
  if virtualBase = 0 then (-1, task, v)
  else if task.addressSpace ≠ vmmGetPml4 v then (-1, task, v)
  else
    match mapStackPages task.addressSpace virtualBase stackPages v.paging task.kernelStackPages with
    | (true, s, frames) =>
        (0, { task with
            kernelStackPages := frames
            kernelStackBase := virtualBase
            kernelStackTop := virtualBase + 0x4000 },
          { v with paging := s })
    | (false, s, _) =>
        (-1, { task with kernelStackPages := fun _ => 0 },
          { v with paging := rollbackStackPages task.addressSpace virtualBase s })

/-- The destructive loop of `task_unmap_stack`; `false` stands for an early return. -/
def unmapStackPages (space virtualBase : Word) :
    List (Fin 4) → Paging → (Fin 4 → Word) → Bool × Paging × (Fin 4 → Word)
  | [], s, frames => (true, s, frames)
  | page :: pages, s, frames =>
      match vmmUnmapPage s space (stackPage virtualBase page) with
      | (none, s) => (false, s, frames)
      | (some physical, s) =>
          if physical ≠ frames page then (false, s, frames)
          else
            unmapStackPages space virtualBase pages { s with pmm := pmmFreeFrame s.pmm physical }
              (Function.update frames page 0)

/-- `task_unmap_stack`. -/
def taskUnmapStack (s : Paging) (task : Task) : ℤ × Task × Paging :=
  if task.kernelStackBase = 0 then (-1, task, s)
  -- the preflight: every page is mapped to the frame the task owns
  else if stackPages.all fun page =>
      vmmTranslate s task.addressSpace (stackPage task.kernelStackBase page) ==
        some (task.kernelStackPages page) then
    match unmapStackPages task.addressSpace task.kernelStackBase stackPages s
      task.kernelStackPages with
    | (complete, s, frames) =>
        (if complete then 0 else -1, { task with kernelStackPages := frames }, s)
  else (-1, task, s)

/-! ## Construction -/

/-- Store a word on the last page of a stack, through the frame mapped there. -/
def storeOnStack (task : Task) (s : Paging) (address value : Word) : Paging :=
  s.write (task.kernelStackPages 3) (pageIndex 3 address) value

/-- The words of the synthetic `struct irq_frame`: fifteen registers, the vector, `rip`,
`cs` and `rflags`. -/
def firstRunFrame (layout : TaskLayout) : List Word :=
  List.replicate 15 0 ++ [0, layout.trampoline, 0x08, 0x202]

/-- `x86_64_preempt_prepare_first_run`; `none` stands for -1. -/
def preemptPrepareFirstRun (layout : TaskLayout) (s : Paging) (task : Task) :
    Option (PreemptState × Paging) :=
  if task.kernelStackTop = 0 ∨ task.kernelStackBase = 0 then none
  else
    let frameAddress := task.kernelStackTop - 24 - 152
    if frameAddress < task.kernelStackBase then none
    else if frameAddress &&& 0xF ≠ 0 then none
    else
      some (⟨frameAddress, true⟩,
        (firstRunFrame layout).zipIdx.foldl
          (fun s word => storeOnStack task s (frameAddress + 8 * BitVec.ofNat 64 word.2) word.1) s)

/-- The checks at the head of `task_create`. -/
def taskCreateAccepts (id addressSpace entry : Word) : Bool :=
  id ≠ 0 && id.toNat ≤ taskMaxTasks && addressSpace ≠ 0 && entry ≠ 0

/-- The part of `task_create` after the stack is mapped: stage the two
representations of the first continuation and make the task READY. -/
def stageFirstRun (layout : TaskLayout) (taskAddress : Word) (task : Task) (v : Vmm) :
    ℤ × Task × Vmm :=
  let stackPointer := task.kernelStackTop - 24
  let s := storeOnStack task v.paging stackPointer 0
  let s := storeOnStack task s (stackPointer + 8) taskAddress
  let task :=
    { task with context := { task.context with rsp := stackPointer, rip := layout.trampoline } }
  match preemptPrepareFirstRun layout s task with
  | none =>
      let (_, task, s) := taskUnmapStack s task
      (-1, { task with
          kernelStackBase := 0
          kernelStackTop := 0
          kernelStackPages := fun _ => 0
          preemptState := {} },
        { v with paging := s })
  | some (preemptState, s) =>
      match taskTransition { task with preemptState := preemptState } .ready with
      | none => (-1, { task with preemptState := preemptState }, { v with paging := s })
      | some task => (0, task, { v with paging := s })

/-- `task_create` on a task object at `taskAddress`. -/
def taskCreate (layout : TaskLayout) (taskAddress : Word) (v : Vmm) (task : Task)
    (id addressSpace entry argument : Word) : ℤ × Task × Vmm :=
  if taskCreateAccepts id addressSpace entry = false then (-1, task, v)
  else
    match taskMapStack layout v
      { id := id, addressSpace := addressSpace, entry := entry, argument := argument,
        resumeAuthority := .context } with
    | (code, task, v) =>
        if code ≠ 0 then (-1, task, v) else stageFirstRun layout taskAddress task v

end Batos
