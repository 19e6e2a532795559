import Batos.Sched.Queue

/-!
# The scheduler

The operations that move tasks between the CPU, the runqueue and the wait queues:
`scheduler.c`, the task operations `task_block`, `task_wake` and `task_exit`
(`task.c`), and the architecture layer that chooses the continuation of the next task
(`dispatch.c`, `preempt.c`, the timer stub in `interrupts.asm`).

A call that hands the CPU over does not return in the ordinary sense: the CPU goes on
with another task's continuation.  `Control` tells the three endings apart.  The
registers of the caller, which the context switch saves in its task object, are a
parameter of such a call.  Return codes are those of the source, and a branch that the
source only keeps against corrupted state is kept here as well.
-/

namespace Batos

/-! ## Continuations -/

/-- What the CPU goes on with: a saved cooperative context or an interrupt frame. -/
inductive Continuation
  | context (registers : Context)
  | interrupt (frame : Word)
  deriving DecidableEq

/-- How a call that may hand the CPU over ends: it returns, the CPU goes on with a
continuation, or the CPU is halted for good (`cli; hlt` in a loop). -/
inductive Control
  | returns (code : ℤ)
  | resumes (continuation : Continuation)
  | halts
  deriving DecidableEq

/-- `struct x86_64_resume_target`: a pointer to the context of a task, or a frame. -/
inductive ResumeTarget
  | context (task : TaskRef)
  | interrupt (frame : Word)
  deriving DecidableEq

/-- `x86_64_preempt_state_is_valid`. -/
def preemptStateIsValid (state : PreemptState) : Bool :=
  state.valid && decide (state.frameAddress ≠ 0)

/-- `x86_64_scheduler_resolve_target`; `none` stands for -2. -/
def schedulerResolveTarget (s : Sched) (t : TaskRef) : Option ResumeTarget :=
  if (s.tasks t).resumeAuthority = .context then some (.context t)
  else if (s.tasks t).resumeAuthority = .interrupt ∧
      preemptStateIsValid (s.tasks t).preemptState = true then
    some (.interrupt (s.tasks t).preemptState.frameAddress)
  else none

/-- The register saves of the context switch primitives. -/
def Sched.saveContext (s : Sched) (t : TaskRef) (registers : Context) : Sched :=
  s.setTask t { s.tasks t with context := registers }

/-- `x86_64_scheduler_dispatch`.  A cooperative context is entered with interrupts
enabled by the switch itself; an interrupt frame carries its own flags, and it was
pushed by an interrupt, hence with interrupts enabled. -/
def schedulerDispatch (s : Sched) (current : TaskRef) (target : ResumeTarget)
    (registers : Context) :
    Control × Sched :=
  match target with
  | .context next =>
      let s := s.saveContext current registers
      (.resumes (.context (s.tasks next).context), s.irqRestore true)
  | .interrupt frame =>
      if frame = 0 then (.returns (-3), s)
      else (.resumes (.interrupt frame), (s.saveContext current registers).irqRestore true)

/-! ## Moving the CPU -/

/-- `scheduler_init`. -/
def schedulerInit (s : Sched) : Sched :=
  { s with current := none, dispatchCount := 0, runqueue := { initialized := true } }

/-- `scheduler_peek_next`. -/
def schedulerPeekNext (s : Sched) : Option TaskRef := s.runqueue.peek

/-- `scheduler_take_next`. -/
def schedulerTakeNext (s : Sched) : Option TaskRef × Sched := runqueueDequeue s

/-- `scheduler_add`. -/
def schedulerAdd (s : Sched) (t : TaskRef) : ℤ × Sched :=
  if (s.tasks t).state ≠ .ready then (-2, s) else runqueueEnqueue s t

/-- `scheduler_start`. -/
def schedulerStart (s : Sched) : ℤ × Sched :=
  if s.current.isSome then (-1, s)
  else
    match schedulerPeekNext s with
    | none => (-2, s)
    | some next =>
        if (s.tasks next).state ≠ .ready then (-3, s)
        else
          match schedulerTakeNext s with
          | (none, s) => (-4, s)
          | (some next, s) =>
              match s.transition next .running with
              | none => (-5, (runqueueEnqueue s next).2)
              | some s => (0, { s with current := some next })

/-- The new owner of the CPU. -/
def Sched.giveCpu (s : Sched) (next : TaskRef) : Sched :=
  { s with current := some next, dispatchCount := s.dispatchCount + 1 }

/-- Undo a half-finished transfer: `current` leaves the runqueue and runs again. -/
def Sched.takeBack (s : Sched) (current : TaskRef) : Sched :=
  let s := (runqueueRemove s current).2
  (s.transition current .running).getD s

/-- A handoff that cannot fail any more: if the architecture layer rejects the target,
the CPU is halted. -/
def dispatchOrHalt (s : Sched) (current : TaskRef) (target : ResumeTarget) (registers : Context) :
    Control × Sched :=
  match schedulerDispatch s current target registers with
  | (.resumes continuation, s) => (.resumes continuation, s)
  | (_, s) => (.halts, s.irqSave)

/-- `scheduler_yield`. -/
def schedulerYield (s : Sched) (registers : Context) : Control × Sched :=
  match s.current with
  | none => (.returns (-1), s)
  | some current =>
      if (s.tasks current).state ≠ .running then (.returns (-2), s)
      else
        let irqFlags := s.interruptFlag
        let s := s.irqSave
        match schedulerPeekNext s with
        | none => (.returns (-3), s.irqRestore irqFlags)
        | some next =>
            if (s.tasks next).state ≠ .ready then (.returns (-4), s.irqRestore irqFlags)
            else
              match schedulerResolveTarget s next with
              | none => (.returns (-5), s.irqRestore irqFlags)
              | some target =>
                  match s.transition current .ready with
                  | none => (.returns (-6), s.irqRestore irqFlags)
                  | some s =>
                      match runqueueEnqueue s current with
                      | (code, s) =>
                          if code ≠ 0 then
                            (.returns (-6),
                              ((s.transition current .running).getD s).irqRestore irqFlags)
                          else
                            match schedulerTakeNext s with
                            | (none, s) => (.returns (-7), (s.takeBack current).irqRestore irqFlags)
                            | (some next, s) =>
                                if (s.tasks next).state ≠ .ready then
                                  (.returns (-8),
                                    ((runqueueEnqueue s next).2.takeBack current).irqRestore
                                    irqFlags)
                                else
                                  match s.transition next .running with
                                  | none =>
                                      (.returns (-9),
                                        ((runqueueEnqueue s next).2.takeBack current).irqRestore
                                          irqFlags)
                                  | some s =>
                                      let s := s.giveCpu next
                                      -- older interrupt frames of `current` are void from here on
                                      let s := s.setTask current
                                        { s.tasks current with resumeAuthority := .context }
                                      dispatchOrHalt s current target registers

/-- The common end of `scheduler_block_current` and `scheduler_exit_current`, once the
next task has been peeked at: `current` has already left the CPU for good.  The two
number their failures from different codes on. -/
def handOver (s : Sched) (current next : TaskRef) (code : ℤ) (registers : Context) :
    Control × Sched :=
  if (s.tasks next).state ≠ .ready then (.returns code, s)
  else
    match schedulerResolveTarget s next with
    | none => (.returns (code - 1), s)
    | some target =>
        match schedulerTakeNext s with
        | (none, s) => (.returns (code - 2), s)
        | (some next, s) =>
            match s.transition next .running with
            | none => (.returns (code - 3), (runqueueEnqueue s next).2)
            | some s => dispatchOrHalt (s.giveCpu next) current target registers

/-- `scheduler_block_current`. -/
def schedulerBlockCurrent (s : Sched) (t : TaskRef) (registers : Context) : Control × Sched :=
  if s.current ≠ some t then (.returns (-1), s)
  else if (s.tasks t).state ≠ .blocked then (.returns (-2), s)
  else if s.interruptFlag then (.returns (-3), s)
  else
    match schedulerPeekNext s with
    | none => (.returns (-4), s)
    | some next => handOver s t next (-5) registers

/-- `scheduler_exit_current`.  A task that ends while nothing is runnable has no
successor, and the CPU is halted. -/
def schedulerExitCurrent (s : Sched) (t : TaskRef) (registers : Context) : Control × Sched :=
  if s.current ≠ some t then (.returns (-1), s)
  else if (s.tasks t).state ≠ .terminated then (.returns (-2), s)
  else if s.interruptFlag then (.returns (-3), s)
  else
    match schedulerPeekNext s with
    | none => (.halts, s.irqSave)
    | some next => handOver s t next (-4) registers

/-- `scheduler_preempt_current`, with the task it stores through `next`. -/
def schedulerPreemptCurrent (s : Sched) (expected : TaskRef) : ℤ × Option TaskRef × Sched :=
  match s.current with
  | none => (-2, none, s)
  | some current =>
      if (s.tasks current).state ≠ .running then (-3, none, s)
      else
        match schedulerPeekNext s with
        | none => (1, some current, s)
        | some selected =>
            if selected ≠ expected then (-4, none, s)
            else if (s.tasks selected).state ≠ .ready then (-5, none, s)
            else
              match s.transition current .ready with
              | none => (-6, none, s)
              | some s =>
                  match runqueueEnqueue s current with
                  | (code, s) =>
                      if code ≠ 0 then (-6, none, (s.transition current .running).getD s)
                      else
                        match schedulerTakeNext s with
                        | (none, s) => (-7, none, s.takeBack current)
                        | (some selected, s) =>
                            if selected ≠ expected then
                              (-8, none, (runqueueEnqueue s selected).2.takeBack current)
                            else
                              match s.transition selected .running with
                              | none => (-8, none, (runqueueEnqueue s selected).2.takeBack current)
                              | some s => (0, some selected, s.giveCpu selected)

/-! ## Blocking, waking, ending -/

/-- `task_block`. -/
def taskBlock (s : Sched) (t : TaskRef) (q : WaitQueueRef) (registers : Context) :
    Control × Sched :=
  if s.current ≠ some t then (.returns (-2), s)
  else if (s.tasks t).state ≠ .running then (.returns (-3), s)
  else if (s.tasks t).waitQueue.isSome then (.returns (-4), s)
  else if s.interruptFlag = false then (.returns (-5), s)
  else
    let irqFlags := s.interruptFlag
    let s := s.irqSave
    if (s.waitQueues q).initialized = false then (.returns (-6), s.irqRestore irqFlags)
    else if taskMaxTasks ≤ (s.waitQueues q).ring.count then (.returns (-7), s.irqRestore irqFlags)
    else if (s.waitQueues q).contains t then (.returns (-8), s.irqRestore irqFlags)
    else
      match schedulerPeekNext s with
      | none => (.returns (-9), s.irqRestore irqFlags)
      | some next =>
          if (s.tasks next).state ≠ .ready then (.returns (-10), s.irqRestore irqFlags)
          else
            match s.transition t .blocked with
            | none => (.returns (-11), s.irqRestore irqFlags)
            | some s =>
                match waitQueueEnqueue s q t with
                | (code, s) =>
                    if code ≠ 0 then (.returns (-12), s.irqRestore irqFlags)
                    else
                      let s := s.setTask t { s.tasks t with resumeAuthority := .context }
                      match schedulerBlockCurrent s t registers with
                      | (.returns _, s) => (.returns (-13), s.irqRestore irqFlags)
                      | ending => ending

/-- `task_wake`.  The first two checks are repeated with interrupts off. -/
def taskWake (s : Sched) (t : TaskRef) : ℤ × Sched :=
  if (s.tasks t).state ≠ .blocked then (-2, s)
  else if (s.tasks t).waitQueue = none then (-3, s)
  else
    let irqFlags := s.interruptFlag
    let s := s.irqSave
    if (s.tasks t).state ≠ .blocked then (-4, s.irqRestore irqFlags)
    else
      match (s.tasks t).waitQueue with
      | none => (-5, s.irqRestore irqFlags)
      | some q =>
          if (s.waitQueues q).contains t = false then (-6, s.irqRestore irqFlags)
          else if taskMaxTasks ≤ s.runqueue.count then (-7, s.irqRestore irqFlags)
          else if s.runqueue.contains t then (-8, s.irqRestore irqFlags)
          else
            match waitQueueRemove s q t with
            | (code, s) =>
                if code ≠ 0 then (-9, s.irqRestore irqFlags)
                else
                  match s.transition t .ready with
                  | none => (-10, s.irqRestore irqFlags)
                  | some s =>
                      match schedulerAdd s t with
                      | (code, s) => (if code ≠ 0 then -11 else 0, s.irqRestore irqFlags)

/-- `task_exit`; `none` stands for -1. -/
def taskExit (s : Sched) (t : TaskRef) : Option Sched :=
  if (s.tasks t).state ≠ .running then none
  else
    (s.transition t .terminated).map fun s =>
      s.setTask t { s.tasks t with resumeAuthority := .none }

/-- The end of `task_bootstrap_entry`, for a task that is not managed by the
lifecycle.  Whatever goes wrong here, the CPU is halted. -/
def taskBootstrapExit (s : Sched) (t : TaskRef) (registers : Context) : Control × Sched :=
  match taskExit s.irqSave t with
  | none => (.halts, s.irqSave)
  | some s =>
      match schedulerExitCurrent s t registers with
      | (.resumes continuation, s) => (.resumes continuation, s)
      | (_, s) => (.halts, s.irqSave)

/-! ## The timer -/

/-- The timer frame becomes the continuation of the interrupted task. -/
def Sched.bindFrame (s : Sched) (t : TaskRef) (frame : Word) : Sched :=
  s.setTask t
    { s.tasks t with preemptState := ⟨frame, true⟩, resumeAuthority := .interrupt }

/-- `x86_64_preempt_handle_timer`; `none` as a target stands for `X86_64_RESUME_NONE`. -/
def preemptHandleTimer (s : Sched) (frame : Word) : ℤ × Option ResumeTarget × Sched :=
  if frame = 0 then (-1, none, s)
  else if s.preemptEnabled = false then (0, some (.interrupt frame), s)
  else
    match s.current with
    | none => (0, some (.interrupt frame), s)
    | some current =>
        let s := s.bindFrame current frame
        match schedulerPeekNext s with
        | none => (0, some (.interrupt frame), s)
        | some candidate =>
            match schedulerResolveTarget s candidate with
            | none => (0, some (.interrupt frame), s)
            | some target =>
                match schedulerPreemptCurrent s candidate with
                | (result, next, s) =>
                    if result < 0 ∨ next = none then (0, some (.interrupt frame), s)
                    else if next = some current then (0, some (.interrupt frame), s)
                    else (0, some target, s)

/-- `lapic_timer_stub`: the handler's target is entered; the interrupted task goes on if
the handler fails. -/
def lapicTimerStub (s : Sched) (frame : Word) : Continuation × Sched :=
  match preemptHandleTimer s frame with
  | (code, target, s) =>
      if code < 0 then (.interrupt frame, s)
      else
        match target with
        | some (.context t) => (.context (s.tasks t).context, s.irqRestore true)
        | some (.interrupt frame) => (.interrupt frame, s)
        | none => (.interrupt frame, s)

end Batos
