import Batos.Process.Reclamation
import Batos.Sched.Run

/-!
# Runs of the kernel

Everything above memory as one transition system.  Processes are created, given tasks,
ended and removed; execution units are constructed and destroyed; the scheduler passes the
CPU on; tasks end and are reclaimed.  Memory is used by others in between: it may at any
time be in any state it can reach, as long as the window of the task stacks holds frames
of clients only.

A call is one step.  The one condition on arguments is that a constructor gets a task
object which is not attached, registered or queued at that time.

`Kernel.Inv` holds in every state of every run (`KernelMachine.inv_run`).
-/

namespace Batos

/-! ## Steps of the scheduler -/

/-- A step of the scheduler on its own. -/
structure Sched.Goes (s s' : Sched) : Prop where
  moves : s.Moves s'
  inv : ∃ ready waiting, s'.Inv s'.current ready waiting

namespace Sched.Inv

variable {s : Sched} {ready : List TaskRef} {waiting : WaitQueueRef → List TaskRef}

theorem goes_refl (h : s.Inv s.current ready waiting) : s.Goes s :=
  ⟨.of_tasks_eq rfl fun _ hu => hu, ready, waiting, h⟩

/-- The CPU passes from the running task to the first of the runqueue. -/
theorem goes_handoff (h : s.Inv s.current ready waiting) {c n : TaskRef}
    {rest ready' : List TaskRef} {waiting' : WaitQueueRef → List TaskRef} {left : Task}
    {k : Continuation} {s' : Sched}
    (hcurrent : s.current = some c) (hready : ready = n :: rest)
    (hhandoff : Handoff s c n left k s') (hidentity : left.identity = (s.tasks c).identity)
    (hinv : s'.Inv s'.current ready' waiting') (hready' : ∀ u ∈ ready', u ∈ rest ∨ u = c)
    (hwaiting' : ∀ q, ∀ u ∈ waiting' q, u ∈ waiting q ∨ u = c) : s.Goes s' := by
  refine ⟨.of_handoff hhandoff hidentity (fun hended => ?_) fun u hu => ?_, ready', waiting', hinv⟩
  · rw [(h.running c).mp hcurrent] at hended
    cases hended
  rw [h.active_iff, hready]
  rcases hinv.active_iff.mp hu with hnext | hmem | ⟨q, hmem⟩
  · rw [hhandoff.current, Option.some.injEq] at hnext
    exact .inr (.inl (hnext ▸ List.mem_cons_self))
  · rcases hready' u hmem with hrest | rfl
    · exact .inr (.inl (List.mem_cons_of_mem n hrest))
    · exact .inl hcurrent
  · rcases hwaiting' q u hmem with hold | rfl
    · exact .inr (.inr ⟨q, hold⟩)
    · exact .inl hcurrent

theorem goes_start (h : s.Inv s.current ready waiting) : s.Goes (schedulerStart s).2 := by
  rcases h.start with ⟨code, -, heq⟩ | ⟨n, rest, s', -, hready, heq, hnext, htasks, hinv⟩ <;>
    rw [heq]
  · exact h.goes_refl
  have hn : (s.tasks n).state = .ready := h.queued n (by rw [hready]; exact List.mem_cons_self)
  refine ⟨.of_update (by rw [hn]; exact nofun) htasks rfl fun u hu => ?_, rest, waiting, hinv⟩
  rw [h.active_iff, hready]
  rcases hinv.active_iff.mp hu with hcurrent | hmem | hwaiting
  · rw [hnext, Option.some.injEq] at hcurrent
    exact .inr (.inl (hcurrent ▸ List.mem_cons_self))
  · exact .inr (.inl (List.mem_cons_of_mem n hmem))
  · exact .inr (.inr hwaiting)

theorem goes_yield (h : s.Inv s.current ready waiting) (registers : Context) :
    s.Goes (schedulerYield s registers).2 ∧ (schedulerYield s registers).1 ≠ .halts := by
  rcases h.yield registers with ⟨code, -, heq⟩ | ⟨c, n, rest, k, s', hcurrent, hready, heq,
    hhandoff, hinv⟩ <;> rw [heq]
  · exact ⟨h.goes_refl, nofun⟩
  · refine ⟨h.goes_handoff hcurrent hready hhandoff rfl hinv (fun u hu => ?_)
      fun _ _ => .inl, nofun⟩
    simpa using hu

theorem goes_timer (h : s.Inv s.current ready waiting) (frame : Word) :
    s.Goes (lapicTimerStub s frame).2 := by
  rcases h.timer frame with ⟨s', heq, hnoted⟩ | ⟨c, n, rest, k, s', hcurrent, hready, -, heq,
    hhandoff, hinv⟩ <;> rw [heq]
  · have hinv := (h.noted hnoted).2
    rcases hnoted with rfl | ⟨c, hcurrent, -, rfl⟩
    · exact h.goes_refl
    · have hrunning := (h.running c).mp hcurrent
      exact ⟨.of_update (by rw [hrunning]; exact nofun) rfl rfl fun _ hu => hu,
        ready, waiting, hinv⟩
  · refine h.goes_handoff hcurrent hready hhandoff rfl hinv (fun u hu => ?_) fun _ _ => .inl
    simpa using hu

theorem goes_block (h : s.Inv s.current ready waiting) (t : TaskRef) (q : WaitQueueRef)
    (registers : Context) :
    s.Goes (taskBlock s t q registers).2 ∧ (taskBlock s t q registers).1 ≠ .halts := by
  rcases h.block t q registers with
    ⟨code, -, heq⟩ | ⟨n, rest, k, s', hcurrent, hready, heq, hhandoff, hinv⟩ <;> rw [heq]
  · exact ⟨h.goes_refl, nofun⟩
  · refine ⟨h.goes_handoff hcurrent hready hhandoff rfl hinv (fun _ => .inl)
      fun q' u hu => ?_, nofun⟩
    by_cases hq : q' = q
    · subst hq
      simpa using hu
    · rw [Function.update_of_ne hq] at hu
      exact .inl hu

theorem goes_wake (h : s.Inv s.current ready waiting) (t : TaskRef) : s.Goes (taskWake s t).2 := by
  rcases h.wake t with ⟨code, -, heq⟩ | ⟨q, s', hblocked, heq, hcurrent, htasks, hinv⟩ <;> rw [heq]
  · exact h.goes_refl
  refine ⟨.of_update (by rw [hblocked]; exact nofun) htasks rfl fun u hu => ?_, _, _, hinv⟩
  rw [h.active_iff]
  rcases hinv.active_iff.mp hu with hcurrent' | hmem | ⟨q', hmem⟩
  · exact .inl (hcurrent ▸ hcurrent')
  · rcases List.mem_append.mp hmem with hmem | hmem
    · exact .inr (.inl hmem)
    · -- the woken task was in the wait queue it names
      obtain ⟨q', hq'⟩ := Option.ne_none_iff_exists'.mp ((h.blocked_iff t).mp hblocked)
      rw [List.mem_singleton.mp hmem]
      exact .inr (.inr ⟨q', (h.waiting_iff q' t).mpr hq'⟩)
  · refine .inr (.inr ⟨q', ?_⟩)
    by_cases hq : q' = q
    · subst hq
      rw [Function.update_self] at hmem
      exact List.mem_of_mem_erase hmem
    · rw [Function.update_of_ne hq] at hmem
      exact hmem

theorem goes_initQueue (h : s.Inv s.current ready waiting) {q : WaitQueueRef}
    (hnew : (s.waitQueues q).initialized = false) : s.Goes (waitQueueInit s q) := by
  have hinv := h.initQueue hnew
  refine ⟨.of_tasks_eq rfl fun u hu => h.active_iff.mpr ?_, ready, waiting, hinv⟩
  exact hinv.active_iff.mp hu

end Sched.Inv

/-! ## The system -/

/-- The kernel, whether the CPU has been halted, the managed tasks that have ended and
those that have been reclaimed, in the order in which this happened. -/
structure KernelMachine where
  kernel : Kernel
  halted : Bool := false
  ended : List TaskRef := []
  reaped : List TaskRef := []

/-- What can happen. -/
inductive KernelOp
  /-- Others have used memory. -/
  | memory (v : Vmm)
  | processCreate (p : ProcessRef) (pid addressSpace : Word)
  | processAttachTask (p : ProcessRef) (t : TaskRef)
  | processDetachTask (p : ProcessRef) (t : TaskRef)
  | processTransition (p : ProcessRef) (target : ProcessState)
  | processTerminate (p : ProcessRef)
  | processDestroy (p : ProcessRef)
  | createKernelTask (p : ProcessRef) (t : TaskRef) (pid tid addressSpace entry argument : Word)
  | createTask (p : ProcessRef) (t : TaskRef) (tid addressSpace entry argument : Word)
  | destroyTask (p : ProcessRef) (t : TaskRef)
  | destroyKernelTask (p : ProcessRef) (t : TaskRef)
  /-- `lifecycle_reap_one`. -/
  | reap
  | start
  | yield (registers : Context)
  | timer (frame : Word)
  | preemption (enabled : Bool)
  | interrupts (enabled : Bool)
  | initQueue (q : WaitQueueRef)
  | block (t : TaskRef) (q : WaitQueueRef) (registers : Context)
  | wake (t : TaskRef)
  /-- The running task returns from its entry function. -/
  | exit (registers : Context)

namespace KernelMachine

/-- After a call that returns. -/
def setKernel (m : KernelMachine) (k : Kernel) : KernelMachine := { m with kernel := k }

/-- After a step of the scheduler. -/
def setSched (m : KernelMachine) (s : Sched) : KernelMachine :=
  m.setKernel { m.kernel with sched := s }

/-- After a call that may hand the CPU over or halt it. -/
def finish (m : KernelMachine) (ending : Control × Sched) : KernelMachine :=
  { m.setSched ending.2 with halted := decide (ending.1 = .halts) }

/-- The effect of an operation. -/
def step (layout : KernelLayout) (m : KernelMachine) : KernelOp → KernelMachine
  | .memory v => m.setKernel { m.kernel with vmm := v }
  | .processCreate p pid addressSpace => m.setKernel (processCreate m.kernel p pid addressSpace).2
  | .processAttachTask p t => m.setKernel (processAttachTask m.kernel p t).2
  | .processDetachTask p t => m.setKernel (processDetachTask m.kernel p t).2
  | .processTransition p target => m.setKernel (processTransition m.kernel p target).2
  | .processTerminate p => m.setKernel (processTerminate m.kernel p).2
  | .processDestroy p => m.setKernel (processDestroy m.kernel p).2
  | .createKernelTask p t pid tid addressSpace entry argument =>
      m.setKernel
        (executionCreateKernelTask layout m.kernel p t pid tid addressSpace entry argument).2
  | .createTask p t tid addressSpace entry argument =>
      m.setKernel (executionCreateTask layout m.kernel p t tid addressSpace entry argument).2
  | .destroyTask p t => m.setKernel (executionDestroyTask m.kernel p t).2
  | .destroyKernelTask p t => m.setKernel (executionDestroyKernelTask m.kernel p t).2
  | .reap =>
      match lifecycleReapOne m.kernel with
      | (code, k) =>
          { m.setKernel k with
            reaped := m.reaped ++ if code = 0 then m.kernel.lifecycle.peek.toList else [] }
  | .start => m.setSched (schedulerStart m.kernel.sched).2
  | .yield registers => m.finish (schedulerYield m.kernel.sched registers)
  | .timer frame => m.setSched (lapicTimerStub m.kernel.sched frame).2
  | .preemption enabled => m.setSched { m.kernel.sched with preemptEnabled := enabled }
  | .interrupts enabled => m.setSched { m.kernel.sched with interruptFlag := enabled }
  | .initQueue q => m.setSched (waitQueueInit m.kernel.sched q)
  | .block t q registers => m.finish (taskBlock m.kernel.sched t q registers)
  | .wake t => m.setSched (taskWake m.kernel.sched t).2
  | .exit registers =>
      match m.kernel.sched.current with
      | none => m
      | some c =>
          match m.kernel.taskBootstrapExit c registers with
          | (control, k) =>
              { m.setKernel k with
                halted := decide (control = .halts)
                ended := m.ended ++
                  if (k.task c).state = .terminated ∧ (k.task c).lifecycleMode = .managed then [c]
                  else [] }

/-- When an operation can happen: nothing happens on a halted CPU; memory moves between
states it can reach; a task object in use is not given to a constructor, nor a wait queue
in use to `wait_queue_init`; a timer interrupt needs the interrupt flag, and only a
running task can end. -/
def Enabled (platform : Platform) (m : KernelMachine) (op : KernelOp) : Prop :=
  m.halted = false ∧
    match op with
    | .memory v => platform.Backs v
    | .createKernelTask _ t _ _ _ _ _ => m.kernel.Idle t
    | .createTask _ t _ _ _ _ => m.kernel.Idle t
    | .timer _ => m.kernel.sched.interruptFlag = true
    | .initQueue q => (m.kernel.sched.waitQueues q).initialized = false
    | .exit _ => m.kernel.sched.current.isSome = true
    | _ => True

/-- After the initialisations at the head of `kernel_runtime_init`. -/
def boot (platform : Platform) : KernelMachine where
  kernel := lifecycleInit (taskRegistryInit (processRegistryInit
    { vmm := platform.boot.start.vmm, sched := schedulerInit {} }))

/-- Who has the CPU: nobody, once it is halted. -/
def owner (m : KernelMachine) : Option TaskRef := if m.halted then none else m.kernel.sched.current

end KernelMachine

/-- The kernel as a transition system. -/
def kernelSystem (platform : Platform) : TransitionSystem KernelMachine KernelOp where
  enabled := KernelMachine.Enabled platform
  step := KernelMachine.step platform.layout

/-! ## The invariant of runs -/

namespace KernelMachine

variable {platform : Platform} {m : KernelMachine}

/-- The kernel is consistent, and the CPU is with its owner. -/
def Inv (platform : Platform) (m : KernelMachine) : Prop := m.kernel.Inv platform m.owner

theorem membership_boot (platform : Platform) : (boot platform).kernel.Membership where
  initialized := rfl
  keyed := nofun
  counted := by
    show 0 = _
    rw [eq_comm, Finset.card_eq_zero]
    ext index
    simp [IdTable.occupied, boot, lifecycleInit, taskRegistryInit, processRegistryInit]
  lists := fun p => ⟨[], .empty, List.nodup_nil, Nat.zero_le _, fun t => ⟨nofun, nofun⟩⟩
  registered := nofun
  spaces := fun p p' ⟨_, hslot⟩ => by cases hslot

/-- At boot nobody owns anything. -/
theorem inv_boot (platform : Platform) : (boot platform).Inv platform where
  membership := membership_boot platform
  owned := .inl rfl
  sched := by
    refine ⟨rfl, TaskQueue.holds_empty true, fun _ => TaskQueue.holds_empty false,
      fun t => ⟨nofun, nofun⟩, nofun, nofun, fun q t => ⟨nofun, nofun⟩, fun t => ⟨nofun, ?_⟩⟩
    exact fun hne => absurd rfl hne
  initialized := rfl
  keyed := nofun
  counted := (membership_boot platform).counted
  lifecycle := rfl
  pending := TaskQueue.holds_empty true
  active := by
    rintro t (hcurrent | hready | ⟨q, hwaiting⟩)
    · cases hcurrent
    · cases hready
    · cases hwaiting
  managed := by
    rintro t (⟨index, hslot⟩ | hpending)
    · cases hslot
    · cases hpending
  ended := nofun
  stack := fun t ⟨_, hslot⟩ => by cases hslot
  memory := platform.backs_start

/-- A call that returns. -/
theorem Inv.of_sound {k : Kernel} {owner : Option TaskRef} (hrun : m.halted = false)
    (h : k.Sound platform owner) : (m.setKernel k).Inv platform := by
  show k.Inv platform (if m.halted then none else k.sched.current)
  rw [hrun, h.current]
  exact h.inv

/-- A step of the scheduler. -/
theorem Inv.of_goes (h : m.kernel.Inv platform m.kernel.sched.current) (hrun : m.halted = false)
    {s : Sched} (hgoes : m.kernel.sched.Goes s) : (m.setSched s).Inv platform := by
  obtain ⟨ready, waiting, hinv⟩ := hgoes.inv
  exact Inv.of_sound hrun ⟨rfl, h.reschedule hinv (.inr rfl) hgoes.moves⟩

/-- A step of the scheduler that may halt the CPU, and does not. -/
theorem Inv.of_finish (h : m.kernel.Inv platform m.kernel.sched.current) (hrun : m.halted = false)
    {ending : Control × Sched} (hgoes : m.kernel.sched.Goes ending.2 ∧ ending.1 ≠ .halts) :
    (m.finish ending).Inv platform := by
  have hsame : m.finish ending = m.setSched ending.2 := by
    rw [finish, decide_eq_false hgoes.2, ← hrun]
    rfl
  rw [hsame]
  exact Inv.of_goes h hrun hgoes.1

/-- **Every operation keeps the kernel consistent.** -/
theorem Inv.step (h : m.Inv platform) {op : KernelOp} (henabled : m.Enabled platform op) :
    (m.step platform.layout op).Inv platform := by
  obtain ⟨hrun, hguard⟩ := henabled
  have hinv : m.kernel.Inv platform m.kernel.sched.current := by
    have howner : m.owner = m.kernel.sched.current := by rw [owner, hrun]; rfl
    rw [← howner]
    exact h
  have hsound : m.kernel.Sound platform m.kernel.sched.current := ⟨rfl, hinv⟩
  cases op with
  | memory v =>
      refine of_sound hrun ⟨rfl, { hinv with
        membership := hinv.membership.frame rfl rfl (fun _ => rfl) fun _ _ => rfl
        memory := hguard }⟩
  | processCreate p pid addressSpace =>
      exact of_sound hrun (hsound.processCreate p pid addressSpace)
  | processAttachTask p t => exact of_sound hrun (hsound.processAttachTask p t)
  | processDetachTask p t => exact of_sound hrun (hsound.processDetachTask p t)
  | processTransition p target => exact of_sound hrun (hsound.processTransition p target)
  | processTerminate p => exact of_sound hrun (hsound.processTerminate p)
  | processDestroy p => exact of_sound hrun (hsound.processDestroy p)
  | createKernelTask p t pid tid addressSpace entry argument =>
      refine of_sound hrun (?_ : Kernel.Sound platform _ m.kernel.sched.current)
      rcases executionCreateKernelTask_cases hinv hguard p pid tid addressSpace entry argument with
        ⟨code, k₀, k', -, -, heq, hk₀, v, task, hk', -, hinv', -⟩ |
        ⟨k₀, k', heq, hprocess, index, frames, v, hk', -, -, -, hinv', -⟩
      · have hcurrent : k₀.sched = m.kernel.sched := by
          rcases hk₀ with rfl | ⟨-, rfl⟩ <;> rfl
        rw [hcurrent] at hinv'
        rw [heq]
        refine ⟨?_, hinv'⟩
        rw [hk', ← hcurrent]
        rfl
      · have hcurrent := (hsound.processCreate p pid addressSpace).current
        rw [hprocess] at hcurrent
        change k₀.sched.current = _ at hcurrent
        rw [hcurrent] at hinv'
        rw [heq]
        refine ⟨?_, hinv'⟩
        rw [hk', ← hcurrent]
        rfl
  | createTask p t tid addressSpace entry argument =>
      refine of_sound hrun (?_ : Kernel.Sound platform _ m.kernel.sched.current)
      rcases executionCreateTask_cases hinv hguard p tid addressSpace entry argument with
        ⟨code, k', -, -, heq, v, task, hk', -, hinv', -⟩ |
        ⟨k', heq, index, frames, v, hk', -, -, -, hinv', -⟩ <;> rw [heq]
      · refine ⟨?_, hinv'⟩
        rw [hk']
        rfl
      · refine ⟨?_, hinv'⟩
        rw [hk']
        rfl
  | destroyTask p t => exact of_sound hrun (hinv.executionDestroyTask p t)
  | destroyKernelTask p t => exact of_sound hrun (hinv.executionDestroyKernelTask p t)
  | reap =>
      refine (?_ : (m.setKernel (lifecycleReapOne m.kernel).2).Inv platform)
      rcases lifecycleReapOne_cases hinv with
        ⟨-, heq⟩ | ⟨t, rest, -, ⟨-, code, heq⟩ | ⟨-, code, k', heq, hreclaimed, -⟩⟩ <;> rw [heq]
      · exact of_sound hrun hsound
      · exact of_sound hrun hsound
      · exact of_sound hrun hreclaimed.sound
  | start => exact of_goes hinv hrun hinv.sched.goes_start
  | yield registers => exact of_finish hinv hrun (hinv.sched.goes_yield registers)
  | timer frame => exact of_goes hinv hrun (hinv.sched.goes_timer frame)
  | preemption | interrupts =>
      exact of_goes hinv hrun ⟨.of_tasks_eq rfl fun _ hu => hu, _, _, hinv.sched.of_eq rfl rfl rfl⟩
  | initQueue q => exact of_goes hinv hrun (hinv.sched.goes_initQueue hguard)
  | block t q registers => exact of_finish hinv hrun (hinv.sched.goes_block t q registers)
  | wake t => exact of_goes hinv hrun (hinv.sched.goes_wake t)
  | exit registers =>
      obtain ⟨c, hcurrent⟩ := Option.isSome_iff_exists.mp hguard
      rw [KernelMachine.step, hcurrent]
      dsimp only
      rcases taskBootstrapExit_cases hinv hcurrent registers with
        ⟨k', heq, -, hinv', -⟩ | ⟨n, k', continuation, heq, -, hsound', -⟩ <;> rw [heq]
      · exact hinv'
      · show k'.Inv platform k'.sched.current
        rw [hsound'.current]
        exact hsound'.inv

theorem inv_run {ops : List KernelOp} (h : (kernelSystem platform).Admissible (boot platform) ops) :
    ((kernelSystem platform).run (boot platform) ops).Inv platform :=
  (kernelSystem platform).run_induction (Inv platform) (fun _ _ hinv henabled => hinv.step henabled)
    (inv_boot platform) h

end KernelMachine

end Batos
