import Batos.Sched.History
import Batos.Sched.Client

/-!
# Runs of the scheduler

The scheduler as a transition system: tasks are constructed and admitted, the CPU is
passed on by `scheduler_start`, `scheduler_yield`, timer events, `task_block` and the end
of a task, tasks are woken, and preemption and interrupts are switched on and off, in any
order.  The registers that a handoff saves and the address of the frame that a timer
event pushes come from outside and are parameters of the operations.

Two results about all runs.  `ownership_run`: every task has exactly the one owner its
fields name, and the branches of the source that report a violated invariant are never
taken.  `dispatch_latest`: each dispatch goes on with the latest continuation of the
task, once.
-/

namespace Batos

variable {layout : TaskLayout}

/-- A task object as a successful `task_create` leaves it, in whatever state of memory. -/
def TaskLayout.Creates (layout : TaskLayout) (task : Task) : Prop :=
  ∃ taskAddress v before id addressSpace entry argument v',
    taskCreate layout taskAddress v before id addressSpace entry argument = (0, task, v')

/-- A successful `task_create` leaves a READY task with its first context. -/
theorem TaskLayout.Creates.fresh {task : Task} (h : layout.Creates task) :
    ∃ id addressSpace entry argument frames,
      task = freshTask layout id addressSpace entry argument frames := by
  obtain ⟨taskAddress, v, before, id, addressSpace, entry, argument, v', heq⟩ := h
  have hcode : ∀ {task' : Task} {v'' : Vmm}, ((-1 : ℤ), task', v'') ≠ (0, task, v') := by
    intro task' v'' h
    have hfst : (-1 : ℤ) = 0 := congrArg Prod.fst h
    cases hfst
  rcases taskCreate_outcome layout taskAddress v before argument id addressSpace entry with
    ⟨-, task', hrefuse, -⟩ | ⟨-, -, complete, s', frames, -, ⟨-, hfail⟩ | ⟨-, hok⟩⟩
  · exact absurd (hrefuse.symm.trans heq) hcode
  · exact absurd (hfail.symm.trans heq) hcode
  · have htask := congrArg (fun r => r.2.1) (hok.symm.trans heq)
    exact ⟨id, addressSpace, entry, argument, frames, htask.symm⟩

/-! ## The system -/

/-- The scheduler, whether the CPU has been halted, and the history. -/
structure Machine where
  sched : Sched
  halted : Bool := false
  log : List SchedEvent := []

/-- What can happen. -/
inductive SchedOp
  /-- A task object is filled by `task_create`. -/
  | create (t : TaskRef) (task : Task)
  /-- `scheduler_add`. -/
  | add (t : TaskRef)
  /-- `scheduler_start`. -/
  | start
  /-- `scheduler_yield`. -/
  | yield (registers : Context)
  /-- A timer interrupt that pushes its frame at an address. -/
  | timer (frame : Word)
  /-- `x86_64_preempt_enable`, `x86_64_preempt_disable`. -/
  | preemption (enabled : Bool)
  /-- `sti`, `cli`. -/
  | interrupts (enabled : Bool)
  /-- `wait_queue_init` of a new queue. -/
  | initQueue (q : WaitQueueRef)
  /-- `task_block`. -/
  | block (t : TaskRef) (q : WaitQueueRef) (registers : Context)
  /-- `task_wake`. -/
  | wake (t : TaskRef)
  /-- The running task returns from its entry function. -/
  | exit (registers : Context)

namespace Machine

/-- The CPU has passed from one task to another. -/
def passOn (m : Machine) (event : TaskRef → SchedEvent) (k : Continuation) (s : Sched) :
    Machine where
  sched := s
  halted := m.halted
  log := m.log ++ m.sched.current.toList.map event ++
    s.current.toList.map fun n => .dispatched n k

/-- The end of a call that may hand the CPU over; `event` says how its caller gives it
up. -/
def finish (m : Machine) (event : TaskRef → SchedEvent) : Control × Sched → Machine
  | (.returns _, s) => { m with sched := s }
  | (.resumes k, s) => m.passOn event k s
  | (.halts, s) =>
      { m with sched := s, halted := true, log := m.log ++ m.sched.current.toList.map event }

/-- The effect of an operation. -/
def step (m : Machine) : SchedOp → Machine
  | .create t task =>
      { m with sched := m.sched.setTask t task, log := m.log ++ [.created t task.context] }
  | .add t => { m with sched := (schedulerAdd m.sched t).2 }
  | .start =>
      match schedulerStart m.sched with
      | (code, s) =>
          { m with
            sched := s
            log := m.log ++ if code = 0 then s.current.toList.map .started else [] }
  | .yield registers => m.finish (.saved · registers) (schedulerYield m.sched registers)
  | .timer frame =>
      match lapicTimerStub m.sched frame with
      | (k, s) =>
          if s.current = m.sched.current then
            { m with sched := s, log := m.log ++ s.current.toList.map (.resumed · frame) }
          else m.passOn (.preempted · frame) k s
  | .preemption enabled => { m with sched := { m.sched with preemptEnabled := enabled } }
  | .interrupts enabled => { m with sched := { m.sched with interruptFlag := enabled } }
  | .initQueue q => { m with sched := waitQueueInit m.sched q }
  | .block t q registers => m.finish (.saved · registers) (taskBlock m.sched t q registers)
  | .wake t => { m with sched := (taskWake m.sched t).2 }
  | .exit registers =>
      match m.sched.current with
      | none => m
      | some c => m.finish .ended (taskBootstrapExit m.sched c registers)

/-- When an operation can happen: nothing happens on a halted CPU; a task object in use is
not given to `task_create`, nor a wait queue in use to `wait_queue_init`; a timer
interrupt needs the interrupt flag, and only a running task can end. -/
def Enabled (layout : TaskLayout) (m : Machine) (op : SchedOp) : Prop :=
  m.halted = false ∧
    match op with
    | .create t task =>
        ((m.sched.tasks t).state = .new ∨ (m.sched.tasks t).state = .terminated) ∧
          layout.Creates task
    | .timer _ => m.sched.interruptFlag = true
    | .initQueue q => (m.sched.waitQueues q).initialized = false
    | .exit _ => m.sched.current.isSome = true
    | _ => True

/-- After `scheduler_init`, before any task has been constructed. -/
def boot : Machine := { sched := schedulerInit {} }

end Machine

/-- The scheduler as a transition system. -/
def schedSystem (layout : TaskLayout) : TransitionSystem Machine SchedOp where
  enabled := Machine.Enabled layout
  step := Machine.step

/-! ## The invariant of runs -/

/-- Who has the CPU: nobody, once it is halted. -/
def Machine.owner (m : Machine) : Option TaskRef := if m.halted then none else m.sched.current

/-- Every task has its owner, and the log tells what each suspended task goes on with. -/
structure Machine.Inv (m : Machine) : Prop where
  owned : ∃ ready waiting, m.sched.Inv m.owner ready waiting ∧
    (m.halted = true → ready = [] ∧
      ∃ c, m.sched.current = some c ∧ (m.sched.tasks c).state = .terminated)
  current : Current m.sched.tasks m.log
  faithful : Faithful m.log

namespace Machine

theorem inv_boot : boot.Inv where
  owned := by
    refine ⟨[], fun _ => [], ⟨rfl, TaskQueue.holds_empty true, fun _ => TaskQueue.holds_empty false,
      fun t => ⟨nofun, nofun⟩, nofun, nofun, fun q t => ⟨nofun, nofun⟩, fun t =>
      ⟨nofun, ?_⟩⟩, nofun⟩
    exact fun h => absurd rfl h
  current := nofun
  faithful := faithful_nil

namespace Inv

variable {m : Machine}

/-- The invariant of a machine that is not halted. -/
theorem of_sched {s : Sched} {ready : List TaskRef} {waiting : WaitQueueRef → List TaskRef}
    {log : List SchedEvent} (h : s.Inv s.current ready waiting) (hcurrent : Current s.tasks log)
    (hfaithful : Faithful log) : Machine.Inv { sched := s, log := log } :=
  ⟨⟨ready, waiting, h, nofun⟩, hcurrent, hfaithful⟩

/-- The owner of the CPU hands it over. -/
theorem passOn (h : m.Inv) (hrun : m.halted = false) {event : TaskRef → SchedEvent} {s' : Sched}
    {ready' : List TaskRef} {waiting' : WaitQueueRef → List TaskRef} {c n : TaskRef} {left : Task}
    {k : Continuation} (howner : m.sched.current = some c)
    (hhandoff : Handoff m.sched c n left k s')
    (hinv : s'.Inv s'.current ready' waiting') (htask : (event c).task = c)
    (hnot : ∀ t k, event c ≠ .dispatched t k)
    (hleft : left.state.suspended = true → (event c).leaves = left.continuation) :
    (m.passOn event k s').Inv := by
  obtain ⟨hcurrent, hfaithful⟩ := hhandoff.history h.current h.faithful htask hnot hleft
  have hlog : m.passOn event k s' =
      { sched := s', log := m.log ++ [event c] ++ [.dispatched n k] } := by
    rw [Machine.passOn, howner, hhandoff.current, hrun]
    rfl
  rw [hlog]
  exact of_sched hinv hcurrent hfaithful

/-- **Every operation keeps the invariant.** -/
theorem step (h : m.Inv) {op : SchedOp} (henabled : m.Enabled layout op) :
    (m.step op).Inv := by
  obtain ⟨hrun, hguard⟩ := henabled
  obtain ⟨ready, waiting, hinv, -⟩ := h.owned
  rw [owner, hrun] at hinv
  obtain ⟨s, halted, log⟩ := m
  cases hrun
  change s.Inv s.current ready waiting at hinv
  have hcurrent : Current s.tasks log := h.current
  cases op with
  | create t task =>
      obtain ⟨hfree, hcreates⟩ := hguard
      obtain ⟨id, addressSpace, entry, argument, frames, rfl⟩ := hcreates.fresh
      exact of_sched (hinv.create hfree rfl rfl nofun)
        (hcurrent.concat (.created t _) _ fun _ => rfl) (h.faithful.concat nofun)
  | add t =>
      rcases hinv.add t with ⟨code, -, heq, -⟩ | ⟨-, -, -, heq, hadded⟩
      · rw [Machine.step, heq]
        exact h
      · rw [Machine.step, heq]
        exact of_sched hadded h.current h.faithful
  | start =>
      rcases hinv.start with ⟨code, hcode, heq⟩ |
        ⟨n, rest, s', -, -, heq, hnext, htasks, hstarted⟩
      · have hne : code ≠ 0 := by
          rintro rfl
          rcases hcode with hcode | hcode <;> cases hcode
        rw [Machine.step, heq]
        dsimp only
        rw [if_neg hne, List.append_nil]
        exact h
      · rw [Machine.step, heq]
        dsimp only
        rw [if_pos rfl, hnext]
        refine of_sched hstarted ?_ (h.faithful.concat nofun)
        rw [htasks]
        exact hcurrent.concat (.started n) _ nofun
  | yield registers =>
      rcases hinv.yield registers with
        ⟨code, -, heq⟩ | ⟨c, n, rest, k, s', howner, -, heq, hhandoff, hinv'⟩
      · rw [Machine.step, heq]
        exact h
      · rw [Machine.step, heq]
        exact h.passOn rfl howner hhandoff hinv' rfl nofun fun _ => rfl
  | timer frame =>
      rcases hinv.timer frame with ⟨s', heq, hnoted⟩ |
        ⟨c, n, rest, k, s', howner, -, hframe, heq, hhandoff, hinv'⟩
      · -- the same task goes on, and at most its frame has been noted
        obtain ⟨hsame, hinv'⟩ := hinv.noted hnoted
        rw [Machine.step, heq]
        dsimp only
        rw [if_pos hsame, hsame]
        cases howner : s.current with
        | none =>
            rw [howner] at hinv
            have hs : s' = s := hnoted.resolve_right fun ⟨c, hc, _⟩ => by
              rw [howner] at hc
              cases hc
            rw [hs, Option.toList_none, List.map_nil, List.append_nil]
            exact h
        | some c =>
            have hrunning : (s'.tasks c).state = .running :=
              (hinv'.running c).mp (hsame.trans howner)
            have htasks : s'.tasks = Function.update s.tasks c (s'.tasks c) := by
              rcases hnoted with rfl | ⟨c', hc', -, rfl⟩
              · rw [Function.update_eq_self]
              · obtain rfl : c = c' := Option.some.inj (howner.symm.trans hc')
                rw [Sched.bindFrame, Sched.setTask_self]
                rfl
            refine of_sched hinv' ?_ (h.faithful.concat nofun)
            rw [htasks]
            refine hcurrent.concat (.resumed c frame) _ fun hs => ?_
            rw [hrunning] at hs
            cases hs
      · rw [Machine.step, heq]
        dsimp only
        have hne : s'.current ≠ s.current := by
          rw [hhandoff.current, howner]
          exact fun hsame => hhandoff.distinct (Option.some.inj hsame)
        rw [if_neg hne]
        exact h.passOn rfl howner hhandoff hinv' rfl nofun
          fun _ => (Task.continuation_of_interrupt rfl rfl hframe).symm
  | preemption | interrupts => exact of_sched (hinv.of_eq rfl rfl rfl) h.current h.faithful
  | initQueue q => exact of_sched (hinv.initQueue hguard) h.current h.faithful
  | block t q registers =>
      rcases hinv.block t q registers with ⟨code, -, heq⟩ |
        ⟨n, rest, k, s', howner, -, heq, hhandoff, hinv'⟩
      · rw [Machine.step, heq]
        exact h
      · rw [Machine.step, heq]
        exact h.passOn rfl howner hhandoff hinv' rfl nofun fun _ => rfl
  | wake t =>
      rcases hinv.wake t with ⟨code, -, heq⟩ | ⟨q, s', hblocked, heq, -, htasks, hinv'⟩
      · rw [Machine.step, heq]
        exact h
      · rw [Machine.step, heq]
        refine of_sched hinv' ?_ h.faithful
        rw [htasks]
        exact hcurrent.update t _ fun _ => hcurrent t (by rw [hblocked]; rfl)
  | exit registers =>
      obtain ⟨c, howner⟩ := Option.isSome_iff_exists.mp hguard
      rw [Machine.step, howner]
      dsimp only
      rcases hinv.bootstrapExit howner registers with ⟨s', rfl, heq, howner', htasks, hinv'⟩ |
        ⟨n, rest, k, s', -, heq, hhandoff, hinv'⟩
      · rw [heq]
        refine ⟨⟨[], waiting, hinv', fun _ => ⟨rfl, c, howner', ?_⟩⟩, ?_, ?_⟩
        · change (s'.tasks c).state = .terminated
          rw [htasks, Function.update_self]
        · change Current s'.tasks (log ++ s.current.toList.map .ended)
          rw [howner, htasks]
          exact hcurrent.concat (.ended c) _ nofun
        · change Faithful (log ++ s.current.toList.map .ended)
          rw [howner]
          exact h.faithful.concat nofun
      · rw [heq]
        exact h.passOn rfl howner hhandoff hinv' rfl nofun nofun

end Inv

end Machine

theorem Machine.inv_run {ops : List SchedOp}
    (h : (schedSystem layout).Admissible Machine.boot ops) :
    ((schedSystem layout).run Machine.boot ops).Inv :=
  (schedSystem layout).run_induction Machine.Inv (fun _ _ hinv henabled => hinv.step henabled)
    Machine.inv_boot h

/-! ## Ownership -/

/-- Each task is where its fields say, and nowhere else. -/
structure Ownership (s : Sched) : Prop where
  /-- No task is in the runqueue twice. -/
  nodup : s.runqueue.items.Nodup
  /-- What is in the runqueue is READY, can be resumed, and is not running. -/
  ready : ∀ t ∈ s.runqueue.items, (s.tasks t).state = .ready ∧
    (schedulerResolveTarget s t).isSome = true ∧ s.current ≠ some t
  /-- A task is BLOCKED exactly when it is once in the wait queue it names and in no other. -/
  blocked : ∀ t, (s.tasks t).state = .blocked ↔ ∃ q, (s.tasks t).waitQueue = some q ∧
    (s.waitQueues q).items.count t = 1 ∧ ∀ q', t ∈ (s.waitQueues q').items → q' = q
  /-- A task that has ended is in no queue. -/
  terminated : ∀ t, (s.tasks t).state = .terminated →
    t ∉ s.runqueue.items ∧ ∀ q, t ∉ (s.waitQueues q).items

/-- None of the branches that report a violated invariant is taken. -/
structure NoInternalFailure (s : Sched) : Prop where
  yield : ∀ registers, (schedulerYield s registers).1 ∉
    [.returns (-7), .returns (-8), .returns (-9), .halts]
  /-- As the timer handler calls it, with the frame already bound. -/
  preempt : ∀ c frame expected, s.current = some c → frame ≠ 0 →
    (schedulerPreemptCurrent (s.bindFrame c frame) expected).1 ∉ [-7, -8]
  block : ∀ t q registers, (taskBlock s t q registers).1 ∉
    [.returns (-11), .returns (-12), .returns (-13), .halts]
  wake : ∀ t, (taskWake s t).1 ∉ [-9, -10, -11]
  /-- The end of a task halts the CPU for want of a runnable task only. -/
  exit : ∀ c registers, s.current = some c →
    (taskBootstrapExit s c registers).1 = .halts → s.runqueue.items = []

section Ownership

variable {s : Sched} {owner : Option TaskRef} {ready : List TaskRef}
  {waiting : WaitQueueRef → List TaskRef}

/-- The invariant contains ownership. -/
theorem Sched.Inv.ownership (h : s.Inv owner ready waiting)
    (hcurrent : ∀ c, s.current = some c → (s.tasks c).state ≠ .ready) : Ownership s := by
  have hitems : ∀ q, (s.waitQueues q).items = waiting q := fun q => (h.waitQueue q).items_eq
  refine ⟨?_, ?_, fun t => ?_, fun t ht => ⟨?_, fun q => ?_⟩⟩
  · rw [h.runqueue.items_eq]
    exact h.runqueue.nodup
  · rw [h.runqueue.items_eq]
    intro t ht
    obtain ⟨target, k, hresolve, -⟩ := h.resolve (h.queued t ht)
    refine ⟨h.queued t ht, ?_, fun hsame => hcurrent t hsame (h.queued t ht)⟩
    rw [hresolve]
    rfl
  · simp only [hitems]
    rw [h.blocked_iff]
    constructor
    · intro hne
      obtain ⟨q, hq⟩ := Option.ne_none_iff_exists'.mp hne
      refine ⟨q, hq, List.count_eq_one_of_mem (h.waitQueue q).nodup ((h.waiting_iff q t).mpr hq),
        fun q' hmem => ?_⟩
      rw [h.waiting_iff, hq] at hmem
      exact (Option.some.inj hmem).symm
    · rintro ⟨q, hq, -⟩
      rw [hq]
      exact nofun
  · rw [h.runqueue.items_eq]
    exact h.not_mem_ready (by rw [ht]; decide)
  · rw [hitems, h.waiting_iff, h.waitQueue_eq_none (by rw [ht]; decide)]
    exact nofun

/-- No handoff can fail half-way. -/
theorem Sched.Inv.noInternalFailure (h : s.Inv s.current ready waiting) : NoInternalFailure s := by
  refine ⟨fun registers => ?_, fun c frame expected hc hframe => ?_, fun t q registers => ?_,
    fun t => ?_, fun c registers hc => ?_⟩
  · rcases h.yield registers with
      ⟨code, hcode, heq⟩ | ⟨c, n, rest, k, s', -, -, heq, -⟩ <;> rw [heq]
    · simp
      omega
    · simp
  · rcases (h.bindFrame c hframe).toQueued.preempt_cases expected with
      ⟨code, next, hcode, -, heq, -⟩ | ⟨c', -, heq⟩ <;> rw [heq]
    · simp
      omega
    · simp
  · rcases h.block t q registers with
      ⟨code, hcode, heq⟩ | ⟨n, rest, k, s', -, -, heq, -⟩ <;> rw [heq]
    · simp
      omega
    · simp
  · rcases h.wake t with ⟨code, hcode, heq⟩ | ⟨q, s', -, heq, -⟩ <;> rw [heq]
    · simp
      omega
    · simp
  · rw [h.runqueue.items_eq]
    rcases h.bootstrapExit hc registers with ⟨s', hempty, -⟩ | ⟨n, rest, k, s', -, heq, -⟩
    · exact fun _ => hempty
    · rw [heq]
      exact nofun

end Ownership

/-- **Ownership in every run.**  Every task has the one owner its fields name, and no
branch that reports a violated invariant is ever taken.  As long as the CPU is not
halted, the current task, and no other, is RUNNING.  The CPU is halted only when a task
ends while no task is runnable; that task then stays current, TERMINATED, and nothing is
RUNNING. -/
theorem ownership_run (layout : TaskLayout) (ops : List SchedOp)
    (h : (schedSystem layout).Admissible Machine.boot ops) :
    Ownership ((schedSystem layout).run Machine.boot ops).sched ∧
      (((schedSystem layout).run Machine.boot ops).halted = false →
        (∀ t, ((schedSystem layout).run Machine.boot ops).sched.current = some t ↔
          (((schedSystem layout).run Machine.boot ops).sched.tasks t).state = .running) ∧
        NoInternalFailure ((schedSystem layout).run Machine.boot ops).sched) ∧
      (((schedSystem layout).run Machine.boot ops).halted = true →
        ((schedSystem layout).run Machine.boot ops).sched.runqueue.items = [] ∧
        (∃ c, ((schedSystem layout).run Machine.boot ops).sched.current = some c ∧
          (((schedSystem layout).run Machine.boot ops).sched.tasks c).state = .terminated) ∧
        ∀ t, (((schedSystem layout).run Machine.boot ops).sched.tasks t).state ≠ .running) := by
  have hm := Machine.inv_run h
  obtain ⟨ready, waiting, hinv, hhalted⟩ := hm.owned
  generalize (schedSystem layout).run Machine.boot ops = m at hm hinv hhalted
  rw [Machine.owner] at hinv
  cases hrun : m.halted with
  | false =>
      rw [hrun] at hinv
      change m.sched.Inv m.sched.current ready waiting at hinv
      refine ⟨hinv.ownership fun c hc => ?_, fun _ => ⟨hinv.running, hinv.noInternalFailure⟩, nofun⟩
      rw [(hinv.running c).mp hc]
      decide
  | true =>
      rw [hrun] at hinv
      change m.sched.Inv none ready waiting at hinv
      obtain ⟨rfl, c, hc, hterminated⟩ := hhalted hrun
      refine ⟨hinv.ownership fun c' hc' => ?_, nofun,
        fun _ => ⟨hinv.runqueue.items_eq, ⟨c, hc, hterminated⟩, fun t ht => ?_⟩⟩
      · obtain rfl : c = c' := Option.some.inj (hc.symm.trans hc')
        rw [hterminated]
        decide
      · exact absurd ((hinv.running t).mpr ht) nofun

/-- The frames of the stack of a first task. -/
def demoFrames (id : Word) : Bool × Paging × (Fin 4 → Word) :=
  mapStackPages 0x2000 (taskStackVirtualFor demoLayout id) stackPages demoBoot.start.vmm.paging
    fun _ => 0

/-- A task as `task_create` constructs it on the machine of the examples. -/
def demoTask (id : Word) : Task := freshTask demoLayout id 0x2000 0x400 0 (demoFrames id).2.2

theorem demoTask_created {id : Word} (haccepts : taskCreateAccepts id 0x2000 0x400 = true)
    (hmapped : (demoFrames id).1 = true) : demoLayout.Creates (demoTask id) := by
  have hspace : 0x2000 = vmmGetPml4 demoBoot.start.vmm := by decide +kernel
  rcases taskCreate_outcome demoLayout 0x9000 demoBoot.start.vmm {} 0 id 0x2000 0x400 with
    ⟨hrefused, -⟩ | ⟨-, -, complete, s, frames, hloop, hresult⟩
  · rw [haccepts] at hrefused
    exact absurd hspace (hrefused.resolve_left nofun)
  change demoFrames id = _ at hloop
  rw [hloop] at hmapped
  rcases hresult with ⟨rfl, -⟩ | ⟨-, heq⟩
  · cases hmapped
  · rw [demoTask, hloop]
    exact ⟨_, _, _, _, _, _, _, _, heq⟩

/-- Two tasks take turns until one of them waits for an event that the other brings
about. -/
def demoOps : List SchedOp :=
  [.create 1 (demoTask 1), .add 1, .create 2 (demoTask 2), .add 2, .start, .interrupts true,
    .initQueue 7, .yield {}, .preemption true, .timer 0x8000, .block 1 7 {}, .wake 1]

theorem demoOps_admissible : (schedSystem demoLayout).Admissible Machine.boot demoOps := by
  refine ⟨⟨rfl, .inl rfl, demoTask_created ?_ ?_⟩, ⟨?_, trivial⟩,
    ⟨?_, .inl ?_, demoTask_created ?_ ?_⟩, ⟨?_, trivial⟩, ⟨?_, trivial⟩, ⟨?_, trivial⟩, ⟨?_, ?_⟩,
    ⟨?_, trivial⟩, ⟨?_, trivial⟩, ⟨?_, ?_⟩, ⟨?_, trivial⟩, ⟨?_, trivial⟩, trivial⟩
  all_goals decide +kernel

/-- After the two tasks of `demoOps` have taken turns, the first is READY again and the
second is the only one that runs. -/
theorem ownership_run_demo :
    Ownership ((schedSystem demoLayout).run Machine.boot demoOps).sched ∧
      ∀ t, ((schedSystem demoLayout).run Machine.boot demoOps).sched.current = some t ↔
        (((schedSystem demoLayout).run Machine.boot demoOps).sched.tasks t).state = .running :=
  have h := ownership_run demoLayout demoOps demoOps_admissible
  ⟨h.1, (h.2.1 (by decide +kernel)).1⟩

/-- The only task ends: it stays current although it is not RUNNING any more. -/
theorem last_exit_keeps_current :
    (schedSystem demoLayout).Admissible Machine.boot
        [.create 1 (demoTask 1), .add 1, .start, .exit {}] ∧
      ((schedSystem demoLayout).run Machine.boot
        [.create 1 (demoTask 1), .add 1, .start, .exit {}]).sched.current = some 1 ∧
      (((schedSystem demoLayout).run Machine.boot
        [.create 1 (demoTask 1), .add 1, .start, .exit {}]).sched.tasks 1).state = .terminated := by
  refine ⟨⟨⟨rfl, .inl rfl, demoTask_created ?_ ?_⟩, ⟨?_, trivial⟩, ⟨?_, trivial⟩,
    ⟨?_, ?_⟩, trivial⟩, ?_, ?_⟩
  all_goals decide +kernel

/-! ## Continuations -/

/-- **Each dispatch uses the latest continuation, once.**  Whenever a run makes a task
current through a dispatch, the last thing that happened to the task before was its
construction, a handoff of its own or the loss of the CPU to a timer event, and the CPU
goes on with the first context, with the registers saved by that handoff or with the
frame of that timer event.  An interrupt frame is therefore never the synthetic one of
the construction, nor one that the task has already returned to. -/
theorem dispatch_latest (layout : TaskLayout) (ops : List SchedOp)
    (h : (schedSystem layout).Admissible Machine.boot ops) (pre post : List SchedEvent)
    (t : TaskRef) (k : Continuation)
    (hlog : ((schedSystem layout).run Machine.boot ops).log = pre ++ .dispatched t k :: post) :
    ((∃ context, lastEvent t pre = some (.created t context) ∧ k = .context context) ∨
      (∃ context, lastEvent t pre = some (.saved t context) ∧ k = .context context) ∨
      ∃ frame, lastEvent t pre = some (.preempted t frame) ∧ k = .interrupt frame) ∧
    ∀ frame, k = .interrupt frame → lastEvent t pre = some (.preempted t frame) := by
  have hlatest : latest t pre = some k := (Machine.inv_run h).faithful pre t k post hlog
  obtain ⟨event, hevent, hleaves⟩ := Option.bind_eq_some_iff.mp hlatest
  have htask := task_of_lastEvent hevent
  rw [hevent]
  cases event with
  | created u context =>
      cases htask
      cases hleaves
      exact ⟨.inl ⟨context, rfl, rfl⟩, nofun⟩
  | saved u context =>
      cases htask
      cases hleaves
      exact ⟨.inr (.inl ⟨context, rfl, rfl⟩), nofun⟩
  | preempted u frame =>
      cases htask
      cases hleaves
      refine ⟨.inr (.inr ⟨frame, rfl, rfl⟩), fun frame' hframe => ?_⟩
      cases hframe
      rfl
  | started u => cases hleaves
  | resumed u frame => cases hleaves
  | ended u => cases hleaves
  | dispatched u k => cases hleaves

/-- In `demoOps` the second task loses the CPU to a timer event; when the first one blocks,
the second goes on with the frame of that event. -/
theorem dispatch_latest_demo :
    ∃ pre post, ((schedSystem demoLayout).run Machine.boot demoOps).log =
        pre ++ .dispatched 2 (.interrupt 0x8000) :: post ∧
      lastEvent 2 pre = some (.preempted 2 0x8000) := by
  have hlog : ((schedSystem demoLayout).run Machine.boot demoOps).log =
      ((schedSystem demoLayout).run Machine.boot demoOps).log.take 8 ++
        .dispatched 2 (.interrupt 0x8000) ::
        ((schedSystem demoLayout).run Machine.boot demoOps).log.drop 9 := by
    decide +kernel
  exact ⟨_, _, hlog, (dispatch_latest demoLayout demoOps demoOps_admissible _ _ _ _ hlog).2 _ rfl⟩

end Batos
