import Batos.Sched.Atomicity

/-!
# What the operations of the scheduler do

One specification for each operation, from a state in which every task has its owner
(`Sched.Inv`).  An operation returns with the state as it was, or it does what it is
for; the branches that the source keeps against corrupted state, some of which would
leave a task without an owner, do not occur.  The operations that pass the CPU on
(`scheduler_yield`, `task_block`, the end of a task and a timer event) all do so in the
same way, described by `Handoff`: the next task goes on with its continuation, and the
task that had the CPU is left behind in a form of its own.
-/

namespace Batos

open Function

variable {s s' : Sched} {c n t : TaskRef} {k : Continuation} {task : Task} {frame : Word}
  {q : WaitQueueRef}

/-- The CPU passes from `c` to the READY task `n`, which goes on with `k`; `c` is left
behind as `left`. -/
structure Handoff (s : Sched) (c n : TaskRef) (left : Task) (k : Continuation) (s' : Sched) :
    Prop where
  distinct : n ≠ c
  ready : (s.tasks n).state = .ready
  resumed : (s.tasks n).continuation = some k
  current : s'.current = some n
  tasks : s'.tasks =
    update (update s.tasks n { s.tasks n with state := .running }) c left

/-- What had been done to the old owner before the handoff does not matter. -/
theorem Handoff.rebase (s₀ : Sched) (task : Task) {left : Task} (h : Handoff s c n left k s')
    (htasks : s.tasks = update s₀.tasks c task) :
    Handoff s₀ c n left k s' := by
  have hn : s.tasks n = s₀.tasks n := by
    rw [htasks, update_of_ne h.distinct]
  refine ⟨h.distinct, hn ▸ h.ready, hn ▸ h.resumed, h.current, ?_⟩
  rw [h.tasks, hn, htasks, update_comm h.distinct.symm, update_idem]

/-- The task that has left the CPU hands it over. -/
theorem Handoff.of_handedOver (registers : Context) (hne : n ≠ c) (hn : (s.tasks n).state = .ready)
    (hk : (s.tasks n).continuation = some k) :
    Handoff s c n { s.tasks c with context := registers } k (s.handedOver c n registers) := by
  refine ⟨hne, hn, hk, rfl, ?_⟩
  have htask : (update s.tasks n { s.tasks n with state := .running }) c = s.tasks c :=
    update_of_ne hne.symm _ _
  simp only [Sched.handedOver, Sched.irqRestore, Sched.saveContext, Sched.giveCpu,
    Sched.setTask, htask]

theorem Task.continuation_of_interrupt (hauthority : task.resumeAuthority = .interrupt)
    (hstate : task.preemptState = ⟨frame, true⟩) (hframe : frame ≠ 0) :
    task.continuation = some (.interrupt frame) := by
  have hvalid : preemptStateIsValid task.preemptState = true := by
    rw [hstate]
    exact decide_eq_true hframe
  rw [Task.continuation, hauthority]
  dsimp only
  rw [if_pos hvalid, hstate]

namespace Sched.Inv

variable {s : Sched} {ready : List TaskRef} {waiting : WaitQueueRef → List TaskRef}

theorem toQueued {owner : Option TaskRef} (h : s.Inv owner ready waiting) : s.Queued ready :=
  ⟨h.initialized, h.runqueue⟩

/-! ## Passing the CPU on -/

/-- The running task goes to the end of the runqueue, and its first task gets the CPU. -/
theorem rotate (h : s.Inv s.current ready waiting) (hpass : s.CanPass ready c n) :
    ∃ rest, ready = n :: rest ∧ (s.rotate c n).Inv (some n) (rest ++ [c]) waiting := by
  obtain ⟨rest, rfl, hholds, hinit⟩ := h.toQueued.rotated hpass
  rw [hpass.current] at h
  have hreleased := h.release { s.tasks c with state := .ready } (.inl rfl) rfl
    fun _ => h.resumable c (by rw [hpass.running]; rfl)
  have hqueued : Sched.Inv { s.setTask c { s.tasks c with state := .ready } with
      runqueue := (s.runqueue.push c).pop.2 } none (rest ++ [c]) waiting := by
    refine { hreleased with
      initialized := hinit
      runqueue := hholds
      queued := fun u hu => ?_ }
    rcases List.mem_append.mp hu with hu | hu
    · exact hreleased.queued u (List.mem_cons_of_mem n hu)
    · rw [List.mem_singleton] at hu
      rw [hu]
      exact congrArg Task.state (Sched.setTask_self _ _ _)
  have hkept : (s.setTask c { s.tasks c with state := .ready }).tasks n = s.tasks n :=
    update_of_ne hpass.ne _ _
  have hmem : n ∉ rest ++ [c] := by
    simp [(List.nodup_cons.mp h.runqueue.nodup).1, hpass.ne]
  have hclaimed := (hqueued.claim (n := n) (hkept ▸ hpass.next_ready) hmem).2
  refine ⟨rest, rfl, hclaimed.of_eq ?_ rfl rfl⟩
  simp only [Sched.rotate, Sched.setTask, update_of_ne hpass.ne]

/-- `c`, which has left the CPU already, leaves it to the first task of the runqueue. -/
theorem handedOver (h : s.Inv none (n :: ready) waiting) (hne : n ≠ c) (registers : Context)
    (hresumable : (s.tasks c).state.live = true → (s.tasks c).resumeAuthority = .context) :
    (s.handedOver c n registers).Inv (some n) ready waiting := by
  obtain ⟨queue, htake, hdequeued, hn, hmem⟩ := h.dequeue
  have hqueue : s.runqueue.pop.2 = queue := congrArg (fun r => r.2.runqueue) htake
  have hclaimed := (hdequeued.claim hn hmem).2
  have htask : (update s.tasks n { s.tasks n with state := .running }) c = s.tasks c :=
    update_of_ne hne.symm _ _
  rw [← hqueue] at hclaimed
  refine (hclaimed.amend c { s.tasks c with context := registers } ?_ ?_ fun hlive =>
    ?_).of_eq ?_ rfl rfl
  · exact (congrArg Task.state htask).symm
  · exact (congrArg Task.waitQueue htask).symm
  · rw [Task.continuation, hresumable hlive]
    exact nofun
  · simp only [Sched.handedOver, Sched.irqRestore, Sched.saveContext, Sched.giveCpu,
      Sched.setTask, htask]

/-- The common end of blocking and ending: the CPU is free and someone is runnable. -/
theorem handOver (h : s.Inv none (n :: ready) waiting) (hc : (s.tasks c).state ≠ .ready) (code : ℤ)
    (registers : Context)
    (hresumable : (s.tasks c).state.live = true → (s.tasks c).resumeAuthority = .context) :
    ∃ k s', handOver s c n code registers = (.resumes k, s') ∧
      Handoff s c n { s.tasks c with context := registers } k s' ∧
      s'.Inv s'.current ready waiting := by
  have hn : (s.tasks n).state = .ready := h.queued n List.mem_cons_self
  have hne : n ≠ c := by
    rintro rfl
    exact hc hn
  rcases h.toQueued.handOver_cases hn hne code registers with ⟨hnone, -⟩ | ⟨-, k, hk, heq⟩
  · obtain ⟨target, k, hresolve, -⟩ := h.resolve hn
    exact nomatch hnone.symm.trans hresolve
  · exact ⟨k, _, heq, .of_handedOver registers hne hn hk, h.handedOver hne registers hresumable⟩

/-- **`scheduler_yield`** returns with everything as it was, or hands the CPU to the first task
of the runqueue. -/
theorem yield (h : s.Inv s.current ready waiting) (registers : Context) :
    (∃ code, -6 ≤ code ∧ schedulerYield s registers = (.returns code, s)) ∨
      ∃ c n rest k s', s.current = some c ∧ ready = n :: rest ∧
        schedulerYield s registers = (.resumes k, s') ∧
        Handoff s c n { s.tasks c with
          state := .ready, resumeAuthority := .context, context := registers } k s' ∧
        s'.Inv s'.current (rest ++ [c]) waiting := by
  rcases h.toQueued.yield_cases registers with
    ⟨code, hcode, heq, -⟩ | ⟨c, n, target, k, hpass, -, hk, heq⟩
  · exact .inl ⟨code, hcode.1, heq⟩
  · obtain ⟨rest, hready, hinv⟩ := h.rotate hpass
    refine .inr ⟨c, n, rest, k, _, hpass.current, hready, heq,
      ⟨hpass.ne, hpass.next_ready, hk, rfl, hpass.yielded_tasks registers⟩, ?_⟩
    exact (hinv.amend c
      { (s.rotate c n).tasks c with resumeAuthority := .context, context := registers } rfl rfl
      fun _ => nofun).of_eq rfl rfl rfl

/-- **`scheduler_start`** gives the free CPU to the first task of the runqueue. -/
theorem start (h : s.Inv s.current ready waiting) :
    (∃ code, (code = -1 ∨ code = -2) ∧ schedulerStart s = (code, s)) ∨
      ∃ n rest s', s.current = none ∧ ready = n :: rest ∧ schedulerStart s = (0, s') ∧
        s'.current = some n ∧
        s'.tasks = update s.tasks n { s.tasks n with state := .running } ∧
        s'.Inv s'.current rest waiting := by
  unfold schedulerStart
  cases hcurrent : s.current with
  | some c => exact .inl ⟨-1, .inl rfl, rfl⟩
  | none =>
      rw [hcurrent] at h
      rw [h.peek_eq]
      cases ready with
      | nil => exact .inl ⟨-2, .inr rfl, rfl⟩
      | cons n rest =>
          right
          obtain ⟨queue, htake, hdequeued, hn, hmem⟩ := h.dequeue
          obtain ⟨hclaim, hclaimed⟩ := hdequeued.claim hn hmem
          simp only [Option.isSome_none, Bool.false_eq_true, if_false, List.head?_cons, hn, ne_eq,
            not_true_eq_false, htake, hclaim]
          exact ⟨n, rest, _, trivial, rfl, rfl, rfl, rfl, hclaimed.of_eq rfl rfl rfl⟩

/-- **`scheduler_add`** appends a READY task that is not queued yet. -/
theorem add (h : s.Inv s.current ready waiting) (t : TaskRef) :
    (∃ code, (code = -1 ∨ code = -2) ∧ schedulerAdd s t = (code, s) ∧
        ¬ ((s.tasks t).state = .ready ∧ ready.length < taskMaxTasks ∧ t ∉ ready)) ∨
      ((s.tasks t).state = .ready ∧ ready.length < taskMaxTasks ∧ t ∉ ready ∧
        schedulerAdd s t = (0, { s with runqueue := s.runqueue.push t }) ∧
        Sched.Inv { s with runqueue := s.runqueue.push t } s.current (ready ++ [t]) waiting) := by
  unfold schedulerAdd
  by_cases hready : (s.tasks t).state = .ready
  · rw [if_neg (not_not.mpr hready)]
    by_cases haccepts : ready.length < taskMaxTasks ∧ t ∉ ready
    · obtain ⟨henqueue, hinv⟩ := h.enqueue hready haccepts.2 haccepts.1
      exact .inr ⟨hready, haccepts.1, haccepts.2, henqueue, hinv⟩
    · have hno : ¬ ((s.tasks t).state = .ready ∧ ready.length < taskMaxTasks ∧ t ∉ ready) :=
        fun hyes => haccepts hyes.2
      exact .inl ⟨-1, .inl rfl, h.enqueue_refused hno, hno⟩
  · rw [if_pos hready]
    exact .inl ⟨-2, .inr rfl, rfl, fun hyes => hready hyes.1⟩

/-- Binding a frame to a task keeps every task where it is. -/
theorem bindFrame (h : s.Inv s.current ready waiting) (t : TaskRef) (hframe : frame ≠ 0) :
    (s.bindFrame t frame).Inv s.current ready waiting := by
  refine h.amend t _ rfl rfl fun _ => ?_
  rw [Task.continuation_of_interrupt rfl rfl hframe]
  exact nofun

theorem noted (h : s.Inv s.current ready waiting) (hnoted : s.Noted frame s') :
    s'.current = s.current ∧ s'.Inv s'.current ready waiting := by
  rcases hnoted with rfl | ⟨c, -, hframe, rfl⟩
  · exact ⟨rfl, h⟩
  · exact ⟨rfl, h.bindFrame c hframe⟩

/-- **A timer event** returns to the interrupted task, or passes the CPU to the first
task of the runqueue and leaves the interrupted one with the frame of this event. -/
theorem timer (h : s.Inv s.current ready waiting) (frame : Word) :
    (∃ s', lapicTimerStub s frame = (.interrupt frame, s') ∧ s.Noted frame s') ∨
      ∃ c n rest k s', s.current = some c ∧ ready = n :: rest ∧ frame ≠ 0 ∧
        lapicTimerStub s frame = (k, s') ∧
        Handoff s c n { s.tasks c with
          state := .ready, preemptState := ⟨frame, true⟩, resumeAuthority := .interrupt } k s' ∧
        s'.Inv s'.current (rest ++ [c]) waiting := by
  rcases h.toQueued.stub_cases frame with hnoted | ⟨c, n, k, s', hframe, hpass, hk, heq, hs'⟩
  · exact .inl hnoted
  · obtain ⟨rest, hready, hinv⟩ := rotate (s := s.bindFrame c frame) (h.bindFrame c hframe)
      (Sched.CanPass.bindFrame.mpr hpass)
    refine .inr ⟨c, n, rest, k, s', hpass.current, hready, hframe, heq, ?_⟩
    rcases hs' with rfl | rfl
    · exact ⟨⟨hpass.ne, hpass.next_ready, hk, rfl, hpass.preempted_tasks frame⟩, hinv⟩
    · exact ⟨⟨hpass.ne, hpass.next_ready, hk, rfl, hpass.preempted_tasks frame⟩,
        hinv.of_eq rfl rfl rfl⟩

/-! ## Blocking and waking -/

/-- The running task leaves the CPU for a wait queue. -/
theorem stranded (h : s.Inv s.current ready waiting) (hchecks : s.CanBlock t q) :
    (s.stranded t q).Inv none ready (update waiting q (waiting q ++ [t])) := by
  rw [hchecks.current] at h
  have hmem : ∀ q', t ∉ waiting q' := by
    intro q' ht
    rw [h.waiting_iff, hchecks.unqueued] at ht
    cases ht
  have hroom : (waiting q).length < taskMaxTasks := by
    rw [← (h.waitQueue q).ring.count]
    exact hchecks.room
  refine h.move ((h.waitQueue q).push hchecks.initialized hroom (hmem q))
    (fun u hu => ?_) (fun q' => ?_) ⟨nofun, nofun⟩ (fun u hu => ?_) (fun hc => ?_) (fun _ => nofun)
    ⟨fun _ => nofun, fun _ => rfl⟩
  · rw [List.mem_append, List.mem_singleton, or_iff_left hu]
  · by_cases hq : q' = q
    · subst hq
      simp
    · simp [update_of_ne hq, hmem q', Ne.symm hq]
  · exact ⟨nofun, fun heq => absurd (Option.some.inj heq).symm hu⟩
  · exact absurd hc (h.not_mem_ready (by rw [hchecks.running]; decide))

/-- **`task_block`** refuses, or parks the running task in the wait queue and hands the
CPU to the first task of the runqueue. -/
theorem block (h : s.Inv s.current ready waiting) (t : TaskRef) (q : WaitQueueRef)
    (registers : Context) :
    (∃ code, -10 ≤ code ∧ taskBlock s t q registers = (.returns code, s)) ∨
      ∃ n rest k s', s.current = some t ∧ ready = n :: rest ∧
        taskBlock s t q registers = (.resumes k, s') ∧
        Handoff s t n { s.tasks t with
          state := .blocked, waitQueue := some q, resumeAuthority := .context,
          context := registers } k s' ∧
        s'.Inv s'.current rest (update waiting q (waiting q ++ [t])) := by
  rcases h.toQueued.block_cases t q registers with
    ⟨hrefused, -⟩ | ⟨hchecks, n, hhead, hn, ⟨hnone, -⟩ | ⟨-, k, hk, heq⟩⟩
  · exact .inl hrefused
  · obtain ⟨target, k, hresolve, -⟩ := h.resolve hn
    exact nomatch hnone.symm.trans hresolve
  · obtain ⟨rest, rfl⟩ := List.head?_eq_some_iff.mp hhead
    have hne : n ≠ t := by
      rintro rfl
      exact absurd (hchecks.running.symm.trans hn) (by decide)
    have hkept : (s.irqSave.stranded t q).tasks n = s.tasks n := update_of_ne hne _ _
    have hparked : (s.irqSave.stranded t q).tasks t = { s.tasks t with
        state := .blocked, waitQueue := some q, resumeAuthority := .context } :=
          Sched.setTask_self _ _ _
    have hinv : (s.irqSave.stranded t q).Inv none (n :: rest) _ :=
      (h.stranded hchecks).of_eq rfl rfl rfl
    refine .inr ⟨n, rest, k, _, hchecks.current, rfl, heq, ?_,
      hinv.handedOver hne registers fun _ => by rw [hparked]⟩
    have hhandoff := Handoff.of_handedOver registers hne (hkept ▸ hn) (hkept ▸ hk)
    rw [hparked] at hhandoff
    exact hhandoff.rebase s _ rfl

/-- A blocked task leaves its wait queue for the runqueue. -/
theorem woken {queue : TaskQueue} (h : s.Inv s.current ready waiting)
    (hq : (s.tasks t).waitQueue = some q) (hremove : (s.waitQueues q).remove t = some queue)
    (hroom : ready.length < taskMaxTasks) (hnot : t ∉ ready) :
    (s.woken t q queue).Inv s.current (ready ++ [t]) (update waiting q ((waiting q).erase t)) := by
  have hblocked : (s.tasks t).state = .blocked := (h.blocked_iff t).mpr (by rw [hq]; exact nofun)
  obtain ⟨queue', hremove', hholds, -⟩ := (h.waitQueue q).remove ((h.waiting_iff q t).mpr hq)
  obtain rfl : queue' = queue := Option.some.inj (hremove'.symm.trans hremove)
  have hmoved : ((s.setWaitQueue q queue').setTask t
      { s.tasks t with waitQueue := none, state := .ready }).Inv s.current ready
      (update waiting q ((waiting q).erase t)) := by
    refine h.move hholds (fun u hu => List.mem_erase_of_ne hu) (fun q' => ?_)
      ⟨fun howner => ?_, nofun⟩ (fun _ _ => Iff.rfl) (fun _ => rfl)
      (fun _ => h.resumable t (by rw [hblocked]; rfl))
      ⟨nofun, fun hne => absurd rfl hne⟩
    · by_cases hq' : q' = q
      · subst hq'
        rw [update_self]
        exact ⟨fun hmem' => absurd hmem' (h.waitQueue q').nodup.not_mem_erase, nofun⟩
      · rw [update_of_ne hq', h.waiting_iff, hq]
        exact ⟨fun heq => absurd (Option.some.inj heq).symm hq', nofun⟩
    · rw [(h.running t).mp howner] at hblocked
      cases hblocked
  exact (hmoved.enqueue (congrArg Task.state (Sched.setTask_self _ _ _)) hnot hroom).2

/-- **`task_wake`** refuses, or moves a blocked task from its wait queue to the end of the
runqueue. -/
theorem wake (h : s.Inv s.current ready waiting) (t : TaskRef) :
    (∃ code, (-8 ≤ code ∧ code < 0) ∧ taskWake s t = (code, s)) ∨
      ∃ q s', (s.tasks t).state = .blocked ∧ taskWake s t = (0, s') ∧ s'.current = s.current ∧
        s'.tasks = update s.tasks t { s.tasks t with state := .ready, waitQueue := none } ∧
        s'.Inv s'.current (ready ++ [t]) (update waiting q ((waiting q).erase t)) := by
  rcases h.toQueued.wake_cases t with hrefused | ⟨hblocked, hroom, hnot, q, queue, hq, hremove, heq⟩
  · exact .inl hrefused
  · exact .inr ⟨q, _, hblocked, heq, rfl, rfl, h.woken hq hremove hroom hnot⟩

/-! ## Ending -/

/-- `scheduler_exit_current` after the running task has ended: the CPU is halted exactly
when nobody is runnable. -/
theorem exitCurrent (h : s.Inv none ready waiting) (hcurrent : s.current = some c)
    (hstate : (s.tasks c).state = .terminated) (hflag : s.interruptFlag = false)
    (registers : Context) :
    (ready = [] ∧ schedulerExitCurrent s c registers = (.halts, s)) ∨
      ∃ n rest k s', ready = n :: rest ∧ schedulerExitCurrent s c registers = (.resumes k, s') ∧
        Handoff s c n { s.tasks c with context := registers } k s' ∧
        s'.Inv s'.current rest waiting := by
  have hsame : s.irqSave = s := by
    rw [Sched.irqSave, ← hflag]
  unfold schedulerExitCurrent
  rw [if_neg (not_not.mpr hcurrent), if_neg (not_not.mpr hstate), hflag, h.peek_eq, hsame]
  cases ready with
  | nil => exact .inl ⟨rfl, rfl⟩
  | cons n rest =>
      right
      obtain ⟨k, s', heq, hhandoff, hinv⟩ :=
        h.handOver (c := c) (by rw [hstate]; decide) (-4) registers (by rw [hstate]; exact nofun)
      exact ⟨n, rest, k, s', rfl, heq, hhandoff, hinv⟩

/-- `task_exit` of the running task. -/
theorem exit (h : s.Inv (some c) ready waiting) :
    taskExit s c = some (s.setTask c { s.tasks c with
        state := .terminated, resumeAuthority := .none }) ∧
      (s.setTask c { s.tasks c with
        state := .terminated, resumeAuthority := .none }).Inv none ready waiting := by
  have hrunning := h.running_of_owner
  constructor
  · rw [taskExit, if_neg (not_not.mpr hrunning), Sched.transition,
      taskTransition_of_allows (by rw [hrunning]; rfl)]
    simp [Sched.setTask]
  · refine h.release _ (.inr rfl) rfl fun hready => ?_
    cases hready

/-- **The end of a task** hands the CPU to the first task of the runqueue, and halts it
when there is none. -/
theorem bootstrapExit (h : s.Inv s.current ready waiting) (hcurrent : s.current = some c)
    (registers : Context) :
    (∃ s', ready = [] ∧ taskBootstrapExit s c registers = (.halts, s') ∧ s'.current = some c ∧
        s'.tasks = update s.tasks c { s.tasks c with
          state := .terminated, resumeAuthority := .none } ∧ s'.Inv none [] waiting) ∨
      ∃ n rest k s', ready = n :: rest ∧ taskBootstrapExit s c registers = (.resumes k, s') ∧
        Handoff s c n { s.tasks c with
          state := .terminated, resumeAuthority := .none, context := registers } k s' ∧
        s'.Inv s'.current rest waiting := by
  rw [hcurrent] at h
  have hsaved : s.irqSave.Inv (some c) ready waiting := h.of_eq rfl rfl rfl
  obtain ⟨hexit, hexited⟩ := hsaved.exit
  unfold taskBootstrapExit
  rw [hexit]
  dsimp only
  rcases hexited.exitCurrent (c := c) hcurrent (by simp [Sched.setTask]) rfl registers with
    ⟨rfl, heq⟩ | ⟨n, rest, k, s', rfl, heq, hhandoff, hinv⟩
  · left
    rw [heq]
    exact ⟨_, rfl, rfl, hcurrent, rfl, hexited.of_eq rfl rfl rfl⟩
  · right
    rw [heq]
    refine ⟨n, rest, k, s', rfl, rfl, ?_, hinv⟩
    rw [Sched.setTask_self] at hhandoff
    exact hhandoff.rebase s { s.tasks c with state := .terminated, resumeAuthority := .none } rfl

/-- A task object that is in no use is filled with a READY task. -/
theorem create (h : s.Inv s.current ready waiting)
    (hfree : (s.tasks t).state = .new ∨ (s.tasks t).state = .terminated)
    (hready : task.state = .ready) (hqueue : task.waitQueue = none)
    (hresumable : task.continuation ≠ none) :
    (s.setTask t task).Inv s.current ready waiting := by
  have hstate : ∀ state, state ≠ .new → state ≠ .terminated → (s.tasks t).state ≠ state := by
    rintro state hnew hterminated rfl
    exact hfree.elim hnew hterminated
  have hnone : (s.tasks t).waitQueue = none :=
    h.waitQueue_eq_none (hstate _ (by decide) (by decide))
  refine h.setTask ?_ (fun _ _ => Iff.rfl) (fun _ => hready) (fun _ => hresumable)
    (hqueue.trans hnone.symm) ?_
  · rw [h.running t, hready]
    exact ⟨fun hrun => absurd hrun (hstate _ (by decide) (by decide)), nofun⟩
  · rw [hready, hqueue]
    exact ⟨nofun, fun hne => absurd rfl hne⟩

/-- A new wait queue. -/
theorem initQueue (h : s.Inv s.current ready waiting)
    (hnew : (s.waitQueues q).initialized = false) :
    (waitQueueInit s q).Inv s.current ready waiting := by
  have hempty : waiting q = [] := by
    by_contra hne
    rw [(h.waitQueue q).initialized hne] at hnew
    cases hnew
  refine { h with waitQueue := ?_ }
  refine (forall_update_iff s.waitQueues fun q' queue => queue.Holds (waiting q')).mpr
    ⟨?_, fun q' _ => h.waitQueue q'⟩
  rw [hempty]
  exact TaskQueue.holds_empty true

end Sched.Inv

end Batos
