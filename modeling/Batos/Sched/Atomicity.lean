import Batos.Sched.Ownership

/-!
# Failures of the scheduler

What the operations of the scheduler leave behind when they fail, in states of which nothing
is known but that the runqueue is in order (`Sched.Queued`).  A task may have been admitted to
the runqueue without a continuation that could be resumed, since `scheduler_add` looks at
nothing but the state of the task; the runqueue may be full; and tasks may have been moved by
`task_transition` while they were queued.

`scheduler_yield`, `scheduler_preempt_current` and `task_wake` make all their checks before
they change anything, or undo what they have changed (`failures_change_nothing`).  The one
failure that comes after a change is that of the enqueuing of the current task, and there
the way back is exact.

`task_block` does not ask whether the next task can be resumed until the current task is
BLOCKED and in the wait queue.  If it cannot, the call fails with the current task still in
possession of the CPU but in no state to run (`taskBlock_atomic_iff`).
-/

namespace Batos

open Function Option
open Sched (giveCpu setTask setTask_self)

variable {c n t : TaskRef}

/-- The runqueue is in order and holds these tasks. -/
structure Sched.Queued (s : Sched) (ready : List TaskRef) : Prop where
  initialized : s.runqueue.initialized = true
  runqueue : s.runqueue.Holds ready

/-- The CPU passes from `c`, which goes to the end of the runqueue, to `n`, its first task. -/
def Sched.rotate (s : Sched) (c n : TaskRef) : Sched :=
  { s with
    tasks := update (update s.tasks c { s.tasks c with state := .ready }) n
      { s.tasks n with state := .running }
    runqueue := (s.runqueue.push c).pop.2
    current := some n
    dispatchCount := s.dispatchCount + 1 }

theorem Sched.rotate_next (s : Sched) (c n : TaskRef) :
    (s.rotate c n).tasks n = { s.tasks n with state := .running } :=
  update_self _ _ _

theorem Sched.rotate_outgoing (s : Sched) (hne : n ≠ c) :
    (s.rotate c n).tasks c = { s.tasks c with state := .ready } :=
  (update_of_ne hne.symm _ _).trans (update_self _ _ _)

/-- The other tasks are not touched. -/
theorem Sched.rotate_of_ne (s : Sched) (hc : t ≠ c) (hn : t ≠ n) :
    (s.rotate c n).tasks t = s.tasks t :=
  (update_of_ne hn _ _).trans (update_of_ne hc _ _)

/-! ## Steps that several operations share -/

section Steps

variable {s : Sched} {t c n : TaskRef} {rest ready : List TaskRef}

theorem Sched.transition_of_allows {newState : TaskState}
    (h : (s.tasks t).state.allows newState = true) :
    s.transition t newState = some (s.setTask t { s.tasks t with state := newState }) := by
  rw [Sched.transition, taskTransition_of_allows h]
  rfl

theorem Sched.setTask_setTask (s : Sched) (t : TaskRef) (task task' : Task) :
    (s.setTask t task).setTask t task' = s.setTask t task' := by
  unfold setTask
  rw [update_idem]

theorem Sched.setTask_same (s : Sched) (t : TaskRef) : s.setTask t (s.tasks t) = s := by
  unfold setTask
  rw [update_eq_self]

/-- A running task that was made READY runs again as if nothing had happened. -/
theorem Sched.transition_back (hrunning : (s.tasks t).state = .running) :
    ((s.setTask t { s.tasks t with state := .ready }).transition t .running).getD
      (s.setTask t { s.tasks t with state := .ready }) = s := by
  have hready : ((s.setTask t { s.tasks t with state := .ready }).tasks t).state.allows .running =
      true := by
    rw [setTask_self]
    rfl
  have hback : { (s.setTask t { s.tasks t with state := .ready }).tasks t with
      state := .running } = s.tasks t := by
    rw [setTask_self, ← hrunning]
  rw [Sched.transition_of_allows hready, getD_some, hback, Sched.setTask_setTask,
    Sched.setTask_same]

/-- Whatever the slots hold, what is found in a queue can be taken out of it. -/
theorem TaskQueue.remove_of_contains {queue : TaskQueue} (h : queue.contains t = true) :
    ∃ queue', queue.remove t = some queue' := by
  rw [TaskQueue.contains, Bool.and_eq_true, RingBuffer.contains, List.any_eq_true] at h
  obtain ⟨hinit, offset, hoffset, hslot⟩ := h
  rw [TaskQueue.remove, if_pos hinit, RingBuffer.remove]
  cases hfound : (List.range queue.ring.count).find? fun offset =>
      decide (queue.ring.slots (RingBuffer.position queue.ring.head offset) = some t) with
  | none =>
      rw [List.find?_eq_none] at hfound
      exact absurd hslot (hfound offset hoffset)
  | some offset => exact ⟨_, rfl⟩

/-- What is resolved can be resumed. -/
theorem exists_continuation {target : ResumeTarget} (h : schedulerResolveTarget s t = some target) :
    ∃ k, (s.tasks t).continuation = some k := by
  rcases schedulerResolveTarget_cases h with ⟨-, hk⟩ | ⟨frame, -, -, hk⟩
  · exact ⟨_, hk⟩
  · exact ⟨_, hk⟩

theorem Sched.Queued.peek_eq (h : s.Queued ready) : schedulerPeekNext s = ready.head? :=
  h.runqueue.peek_eq

/-- `runqueue_enqueue` looks at the state, the room and the tasks that are there. -/
theorem Sched.Queued.enqueue (h : s.Queued ready) (t : TaskRef) :
    runqueueEnqueue s t =
      if (s.tasks t).state = .ready ∧ ready.length < taskMaxTasks ∧ t ∉ ready then
        (0, { s with runqueue := s.runqueue.push t })
      else (-1, s) := by
  have hiff : s.runqueue.accepts .ready s.tasks t = true ↔
      (s.tasks t).state = .ready ∧ ready.length < taskMaxTasks ∧ t ∉ ready :=
    h.runqueue.accepts_iff h.initialized
  by_cases haccepts : s.runqueue.accepts .ready s.tasks t = true
  · rw [runqueueEnqueue, if_pos haccepts, if_pos (hiff.mp haccepts)]
  · rw [runqueueEnqueue, if_neg haccepts, if_neg fun hno => haccepts (hiff.mpr hno)]

/-- **The transfer of the CPU** from the running task `c` to the READY task `n`, as far as it
has been decided when `c` is made READY: the runqueue refuses `c`, or everything that follows
succeeds. -/
theorem Sched.Queued.transfer (h : s.Queued (n :: rest)) (hc : (s.tasks c).state = .running)
    (hn : (s.tasks n).state = .ready) :
    ∃ s₁, s.transition c .ready = some s₁ ∧
      ((¬ ((n :: rest).length < taskMaxTasks ∧ c ∉ n :: rest) ∧ runqueueEnqueue s₁ c = (-1, s₁) ∧
          (s₁.transition c .running).getD s₁ = s) ∨
        ((n :: rest).length < taskMaxTasks ∧ c ∉ n :: rest ∧ ∃ s₂ s₃ s₄,
          runqueueEnqueue s₁ c = (0, s₂) ∧ schedulerTakeNext s₂ = (some n, s₃) ∧
          (s₃.tasks n).state = .ready ∧ s₃.transition n .running = some s₄ ∧
          s₄.giveCpu n = s.rotate c n)) := by
  have hne : n ≠ c := by
    rintro rfl
    exact absurd (hc.symm.trans hn) (by decide)
  obtain ⟨s₁, hs₁⟩ : ∃ s₁, s₁ = s.setTask c { s.tasks c with state := .ready } := ⟨_, rfl⟩
  have hready : (s₁.tasks c).state = .ready := by
    rw [hs₁, setTask_self]
  have hkept : s₁.tasks n = s.tasks n := by
    rw [hs₁]
    exact update_of_ne hne _ _
  have hqueued : s₁.Queued (n :: rest) := by
    rw [hs₁]
    exact ⟨h.initialized, h.runqueue⟩
  have hrelease : s.transition c .ready = some s₁ := by
    rw [hs₁]
    exact Sched.transition_of_allows (by rw [hc]; rfl)
  refine ⟨s₁, hrelease, ?_⟩
  by_cases hroom : (n :: rest).length < taskMaxTasks ∧ c ∉ n :: rest
  · right
    obtain ⟨queue, hpop, -, -⟩ := (hqueued.runqueue.push hqueued.initialized hroom.1 hroom.2).pop
    refine ⟨hroom.1, hroom.2, { s₁ with runqueue := s₁.runqueue.push c },
      { s₁ with runqueue := queue }, _, ?_, ?_, ?_, Sched.transition_of_allows ?_, ?_⟩
    · rw [hqueued.enqueue, if_pos ⟨hready, hroom⟩]
    · rw [schedulerTakeNext, runqueueDequeue, hpop]
    · rw [hkept, hn]
    · rw [hkept, hn]
      rfl
    · have hqueue : queue = (s.runqueue.push c).pop.2 := by
        rw [hs₁] at hpop
        exact (congrArg Prod.snd hpop).symm
      unfold giveCpu Sched.rotate setTask
      dsimp only
      rw [hkept, hqueue, hs₁]
      rfl
  · refine .inl ⟨hroom, by rw [hqueued.enqueue, if_neg fun hno => hroom hno.2], ?_⟩
    rw [hs₁]
    exact Sched.transition_back hc

end Steps

/-! ## The operations -/

/-- The CPU can pass from the running task `c` to `n`, the first of the runqueue. -/
structure Sched.CanPass (s : Sched) (ready : List TaskRef) (c n : TaskRef) : Prop where
  current : s.current = some c
  running : (s.tasks c).state = .running
  head : ready.head? = some n
  next_ready : (s.tasks n).state = .ready
  room : ready.length < taskMaxTasks
  absent : c ∉ ready

/-- After a yield: `c` has left its registers in its context. -/
def Sched.yielded (s : Sched) (c n : TaskRef) (registers : Context) : Sched :=
  ((s.rotate c n).setTask c
    { (s.rotate c n).tasks c with resumeAuthority := .context, context := registers }).irqRestore
    true

/-- After a wake-up: the task has left the wait queue, which is now `queue`. -/
def Sched.woken (s : Sched) (t : TaskRef) (q : WaitQueueRef) (queue : TaskQueue) : Sched :=
  { (s.setWaitQueue q queue).setTask t { s.tasks t with waitQueue := none, state := .ready } with
    runqueue := s.runqueue.push t }

section Operations

variable {s : Sched} {ready : List TaskRef}

/-- **`scheduler_yield`** fails and changes nothing, or passes the CPU on. -/
theorem Sched.Queued.yield_cases (h : s.Queued ready) (registers : Context) :
    (∃ code, (-6 ≤ code ∧ code < 0) ∧ schedulerYield s registers = (.returns code, s) ∧
        ∀ c n target, s.CanPass ready c n → schedulerResolveTarget s n ≠ some target) ∨
      ∃ c n target k, s.CanPass ready c n ∧ schedulerResolveTarget s n = some target ∧
        (s.tasks n).continuation = some k ∧
        schedulerYield s registers = (.resumes k, s.yielded c n registers) := by
  unfold schedulerYield
  cases hcurrent : s.current with
  | none =>
      exact .inl ⟨-1, by decide, rfl, fun c n _ hpass => nomatch hcurrent.symm.trans hpass.current⟩
  | some c =>
      have hthis : ∀ {c' n}, s.CanPass ready c' n → c' = c := fun hpass =>
        some.inj (hpass.current.symm.trans hcurrent)
      dsimp only
      by_cases hrunning : (s.tasks c).state = .running
      · rw [if_neg (not_not.mpr hrunning)]
        have hsaved : s.irqSave.Queued ready := ⟨h.initialized, h.runqueue⟩
        rw [hsaved.peek_eq]
        cases ready with
        | nil => exact .inl ⟨-3, by decide, rfl, fun _ _ _ hpass => nomatch hpass.head⟩
        | cons n rest =>
            have hhead : ∀ {c' n'}, s.CanPass (n :: rest) c' n' → n' = n := fun hpass =>
              (some.inj hpass.head).symm
            rw [List.head?_cons]
            dsimp only
            by_cases hn : (s.irqSave.tasks n).state = .ready
            · rw [if_neg (not_not.mpr hn)]
              cases hresolve : schedulerResolveTarget s.irqSave n with
              | none =>
                  refine .inl ⟨-5, by decide, rfl, fun c' n' target hpass hsome => ?_⟩
                  rw [hhead hpass] at hsome
                  exact nomatch hsome.symm.trans hresolve
              | some target =>
                  obtain ⟨k, hk⟩ := exists_continuation hresolve
                  obtain ⟨s₁, hrelease, htransfer⟩ := hsaved.transfer hrunning hn
                  simp only [hrelease]
                  rcases htransfer with ⟨hno, hrefused, hback⟩ |
                    ⟨hroom, habsent, s₂, s₃, s₄, henqueue, htake, hn₃, hclaim, hgiven⟩
                  · -- the runqueue refuses the task, which is put back
                    left
                    refine ⟨-6, by decide, ?_, fun c' n' _ hpass _ => hno ⟨hpass.room,
                      hthis hpass ▸ hpass.absent⟩⟩
                    simp only [hrefused, hback]
                    rfl
                  · right
                    have hne : n ≠ c := by
                      rintro rfl
                      exact habsent List.mem_cons_self
                    have hcontext : (((s₄.giveCpu n).setTask c { (s₄.giveCpu n).tasks c with
                        resumeAuthority := .context }).tasks n).context =
                          (s.irqSave.tasks n).context := by
                      rw [hgiven]
                      refine (congrArg Task.context (update_of_ne hne _ _)).trans ?_
                      rw [Sched.rotate_next]
                    refine ⟨c, n, target, k, ⟨hcurrent, hrunning, rfl, hn, hroom, habsent⟩,
                      hresolve, hk, ?_⟩
                    simp only [henqueue, htake, hn₃, hclaim, ne_eq, not_true_eq_false, if_false]
                    rw [dispatchOrHalt_of_resolve hne hresolve hk hcontext, hgiven,
                      Sched.saveContext, setTask_self, Sched.setTask_setTask]
                    rfl
            · rw [if_pos hn]
              exact .inl ⟨-4, by decide, rfl, fun c' n' _ hpass => absurd (hhead hpass ▸
                hpass.next_ready) hn⟩
      · rw [if_pos hrunning]
        exact .inl ⟨-2, by decide, rfl, fun c' n' _ hpass => absurd (hthis hpass ▸
          hpass.running) hrunning⟩

/-- **`scheduler_preempt_current`** fails and changes nothing, or passes the CPU on. -/
theorem Sched.Queued.preempt_cases (h : s.Queued ready) (expected : TaskRef) :
    (∃ code next, -6 ≤ code ∧ (code < 0 ∨ next = s.current) ∧
        schedulerPreemptCurrent s expected = (code, next, s) ∧ ∀ c, ¬ s.CanPass ready c expected) ∨
      ∃ c, s.CanPass ready c expected ∧
        schedulerPreemptCurrent s expected = (0, some expected, s.rotate c expected) := by
  unfold schedulerPreemptCurrent
  cases hcurrent : s.current with
  | none =>
      exact .inl ⟨-2, none, by decide, .inr rfl, rfl, fun c hpass =>
        nomatch hcurrent.symm.trans hpass.current⟩
  | some c =>
      have hthis : ∀ {c'}, s.CanPass ready c' expected → c' = c := fun hpass =>
        some.inj (hpass.current.symm.trans hcurrent)
      dsimp only
      by_cases hrunning : (s.tasks c).state = .running
      · rw [if_neg (not_not.mpr hrunning), h.peek_eq]
        cases ready with
        | nil => exact .inl ⟨1, some c, by decide, .inr rfl, rfl, fun _ hpass => nomatch hpass.head⟩
        | cons n rest =>
            rw [List.head?_cons]
            dsimp only
            by_cases hexpected : n = expected
            · subst hexpected
              rw [if_neg (not_not.mpr rfl)]
              by_cases hn : (s.tasks n).state = .ready
              · rw [if_neg (not_not.mpr hn)]
                obtain ⟨s₁, hrelease, htransfer⟩ := h.transfer hrunning hn
                simp only [hrelease]
                rcases htransfer with ⟨hno, hrefused, hback⟩ |
                  ⟨hroom, habsent, s₂, s₃, s₄, henqueue, htake, -, hclaim, hgiven⟩
                · left
                  refine ⟨-6, none, by decide, .inl (by decide), ?_,
                    fun c' hpass => hno ⟨hpass.room, hthis hpass ▸ hpass.absent⟩⟩
                  simp only [hrefused, hback]
                  rfl
                · right
                  refine ⟨c, ⟨hcurrent, hrunning, rfl, hn, hroom, habsent⟩, ?_⟩
                  simp only [henqueue, htake, hclaim, ne_eq, not_true_eq_false, if_false, hgiven]
              · rw [if_pos hn]
                exact .inl ⟨-5, none, by decide, .inl (by decide), rfl,
                  fun _ hpass => absurd hpass.next_ready hn⟩
            · rw [if_pos hexpected]
              exact .inl ⟨-4, none, by decide, .inl (by decide), rfl,
                fun _ hpass => absurd (some.inj hpass.head) hexpected⟩
      · rw [if_pos hrunning]
        exact .inl ⟨-3, none, by decide, .inl (by decide), rfl,
          fun _ hpass => absurd (hthis hpass ▸ hpass.running) hrunning⟩

/-- **`task_wake`** fails and changes nothing, or moves a BLOCKED task to the runqueue. -/
theorem Sched.Queued.wake_cases (h : s.Queued ready) (t : TaskRef) :
    (∃ code, (-8 ≤ code ∧ code < 0) ∧ taskWake s t = (code, s)) ∨
      ((s.tasks t).state = .blocked ∧ ready.length < taskMaxTasks ∧ t ∉ ready ∧
        ∃ q queue, (s.tasks t).waitQueue = some q ∧ (s.waitQueues q).remove t = some queue ∧
          taskWake s t = (0, s.woken t q queue)) := by
  unfold taskWake
  by_cases hblocked : (s.tasks t).state = .blocked
  swap
  · rw [if_pos hblocked]
    exact .inl ⟨-2, by decide, rfl⟩
  rw [if_neg (not_not.mpr hblocked)]
  cases hq : (s.tasks t).waitQueue with
  | none => exact .inl ⟨-3, by decide, rfl⟩
  | some q =>
      have hblocked' : (s.irqSave.tasks t).state = .blocked := hblocked
      have hq' : (s.irqSave.tasks t).waitQueue = some q := hq
      have hcount : s.irqSave.runqueue.count = ready.length := by
        have hinit : s.irqSave.runqueue.initialized = true := h.initialized
        rw [TaskQueue.count, if_pos hinit]
        exact h.runqueue.ring.count
      dsimp only
      rw [if_neg (some_ne_none q), if_neg (not_not.mpr hblocked'), hq', hcount]
      dsimp only
      cases hcontains : (s.irqSave.waitQueues q).contains t with
      | false => exact .inl ⟨-6, by decide, rfl⟩
      | true =>
          rw [if_neg (by decide)]
          by_cases hfull : taskMaxTasks ≤ ready.length
          · rw [if_pos hfull]
            exact .inl ⟨-7, by decide, rfl⟩
          · rw [if_neg hfull]
            by_cases hqueued : s.irqSave.runqueue.contains t = true
            · rw [if_pos hqueued]
              exact .inl ⟨-8, by decide, rfl⟩
            · right
              rw [if_neg hqueued]
              obtain ⟨queue, hremove⟩ := TaskQueue.remove_of_contains hcontains
              -- the task leaves its wait queue, is READY, and finds room
              obtain ⟨s₁, hs₁⟩ : ∃ s₁, s₁ = (s.irqSave.setWaitQueue q queue).setTask t
                ((s.irqSave.tasks t).leaveQueue q) := ⟨_, rfl⟩
              have hleave : (s₁.tasks t).state.allows .ready = true := by
                rw [hs₁, setTask_self, Task.leaveQueue, if_pos hq', hblocked']
                rfl
              have hrunqueue : (s₁.setTask t { s₁.tasks t with state := .ready }).Queued ready := by
                rw [hs₁]
                exact ⟨h.initialized, h.runqueue⟩
              have hmem : t ∉ ready := fun hmem => hqueued ((h.runqueue.contains_iff t).mpr hmem)
              have hroom : ready.length < taskMaxTasks := Nat.lt_of_not_le hfull
              have hadd : schedulerAdd (s₁.setTask t { s₁.tasks t with state := .ready }) t =
                  (0, { s₁.setTask t { s₁.tasks t with state := .ready } with
                    runqueue := s₁.runqueue.push t }) := by
                have hready : ((s₁.setTask t { s₁.tasks t with state := .ready }).tasks t).state =
                    .ready := by
                  rw [setTask_self]
                rw [schedulerAdd, if_neg (not_not.mpr hready), hrunqueue.enqueue,
                  if_pos ⟨hready, hroom, hmem⟩]
                rfl
              have hout : waitQueueRemove s.irqSave q t = (0, s₁) := by
                rw [waitQueueRemove, hremove, hs₁]
              rw [hout]
              dsimp only
              rw [if_neg (not_not.mpr rfl), Sched.transition_of_allows hleave]
              dsimp only
              rw [hadd]
              refine ⟨hblocked, hroom, hmem, q, queue, rfl, hremove, ?_⟩
              dsimp only
              rw [if_neg (not_not.mpr rfl), hs₁, setTask_self, Sched.setTask_setTask,
                Task.leaveQueue, if_pos hq']
              rfl

end Operations

/-! ## Timer events -/

section Timer

variable {s : Sched} {ready : List TaskRef} {c n : TaskRef} {frame : Word}

/-- The CPU goes to another task. -/
theorem Sched.CanPass.ne (h : s.CanPass ready c n) : n ≠ c := by
  rintro rfl
  exact absurd (h.running.symm.trans h.next_ready) (by decide)

/-- The runqueue after `c` has gone to its end and `n` has left it. -/
theorem Sched.Queued.rotated (h : s.Queued ready) (hpass : s.CanPass ready c n) :
    ∃ rest, ready = n :: rest ∧ ((s.runqueue.push c).pop.2).Holds (rest ++ [c]) ∧
      ((s.runqueue.push c).pop.2).initialized = true := by
  obtain ⟨rest, rfl⟩ : ∃ rest, ready = n :: rest := List.head?_eq_some_iff.mp hpass.head
  have hpushed := h.runqueue.push h.initialized hpass.room hpass.absent
  rw [List.cons_append] at hpushed
  obtain ⟨queue, hpop, hholds, hinit⟩ := hpushed.pop
  rw [hpop]
  exact ⟨rest, rfl, hholds, hinit⟩

/-- The tasks after a yield. -/
theorem Sched.CanPass.yielded_tasks (h : s.CanPass ready c n) (registers : Context) :
    (s.yielded c n registers).tasks =
      update (update s.tasks n { s.tasks n with state := .running }) c
        { s.tasks c with state := .ready, resumeAuthority := .context, context := registers } := by
  show update (update (update s.tasks c _) n _) c _ = _
  rw [Sched.rotate_outgoing _ h.ne, update_comm h.ne.symm, update_idem]

theorem Sched.bindFrame_of_ne (hne : t ≠ c) :
    (s.bindFrame c frame).tasks t = s.tasks t :=
  update_of_ne hne _ _

theorem Sched.bindFrame_self : (s.bindFrame c frame).tasks c =
    { s.tasks c with preemptState := ⟨frame, true⟩, resumeAuthority := .interrupt } :=
  update_self _ _ _

/-- The frame does not matter to the transfer. -/
theorem Sched.CanPass.bindFrame {c' : TaskRef} :
    (s.bindFrame c frame).CanPass ready c' n ↔ s.CanPass ready c' n := by
  have hstate : ∀ t, ((s.bindFrame c frame).tasks t).state = (s.tasks t).state := by
    intro t
    by_cases hne : t = c
    · rw [hne, Sched.bindFrame_self]
    · rw [Sched.bindFrame_of_ne hne]
  constructor
  · rintro ⟨hcurrent, hrunning, hhead, hn, hroom, habsent⟩
    exact ⟨hcurrent, hstate c' ▸ hrunning, hhead, hstate n ▸ hn, hroom, habsent⟩
  · rintro ⟨hcurrent, hrunning, hhead, hn, hroom, habsent⟩
    exact ⟨hcurrent, (hstate c').trans hrunning, hhead, (hstate n).trans hn, hroom, habsent⟩

/-- **A timer event** notes its frame.  It passes the CPU on under the conditions of
`scheduler_yield`. -/
theorem Sched.Queued.timer_cases (h : s.Queued ready) (hcurrent : s.current = some c)
    (henabled : s.preemptEnabled = true) (hframe : frame ≠ 0) :
    (preemptHandleTimer s frame = (0, some (.interrupt frame), s.bindFrame c frame) ∧
        ∀ n target, s.CanPass ready c n → schedulerResolveTarget s n ≠ some target) ∨
      ∃ n target, s.CanPass ready c n ∧ schedulerResolveTarget s n = some target ∧
        preemptHandleTimer s frame = (0, some target, (s.bindFrame c frame).rotate c n) := by
  have hbound : (s.bindFrame c frame).Queued ready := ⟨h.initialized, h.runqueue⟩
  have hresolve : ∀ {n}, s.CanPass ready c n →
      schedulerResolveTarget (s.bindFrame c frame) n = schedulerResolveTarget s n := by
    intro n hpass
    rw [schedulerResolveTarget, Sched.bindFrame_of_ne hpass.ne, schedulerResolveTarget]
  unfold preemptHandleTimer
  rw [if_neg hframe, if_neg (by rw [henabled]; decide), hcurrent]
  dsimp only
  rw [hbound.peek_eq]
  cases hhead : ready.head? with
  | none => exact .inl ⟨rfl, fun n _ hpass => nomatch hhead.symm.trans hpass.head⟩
  | some n =>
      have hthis : ∀ {n'}, s.CanPass ready c n' → n' = n := fun hpass =>
        some.inj (hpass.head.symm.trans hhead)
      dsimp only
      cases htarget : schedulerResolveTarget (s.bindFrame c frame) n with
      | none =>
          refine .inl ⟨rfl, fun n' target hpass hsome => ?_⟩
          rw [← hresolve hpass, hthis hpass, htarget] at hsome
          cases hsome
      | some target =>
          dsimp only
          rcases hbound.preempt_cases n with ⟨code, next, -, hnext, heq, hno⟩ | ⟨c', hpass, heq⟩
          · left
            refine ⟨?_, fun n' _ hpass => absurd (Sched.CanPass.bindFrame.mpr hpass)
              (hthis hpass ▸ hno c)⟩
            rw [heq]
            dsimp only
            by_cases hfailed : code < 0 ∨ next = none
            · rw [if_pos hfailed]
            · -- there is no other task: the interrupted one goes on
              have hsame : next = some c :=
                (hnext.resolve_left fun hneg => hfailed (.inl hneg)).trans hcurrent
              rw [if_neg hfailed, if_pos hsame]
          · right
            obtain rfl : c' = c := some.inj (hpass.current.symm.trans hcurrent)
            have hpass' : s.CanPass ready c' n := Sched.CanPass.bindFrame.mp hpass
            refine ⟨n, target, hpass', (hresolve hpass').symm.trans htarget, ?_⟩
            rw [heq]
            dsimp only
            rw [if_neg (by simp), if_neg (fun hsame => hpass'.ne (some.inj hsame))]

/-- The tasks after a timer event that has passed the CPU on. -/
theorem Sched.CanPass.preempted_tasks (h : s.CanPass ready c n) (frame : Word) :
    ((s.bindFrame c frame).rotate c n).tasks =
      update (update s.tasks n { s.tasks n with state := .running }) c { s.tasks c with
        state := .ready, preemptState := ⟨frame, true⟩, resumeAuthority := .interrupt } := by
  show update (update (update s.tasks c _) c _) n _ = _
  rw [Sched.bindFrame_of_ne h.ne, Sched.bindFrame_self, update_idem, update_comm h.ne.symm]

/-- What a timer event that does not switch leaves behind: at most a note of its frame
in the interrupted task. -/
def Sched.Noted (s : Sched) (frame : Word) (s' : Sched) : Prop :=
  s' = s ∨ ∃ c, s.current = some c ∧ frame ≠ 0 ∧ s' = s.bindFrame c frame

/-- **A timer interrupt** returns to the interrupted task, or passes the CPU to the first task of
the runqueue. -/
theorem Sched.Queued.stub_cases (h : s.Queued ready) (frame : Word) :
    (∃ s', lapicTimerStub s frame = (.interrupt frame, s') ∧ s.Noted frame s') ∨
      ∃ c n k s', frame ≠ 0 ∧ s.CanPass ready c n ∧ (s.tasks n).continuation = some k ∧
        lapicTimerStub s frame = (k, s') ∧ (s' = (s.bindFrame c frame).rotate c n ∨
          s' = ((s.bindFrame c frame).rotate c n).irqRestore true) := by
  have hidle : ∀ code target {s'}, preemptHandleTimer s frame = (code, target, s') →
      code < 0 ∨ target = some (.interrupt frame) → lapicTimerStub s frame =
      (.interrupt frame, s') := by
    intro code target s' heq htarget
    rw [lapicTimerStub, heq]
    dsimp only
    rcases htarget with hneg | rfl
    · rw [if_pos hneg]
    · split <;> rfl
  by_cases hframe : frame = 0
  · exact .inl ⟨s, hidle (-1) none (by rw [preemptHandleTimer, if_pos hframe]) (.inl
      (by decide)), .inl rfl⟩
  by_cases henabled : s.preemptEnabled = false
  · refine .inl ⟨s, hidle 0 _ ?_ (.inr rfl), .inl rfl⟩
    rw [preemptHandleTimer, if_neg hframe, if_pos henabled]
  cases hcurrent : s.current with
  | none =>
      refine .inl ⟨s, hidle 0 _ ?_ (.inr rfl), .inl rfl⟩
      rw [preemptHandleTimer, if_neg hframe, if_neg henabled, hcurrent]
  | some c =>
      rcases h.timer_cases hcurrent (eq_true_of_ne_false henabled) hframe with
        ⟨heq, -⟩ | ⟨n, target, hpass, hresolve, heq⟩
      · exact .inl ⟨_, hidle 0 _ heq (.inr rfl), .inr ⟨c, hcurrent, hframe, rfl⟩⟩
      · right
        rw [lapicTimerStub, heq]
        dsimp only
        rw [if_neg (by decide)]
        rcases schedulerResolveTarget_cases hresolve with ⟨rfl, hk⟩ | ⟨frame', -, rfl, hk⟩
        · refine ⟨c, n, _, _, hframe, hpass, hk, ?_, .inr rfl⟩
          dsimp only
          rw [Sched.rotate_next, Sched.bindFrame_of_ne hpass.ne]
        · exact ⟨c, n, _, _, hframe, hpass, hk, rfl, .inl rfl⟩

end Timer

/-! ## Blocking -/

/-- What `task_block` checks of the task and the wait queue. -/
structure Sched.CanBlock (s : Sched) (t : TaskRef) (q : WaitQueueRef) : Prop where
  current : s.current = some t
  running : (s.tasks t).state = .running
  unqueued : (s.tasks t).waitQueue = none
  enabled : s.interruptFlag = true
  initialized : (s.waitQueues q).initialized = true
  room : (s.waitQueues q).ring.count < taskMaxTasks
  absent : (s.waitQueues q).contains t = false

/-- The task has been blocked but still has the CPU. -/
def Sched.stranded (s : Sched) (t : TaskRef) (q : WaitQueueRef) : Sched :=
  (s.setWaitQueue q ((s.waitQueues q).push t)).setTask t
    { s.tasks t with state := .blocked, waitQueue := some q, resumeAuthority := .context }

/-- The CPU has gone from `c`, which keeps its registers, to `n`, the first of the runqueue. -/
def Sched.handedOver (s : Sched) (c n : TaskRef) (registers : Context) : Sched :=
  (((setTask { s with runqueue := s.runqueue.pop.2 } n
    { s.tasks n with state := .running }).giveCpu n).saveContext c registers).irqRestore true

section Blocking

variable {s : Sched} {ready : List TaskRef} {t : TaskRef} {q : WaitQueueRef}

/-- A task that passes the checks is put into the wait queue. -/
theorem Sched.CanBlock.park (h : s.CanBlock t q) :
    ∃ s₁ s₂, s.irqSave.transition t .blocked = some s₁ ∧ waitQueueEnqueue s₁ q t = (0, s₂) ∧
      s₂.setTask t { s₂.tasks t with resumeAuthority := .context } = s.irqSave.stranded t q := by
  have hrunning : (s.irqSave.tasks t).state.allows .blocked = true := by
    rw [show (s.irqSave.tasks t).state = .running from h.running]
    rfl
  have hunqueued : (s.irqSave.tasks t).waitQueue = none := h.unqueued
  obtain ⟨s₁, hs₁⟩ : ∃ s₁, s₁ = s.irqSave.setTask t { s.irqSave.tasks t with state := .blocked } :=
    ⟨_, rfl⟩
  have htask : s₁.tasks t = { s.irqSave.tasks t with state := .blocked } := by
    rw [hs₁, setTask_self]
  have haccepts : ((s₁.waitQueues q).accepts .blocked s₁.tasks t && (s₁.tasks t).waitQueue.isNone) =
      true := by
    have hqueue : s₁.waitQueues q = s.waitQueues q := by rw [hs₁]; rfl
    rw [TaskQueue.accepts, hqueue, h.initialized, h.absent, htask, hunqueued,
      decide_eq_true (show (TaskState.blocked = .blocked) from rfl), decide_eq_true h.room]
    rfl
  refine ⟨s₁, _, ?_, by rw [waitQueueEnqueue, if_pos haccepts], ?_⟩
  · rw [Sched.transition_of_allows hrunning, hs₁]
  · rw [setTask_self, Sched.setTask_setTask, htask, hs₁, Sched.stranded]
    unfold setTask Sched.setWaitQueue
    dsimp only
    rw [update_idem]

/-- The common end of blocking and ending depends on whether the next task can be resumed. -/
theorem Sched.Queued.handOver_cases {rest : List TaskRef} (h : s.Queued (n :: rest))
    (hn : (s.tasks n).state = .ready) (hne : n ≠ c) (code : ℤ) (registers : Context) :
    (schedulerResolveTarget s n = none ∧ handOver s c n code registers = (.returns (code - 1), s)) ∨
      ((schedulerResolveTarget s n).isSome = true ∧
        ∃ k, (s.tasks n).continuation = some k ∧
          handOver s c n code registers = (.resumes k, s.handedOver c n registers)) := by
  rw [handOver, if_neg (not_not.mpr hn)]
  cases hresolve : schedulerResolveTarget s n with
  | none => exact .inl ⟨rfl, rfl⟩
  | some target =>
      refine .inr ⟨rfl, ?_⟩
      obtain ⟨k, hk⟩ := exists_continuation hresolve
      obtain ⟨queue, hpop, -, -⟩ := h.runqueue.pop
      have htake : schedulerTakeNext s = (some n, { s with runqueue := queue }) := by
        rw [schedulerTakeNext, runqueueDequeue, hpop]
      have hclaim : ({ s with runqueue := queue } : Sched).transition n .running =
          some (setTask { s with runqueue := queue } n { s.tasks n with state := .running }) :=
        Sched.transition_of_allows (by rw [hn]; rfl)
      have hcontext : ((giveCpu (setTask { s with runqueue := queue } n
          { s.tasks n with state := .running }) n).tasks n).context = (s.tasks n).context := by
        rw [giveCpu, setTask_self]
      dsimp only
      rw [htake]
      dsimp only
      rw [hclaim]
      dsimp only
      rw [dispatchOrHalt_of_resolve hne hresolve hk hcontext, Sched.handedOver, hpop]
      exact ⟨k, hk, rfl⟩

/-- **`task_block`** fails before it has changed anything, or it blocks the task.  Then the CPU
goes to the next task if that can be resumed, and otherwise to nobody. -/
theorem Sched.Queued.block_cases (h : s.Queued ready) (t : TaskRef) (q : WaitQueueRef)
    (registers : Context) :
    ((∃ code, -10 ≤ code ∧ taskBlock s t q registers = (.returns code, s)) ∧
        ¬ (s.CanBlock t q ∧ ∃ n, ready.head? = some n ∧ (s.tasks n).state = .ready)) ∨
      (s.CanBlock t q ∧ ∃ n, ready.head? = some n ∧ (s.tasks n).state = .ready ∧
        ((schedulerResolveTarget s n = none ∧
            taskBlock s t q registers = (.returns (-13), s.stranded t q)) ∨
          ((schedulerResolveTarget s n).isSome = true ∧ ∃ k, (s.tasks n).continuation = some k ∧
            taskBlock s t q registers =
              (.resumes k, (s.irqSave.stranded t q).handedOver t n registers)))) := by
  unfold taskBlock
  -- the checks, in the order of the source
  by_cases hcurrent : s.current = some t
  swap
  · rw [if_pos hcurrent]
    exact .inl ⟨⟨-2, by decide, rfl⟩, fun hno => hcurrent hno.1.current⟩
  rw [if_neg (not_not.mpr hcurrent)]
  by_cases hrunning : (s.tasks t).state = .running
  swap
  · rw [if_pos hrunning]
    exact .inl ⟨⟨-3, by decide, rfl⟩, fun hno => hrunning hno.1.running⟩
  rw [if_neg (not_not.mpr hrunning)]
  by_cases hunqueued : (s.tasks t).waitQueue = none
  swap
  · rw [if_pos (isSome_iff_ne_none.mpr hunqueued)]
    exact .inl ⟨⟨-4, by decide, rfl⟩, fun hno => hunqueued hno.1.unqueued⟩
  rw [if_neg (by rw [hunqueued]; decide)]
  by_cases henabled : s.interruptFlag = true
  swap
  · rw [if_pos (eq_false_of_ne_true henabled)]
    exact .inl ⟨⟨-5, by decide, rfl⟩, fun hno => henabled hno.1.enabled⟩
  rw [if_neg (by rw [henabled]; decide)]
  dsimp only
  by_cases hinitialized : (s.waitQueues q).initialized = true
  swap
  · have huninitialized : (s.irqSave.waitQueues q).initialized = false :=
      eq_false_of_ne_true hinitialized
    rw [if_pos huninitialized]
    exact .inl ⟨⟨-6, by decide, rfl⟩, fun hno => hinitialized hno.1.initialized⟩
  have hinitialized' : (s.irqSave.waitQueues q).initialized = true := hinitialized
  rw [if_neg (by rw [hinitialized']; decide)]
  by_cases hroom : (s.waitQueues q).ring.count < taskMaxTasks
  swap
  · have hfull : taskMaxTasks ≤ (s.irqSave.waitQueues q).ring.count := Nat.le_of_not_lt hroom
    rw [if_pos hfull]
    exact .inl ⟨⟨-7, by decide, rfl⟩, fun hno => hroom hno.1.room⟩
  have hroom' : ¬ taskMaxTasks ≤ (s.irqSave.waitQueues q).ring.count := Nat.not_le_of_lt hroom
  rw [if_neg hroom']
  by_cases habsent : (s.waitQueues q).contains t = false
  swap
  · have hpresent : (s.irqSave.waitQueues q).contains t = true := eq_true_of_ne_false habsent
    rw [if_pos hpresent]
    exact .inl ⟨⟨-8, by decide, rfl⟩, fun hno => habsent hno.1.absent⟩
  have habsent' : (s.irqSave.waitQueues q).contains t = false := habsent
  have hsaved : s.irqSave.Queued ready := ⟨h.initialized, h.runqueue⟩
  rw [if_neg (by rw [habsent']; decide), hsaved.peek_eq]
  have hchecks : s.CanBlock t q :=
    ⟨hcurrent, hrunning, hunqueued, henabled, hinitialized, hroom, habsent⟩
  cases ready with
  | nil => exact .inl ⟨⟨-9, by decide, rfl⟩, fun ⟨_, n, hhead, _⟩ => nomatch hhead⟩
  | cons n rest =>
      rw [List.head?_cons]
      dsimp only
      by_cases hn : (s.irqSave.tasks n).state = .ready
      · right
        refine ⟨hchecks, n, rfl, hn, ?_⟩
        -- the task is parked before anybody asks whether the next one can run
        obtain ⟨s₁, s₂, hblock, hpark, hstranded⟩ := hchecks.park
        simp only [hblock, hpark, hstranded, hn, ne_eq, not_true_eq_false, if_false]
        have hne : n ≠ t := by
          rintro rfl
          exact absurd (hrunning.symm.trans hn) (by decide)
        have hnext : (s.irqSave.stranded t q).tasks n = s.tasks n := update_of_ne hne _ _
        have hblocked : ((s.irqSave.stranded t q).tasks t).state = .blocked := by
          rw [Sched.stranded, setTask_self]
        have hqueued : (s.irqSave.stranded t q).Queued (n :: rest) := ⟨h.initialized, h.runqueue⟩
        have hresolve : schedulerResolveTarget (s.irqSave.stranded t q) n =
            schedulerResolveTarget s n := by
          rw [schedulerResolveTarget, hnext, schedulerResolveTarget]
        have hcurrent' : (s.irqSave.stranded t q).current = some t := hcurrent
        have hdisabled : (s.irqSave.stranded t q).interruptFlag = false := rfl
        rw [schedulerBlockCurrent, if_neg (not_not.mpr hcurrent'), if_neg (not_not.mpr hblocked),
          if_neg (by rw [hdisabled]; decide), hqueued.peek_eq, List.head?_cons]
        dsimp only
        have hready : ((s.irqSave.stranded t q).tasks n).state = .ready := by rw [hnext]; exact hn
        rcases hqueued.handOver_cases hready hne (-5) registers with
          ⟨hnone, heq⟩ | ⟨hsome, k, hk, heq⟩
        · refine .inl ⟨hresolve ▸ hnone, ?_⟩
          rw [heq]
          rfl
        · refine .inr ⟨hresolve ▸ hsome, k, hnext ▸ hk, ?_⟩
          rw [heq]
      · rw [if_pos hn]
        exact .inl ⟨⟨-10, by decide, rfl⟩, fun ⟨_, n', hhead, hready⟩ =>
          hn (some.inj hhead ▸ hready)⟩

end Blocking

/-! ## Atomicity -/

/-- What `task_block` must not have changed when it fails. -/
structure Sched.KeptBy (s s' : Sched) (t : TaskRef) (q : WaitQueueRef) : Prop where
  state : (s'.tasks t).state = (s.tasks t).state
  waitQueue : (s'.tasks t).waitQueue = (s.tasks t).waitQueue
  resumeAuthority : (s'.tasks t).resumeAuthority = (s.tasks t).resumeAuthority
  queue : s'.waitQueues q = s.waitQueues q
  runqueue : s'.runqueue = s.runqueue
  current : s'.current = s.current
  interruptFlag : s'.interruptFlag = s.interruptFlag

/-- **`task_block` is atomic on failure** if and only if it does not come to the point where the
next task turns out to have no continuation: some check fails before, or the first task of the
runqueue can be resumed. -/
theorem taskBlock_atomic_iff (s : Sched) (ready : List TaskRef) (h : s.Queued ready) (t : TaskRef)
    (q : WaitQueueRef) (registers : Context) :
    (∀ code s', taskBlock s t q registers = (.returns code, s') → code ≠ 0 → s.KeptBy s' t q) ↔
      ¬ (s.CanBlock t q ∧ ∃ n, ready.head? = some n ∧ (s.tasks n).state = .ready ∧
        schedulerResolveTarget s n = none) := by
  rcases h.block_cases t q registers with
    ⟨⟨code, -, heq⟩, hno⟩ | ⟨hchecks, n, hhead, hn, ⟨hnone, heq⟩ | ⟨hsome, k, -, heq⟩⟩
  · refine iff_of_true (fun code' s' heq' _ => ?_) fun ⟨hchecks, n, hhead, hn, _⟩ =>
      hno ⟨hchecks, n, hhead, hn⟩
    rw [heq, Prod.mk.injEq] at heq'
    rw [← heq'.2]
    exact ⟨rfl, rfl, rfl, rfl, rfl, rfl, rfl⟩
  · refine iff_of_false (fun hkept => ?_) fun hno => hno ⟨hchecks, n, hhead, hn, hnone⟩
    have hstate := (hkept _ _ heq (by decide)).state
    rw [Sched.stranded, setTask_self, hchecks.running] at hstate
    cases hstate
  · refine iff_of_true (fun code' s'' heq' _ => ?_) fun ⟨_, n', hhead', _, hnone⟩ => ?_
    · rw [heq] at heq'
      cases heq'
    · have hsame : n = n' := some.inj (hhead.symm.trans hhead')
      rw [hsame, hnone] at hsome
      exact absurd hsome (by decide)

/-- A task that is made READY and admitted. -/
def demoAdmit (s : Sched) (t : TaskRef) : Sched :=
  (schedulerAdd ((s.transition t .ready).getD s) t).2

/-- Two tasks without a continuation, as a test would build them: the first one runs and the
second one waits for its turn. -/
def demoSched : Sched :=
  (demoAdmit (schedulerStart
    (demoAdmit (waitQueueInit (schedulerInit {}) 0) 1)).2 2).irqRestore true

theorem demoSched_queued : demoSched.Queued [2] := by
  have hempty : TaskQueue.Holds { initialized := true } [] := TaskQueue.holds_empty true
  obtain ⟨queue, hpop, hholds, hinit⟩ := (hempty.push rfl (by decide) List.not_mem_nil).pop
  have hrunqueue : demoSched.runqueue = queue.push 2 := by
    have hqueue : queue = (TaskQueue.push { initialized := true } 1).pop.2 :=
      (congrArg Prod.snd hpop).symm
    rw [hqueue]
    rfl
  rw [← List.nil_append [2]]
  refine ⟨rfl, ?_⟩
  rw [hrunqueue]
  exact hholds.push hinit (by decide) List.not_mem_nil

/-- The second task has no continuation, and the first one is left BLOCKED with the CPU. -/
theorem taskBlock_strands :
    demoSched.Queued [2] ∧ (demoSched.tasks 1).state = .running ∧ demoSched.current = some 1 ∧
      (taskBlock demoSched 1 0 {}).1 = .returns (-13) ∧
      ((taskBlock demoSched 1 0 {}).2.tasks 1).state = .blocked ∧
      ((taskBlock demoSched 1 0 {}).2.tasks 1).waitQueue = some 0 ∧
      (taskBlock demoSched 1 0 {}).2.current = some 1 :=
  ⟨demoSched_queued, by decide, by decide, by decide, by decide, by decide, by decide⟩

/-- With interrupts off the same call fails before it has changed anything. -/
theorem taskBlock_atomic_iff_demo :
    (demoSched.irqSave.Queued [2] ∧ (taskBlock demoSched.irqSave 1 0 {}).1 = .returns (-5)) ∧
      ∀ code s', taskBlock demoSched.irqSave 1 0 {} = (.returns code, s') → code ≠ 0 →
        demoSched.irqSave.KeptBy s' 1 0 := by
  have hqueued : demoSched.irqSave.Queued [2] :=
    ⟨demoSched_queued.initialized, demoSched_queued.runqueue⟩
  refine ⟨⟨hqueued, by decide⟩, (taskBlock_atomic_iff demoSched.irqSave [2] hqueued 1 0 {}).mpr ?_⟩
  intro hno
  exact absurd hno.1.enabled (by decide)

/-- **The other operations are atomic on failure.**  If `scheduler_yield`,
`scheduler_preempt_current` (which also reports that there is nobody to switch to) or
`task_wake` fails, then the state is as it was: all tasks and queues, the current task, the
dispatch count and the interrupt flag. -/
theorem failures_change_nothing (s : Sched) (ready : List TaskRef) (h : s.Queued ready) :
    (∀ registers code s', schedulerYield s registers = (.returns code, s') → code ≠ 0 → s' = s) ∧
      (∀ expected code next s', schedulerPreemptCurrent s expected = (code, next, s') → code ≠ 0 →
        s' = s) ∧
      ∀ t code s', taskWake s t = (code, s') → code ≠ 0 → s' = s := by
  refine ⟨fun registers code s' heq _ => ?_, fun expected code next s' heq hcode => ?_,
    fun t code s' heq hcode => ?_⟩
  · rcases h.yield_cases registers with ⟨code', -, heq', -⟩ | ⟨c, n, target, k, -, -, -, heq'⟩
    · rw [heq'] at heq
      exact (congrArg Prod.snd heq).symm
    · rw [heq'] at heq
      cases heq
  · rcases h.preempt_cases expected with ⟨code', next', -, -, heq', -⟩ | ⟨c, -, heq'⟩
    · rw [heq'] at heq
      exact (congrArg (fun result => result.2.2) heq).symm
    · rw [heq'] at heq
      exact absurd (congrArg Prod.fst heq).symm hcode
  · rcases h.wake_cases t with ⟨code', -, heq'⟩ | ⟨-, -, -, q, queue, -, -, heq'⟩
    · rw [heq'] at heq
      exact (congrArg Prod.snd heq).symm
    · rw [heq'] at heq
      exact absurd (congrArg Prod.fst heq).symm hcode

/-- The second task of the two cannot be resumed, so that the first one cannot yield to it. -/
theorem failures_change_nothing_demo :
    (schedulerYield demoSched {}).1 = .returns (-5) ∧
      (schedulerYield demoSched {}).2 = demoSched := by
  have hcode : (schedulerYield demoSched {}).1 = .returns (-5) := by decide
  exact ⟨hcode, (failures_change_nothing demoSched [2] demoSched_queued).1 {} (-5) _
    (Prod.ext hcode rfl) (by decide)⟩

end Batos
