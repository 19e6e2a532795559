import Batos.Sched.Scheduler

/-!
# Who owns a task

Who owns a task is spread over its `state` and `wait_queue` fields, the variable
`scheduler_current`, the runqueue and the wait queues.  `Sched.Inv` is the joint
invariant that ties them together.  It names the owner of the CPU, the list of the
runqueue and the lists of the wait queues; the owner is not read off
`scheduler_current`, since in the middle of a transfer the old owner has left the CPU
and the new one has not got it yet.

The section on transfers states what each primitive step does to the invariant, in the
order in which the source composes them.
-/

namespace Batos

open Function

variable {s : Sched} {t c n : TaskRef} {target : ResumeTarget} {task : Task}
  {owner' : Option TaskRef}

/-! ## Continuations of a task -/

/-- The continuation a task would be resumed with. -/
def Task.continuation (task : Task) : Option Continuation :=
  match task.resumeAuthority with
  | .none => none
  | .context => some (.context task.context)
  | .interrupt =>
      if preemptStateIsValid task.preemptState then
        some (.interrupt task.preemptState.frameAddress)
      else none

/-- States in which a task has something left to do. -/
def TaskState.live : TaskState → Bool
  | .new => false
  | .terminated => false
  | _ => true

theorem schedulerResolveTarget_isSome (s : Sched) (t : TaskRef) :
    (schedulerResolveTarget s t).isSome = (s.tasks t).continuation.isSome := by
  unfold schedulerResolveTarget Task.continuation
  cases (s.tasks t).resumeAuthority with
  | none => rfl
  | context => rfl
  | interrupt => by_cases h : preemptStateIsValid (s.tasks t).preemptState = true <;> simp [h]

/-- A resolved target is the task's own context or its interrupt frame. -/
theorem schedulerResolveTarget_cases (hresolve : schedulerResolveTarget s t = some target) :
    (target = .context t ∧ (s.tasks t).continuation = some (.context (s.tasks t).context)) ∨
      ∃ frame, frame ≠ 0 ∧ target = .interrupt frame ∧
        (s.tasks t).continuation = some (.interrupt frame) := by
  unfold schedulerResolveTarget at hresolve
  unfold Task.continuation
  cases hauthority : (s.tasks t).resumeAuthority with
  | none =>
      rw [hauthority] at hresolve
      cases hresolve
  | context =>
      rw [hauthority] at hresolve
      cases hresolve
      exact .inl ⟨rfl, rfl⟩
  | interrupt =>
      rw [hauthority, if_neg (by decide)] at hresolve
      by_cases hvalid : preemptStateIsValid (s.tasks t).preemptState = true
      · rw [if_pos ⟨rfl, hvalid⟩] at hresolve
        cases hresolve
        have hframe := hvalid
        rw [preemptStateIsValid, Bool.and_eq_true, decide_eq_true_eq] at hframe
        exact .inr ⟨_, hframe.2, rfl, if_pos hvalid⟩
      · rw [if_neg fun h => hvalid h.2] at hresolve
        cases hresolve

/-- Dispatching the resolved target of another task resumes that task's continuation.
The target may have been resolved in an earlier state, as long as the context of the
task has not been saved anew since. -/
theorem dispatchOrHalt_of_resolve {s₀ : Sched} {current next : TaskRef} {k : Continuation}
    (hne : next ≠ current) (hresolve : schedulerResolveTarget s₀ next = some target)
    (hk : (s₀.tasks next).continuation = some k)
    (hcontext : (s.tasks next).context = (s₀.tasks next).context) (registers : Context) :
    dispatchOrHalt s current target registers =
      (.resumes k, (s.saveContext current registers).irqRestore true) := by
  rcases schedulerResolveTarget_cases hresolve with ⟨rfl, hk'⟩ | ⟨frame, hframe, rfl, hk'⟩
  · rw [hk] at hk'
    cases hk'
    have hloaded : ((s.saveContext current registers).tasks next).context =
        (s₀.tasks next).context := by
      rw [← hcontext]
      exact congrArg Task.context (update_of_ne hne _ _)
    rw [← hloaded]
    rfl
  · rw [hk] at hk'
    cases hk'
    rw [dispatchOrHalt, schedulerDispatch, if_neg hframe]

/-! ## The invariant -/

/-- Every task has the one owner its fields name. -/
structure Sched.Inv (s : Sched) (owner : Option TaskRef) (ready : List TaskRef)
    (waiting : WaitQueueRef → List TaskRef) : Prop where
  initialized : s.runqueue.initialized = true
  runqueue : s.runqueue.Holds ready
  waitQueue : ∀ q, (s.waitQueues q).Holds (waiting q)
  running : ∀ t, owner = some t ↔ (s.tasks t).state = .running
  queued : ∀ t ∈ ready, (s.tasks t).state = .ready
  resumable : ∀ t, (s.tasks t).state.live = true → (s.tasks t).continuation ≠ none
  waiting_iff : ∀ q t, t ∈ waiting q ↔ (s.tasks t).waitQueue = some q
  blocked_iff : ∀ t, (s.tasks t).state = .blocked ↔ (s.tasks t).waitQueue ≠ none

namespace Sched.Inv

variable {s : Sched} {owner : Option TaskRef} {ready : List TaskRef}
  {waiting : WaitQueueRef → List TaskRef}

theorem running_of_owner (h : s.Inv (some c) ready waiting) :
    (s.tasks c).state = .running :=
  (h.running c).mp rfl

theorem waitQueue_eq_none (h : s.Inv owner ready waiting) (ht : (s.tasks t).state ≠ .blocked) :
    (s.tasks t).waitQueue = none :=
  not_not.mp (mt (h.blocked_iff t).mpr ht)

theorem not_mem_ready (h : s.Inv owner ready waiting) (ht : (s.tasks t).state ≠ .ready) :
    t ∉ ready :=
  fun hmem => ht (h.queued t hmem)

theorem peek_eq (h : s.Inv owner ready waiting) : schedulerPeekNext s = ready.head? :=
  h.runqueue.peek_eq

/-- A live task resolves. -/
theorem resolve (h : s.Inv owner ready waiting) (ht : (s.tasks t).state = .ready) :
    ∃ target k, schedulerResolveTarget s t = some target ∧ (s.tasks t).continuation = some k := by
  have hk := h.resumable t (by rw [ht]; rfl)
  obtain ⟨k, hk⟩ := Option.ne_none_iff_exists'.mp hk
  have hsome := schedulerResolveTarget_isSome s t
  rw [hk] at hsome
  obtain ⟨target, htarget⟩ := Option.isSome_iff_exists.mp hsome
  exact ⟨target, k, htarget, hk⟩

/-! ## Transfers -/

/-- The interrupt flag, the switch of preemption and the variables of `scheduler.c` are
not part of the invariant. -/
theorem of_eq (h : s.Inv owner ready waiting) {s' : Sched} (htasks : s'.tasks = s.tasks)
    (hrunqueue : s'.runqueue = s.runqueue) (hqueues : s'.waitQueues = s.waitQueues) :
    s'.Inv owner ready waiting := by
  constructor
  · rw [hrunqueue]
    exact h.initialized
  · rw [hrunqueue]
    exact h.runqueue
  · rw [hqueues]
    exact h.waitQueue
  · rw [htasks]
    exact h.running
  · rw [htasks]
    exact h.queued
  · rw [htasks]
    exact h.resumable
  · rw [htasks]
    exact h.waiting_iff
  · rw [htasks]
    exact h.blocked_iff

/-- Overwriting a task, while one wait queue changes its contents by at most that task. -/
theorem move (h : s.Inv owner ready waiting) {q : WaitQueueRef} {queue : TaskQueue}
    {items : List TaskRef} (hholds : queue.Holds items)
    (hitems : ∀ u, u ≠ t → (u ∈ items ↔ u ∈ waiting q))
    (hself : ∀ q', t ∈ update waiting q items q' ↔ task.waitQueue = some q')
    (hrunning : owner' = some t ↔ task.state = .running)
    (hothers : ∀ u, u ≠ t → (owner' = some u ↔ owner = some u))
    (hqueued : t ∈ ready → task.state = .ready)
    (hresumable : task.state.live = true → task.continuation ≠ none)
    (hblocked : task.state = .blocked ↔ task.waitQueue ≠ none) :
    ((s.setWaitQueue q queue).setTask t task).Inv owner' ready (update waiting q items) where
  initialized := h.initialized
  runqueue := h.runqueue
  waitQueue := by
    intro q'
    by_cases hq : q' = q
    · subst hq
      simp only [Sched.setWaitQueue, Sched.setTask, update_self]
      exact hholds
    · simp only [Sched.setWaitQueue, Sched.setTask, update_of_ne hq]
      exact h.waitQueue q'
  running := by
    refine (forall_update_iff s.tasks fun u x => owner' = some u ↔ x.state = .running).mpr
      ⟨hrunning, fun u hu => ?_⟩
    rw [hothers u hu]
    exact h.running u
  queued := by
    exact (forall_update_iff s.tasks fun u x => u ∈ ready → x.state = .ready).mpr
      ⟨hqueued, fun u _ => h.queued u⟩
  resumable := by
    exact (forall_update_iff s.tasks fun _ x => x.state.live = true →
      x.continuation ≠ none).mpr ⟨hresumable, fun u _ => h.resumable u⟩
  waiting_iff := by
    intro q'
    refine (forall_update_iff s.tasks fun u x =>
      u ∈ update waiting q items q' ↔ x.waitQueue = some q').mpr ⟨hself q', fun u hu => ?_⟩
    by_cases hq : q' = q
    · subst hq
      rw [update_self, hitems u hu]
      exact h.waiting_iff q' u
    · rw [update_of_ne hq]
      exact h.waiting_iff q' u
  blocked_iff := by
    exact (forall_update_iff s.tasks fun _ x => x.state = .blocked ↔
      x.waitQueue ≠ none).mpr ⟨hblocked, fun u _ => h.blocked_iff u⟩

/-- Overwriting a task while the wait queues stay as they are. -/
theorem setTask (h : s.Inv owner ready waiting) (hrunning : owner' = some t ↔ task.state = .running)
    (hothers : ∀ u, u ≠ t → (owner' = some u ↔ owner = some u))
    (hqueued : t ∈ ready → task.state = .ready)
    (hresumable : task.state.live = true → task.continuation ≠ none)
    (hqueue : task.waitQueue = (s.tasks t).waitQueue)
    (hblocked : task.state = .blocked ↔ task.waitQueue ≠ none) :
    (s.setTask t task).Inv owner' ready waiting := by
  have hmove := h.move (q := 0) (h.waitQueue 0) (fun _ _ => Iff.rfl) (fun q' => ?_) hrunning hothers
    hqueued hresumable hblocked
  · rw [update_eq_self, Sched.setWaitQueue, update_eq_self] at hmove
    exact hmove
  · rw [update_eq_self, hqueue]
    exact h.waiting_iff q' t

/-- A task keeps its place when only its continuation changes. -/
theorem amend (h : s.Inv owner ready waiting) (t : TaskRef) (task : Task)
    (hstate : task.state = (s.tasks t).state) (hqueue : task.waitQueue = (s.tasks t).waitQueue)
    (hresumable : task.state.live = true → task.continuation ≠ none) :
    (s.setTask t task).Inv owner ready waiting := by
  refine h.setTask ?_ (fun _ _ => Iff.rfl) (fun ht => hstate.trans (h.queued t ht))
    hresumable hqueue ?_
  · rw [hstate]
    exact h.running t
  · rw [hstate, hqueue]
    exact h.blocked_iff t

/-- The owner of the CPU gives it up, to be READY or TERMINATED. -/
theorem release (h : s.Inv (some c) ready waiting) (task : Task)
    (hstate : task.state = .ready ∨ task.state = .terminated)
    (hqueue : task.waitQueue = (s.tasks c).waitQueue)
    (hresumable : task.state.live = true → task.continuation ≠ none) :
    (s.setTask c task).Inv none ready waiting := by
  have hrunning := h.running_of_owner
  have hnone : task.waitQueue = none :=
    hqueue.trans (h.waitQueue_eq_none (by rw [hrunning]; decide))
  refine h.setTask ?_ (fun u hu => ?_) (fun hc => ?_) hresumable hqueue ?_
  · refine ⟨nofun, fun hrun => ?_⟩
    rw [hrun] at hstate
    rcases hstate with hstate | hstate <;> cases hstate
  · refine ⟨nofun, fun heq => ?_⟩
    exact absurd (Option.some.inj heq).symm hu
  · exact absurd hc (h.not_mem_ready (by rw [hrunning]; decide))
  · rw [hnone]
    refine ⟨fun hblocked => ?_, fun hne => absurd rfl hne⟩
    rw [hblocked] at hstate
    rcases hstate with hstate | hstate <;> cases hstate

/-- A READY task that is in no queue gets the free CPU. -/
theorem claim (h : s.Inv none ready waiting) (hn : (s.tasks n).state = .ready) (hmem : n ∉ ready) :
    s.transition n .running = some (s.setTask n { s.tasks n with state := .running }) ∧
      (s.setTask n { s.tasks n with state := .running }).Inv (some n) ready waiting := by
  constructor
  · rw [Sched.transition, taskTransition_of_allows (by rw [hn]; rfl)]
    rfl
  · refine h.setTask ⟨fun _ => rfl, fun _ => rfl⟩ (fun u hu => ?_) (fun hn' => absurd hn' hmem)
      (fun _ => h.resumable n (by rw [hn]; rfl)) rfl ?_
    · refine ⟨fun heq => absurd (Option.some.inj heq).symm hu, nofun⟩
    · rw [h.waitQueue_eq_none (by rw [hn]; decide)]
      exact ⟨nofun, fun hne => absurd rfl hne⟩

/-- A READY task joins the runqueue, unless it is full. -/
theorem enqueue (h : s.Inv owner ready waiting) (ht : (s.tasks t).state = .ready) (hmem : t ∉ ready)
    (hroom : ready.length < taskMaxTasks) :
    runqueueEnqueue s t = (0, { s with runqueue := s.runqueue.push t }) ∧
      Sched.Inv { s with runqueue := s.runqueue.push t } owner (ready ++ [t]) waiting := by
  constructor
  · rw [runqueueEnqueue, if_pos ((h.runqueue.accepts_iff h.initialized).mpr ⟨ht, hroom, hmem⟩)]
  · refine { h with
      runqueue := h.runqueue.push h.initialized hroom hmem
      queued := fun u hu => ?_ }
    rcases List.mem_append.mp hu with hu | hu
    · exact h.queued u hu
    · rw [List.mem_singleton] at hu
      rw [hu]
      exact ht

theorem enqueue_refused (h : s.Inv owner ready waiting)
    (hno : ¬ ((s.tasks t).state = .ready ∧ ready.length < taskMaxTasks ∧ t ∉ ready)) :
    runqueueEnqueue s t = (-1, s) := by
  rw [runqueueEnqueue, if_neg]
  rw [h.runqueue.accepts_iff h.initialized]
  exact hno

/-- The first task leaves the runqueue and is in no queue for the moment. -/
theorem dequeue (h : s.Inv owner (n :: ready) waiting) :
    ∃ queue, schedulerTakeNext s = (some n, { s with runqueue := queue }) ∧
      Sched.Inv { s with runqueue := queue } owner ready waiting ∧
      (s.tasks n).state = .ready ∧ n ∉ ready := by
  obtain ⟨queue, hpop, hholds, hinit⟩ := h.runqueue.pop
  refine ⟨queue, ?_, { h with
    initialized := hinit
    runqueue := hholds
    queued := fun u hu => h.queued u (List.mem_cons_of_mem n hu) },
    h.queued n List.mem_cons_self, (List.nodup_cons.mp h.runqueue.nodup).1⟩
  rw [schedulerTakeNext, runqueueDequeue, hpop]

/-- A task leaves the runqueue out of turn. -/
theorem remove (h : s.Inv owner ready waiting) (ht : t ∈ ready) :
    ∃ queue, runqueueRemove s t = (0, { s with runqueue := queue }) ∧
      Sched.Inv { s with runqueue := queue } owner (ready.erase t) waiting := by
  obtain ⟨queue, hremove, hholds, hinit⟩ := h.runqueue.remove ht
  refine ⟨queue, ?_, { h with
    initialized := hinit
    runqueue := hholds
    queued := fun u hu => h.queued u (List.mem_of_mem_erase hu) }⟩
  rw [runqueueRemove, hremove]

end Sched.Inv

end Batos
